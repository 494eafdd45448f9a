import Itofin.Optimize.LineSearch
import Itofin.Optimize.Slsqp.Hessian
import Mathlib.Analysis.Real.Sqrt
/-!
# Bfgs — the quasi-Newton method

`bfgs.rs`, in exact arithmetic.  A run remembers its searches, each with the inverse Hessian that gave its direction, and its
updates.

The curvature condition of the line search makes the product of a step with the change of the gradient over it positive
(`Accepted.curvature`), so every update is made and keeps the matrix positive definite, and every direction descends
(`Kept`).
-/
namespace Itofin
namespace Optimize
namespace Bfgs

open Effect Matrix LineSearch

inductive Norm where
  | inf
  | two
deriving DecidableEq

section

variable (K : Type) (n : ℕ)

structure BfgsOptions where
  gtol             : Option K
  eps              : Option K
  norm             : Norm
  finiteDifference : FiniteDifference

/-- The inverse Hessian approximation. -/
abbrev InverseHessian : Type := Matrix (Fin n) (Fin n) K

/-- The current iterate. -/
structure Iterate where
  x       : Fin n → K
  f       : Option K
  skipped : ℕ
  failure : Option LineSearchFailure

/-- A search of a run. -/
structure Searching where
  inverse : InverseHessian K n
  line    : Line K n

/-- An accepted step and what it made of the inverse Hessian. -/
structure Updated extends Searching K n where
  step : Step K n
  next : InverseHessian K n

end

/-- A run: the counters, the iterate, the searches so far and the updates. -/
structure Run (S E K : Type) (n : ℕ) where
  counters : Counters S E K (Option K) n
  iterate  : Iterate K n
  searches : List (Searching K n)
  updates  : List (Updated K n)

variable {S E K : Type} [Field K] [LinearOrder K] {n : ℕ}

def defaultGtol : K := 1 / (10 ^ 5 : ℕ)

def budgetPerCoordinate : ℕ := 200

def lineSearchAmax : K := (10 ^ 10 : ℕ)

def lineSearchMaxiter : ℕ := 60

/-- Fills in the default budgets. -/
def budgets {V : Type} (common : Common V) (n : ℕ) : Common V :=
  if common.maxiter.isSome ∨ common.maxfev.isSome then common
  else
    let budget := some (n * budgetPerCoordinate)
    ⟨budget, budget, common.tol⟩

def norm (sqrt : K → K) (kind : Norm) (g : Fin n → K) : K :=
  match kind with
  | .inf => (List.finRange n).foldl (fun largest i => max |g i| largest) 0
  | .two => sqrt (g ⬝ᵥ g)

/-- `InverseHessian::update`: whether the update was made, and the matrix after it. -/
def update (inverse : InverseHessian K n) (s y : Fin n → K) : Bool × InverseHessian K n :=
  let sy := s ⬝ᵥ y
  if ¬ 0 < sy then (false, inverse)
  else
    let rho := 1 / sy
    let hy := inverse *ᵥ y
    let shift := rho * rho * (y ⬝ᵥ hy) + rho
    (true, fun i j => inverse i j + (shift * s i * s j - rho * (s i * hy j + hy i * s j)))

/-- `Wolfe::new` with the constants of the method. -/
def wolfe (eps : Option K) : Wolfe K where
  c1      := 1 / (10 ^ 4 : ℕ)
  c2      := (9 : ℕ) / (10 : ℕ)
  alpha0  := 1
  amax    := lineSearchAmax
  maxiter := lineSearchMaxiter
  eps     := eps

section

variable (sqrt : K → K) (relativeStep : FiniteDifference → K) (objective : Objective S E K (Option K) n)
  (budget : Common (Option K)) (options : BfgsOptions K) (gtol : K)

/-- A program on the counters. -/
def counting {α : Type} (x : Prog (Counters S E K (Option K) n) (Halt E) α) : Prog (Run S E K n) (Halt E) α :=
  x.zoom Run.counters (fun counters r => { r with counters })

/-- A line search: its step, or that it failed. -/
def search (line : Line K n) : Prog (Run S E K n) (Halt E) (Except LineSearchFailure (Option (Step K n))) := fun r =>
  match strongWolfe sqrt relativeStep objective budget options.finiteDifference line ⟨r.counters, [], []⟩ with
  | (.ok step, s)                => (.ok (.ok step), { r with counters := s.counters })
  | (.error (.failure failure), s) => (.ok (.error failure), { r with counters := s.counters })
  | (.error (.halt halt), s)       => (.error halt, { r with counters := s.counters })

/-- A turn of the run, from a point with its value and gradient: the status that ends the run, or what the next turn starts
from. -/
def turn (a : Start K n × InverseHessian K n) :
    Prog (Run S E K n) (Halt E) (Option Termination ⊕ Start K n × InverseHessian K n) := do
  let (start, inverse) := a
  if norm sqrt options.norm start.g ≤ gtol then return .inl (some (.converged .gTol))
  else
    let p := -(inverse *ᵥ start.g)
    let line : Line K n := ⟨start, p, wolfe options.eps⟩
    Prog.modify (fun r => { r with searches := r.searches ++ [⟨inverse, line⟩] })
    match ← search sqrt relativeStep objective budget options line with
    | .error failure => do
      Prog.modify (fun r => { r with iterate := { r.iterate with failure := some failure } })
      return .inl (some .lineSearchFailed)
    | .ok none => return .inl none
    | .ok (some step) => do
      let s := step.alpha • p
      let y := step.g - start.g
      let (updated, next) := update inverse s y
      Prog.modify (fun r => { r with
        iterate := ⟨step.x, some step.f, r.iterate.skipped + if updated then 0 else 1, r.iterate.failure⟩
        updates := r.updates ++ [⟨⟨inverse, line⟩, step, next⟩] })
      counting (Counters.endIteration objective budget step.x (some step.f))
      return .inr (⟨step.x, step.f, step.g⟩, next)

/-- `run`, with a bound on its turns; `none` is that they did not do. -/
def run (turns : ℕ) (x0 : Fin n → K) : Prog (Run S E K n) (Halt E) (Option Termination) := do
  let f ← counting (Counters.value objective budget x0)
  Prog.modify (fun r => { r with iterate := { r.iterate with f } })
  match f with
  | none   => return some .nonfinite
  | some f => do
    let g ← counting (gradientWithStep relativeStep objective budget options.finiteDifference options.eps x0 f)
    let status ← Prog.loop (turn sqrt relativeStep objective budget options gtol) turns (⟨x0, f, g⟩, (1 : InverseHessian K n))
    return status.join

/-- `minimize` up to its result: how the run ends, and what it leaves.  A tolerance that is not finite is refused before. -/
def minimize (turns : ℕ) (x0 : Fin n → K) (common : Common (Option K)) (objective₀ : S) :
    Except (Halt E) (Option Termination) × Run S E K n :=
  let gtol := (options.gtol.or common.tol.join).getD defaultGtol
  run sqrt relativeStep objective (budgets common n) options gtol turns x0 ⟨.new objective₀, ⟨x0, none, 0, none⟩, [], []⟩

end

/-! ## One step -/

/-- `s` -/
def Updated.s (u : Updated K n) : Fin n → K := u.step.alpha • u.line.p

/-- `y` -/
def Updated.y (u : Updated K n) : Fin n → K := u.step.g - u.line.start.g

/-- **What holds of a search**: its direction comes from a positive definite matrix, and descends. -/
structure Descending (s : Searching K n) : Prop where
  positive  : Bfgs.PositiveDefinite s.inverse
  direction : s.line.p = -(s.inverse *ᵥ s.line.start.g)
  descent   : s.line.dphi0 < 0

/-- **What holds of an update**: the step is accepted and lowers the objective, the update is made, and the matrix that it
leaves is positive definite and satisfies the secant equation. -/
structure Made (u : Updated K n) : Prop where
  descending : Descending u.toSearching
  accepted   : Accepted u.line u.step
  lower      : u.step.f < u.line.start.f
  made       : update u.inverse u.s u.y = (true, u.next)
  positive   : Bfgs.PositiveDefinite u.next
  secant     : u.next *ᵥ u.y = u.s

theorem update_of_pos {inverse : InverseHessian K n} {s y : Fin n → K} (h : 0 < s ⬝ᵥ y) :
    update inverse s y = (true, Bfgs.inverseUpdate inverse s y) := by
  rw [update, if_neg (not_not.2 h)]
  rfl

section

variable [IsStrictOrderedRing K] {l : Line K n} {step : Step K n} {inverse : InverseHessian K n} {eps : Option K}

theorem norm_zero {sqrt : K → K} (hsqrt : ∀ x, 0 ≤ x → sqrt x * sqrt x = x) (kind : Norm) :
    norm sqrt kind (0 : Fin n → K) = 0 := by
  cases kind with
  | inf => exact List.foldl_fixed' (fun i => by rw [Pi.zero_apply, abs_zero, max_self]) _
  | two =>
    rw [norm, zero_dotProduct]
    exact mul_self_eq_zero.1 (hsqrt 0 le_rfl)

/-- **The direction of a positive definite matrix descends**, unless the gradient is zero. -/
theorem descending (h : Bfgs.PositiveDefinite inverse) {start : Start K n} (hg : start.g ≠ 0) :
    Descending ⟨inverse, ⟨start, -(inverse *ᵥ start.g), wolfe eps⟩⟩ where
  positive  := h
  direction := rfl
  descent   := by
    rw [Line.dphi0, dotProduct_neg]
    exact neg_neg_of_pos (h.positive _ hg)

theorem searched (hparams : l.params = wolfe eps) (h : l.dphi0 < 0) : Searched l where
  descent := h
  c1      := by
    rw [hparams, wolfe]
    norm_num
  c2      := by
    rw [hparams, wolfe]
    norm_num
  alpha0  := by
    rw [hparams]
    exact zero_lt_one
  amax    := by
    rw [hparams, wolfe, lineSearchAmax]
    norm_num

/-- **The curvature condition** makes the product of the step with the change of the gradient positive. -/
theorem curvature (hparams : l.params = wolfe eps) (h : l.dphi0 < 0) (hstep : Accepted l step) :
    0 < (step.alpha • l.p) ⬝ᵥ (step.g - l.start.g) := by
  have hflat : |step.g ⬝ᵥ l.p| ≤ -(((9 : ℕ) : K) / (10 : ℕ)) * l.dphi0 := by
    have := hstep.flat
    rwa [Line.Flat, hparams] at this
  have hlow := neg_abs_le (step.g ⬝ᵥ l.p)
  have hproduct : (step.alpha • l.p) ⬝ᵥ (step.g - l.start.g) = step.alpha * (step.g ⬝ᵥ l.p - l.dphi0) := by
    rw [smul_dotProduct, dotProduct_sub, smul_eq_mul, dotProduct_comm l.p, dotProduct_comm l.p, Line.dphi0]
  rw [hproduct]
  refine mul_pos hstep.range.1 ?_
  push_cast at hflat
  linarith

/-- **An accepted step lowers the objective.** -/
theorem lower (hparams : l.params = wolfe eps) (h : l.dphi0 < 0) (hstep : Accepted l step) : step.f < l.start.f := by
  have hdecreases : step.f ≤ l.start.f + l.params.c1 * step.alpha * l.dphi0 := hstep.decreases
  have hneg : l.params.c1 * step.alpha * l.dphi0 < 0 :=
    mul_neg_of_pos_of_neg (mul_pos (searched hparams h).c1 hstep.range.1) h
  linarith

/-- **An update is made.** -/
theorem made (hs : Descending ⟨inverse, l⟩) (hparams : l.params = wolfe eps) (hstep : Accepted l step) :
    Made ⟨⟨inverse, l⟩, step, Bfgs.inverseUpdate inverse (step.alpha • l.p) (step.g - l.start.g)⟩ where
  descending := hs
  accepted   := hstep
  lower      := lower hparams hs.descent hstep
  made       := update_of_pos (curvature hparams hs.descent hstep)
  positive   := hs.positive.inverseUpdate (curvature hparams hs.descent hstep)
  secant     := Bfgs.inverseUpdate_secant hs.positive.symm (curvature hparams hs.descent hstep).ne'

end

/-! ## The run -/

/-- An update starts where the one before it ended. -/
def Follows (u : Updated K n) (start : Start K n) (inverse : InverseHessian K n) : Prop :=
  start = ⟨u.step.x, u.step.f, u.step.g⟩ ∧ inverse = u.next

/-- **What a run keeps.** -/
structure Kept (r : Run S E K n) : Prop where
  searches  : ∀ s ∈ r.searches, Descending s
  updates   : ∀ u ∈ r.updates, Made u
  evaluated : ∀ u ∈ r.updates, (u.step.x, .ok (some u.step.f)) ∈ r.counters.evaluations
  chain     : r.updates.IsChain fun u v => Follows u v.line.start v.inverse
  skipped   : r.iterate.skipped = 0
  failure   : r.iterate.failure ≠ some .notDescent

/-- What holds between turns. -/
structure Between (a : Start K n × InverseHessian K n) (r : Run S E K n) : Prop where
  kept     : Kept r
  positive : Bfgs.PositiveDefinite a.2
  last     : ∀ u ∈ r.updates.getLast?, Follows u a.1 a.2

section

variable {sqrt : K → K} {relativeStep : FiniteDifference → K} {objective : Objective S E K (Option K) n}
  {budget : Common (Option K)} {options : BfgsOptions K} {gtol : K} {r : Run S E K n}

/-- What the counters take nothing away from, as long as no evaluation is forgotten. -/
def Lasting (P : Run S E K n → Prop) : Prop :=
  ∀ (r : Run S E K n) (counters : Counters S E K (Option K) n), P r →
    (∀ e ∈ r.counters.evaluations, e ∈ counters.evaluations) → P { r with counters }

theorem lasting_kept : Lasting (Kept : Run S E K n → Prop) := fun _ _ h hgrow =>
  ⟨h.searches, h.updates, fun u hu => hgrow _ (h.evaluated u hu), h.chain, h.skipped, h.failure⟩

theorem lasting_between (a : Start K n × InverseHessian K n) : Lasting (Between a : Run S E K n → Prop) :=
  fun r counters h hgrow => ⟨lasting_kept r counters h.kept hgrow, h.positive, h.last⟩

omit [Field K] [LinearOrder K] in
theorem stable_evaluated (es : List (Evaluation E K (Option K) n)) :
    Stable (fun c : Counters S E K (Option K) n => ∀ e ∈ es, e ∈ c.evaluations) fun _ => True :=
  ⟨fun _ _ _ h => h, fun _ _ _ _ _ h e he => List.mem_append_left _ (h e he)⟩

omit [Field K] [LinearOrder K] in
theorem counting_triple {α : Type} {P : Run S E K n → Prop} (hP : Lasting P)
    {x : Prog (Counters S E K (Option K) n) (Halt E) α} 
    (hx : ∀ es : List (Evaluation E K (Option K) n), Keeps (fun c => ∀ e ∈ es, e ∈ c.evaluations) x) :
    Triple P (counting x) (fun _ => P) (fun _ => P) := by
  refine Triple.of_keeps (fun r hr => ?_)
  exact hP r _ hr (hx r.counters.evaluations r.counters fun _ he => he)

omit [Field K] [LinearOrder K] in
theorem endIteration_keeps (x : Fin n → K) (f : Option K) (es : List (Evaluation E K (Option K) n)) :
    Keeps (fun c => ∀ e ∈ es, e ∈ c.evaluations) (Counters.endIteration objective budget x f) := by
  intro c hc
  have hrun : ∃ r s, Counters.endIteration objective budget x f c = (r, { c with nit := c.nit + 1, objective := s }) ∧
      (r = .ok () → ∀ m ∈ budget.maxiter, c.nit + 1 < m) := Counters.endIteration_run x f c
  obtain ⟨r, s, hrun, -⟩ := hrun
  rw [hrun]
  exact hc

variable [IsStrictOrderedRing K]

/-- A search ends with an accepted step, if it does not fail, and it does not fail for its direction. -/
theorem search_triple {line : Line K n} (hparams : line.params = wolfe options.eps) (h : line.dphi0 < 0)
    {P : Run S E K n → Prop} (hP : Lasting P) :
    Triple P (search sqrt relativeStep objective budget options line) (fun t r => P r ∧ match t with
      | .error failure  => failure ≠ .notDescent
      | .ok none        => False
      | .ok (some step) => Accepted line step ∧ (step.x, .ok (some step.f)) ∈ r.counters.evaluations) (fun _ => P) := by
  intro r hr
  have hkeeps : Keeps (fun s => ∀ e ∈ r.counters.evaluations, e ∈ s.counters.evaluations)
      (strongWolfe sqrt relativeStep objective budget options.finiteDifference line) :=
    strongWolfe_keeps (stable_evaluated r.counters.evaluations)
  have hraises : Raises (· ≠ .failure .notDescent)
      (strongWolfe sqrt relativeStep objective budget options.finiteDifference line) := strongWolfe_raises h
  have hfound : Triple (fun s => s.trials = [] ∧ s.brackets = [])
      (strongWolfe sqrt relativeStep objective budget options.finiteDifference line)
      (fun r s => ∃ step, r = some step ∧ Found line step s) (fun _ s => Sound line s.trials s.brackets) :=
    strongWolfe_triple (searched hparams h)
  have hgrow := hkeeps ⟨r.counters, [], []⟩ fun _ he => he
  have herror := hraises ⟨r.counters, [], []⟩
  have hstep := hfound ⟨r.counters, [], []⟩ ⟨rfl, rfl⟩
  rw [search]
  rcases hrun : strongWolfe sqrt relativeStep objective budget options.finiteDifference line ⟨r.counters, [], []⟩ with
    ⟨(halt | failure) | step, s⟩ <;> rw [hrun] at hgrow herror hstep
  · exact hP r s.counters hr hgrow
  · refine ⟨hP r s.counters hr hgrow, fun heq => ?_⟩
    exact herror _ rfl (congrArg _ heq)
  · obtain ⟨step, rfl, -, haccepted, hevaluated⟩ := hstep
    exact ⟨hP r s.counters hr hgrow, haccepted, hevaluated⟩

omit [IsStrictOrderedRing K] in
theorem Between.accept {start : Start K n} {inverse : InverseHessian K n} (hr : Between (start, inverse) r) {u : Updated K n}
    (hmade : Made u) (hstart : u.line.start = start) (hinverse : u.inverse = inverse)
    (hevaluated : (u.step.x, .ok (some u.step.f)) ∈ r.counters.evaluations) :
    Between (⟨u.step.x, u.step.f, u.step.g⟩, u.next) { r with
      iterate := ⟨u.step.x, some u.step.f, r.iterate.skipped + 0, r.iterate.failure⟩
      updates := r.updates ++ [u] } := by
  have hlast : ∀ v ∈ (r.updates ++ [u]).getLast?, u = v := by
    intro v hv
    rwa [List.getLast?_append, List.getLast?_singleton, Option.some_or, Option.mem_some_iff] at hv
  refine ⟨⟨hr.kept.searches, fun v hv => ?_, fun v hv => ?_, ?_, hr.kept.skipped, hr.kept.failure⟩, hmade.positive,
    fun v hv => ?_⟩
  · rcases List.mem_append.1 hv with hv | hv
    · exact hr.kept.updates v hv
    · rw [List.mem_singleton.1 hv]
      exact hmade
  · rcases List.mem_append.1 hv with hv | hv
    · exact hr.kept.evaluated v hv
    · rw [List.mem_singleton.1 hv]
      exact hevaluated
  · refine List.isChain_append.2 ⟨hr.kept.chain, List.isChain_singleton u, fun last hlast next hnext => ?_⟩
    obtain rfl : u = next := by simpa using hnext
    rw [hstart, hinverse]
    exact hr.last last hlast
  · rw [← hlast v hv]
    exact ⟨rfl, rfl⟩

/-- **A turn keeps what a run keeps.** -/
theorem turn_triple (hsqrt : ∀ x, 0 ≤ x → sqrt x * sqrt x = x) (hgtol : 0 < gtol) (a : Start K n × InverseHessian K n) :
    Triple (Between a) (turn sqrt relativeStep objective budget options gtol a) (fun t (r : Run S E K n) => match t with
      | .inl _ => Kept r
      | .inr a => Between a r) (fun _ => Kept) := by
  obtain ⟨start, inverse⟩ := a
  refine (Triple.of_fact (fun hpositive => ?_)).weaken (fun r hr => ⟨hr, hr.positive⟩) (fun _ _ hr => hr)
  refine Triple.ite (fun _ => Triple.pure _ (fun _ hr => hr.kept)) (fun hnorm => ?_)
  have hg : start.g ≠ 0 := by
    intro hzero
    rw [hzero, norm_zero hsqrt] at hnorm
    exact hnorm hgtol.le
  have hdescending : Descending ⟨inverse, ⟨start, -(inverse *ᵥ start.g), wolfe options.eps⟩⟩ := descending hpositive hg
  refine Triple.bind (Q := fun _ => Between (start, inverse)) (Triple.modify (fun r hr => ?_)) (fun _ => ?_)
  · refine ⟨⟨fun s hs => ?_, hr.kept.updates, hr.kept.evaluated, hr.kept.chain, hr.kept.skipped, hr.kept.failure⟩,
      hr.positive, hr.last⟩
    rcases List.mem_append.1 hs with hs | hs
    · exact hr.kept.searches s hs
    · rw [List.mem_singleton.1 hs]
      exact hdescending
  refine Triple.bind ((search_triple rfl hdescending.descent (lasting_between (start, inverse))).onError
    (fun _ _ hr => hr.kept)) (fun t => ?_)
  rcases t with failure | _ | step
  · refine Triple.bind (Q := fun _ => Kept) (Triple.modify (fun r hr => ?_)) (fun _ => Triple.pure _ (fun _ hr => hr))
    obtain ⟨hr, hfailure⟩ := hr
    exact ⟨hr.kept.searches, hr.kept.updates, hr.kept.evaluated, hr.kept.chain, hr.kept.skipped, fun heq =>
      hfailure (Option.some.inj heq)⟩
  · exact fun _ hr => hr.2.elim
  · refine (Triple.of_fact (P := fun r => Between (start, inverse) r ∧ (step.x, .ok (some step.f)) ∈ r.counters.evaluations)
      (fun haccepted => ?_)).weaken (fun r hr => ⟨⟨hr.1, hr.2.2⟩, hr.2.1⟩) (fun _ _ hr => hr)
    have hmade := made hdescending rfl haccepted
    have hupdate : update inverse (step.alpha • -(inverse *ᵥ start.g)) (step.g - start.g) =
        (true, Bfgs.inverseUpdate inverse (step.alpha • -(inverse *ᵥ start.g)) (step.g - start.g)) :=
      update_of_pos (curvature rfl hdescending.descent haccepted)
    dsimp only
    rw [hupdate]
    refine Triple.bind (Q := fun _ => Between (⟨step.x, step.f, step.g⟩, Bfgs.inverseUpdate inverse
      (step.alpha • -(inverse *ᵥ start.g)) (step.g - start.g))) (Triple.modify (fun r hr => ?_)) (fun _ => ?_)
    · exact hr.1.accept hmade rfl rfl hr.2
    · exact Triple.bind ((counting_triple (lasting_between _) (endIteration_keeps _ _)).onError (fun _ _ hr => hr.kept))
        (fun _ => Triple.pure _ (fun _ hr => hr))

/-- **A run keeps what it keeps**, however many its turns. -/
theorem run_triple (hsqrt : ∀ x, 0 ≤ x → sqrt x * sqrt x = x) (hgtol : 0 < gtol) (turns : ℕ) (x0 : Fin n → K) :
    Triple (fun r => Kept r ∧ r.updates = []) (run sqrt relativeStep objective budget options gtol turns x0)
      (fun _ (r : Run S E K n) => Kept r) (fun _ => Kept) := by
  have hlasting : Lasting (fun r : Run S E K n => Kept r ∧ r.updates = []) := fun r counters hr hgrow =>
    ⟨lasting_kept r counters hr.1 hgrow, hr.2⟩
  have hvalue : ∀ es : List (Evaluation E K (Option K) n),
      Keeps (fun c => ∀ e ∈ es, e ∈ c.evaluations) (Counters.value objective budget x0) := fun es =>
    Keeps.of_triple ((stable_evaluated es).value_triple trivial)
  refine Triple.bind ((counting_triple hlasting hvalue).onError (fun _ _ hr => hr.1)) (fun f => ?_)
  refine Triple.bind (Q := fun _ r => Kept r ∧ r.updates = []) (Triple.modify (fun r hr => ?_)) (fun _ => ?_)
  · exact ⟨⟨hr.1.searches, hr.1.updates, hr.1.evaluated, hr.1.chain, hr.1.skipped, hr.1.failure⟩, hr.2⟩
  cases f with
  | none   => exact Triple.pure _ (fun _ hr => hr.1)
  | some f =>
    have hgradient : ∀ es : List (Evaluation E K (Option K) n), Keeps (fun c => ∀ e ∈ es, e ∈ c.evaluations)
        (gradientWithStep relativeStep objective budget options.finiteDifference options.eps x0 f) := fun es =>
      Keeps.of_triple ((stable_evaluated es).gradient_triple (fun _ _ => trivial) f)
    refine Triple.bind ((counting_triple hlasting hgradient).onError (fun _ _ hr => hr.1)) (fun g => ?_)
    refine Triple.bind (Q := fun _ => Kept) ?_ (fun status => Triple.pure _ (fun _ hr => hr))
    refine (Triple.loop_always (Q := fun _ => Kept) Between (fun a => (turn_triple hsqrt hgtol a).weaken (fun _ hr => hr)
      (fun t r hr => ?_)) turns _).weaken (fun r hr => ?_) (fun status r hr => ?_)
    · cases t <;> exact hr
    · exact ⟨hr.1, Slsqp.Hessian.identity_positiveDefinite, by rw [hr.2]; exact nofun⟩
    · cases status with
      | none        => exact hr.choose_spec.kept
      | some status => exact hr

/-- **Curvature of the quasi-Newton methods.**  In every run of BFGS, with tolerances that are positive, each search goes along
a descending direction from a symmetric positive definite inverse Hessian; each accepted step lowers the objective, its update is
made, and the matrix that it leaves is symmetric positive definite and satisfies the secant equation; none is skipped, and no
search fails for its direction.  The damped updates of SLSQP, along any steps and for any changes of the gradient, leave a
symmetric positive definite matrix that has a Cholesky factor. -/
theorem quasiNewton_spec (sqrt : K → K) (hsqrt : ∀ x, 0 ≤ x → sqrt x * sqrt x = x) :
    (∀ (relativeStep : FiniteDifference → K) (objective : Objective S E K (Option K) n) (options : BfgsOptions K)
      (common : Common (Option K)) (turns : ℕ) (x0 : Fin n → K) (objective₀ : S),
      (∀ t ∈ options.gtol, 0 < t) → (∀ t ∈ common.tol.join, 0 < t) →
      Kept (minimize sqrt relativeStep objective options turns x0 common objective₀).2) ∧
    ∀ (b : Slsqp.Hessian K n) (pairs : List ((Fin n → K) × (Fin n → K))), Bfgs.PositiveDefinite b →
      Bfgs.PositiveDefinite (Slsqp.Hessian.updates b pairs) ∧
        ∃ l, Slsqp.Hessian.cholesky sqrt (Slsqp.Hessian.updates b pairs) = some l ∧ (∀ i j, i < j → l i j = 0) ∧
          l * lᵀ = Slsqp.Hessian.updates b pairs := by
  refine ⟨fun relativeStep objective options common turns x0 objective₀ hgtol htol => ?_, fun b pairs hb => ?_⟩
  · have hpos : 0 < (options.gtol.or common.tol.join).getD defaultGtol := by
      cases hg : options.gtol with
      | some t => exact hgtol t hg
      | none   =>
        cases ht : common.tol.join with
        | some t => exact htol t ht
        | none   =>
          change (0 : K) < defaultGtol
          rw [defaultGtol]
          positivity
    have htriple : Triple (fun r : Run S E K n => Kept r ∧ r.updates = [])
        (run sqrt relativeStep objective (budgets common n) options ((options.gtol.or common.tol.join).getD defaultGtol) turns x0)
        (fun _ => Kept) (fun _ => Kept) := run_triple hsqrt hpos turns x0
    have hstart : Kept (⟨.new objective₀, ⟨x0, none, 0, none⟩, [], []⟩ : Run S E K n) :=
      ⟨nofun, nofun, nofun, List.isChain_nil, rfl, nofun⟩
    exact htriple.after ⟨hstart, rfl⟩
  · have hpositive := Slsqp.Hessian.updates_positiveDefinite hb pairs
    exact ⟨hpositive, Slsqp.Hessian.cholesky_spec hsqrt hpositive⟩

/-- One update of the identity against the curvature has a factor; and one run keeps what it keeps. -/
theorem quasiNewton_spec_real :
    Kept (minimize Real.sqrt (fun _ => 1) (plain fun x : ℝ => x * x) ⟨some 1, none, .two, .forward⟩ 3 (fun _ => 1)
      ⟨none, none, none⟩ ()).2 ∧
    ∃ l, Slsqp.Hessian.cholesky Real.sqrt (Slsqp.Hessian.updates (Slsqp.Hessian.identity ℝ 1) [(fun _ => 1, fun _ => -1)]) =
      some l := by
  have hsqrt : ∀ x : ℝ, 0 ≤ x → √x * √x = x := fun _ => Real.mul_self_sqrt
  refine ⟨(quasiNewton_spec (n := 1) Real.sqrt hsqrt).1 (fun _ => 1) (plain fun x => x * x) ⟨some 1, none, .two, .forward⟩
    ⟨none, none, none⟩ 3 (fun _ => 1) () (fun t ht => ?_) nofun, ?_⟩
  · rw [← Option.mem_some_iff.1 ht]
    exact one_pos
  · obtain ⟨-, l, hl, -⟩ := (quasiNewton_spec (S := Unit) (E := Empty) Real.sqrt hsqrt).2 (Slsqp.Hessian.identity ℝ 1)
      [(fun _ => 1, fun _ => -1)] Slsqp.Hessian.identity_positiveDefinite
    exact ⟨l, hl⟩

end

end Bfgs
end Optimize
end Itofin
