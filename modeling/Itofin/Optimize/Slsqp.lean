import Itofin.Optimize.FiniteDifference
import Itofin.Optimize.Lbfgsb.Geometry
import Itofin.Optimize.Slsqp.Subproblem
/-!
# Slsqp — sequential least-squares quadratic programming

`slsqp/mod.rs`, in exact arithmetic: a value that is not finite is `none`.  A run also keeps the evaluations of the
constraints, which the counters do not charge.

Every trial point is clipped into the bounds, and has that with it (`Trial`).  Where the objective does not supply a gradient
or a row of the Jacobian, a step along each coordinate of such a point is tried, in the bounds or not (`Visited`).
-/
namespace Itofin
namespace Optimize
namespace Slsqp

open Effect Matrix
open Lsq (Numbers)

section

variable (K : Type) (n : ℕ)

/-- The last accepted iterate, which every termination reports. -/
structure State where
  x           : Fin n → K
  f           : Option K
  c           : List K
  multipliers : Option (List K)

abbrev ConstraintEvaluation (E : Type) : Type := ℕ × (Fin n → K) × Except E (Option K)

/-- A run: the counters, the reported iterate, and the evaluations of the constraints. -/
structure Run (S E : Type) where
  counters    : Counters S E K (Option K) n
  state       : State K n
  constraints : List (ConstraintEvaluation K n E)

variable [LinearOrder K]

structure Setup where
  kinds  : List ConstraintKind
  bounds : Lbfgsb.Bounds K n
  ftol   : K

end

variable {S E K : Type} [Field K] [LinearOrder K] {n : ℕ}

/-- A point of the box, with the values there. -/
structure Trial (b : Lbfgsb.Bounds K n) where
  x      : Fin n → K
  f      : K
  c      : List K
  inside : b.Contains x

structure Iteration (b : Lbfgsb.Bounds K n) where
  iterate : Trial b
  g       : Fin n → K
  a       : List (Fin n → K)
  hessian : Hessian K n
  fresh   : Bool
  penalty : List K

def defaultFtol : K := 1 / (10 ^ 6 : ℕ)

def defaultMaxiter : ℕ := 100

def maxBacktracks : ℕ := 10

def sufficientDecrease : K := 1 / (10 : ℕ)

def fullRelaxation : K := 1 - 1 / (10 ^ 8 : ℕ)

/-! ## Merit -/

def violation (kind : ConstraintKind) (c : K) : K :=
  match kind with
  | .eq   => |c|
  | .ineq => max (-c) 0

def violations (kinds : List ConstraintKind) (c : List K) : List K := List.zipWith violation kinds c

def maxViolation (kinds : List ConstraintKind) (c : List K) : K := (violations kinds c).foldl max 0

def dot (a b : List K) : K := (List.zipWith (· * ·) a b).sum

def merit (kinds : List ConstraintKind) (penalty : List K) (f : K) (c : List K) : K := f + dot penalty (violations kinds c)

def lagrangian (g : Fin n → K) (a : List (Fin n → K)) (multipliers : List K) : Fin n → K :=
  (a.zip multipliers).foldl (fun out (row, lambda) i => out i - lambda * row i) g

/-- Powell's update of a penalty. -/
def raise (penalty lambda : K) : K := max |lambda| ((penalty + |lambda|) / (2 : ℕ))

def clip (b : Lbfgsb.Bounds K n) (x : Fin n → K) : {x : Fin n → K // b.Contains x} :=
  ⟨fun i => b.clamp i (x i), fun i => b.clamp_mem i (x i)⟩

/-- A point on the search line, clipped into the bounds. -/
def along (b : Lbfgsb.Bounds K n) (x d : Fin n → K) (alpha : K) : {x : Fin n → K // b.Contains x} :=
  clip b (fun i => x i + alpha * d i)

/-- The next step length of a search, by the parabola through what is known of the merit. -/
def backtrack (phi0 slope phi alpha : K) : K :=
  let curvature := (phi - phi0 - slope * alpha) / (alpha * alpha)
  let minimizer := -slope / ((2 : ℕ) * curvature)
  let half := 1 / (2 : ℕ) * alpha
  -- a quotient by zero is not finite
  if curvature = 0 then half else min half (max (1 / (10 : ℕ) * alpha) minimizer)

/-! ## Evaluations -/

section

variable (relativeStep : FiniteDifference → K) (objective : Objective S E K (Option K) n) (budget : Common (Option K))

def counting {α : Type} (x : Prog (Counters S E K (Option K) n) (Halt E) α) : Prog (Run K n S E) (Halt E) α :=
  x.zoom Run.counters (fun counters r => { r with counters })

/-- Evaluates a constraint, which is not charged. -/
def constraint (j : ℕ) (x : Fin n → K) : Prog (Run K n S E) (Halt E) K := fun r =>
  let (c, s) := objective.constraint j x r.counters.objective
  let r := { r with counters := { r.counters with objective := s }, constraints := r.constraints ++ [(j, x, c)] }
  match c with
  | .error e => (.error (.failed e), r)
  | .ok c    => finite c r

def constraints (x : Fin n → K) (m : ℕ) : Prog (Run K n S E) (Halt E) (List K) :=
  Prog.collect (fun j => constraint objective j x) (List.range m)

/-- A row of the Jacobian at `x`, where the constraint takes the value `c`. -/
def jacobianRow (x : Fin n → K) (c : K) (j : ℕ) : Prog (Run K n S E) (Halt E) (Fin n → Option K) := do
  match ← counting (Counters.call (objective.constraintJacobian j x)) with
  | some row => return row
  | none     =>
    (List.finRange n).foldlM (fun row i => do
      let point := x i + probeStep relativeStep .forward none (x i)
      let value ← constraint objective j (Function.update x i point)
      return Function.update row i (some ((value - c) / (point - x i)))) (fun _ => some 0)

/-- The constraint Jacobian at `x`, where the constraints take the values `c`. -/
def jacobian (x : Fin n → K) (c : List K) : Prog (Run K n S E) (Halt E) (List (Fin n → K)) := do
  let a ← Prog.collect (fun (c, j) => jacobianRow relativeStep objective x c j) c.zipIdx
  if ∀ row ∈ a, ∀ i, (row i).isSome then return a.map (fun row i => (row i).getD 0)
  else Prog.fail (.terminated .nonfinite)

/-! ## The run -/

variable (N : Numbers K) (setup : Setup K n)

/-- A trial step: whether it is accepted, the point, and the next step length. -/
def tryStep (penalty : List K) (phi0 slope : K) (x d : Fin n → K) (alpha : K) :
    Prog (Run K n S E) (Halt E) (Bool × Trial setup.bounds × K) := do
  let point := along setup.bounds x d alpha
  let f ← counting (Counters.value objective budget point.1) >>= finite
  let c ← constraints objective point.1 setup.kinds.length
  let phi := merit setup.kinds penalty f c
  return (phi ≤ phi0 + sufficientDecrease * alpha * min slope 0, ⟨point.1, f, c, point.2⟩, backtrack phi0 slope phi alpha)

/-- The line search, with the number of steps after this one. -/
def search (penalty : List K) (phi0 slope : K) (x d : Fin n → K) : ℕ → K →
    Prog (Run K n S E) (Halt E) (Bool × Trial setup.bounds)
  | 0, alpha        => do
    let (accepted, trial, _) ← tryStep objective budget setup penalty phi0 slope x d alpha
    return (accepted, trial)
  | left + 1, alpha => do
    let (accepted, trial, next) ← tryStep objective budget setup penalty phi0 slope x d alpha
    if accepted then return (true, trial) else search penalty phi0 slope x d left next

/-- The end of an iteration, at the point that a search leaves. -/
def accept (now : Iteration setup.bounds) (penalty lambda : List K) (trial : Trial setup.bounds) :
    Prog (Run K n S E) (Halt E) (Termination ⊕ Iteration setup.bounds) := do
  let g ← counting (gradientWithStep relativeStep objective budget .forward none trial.x trial.f)
  let a ← jacobian relativeStep objective trial.x trial.c
  let s := trial.x - now.iterate.x
  let y := lagrangian g a lambda - lagrangian now.g now.a lambda
  let hessian := now.hessian.update s y
  let change := |trial.f - now.iterate.f|
  Prog.modify (fun r => { r with state := ⟨trial.x, some trial.f, trial.c, r.state.multipliers⟩ })
  counting (Counters.endIteration objective budget trial.x (some trial.f))
  if change < setup.ftol ∧ maxViolation setup.kinds trial.c < setup.ftol then return .inl (.converged .fTol)
  else return .inr ⟨trial, g, a, hessian, false, penalty⟩

/-- A turn of the run, from a step of the subproblem. -/
def descend (now : Iteration setup.bounds) (step : Step K n) :
    Prog (Run K n S E) (Halt E) (Termination ⊕ Iteration setup.bounds) := do
  let lambda := step.multipliers
  Prog.modify (fun r => { r with state := { r.state with multipliers := some lambda } })
  let c := now.iterate.c
  let complementarity := (List.zipWith (fun l c => |l * c|) lambda c).sum
  if |now.g ⬝ᵥ step.d| + complementarity < setup.ftol ∧ maxViolation setup.kinds c < setup.ftol then
    return .inl (.converged .fTol)
  else
    let penalty := List.zipWith raise now.penalty lambda
    let phi0 := merit setup.kinds penalty now.iterate.f c
    let slope := now.g ⬝ᵥ step.d - (1 - step.relaxation) * dot penalty (violations setup.kinds c)
    let (accepted, trial) ← search objective budget setup penalty phi0 slope now.iterate.x step.d maxBacktracks 1
    if ¬ accepted ∧ ¬ now.fresh then
      return .inr { now with hessian := Hessian.identity K n, fresh := true, penalty }
    else accept relativeStep objective budget setup now penalty lambda trial

def linearization (now : Iteration setup.bounds) : Linearization K n where
  gradient := now.g
  values   := now.iterate.c
  jacobian := now.a
  kinds    := setup.kinds
  lower i  := (setup.bounds.lower i).map (· - now.iterate.x i)
  upper i  := (setup.bounds.upper i).map (· - now.iterate.x i)

/-- A turn of the run: the status that ends it, or what the next turn starts from. -/
def turn (now : Iteration setup.bounds) : Prog (Run K n S E) (Halt E) (Termination ⊕ Iteration setup.bounds) := do
  match Hessian.cholesky N.sqrt now.hessian with
  | none   => return .inr { now with hessian := Hessian.identity K n, fresh := true }
  | some l =>
    match solve N l (linearization setup now) with
    | .error _ => return .inl .infeasible
    | .ok step =>
      if fullRelaxation ≤ step.relaxation then return .inl .infeasible
      else descend relativeStep objective budget setup now step

/-- `run`, with a bound on its turns; `none` is that they did not do. -/
def run (turns : ℕ) (x0 : {x : Fin n → K // setup.bounds.Contains x}) :
    Prog (Run K n S E) (Halt E) (Option Termination) := do
  let value ← counting (Counters.value objective budget x0.1)
  Prog.modify (fun r => { r with state := { r.state with f := value } })
  let f ← finite value
  let c ← constraints objective x0.1 setup.kinds.length
  Prog.modify (fun r => { r with state := { r.state with c } })
  let g ← counting (gradientWithStep relativeStep objective budget .forward none x0.1 f)
  let a ← jacobian relativeStep objective x0.1 c
  Prog.loop (turn relativeStep objective budget N setup) turns
    ⟨⟨x0.1, f, c, x0.2⟩, g, a, Hessian.identity K n, true, setup.kinds.map (fun _ => 0)⟩

end

def report (r : Run K n S E) (status : Termination) : Minimize K (Option K) n :=
  ⟨r.state.x, r.state.f, r.counters.nit, r.counters.nfev, r.counters.njev, status⟩

def conclude (ran : Except (Halt E) (Option Termination) × Run K n S E) :
    Except E (Option (Minimize K (Option K) n)) × Run K n S E :=
  match ran with
  | (.ok none, r)                    => (.ok none, r)
  | (.ok (some status), r)           => (.ok (some (report r status)), r)
  | (.error (.terminated status), r) => (.ok (some (report r status)), r)
  | (.error (.failed error), r)      => (.error error, r)

/-- `minimize`, and what the run leaves.  `none` is that the turns did not do. -/
def minimize (relativeStep : FiniteDifference → K) (N : Numbers K) (objective : Objective S E K (Option K) n) (turns : ℕ)
    (x0 : Fin n → K) (bounds : Lbfgsb.Bounds K n) (ftol : Option K) (common : Common (Option K)) (objective₀ : S) :
    Except E (Option (Minimize K (Option K) n)) × Run K n S E :=
  let kinds := (List.range (objective.constraintCount objective₀)).map (objective.constraintKind objective₀)
  let setup : Setup K n := ⟨kinds, bounds, (ftol.or common.tol.join).getD defaultFtol⟩
  let budget : Common (Option K) := { common with maxiter := common.maxiter.or (some defaultMaxiter) }
  let x0 := clip bounds x0
  conclude (run relativeStep objective budget N setup turns x0 ⟨.new objective₀, ⟨x0.1, none, [], none⟩, []⟩)

/-! ## Where a run evaluates -/

/-- A point of the box, or a point beside one, a step along one of its coordinates. -/
def Visited (b : Lbfgsb.Bounds K n) (relativeStep : FiniteDifference → K) (y : Fin n → K) : Prop :=
  b.Contains y ∨ ∃ x, b.Contains x ∧ IsProbe relativeStep .forward none x y

/-- The objective supplies its gradient and the rows of its Jacobian. -/
structure Supplies (objective : Objective S E K (Option K) n) : Prop where
  gradient   : ∀ x s, (objective.gradient x s).1 ≠ .ok none
  constraint : ∀ j x s, (objective.constraintJacobian j x s).1 ≠ .ok none

def Charged (points : (Fin n → K) → Prop) (c : Counters S E K (Option K) n) : Prop := ∀ e ∈ c.evaluations, points e.1

/-- **What holds of every state of a run**: it has evaluated at some points only, and its iterate is in the box. -/
structure Sited (b : Lbfgsb.Bounds K n) (points : (Fin n → K) → Prop) (r : Run K n S E) : Prop where
  objective  : Charged points r.counters
  constraint : ∀ e ∈ r.constraints, points e.2.1
  iterate    : b.Contains r.state.x

section

variable {relativeStep : FiniteDifference → K} {objective : Objective S E K (Option K) n} {budget : Common (Option K)}
  {N : Numbers K} {setup : Setup K n} {b : Lbfgsb.Bounds K n} {points : (Fin n → K) → Prop}

omit [Field K] in
theorem counting_keeps {α : Type} {x : Prog (Counters S E K (Option K) n) (Halt E) α}
    (h : Keeps (Charged points) x) : Keeps (Sited b points) (counting x) :=
  Keeps.zoom _ (fun _ hr => hr.objective) h (fun _ _ hr hc => ⟨hc, hr.constraint, hr.iterate⟩)

omit [Field K] [LinearOrder K] in
theorem stable : Stable (S := S) (E := E) (Charged points) points where
  call _ _ _ hc        := hc
  value _ _ _ _ hy hc  := List.forall_mem_append.2 ⟨hc, List.forall_mem_singleton.2 hy⟩

omit [Field K] in
theorem value_keeps {x : Fin n → K} (hx : points x) :
    Keeps (Sited b points) (counting (S := S) (Counters.value objective budget x)) :=
  counting_keeps (Keeps.of_triple (stable.value_triple hx))

omit [Field K] in
theorem constraint_keeps (j : ℕ) {x : Fin n → K} (hx : points x) : Keeps (Sited b points) (constraint objective j x) := by
  intro r hr
  have hlogged : ∀ c, ∀ e ∈ r.constraints ++ [(j, x, c)], points e.2.1 := fun _ =>
    List.forall_mem_append.2 ⟨hr.constraint, List.forall_mem_singleton.2 hx⟩
  rw [constraint]
  rcases objective.constraint j x r.counters.objective with ⟨e | c, s⟩
  · exact ⟨hr.objective, hlogged _, hr.iterate⟩
  · exact (finite_triple c).after ⟨hr.objective, hlogged _, hr.iterate⟩

/-- The points that a run can visit: those of the box, and the probes unless the objective has no need of them. -/
structure Covers (b : Lbfgsb.Bounds K n) (relativeStep : FiniteDifference → K) (objective : Objective S E K (Option K) n)
    (points : (Fin n → K) → Prop) : Prop where
  inside : ∀ y, b.Contains y → points y
  probes : Supplies objective ∨ ∀ x, b.Contains x → ∀ y, IsProbe relativeStep .forward none x y → points y

variable {x : Fin n → K}

omit [Field K] [LinearOrder K] in
theorem supplied_triple (h : Supplies objective) (x : Fin n → K) :
    Triple (Charged points) (Counters.gradient objective x) (fun g c => Charged points c ∧ g ≠ none)
      (fun _ => Charged points) := by
  have hcall := Triple.with_run (Counters.call_triple (P := Charged points) (objective.gradient x) (fun _ _ hc => hc))
  refine Triple.bind (Q := fun g c => Charged points c ∧ g ≠ none)
    (Triple.weaken hcall (fun _ hc => hc) (fun g c hc => ⟨hc.1, ?_⟩)) (fun g => ?_)
  · rintro rfl
    obtain ⟨-, c₀, hrun⟩ := hc
    exact h.gradient x c₀.objective (mapError_eq_ok.1 (congrArg Prod.fst hrun))
  · cases hg : g.isSome
    · exact Triple.pure g (fun _ hs => hs)
    · exact Triple.bind (Triple.modify (fun _ hs => hs)) (fun _ => Triple.pure g (fun _ hs => hs))

/-- **A gradient** at a point of the box. -/
theorem gradient_keeps (h : Covers b relativeStep objective points) (hx : b.Contains x) (f : K) :
    Keeps (Sited b points) (counting (gradientWithStep relativeStep objective budget .forward none x f)) := by
  refine counting_keeps (Keeps.of_triple ?_)
  rcases h.probes with hsupplies | hprobes
  · refine Triple.bind (supplied_triple hsupplies x) (fun g => Triple.of_fact (fun hne => ?_))
    cases g with
    | none     => exact absurd rfl hne
    | some out => exact (Keeps.ite (Keeps.pure _) (Keeps.fail _)).triple
  · exact stable.gradient_triple (hprobes x hx) f

theorem constraints_keeps (h : Covers b relativeStep objective points) (hx : b.Contains x) (m : ℕ) :
    Keeps (Sited b points) (constraints objective x m) :=
  Keeps.collect _ (fun j _ => constraint_keeps j (h.inside x hx))

/-- **A row of the Jacobian** at a point of the box. -/
theorem jacobianRow_keeps (h : Covers b relativeStep objective points) (hx : b.Contains x) (c : K) (j : ℕ) :
    Keeps (Sited b points) (jacobianRow relativeStep objective x c j) := by
  have hcall : Keeps (Sited b points) (counting (Counters.call (objective.constraintJacobian j x))) :=
    counting_keeps (Keeps.of_triple (Counters.call_triple _ (fun _ _ hc => hc)))
  rcases h.probes with hsupplies | hprobes
  · intro r hr
    have hne := hsupplies.constraint j x r.counters.objective
    have hr' := hcall r hr
    rw [jacobianRow, Prog.run_bind]
    rcases hg : counting (Counters.call (objective.constraintJacobian j x)) r with ⟨e | g, r'⟩
    · rwa [hg] at hr'
    · rw [hg] at hr'
      cases g with
      | some row => exact hr'
      | none     => exact absurd (mapError_eq_ok.1 (congrArg Prod.fst hg)) hne
  · refine Keeps.bind hcall (fun row => ?_)
    cases row with
    | some row => exact Keeps.pure row
    | none     =>
      refine Keeps.foldlM (fun row i => ?_) _ _
      exact Keeps.bind (constraint_keeps j (hprobes x hx _ ⟨i, .inl rfl⟩)) (fun _ => Keeps.pure _)

theorem jacobian_keeps (h : Covers b relativeStep objective points) (hx : b.Contains x) (c : List K) :
    Keeps (Sited b points) (jacobian relativeStep objective x c) := by
  refine Keeps.bind (Keeps.collect _ (fun e _ => jacobianRow_keeps h hx e.1 e.2)) (fun a => ?_)
  exact Keeps.ite (Keeps.pure _) (Keeps.fail _)

theorem tryStep_keeps (h : Covers setup.bounds relativeStep objective points) (penalty : List K) (phi0 slope : K)
    (x d : Fin n → K) (alpha : K) :
    Keeps (Sited setup.bounds points) (tryStep objective budget setup penalty phi0 slope x d alpha) := by
  have hpoint := (along setup.bounds x d alpha).2
  refine Keeps.bind (Keeps.bind (value_keeps (h.inside _ hpoint)) (fun f => Keeps.of_triple (finite_triple f))) (fun f => ?_)
  exact Keeps.bind (constraints_keeps h hpoint _) (fun c => Keeps.pure _)

theorem search_keeps (h : Covers setup.bounds relativeStep objective points) (penalty : List K) (phi0 slope : K)
    (x d : Fin n → K) : ∀ (left : ℕ) (alpha : K),
    Keeps (Sited setup.bounds points) (search objective budget setup penalty phi0 slope x d left alpha)
  | 0, alpha        => Keeps.bind (tryStep_keeps h penalty phi0 slope x d alpha) (fun _ => Keeps.pure _)
  | left + 1, alpha => by
    refine Keeps.bind (tryStep_keeps h penalty phi0 slope x d alpha) (fun (accepted, trial, next) => ?_)
    exact Keeps.ite (Keeps.pure _) (search_keeps h penalty phi0 slope x d left next)

/-- **The end of an iteration**: the next iterate is a point of the box. -/
theorem accept_keeps (h : Covers setup.bounds relativeStep objective points) (now : Iteration setup.bounds)
    (penalty lambda : List K) (trial : Trial setup.bounds) :
    Keeps (Sited setup.bounds points) (accept relativeStep objective budget setup now penalty lambda trial) := by
  have hend : Keeps (Sited setup.bounds points) (counting (Counters.endIteration objective budget trial.x (some trial.f))) := by
    refine counting_keeps (fun c hc => ?_)
    obtain ⟨r, s, hrun, -⟩ := @Counters.endIteration_run S E K (Option K) n objective budget trial.x (some trial.f) c
    rw [hrun]
    exact hc
  refine Keeps.bind (gradient_keeps h trial.inside trial.f) (fun g => ?_)
  refine Keeps.bind (jacobian_keeps h trial.inside trial.c) (fun a => ?_)
  refine Keeps.bind (Keeps.modify (fun r hr => ⟨hr.objective, hr.constraint, trial.inside⟩)) (fun _ => ?_)
  exact Keeps.bind hend (fun _ => Keeps.ite (Keeps.pure _) (Keeps.pure _))

theorem descend_keeps (h : Covers setup.bounds relativeStep objective points) (now : Iteration setup.bounds)
    (step : Step K n) : Keeps (Sited setup.bounds points) (descend relativeStep objective budget setup now step) := by
  refine Keeps.bind (Keeps.modify (fun r hr => ⟨hr.objective, hr.constraint, hr.iterate⟩)) (fun _ => ?_)
  refine Keeps.ite (Keeps.pure _) ?_
  refine Keeps.bind (search_keeps h _ _ _ _ _ _ _) (fun (accepted, trial) => ?_)
  exact Keeps.ite (Keeps.pure _) (accept_keeps h now _ _ trial)

/-- **A turn**, whatever the subproblem gives. -/
theorem turn_keeps (h : Covers setup.bounds relativeStep objective points) (now : Iteration setup.bounds) :
    Keeps (Sited setup.bounds points) (turn relativeStep objective budget N setup now) := by
  unfold turn
  cases Hessian.cholesky N.sqrt now.hessian with
  | none   => exact Keeps.pure _
  | some l =>
    dsimp only
    cases solve N l (linearization setup now) with
    | error failure => exact Keeps.pure _
    | ok step       => exact Keeps.ite (Keeps.pure _) (descend_keeps h now step)

variable (setup) in
/-- **Every run.** -/
theorem run_keeps (h : Covers setup.bounds relativeStep objective points) (turns : ℕ)
    (x0 : {x : Fin n → K // setup.bounds.Contains x}) :
    Keeps (Sited setup.bounds points) (run relativeStep objective budget N setup turns x0) := by
  refine Keeps.bind (value_keeps (h.inside _ x0.2)) (fun value => ?_)
  refine Keeps.bind (Keeps.modify (fun r hr => ⟨hr.objective, hr.constraint, hr.iterate⟩)) (fun _ => ?_)
  refine Keeps.bind (Keeps.of_triple (finite_triple value)) (fun f => ?_)
  refine Keeps.bind (constraints_keeps h x0.2 _) (fun c => ?_)
  refine Keeps.bind (Keeps.modify (fun r hr => ⟨hr.objective, hr.constraint, hr.iterate⟩)) (fun _ => ?_)
  refine Keeps.bind (gradient_keeps h x0.2 f) (fun g => ?_)
  refine Keeps.bind (jacobian_keeps h x0.2 c) (fun a => ?_)
  exact Keeps.loop (turn_keeps h) turns _

omit [Field K] in
theorem conclude_sited {ran : Except (Halt E) (Option Termination) × Run K n S E} (h : Sited b points ran.2) :
    Sited b points (conclude ran).2 ∧ ∀ result, (conclude ran).1 = .ok (some result) → b.Contains result.x := by
  rcases ran with ⟨(status | error) | (_ | status), r⟩
  · refine ⟨h, fun result hr => ?_⟩
    cases hr
    exact h.iterate
  · exact ⟨h, nofun⟩
  · exact ⟨h, nofun⟩
  · refine ⟨h, fun result hr => ?_⟩
    cases hr
    exact h.iterate

theorem minimize_sited (h : Covers b relativeStep objective points) (turns : ℕ) (x0 : Fin n → K) (ftol : Option K)
    (common : Common (Option K)) (objective₀ : S) :
    Sited b points (minimize relativeStep N objective turns x0 b ftol common objective₀).2 ∧
      ∀ result, (minimize relativeStep N objective turns x0 b ftol common objective₀).1 = .ok (some result) →
        b.Contains result.x := by
  have hstart : Sited b points (⟨.new objective₀, ⟨(clip b x0).1, none, [], none⟩, []⟩ : Run K n S E) :=
    ⟨nofun, nofun, (clip b x0).2⟩
  exact conclude_sited (run_keeps ⟨_, b, _⟩ h turns (clip b x0) _ hstart)

end

/-! ## The bounds of the subproblem -/

/-- **The clip is against rounding only**: without any, a point on the search line is in the box. -/
theorem along_eq [IsStrictOrderedRing K] {N : Numbers K} {setup : Setup K n} {now : Iteration setup.bounds} {l : Hessian K n}
    {step : Step K n} {alpha : K} (hN : N.Exact) (h : solve N l (linearization setup now) = .ok step) (h0 : 0 ≤ alpha)
    (h1 : alpha ≤ 1) :
    (along setup.bounds now.iterate.x step.d alpha).1 = fun i => now.iterate.x i + alpha * step.d i := by
  have hwithin := solve_within hN h
  funext i
  have hinside := now.iterate.inside i
  refine Lbfgsb.Bounds.clamp_of_mem (fun a ha => ?_) (fun a ha => ?_)
  · -- Between the iterate and the whole step, both at or above the bound.
    have hd : a - now.iterate.x i ≤ step.d i := (hwithin i).1 _ (Option.mem_map_of_mem _ ha)
    nlinarith [hinside.1 a ha]
  · have hd : step.d i ≤ a - now.iterate.x i := (hwithin i).2 _ (Option.mem_map_of_mem _ ha)
    nlinarith [hinside.2 a ha]

/-! ## The sites of a run -/

/-- **Where a run evaluates**: the objective and the constraints at points of the box and at probes beside them, and at points
of the box only where the objective supplies its derivatives; and what it reports is in the box. -/
theorem slsqp_sites (relativeStep : FiniteDifference → K) (N : Numbers K) (objective : Objective S E K (Option K) n)
    (turns : ℕ) (x0 : Fin n → K) (b : Lbfgsb.Bounds K n) (ftol : Option K) (common : Common (Option K)) (objective₀ : S) :
    let ran := minimize relativeStep N objective turns x0 b ftol common objective₀
    (∀ e ∈ ran.2.counters.evaluations, Visited b relativeStep e.1) ∧
    (∀ e ∈ ran.2.constraints, Visited b relativeStep e.2.1) ∧
    (Supplies objective → (∀ e ∈ ran.2.counters.evaluations, b.Contains e.1) ∧ ∀ e ∈ ran.2.constraints, b.Contains e.2.1) ∧
    ∀ result, ran.1 = .ok (some result) → b.Contains result.x := by
  intro ran
  have hvisited : Covers b relativeStep objective (Visited b relativeStep) :=
    ⟨fun y hy => .inl hy, .inr (fun x hx y hy => .inr ⟨x, hx, hy⟩)⟩
  obtain ⟨hsited, hresult⟩ := minimize_sited (N := N) hvisited turns x0 ftol common objective₀
  refine ⟨hsited.objective, hsited.constraint, fun hsupplies => ?_, hresult⟩
  have hinside : Covers b relativeStep objective b.Contains := ⟨fun _ hy => hy, .inl hsupplies⟩
  obtain ⟨hsited, -⟩ := minimize_sited (N := N) hinside turns x0 ftol common objective₀
  exact ⟨hsited.objective, hsited.constraint⟩

/-! ### Outside the box -/

/-- An objective that is not a number above one. -/
def edge : Objective Unit Empty ℚ (Option ℚ) 1 where
  value x                := pure (if x (Fin.last 0) ≤ 1 then some (-x (Fin.last 0)) else none)
  gradient _             := pure none
  callback _             := pure .continue
  constraintCount _      := 0
  constraintKind _ _     := .eq
  constraint _ _         := pure none
  constraintJacobian _ _ := pure none

def unitBox : Lbfgsb.Bounds ℚ 1 := ⟨fun _ => some 0, fun _ => some 1, by decide +kernel⟩

/-- The first gradient of a run from the upper bound asks for a value outside the box. -/
theorem probe_outside :
    ¬ ∀ e ∈ (minimize (fun _ => 1 / 2 ^ 26) ⟨id, 0, 0⟩ edge 1 (fun _ => 1) unitBox none ⟨none, none, none⟩
      ()).2.counters.evaluations, unitBox.Contains e.1 := by
  decide +kernel

end Slsqp
end Optimize
end Itofin
