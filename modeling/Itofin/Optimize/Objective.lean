import Itofin.Lib.Effect
import Mathlib.Data.Fintype.Basic
import Mathlib.Data.List.FinRange
/-!
# Objective — objectives, and the accounting of their evaluations

`objective.rs`, `counters.rs` and `outcome.rs` of `itofin-optimize`, over coordinates and values of any kind.  An objective
reads and writes a state of its own, and may fail.  Its evaluations go through the counters, which the budgets bound; the
counters also keep the evaluations themselves, in their order.
-/
namespace Itofin
namespace Optimize

open Effect

/-! ## Outcomes -/

/-- The budgets and the tolerance every method understands. -/
structure Common (V : Type) where
  maxiter : Option ℕ
  maxfev  : Option ℕ
  tol     : Option V

inductive Converged where
  | xTol | fTol | gTol
deriving DecidableEq

inductive Termination where
  | converged (reason : Converged)
  | maxIterations
  | maxEvaluations
  | cancelled
  | nonfinite
  | lineSearchFailed
  | infeasible
deriving DecidableEq

/-- Why a step returned no value: the run is over, or the objective failed. -/
inductive Halt (E : Type) where
  | terminated (status : Termination)
  | failed (error : E)
deriving DecidableEq

/-- The result of a run. -/
structure Minimize (N V : Type) (n : ℕ) where
  x      : Fin n → N
  value  : V
  nit    : ℕ
  nfev   : ℕ
  njev   : ℕ
  status : Termination

/-! ## Objectives -/

inductive Flow where
  | continue
  | stop
deriving DecidableEq

inductive ConstraintKind where
  | eq
  | ineq
deriving DecidableEq

section

variable (S E N V : Type) (n : ℕ)

structure IterationState where
  x     : Fin n → N
  value : V
  nit   : ℕ
  nfev  : ℕ
  njev  : ℕ

/-- The function a solver minimizes, over the state that its calls change: of points with coordinates of one kind, to values
of another. -/
structure Objective where
  value              : (Fin n → N) → Prog S E V
  /-- `none` is no gradient. -/
  gradient           : (Fin n → N) → Prog S E (Option (Fin n → V))
  callback           : IterationState N V n → Prog S E Flow
  constraintCount    : S → ℕ
  constraintKind     : S → ℕ → ConstraintKind
  constraint         : ℕ → (Fin n → N) → Prog S E V
  /-- `none` is no row of the Jacobian. -/
  constraintJacobian : ℕ → (Fin n → N) → Prog S E (Option (Fin n → V))

/-- An evaluation of the objective and what came of it. -/
abbrev Evaluation : Type := (Fin n → N) × Except E V

/-- Evaluation and iteration accounting, with the state of the objective and the evaluations so far. -/
structure Counters where
  nit         : ℕ
  nfev        : ℕ
  njev        : ℕ
  objective   : S
  evaluations : List (Evaluation E N V n)

end

namespace Counters

variable {S E N V : Type} {n : ℕ}

def new (objective : S) : Counters S E N V n := ⟨0, 0, 0, objective, []⟩

/-- A call of the objective. -/
def call {α : Type} (x : Prog S E α) : Prog (Counters S E N V n) (Halt E) α :=
  (x.zoom objective (fun objective c => { c with objective })).mapError .failed

/-- Evaluates the objective and charges one evaluation, within the budget. -/
def value (objective : Objective S E N V n) (budget : Common V) (x : Fin n → N) :
    Prog (Counters S E N V n) (Halt E) V := fun c =>
  if budget.maxfev.any (· ≤ c.nfev) then (.error (.terminated .maxEvaluations), c)
  else
    let (f, s) := objective.value x c.objective
    (f.mapError .failed, { c with nfev := c.nfev + 1, objective := s, evaluations := c.evaluations ++ [(x, f)] })

def chargeGradient : Prog (Counters S E N V n) (Halt E) Unit := Prog.modify (fun c => { c with njev := c.njev + 1 })

/-- Asks the objective for its gradient, charging one gradient evaluation only when it supplies one. -/
def gradient (objective : Objective S E N V n) (x : Fin n → N) : Prog (Counters S E N V n) (Halt E) (Option (Fin n → V)) := do
  let g ← call (objective.gradient x)
  if g.isSome then chargeGradient
  return g

/-- Closes an iteration: a cancellation wins over budget exhaustion. -/
def endIteration (objective : Objective S E N V n) (budget : Common V) (x : Fin n → N) (f : V) :
    Prog (Counters S E N V n) (Halt E) Unit := do
  Prog.modify (fun c => { c with nit := c.nit + 1 })
  let c ← Prog.get
  let flow ← call (objective.callback ⟨x, f, c.nit, c.nfev, c.njev⟩)
  Prog.require (flow ≠ .stop) (.terminated .cancelled)
  Prog.require (¬ budget.maxiter.any (· ≤ c.nit)) (.terminated .maxIterations)

/-! ### What the counters do -/

section

variable {objective : Objective S E N V n} {budget : Common V}

/-- **What an evaluation can do.** -/
theorem value_cases (objective : Objective S E N V n) (budget : Common V) (x : Fin n → N) (c : Counters S E N V n) :
    ((∃ m ∈ budget.maxfev, m ≤ c.nfev) ∧ value objective budget x c = (.error (.terminated .maxEvaluations), c)) ∨
      ((∀ m ∈ budget.maxfev, c.nfev < m) ∧ ∃ f s, value objective budget x c = (f.mapError .failed,
        { c with nfev := c.nfev + 1, objective := s, evaluations := c.evaluations ++ [(x, f)] })) := by
  rw [value]
  split
  · rename_i h
    obtain ⟨m, hm, hle⟩ := (Option.any_eq_true _ _).1 h
    exact .inl ⟨⟨m, hm, of_decide_eq_true hle⟩, rfl⟩
  · rename_i h
    refine .inr ⟨fun m hm => not_le.1 (fun hle => h ?_), _, _, rfl⟩
    exact (Option.any_eq_true _ _).2 ⟨m, hm, decide_eq_true hle⟩

/-- **An iteration** counts, and changes nothing else but the state of the objective. -/
theorem endIteration_run (x : Fin n → N) (f : V) (c : Counters S E N V n) :
    ∃ r s, endIteration objective budget x f c = (r, { c with nit := c.nit + 1, objective := s }) ∧
      (r = .ok () → ∀ m ∈ budget.maxiter, c.nit + 1 < m) := by
  rcases hflow : objective.callback ⟨x, f, c.nit + 1, c.nfev, c.njev⟩ c.objective with ⟨e | flow, s⟩
  · refine ⟨.error (.failed e), s, ?_, nofun⟩
    simp [endIteration, call, Prog.zoom, Prog.mapError, Except.mapError, hflow]
  · by_cases hstop : flow = .stop
    · refine ⟨.error (.terminated .cancelled), s, ?_, nofun⟩
      simp [endIteration, call, Prog.zoom, Prog.mapError, Except.mapError, hflow, hstop]
    · by_cases hiter : budget.maxiter.any (· ≤ c.nit + 1)
      · refine ⟨.error (.terminated .maxIterations), s, ?_, nofun⟩
        simp [endIteration, call, Prog.zoom, Prog.mapError, Except.mapError, hflow, hstop, hiter]
      · refine ⟨.ok (), s, ?_, fun _ m hm => not_le.1 (fun hle => hiter ?_)⟩
        · simp [endIteration, call, Prog.zoom, Prog.mapError, Except.mapError, hflow, hstop, hiter]
        · exact (Option.any_eq_true _ _).2 ⟨m, hm, decide_eq_true hle⟩

theorem value_triple {P : Counters S E N V n → Prop} {Q : V → Counters S E N V n → Prop}
    {R : Halt E → Counters S E N V n → Prop} (x : Fin n → N)
    (hbudget : ∀ c, P c → (∃ m ∈ budget.maxfev, m ≤ c.nfev) → R (.terminated .maxEvaluations) c)
    (hok : ∀ c f s, P c → (∀ m ∈ budget.maxfev, c.nfev < m) →
      Q f { c with nfev := c.nfev + 1, objective := s, evaluations := c.evaluations ++ [(x, .ok f)] })
    (hfail : ∀ c e s, P c → (∀ m ∈ budget.maxfev, c.nfev < m) →
      R (.failed e) { c with nfev := c.nfev + 1, objective := s, evaluations := c.evaluations ++ [(x, .error e)] }) :
    Triple P (value objective budget x) Q R := by
  intro c hc
  rcases value_cases objective budget x c with ⟨hm, hrun⟩ | ⟨hm, f, s, hrun⟩
  · rw [hrun]
    exact hbudget c hc hm
  · rw [hrun]
    cases f with
    | error e => exact hfail c e s hc hm
    | ok f    => exact hok c f s hc hm

/-- What the objective does with its state matters to nothing else. -/
theorem call_triple {α : Type} {P : Counters S E N V n → Prop} (x : Prog S E α)
    (h : ∀ c s, P c → P { c with objective := s }) : Triple P (call x) (fun _ => P) (fun _ => P) := by
  intro c hc
  rcases hx : x c.objective with ⟨r, s⟩
  have := h c s hc
  simp only [call, Prog.mapError, Prog.zoom, hx]
  cases r <;> exact this

theorem gradient_triple {P : Counters S E N V n → Prop} (x : Fin n → N)
    (h : ∀ c k s, P c → P { c with njev := k, objective := s }) :
    Triple P (gradient objective x) (fun _ => P) (fun _ => P) := by
  refine Triple.bind (call_triple _ (fun c s hc => h c c.njev s hc)) (fun g => ?_)
  cases hg : g.isSome
  · exact Triple.pure g (fun _ hs => hs)
  · exact Triple.bind (Triple.modify (fun c hc => h c _ c.objective hc)) (fun _ => Triple.pure g (fun _ hs => hs))

end
end Counters
end Optimize
end Itofin
