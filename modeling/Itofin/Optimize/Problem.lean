import Itofin.Lib.Floating
import Itofin.Optimize.Objective
/-!
# Problem — problems with box bounds, and what is checked before a run

`problem.rs` and `error.rs` of `itofin-optimize`, over the numbers of a floating format.  A point has the dimension of the
problem by its type, so that no length is checked.
-/
namespace Itofin
namespace Optimize

open Effect
open Format (Number)

section

variable {K : Type} [Field K] [LinearOrder K] (R : Format K) (n : ℕ)

/-- `Vec<f64>` -/
abbrev Point : Type := Fin n → R.Number

/-- `x == y` -/
def Point.Equals {R : Format K} {n : ℕ} (x y : Point R n) : Prop := ∀ i, (x i).Equals (y i)

instance {R : Format K} {n : ℕ} (x y : Point R n) : Decidable (Point.Equals x y) :=
  inferInstanceAs (Decidable (∀ i, (x i).Equals (y i)))

structure Bounds where
  lower : Point R n
  upper : Point R n

structure Problem where
  x0     : Point R n
  bounds : Option (Bounds R n)

/-- What the methods take from the library of their numbers, besides the arithmetic. -/
structure Library where
  exp      : R.Number → R.Number
  cbrt     : R.Number → R.Number
  nextUp   : R.Number → R.Number
  nextDown : R.Number → R.Number

end

/-! ## What is rejected -/

inductive InvalidInput where
  | emptyX0
  | nonfiniteX0 (index : ℕ)
  | nanBound (index : ℕ)
  | boundsOrder (index : ℕ)
  | infeasibleBound (index : ℕ)
  | notPositive (option : String)
  | unsupported (method option : String)
  | notFinitePositive (option : String)
  | notFiniteNonnegative (option : String)
  | missingGlobalBounds
  | nonfiniteGlobalBound (index : ℕ)
  | outsideGlobalBounds (option : String) (point index : ℕ)
  | globalRange (option : String) (min max found : ℕ)
  | populationCells (max : ℕ)
  | populationPointCount (expected found : ℕ)
  | nonfinitePopulation (point index : ℕ)
  | differentialEvolutionCoefficient (option range : String)
  | particleSwarmCoefficient (option range : String)
  | fireflyCoefficient (option range : String)
  | hybridSimulatedAnnealingCoefficient (option range : String)
deriving DecidableEq

/-- Everything a run can fail with. -/
inductive MinimizeError (E : Type) where
  | invalidInput (error : InvalidInput)
  | objective (error : E)

/-- What runs on the counters. -/
abbrev Counting (S E : Type) {K : Type} [Field K] [LinearOrder K] (R : Format K) (n : ℕ) : Type → Type :=
  Prog (Counters S E R.Number R.Number n) (Halt E)

/-- A method on a problem.  `none` is that the turns did not do. -/
abbrev Minimizing (S E : Type) {K : Type} [Field K] [LinearOrder K] (R : Format K) (n : ℕ) : Type :=
  Prog (Counters S E R.Number R.Number n) (MinimizeError E) (Option (Minimize R.Number R.Number n))

/-- An error unless the condition holds. -/
def check (condition : Prop) [Decidable condition] (error : InvalidInput) : Except InvalidInput Unit :=
  if condition then .ok () else .error error

section

variable {condition : Prop} [Decidable condition] {error : InvalidInput} {α : Type}

@[simp] theorem check_eq_ok : check condition error = .ok () ↔ condition := by
  unfold check
  split <;> simp [*]

theorem unit_bind {x y : Except InvalidInput Unit} : (x >>= fun _ => y) = .ok () ↔ x = .ok () ∧ y = .ok () := by
  rw [bind_eq_ok]
  exact ⟨fun ⟨_, hx, hy⟩ => ⟨hx, hy⟩, fun ⟨hx, hy⟩ => ⟨(), hx, hy⟩⟩

theorem check_bind {x : Except InvalidInput Unit} :
    (check condition error >>= fun _ => x) = .ok () ↔ condition ∧ x = .ok () := by
  rw [unit_bind, check_eq_ok]

theorem forM_eq_ok {f : α → Except InvalidInput Unit} : ∀ {l : List α}, l.forM f = .ok () ↔ ∀ a ∈ l, f a = .ok ()
  | []     => iff_of_true rfl (by simp)
  | a :: l => by
    rw [List.forall_mem_cons, ← forM_eq_ok]
    exact unit_bind

theorem forM_finRange {n : ℕ} {f : Fin n → Except InvalidInput Unit} :
    (List.finRange n).forM f = .ok () ↔ ∀ i, f i = .ok () :=
  forM_eq_ok.trans ⟨fun h i => h i (List.mem_finRange i), fun h i _ => h i⟩

end

section

variable {K : Type} [Field K] [LinearOrder K] {R : Format K} {n : ℕ}

def Problem.validate (problem : Problem R n) : Except InvalidInput Unit := do
  check (n ≠ 0) .emptyX0
  (List.finRange n).forM fun index => check ((problem.x0 index).isFinite = true) (.nonfiniteX0 index)
  match problem.bounds with
  | none        => .ok ()
  | some bounds => do
    (List.finRange n).forM fun index => check (¬ (bounds.lower index).IsNan) (.nanBound index)
    (List.finRange n).forM fun index => check (¬ (bounds.upper index).IsNan) (.nanBound index)
    (List.finRange n).forM fun index => do
      check (¬ bounds.upper index < bounds.lower index) (.boundsOrder index)
      check (¬ ((bounds.lower index).Equals R.infinity ∨ (bounds.upper index).Equals (-R.infinity)))
        (.infeasibleBound index)

def Common.validate (common : Common R.Number) : Except InvalidInput Unit := do
  check (common.maxiter ≠ some 0) (.notPositive "maxiter")
  check (common.maxfev ≠ some 0) (.notPositive "maxfev")
  match common.tol with
  | none     => .ok ()
  | some tol => check (tol.isFinite = true ∧ ¬ tol ≤ 0) (.notFinitePositive "tol")

/-- The budgets, with defaults for those that are not given. -/
def Common.resolved (common : Common R.Number) (maxiter maxfev : ℕ) : Common R.Number :=
  ⟨some (common.maxiter.getD maxiter), some (common.maxfev.getD maxfev), common.tol⟩

/-- An optional tolerance that is finite and not negative. -/
def checkTolerance (option : String) (tolerance : Option R.Number) : Except InvalidInput Unit :=
  check (¬ tolerance.any fun value => !value.isFinite || value < 0) (.notFiniteNonnegative option)

namespace Bounds

variable (bounds : Bounds R n)

/-- **A point of the box.** -/
def Contains (x : Point R n) : Prop := ∀ i, bounds.lower i ≤ x i ∧ x i ≤ bounds.upper i

/-- A point with every fixed coordinate at its bound. -/
def AtFixed (x : Point R n) : Prop := ∀ i, (bounds.lower i).Equals (bounds.upper i) → (x i).Equals (bounds.lower i)

/-- A box with finite ends. -/
structure FiniteEnds : Prop where
  lower : ∀ i, (bounds.lower i).IsFinite
  upper : ∀ i, (bounds.upper i).IsFinite

variable {bounds} {x : Point R n} {i : Fin n} {v : R.Number}

/-- One coordinate moved within the box. -/
theorem Contains.update (h : bounds.Contains x) (hv : bounds.lower i ≤ v ∧ v ≤ bounds.upper i) :
    bounds.Contains (Function.update x i v) := by
  intro j
  by_cases hj : j = i
  · subst hj
    rwa [Function.update_self]
  · rw [Function.update_of_ne hj]
    exact h j

theorem Contains.atFixed (h : bounds.Contains x) : bounds.AtFixed x :=
  fun i hi => ⟨Number.le_trans (h i).2 hi.2, (h i).1⟩

theorem FiniteEnds.isFinite (h : bounds.FiniteEnds) (hx : bounds.Contains x) (i : Fin n) : (x i).IsFinite :=
  Number.isFinite_of_le (h.lower i) (h.upper i) (hx i).1 (hx i).2

end Bounds

/-! ## What valid problems are -/

variable {problem : Problem R n} {bounds : Bounds R n}

theorem Problem.validate_x0 (h : problem.validate = .ok ()) (i : Fin n) : (problem.x0 i).IsFinite :=
  Number.isFinite_iff.1 (check_eq_ok.1 (forM_finRange.1 (unit_bind.1 (check_bind.1 h).2).1 i))

theorem Problem.validate_bounds (h : problem.validate = .ok ()) (hbounds : problem.bounds = some bounds) (i : Fin n) :
    bounds.lower i ≤ bounds.upper i := by
  have h := (unit_bind.1 (check_bind.1 h).2).2
  rw [hbounds] at h
  obtain ⟨hlower, h⟩ := unit_bind.1 h
  obtain ⟨hupper, h⟩ := unit_bind.1 h
  have hlower := check_eq_ok.1 (forM_finRange.1 hlower i)
  have hupper := check_eq_ok.1 (forM_finRange.1 hupper i)
  exact Number.le_of_not_lt hupper hlower (check_bind.1 (forM_finRange.1 h i)).1

theorem Common.validate_eq_ok {common : Common R.Number} (h : common.validate = .ok ()) (maxiter maxfev : ℕ)
    (hiter : 0 < maxiter) (hfev : 0 < maxfev) : 0 < common.maxiter.getD maxiter ∧ 0 < common.maxfev.getD maxfev := by
  obtain ⟨hmaxiter, h⟩ := check_bind.1 h
  have hmaxfev := (check_bind.1 h).1
  constructor
  · cases hm : common.maxiter with
    | none   => exact hiter
    | some m =>
      rw [hm] at hmaxiter
      exact Nat.pos_of_ne_zero (fun h0 => hmaxiter (congrArg some h0))
  · cases hm : common.maxfev with
    | none   => exact hfev
    | some m =>
      rw [hm] at hmaxfev
      exact Nat.pos_of_ne_zero (fun h0 => hmaxfev (congrArg some h0))

end

/-! ## The accounting -/

namespace Counters

variable {S E N V : Type} {n : ℕ}

/-- **Every evaluation was of an admissible point, and the budgets were kept.** -/
structure Accounted (budget : Common V) (inside : (Fin n → N) → Prop) (c : Counters S E N V n) : Prop where
  inside  : ∀ e ∈ c.evaluations, inside e.1
  nfev    : c.nfev = c.evaluations.length
  maxfev  : ∀ m ∈ budget.maxfev, c.nfev ≤ m
  maxiter : ∀ m ∈ budget.maxiter, c.nit ≤ m

variable {budget : Common V} {inside : (Fin n → N) → Prop}

theorem accounted_new (s : S) : Accounted budget inside (new s : Counters S E N V n) :=
  ⟨fun _ he => absurd he List.not_mem_nil, rfl, fun m _ => Nat.zero_le m, fun m _ => Nat.zero_le m⟩

theorem Accounted.value {c : Counters S E N V n} (h : Accounted budget inside c) {x : Fin n → N} (hx : inside x)
    (hbudget : ∀ m ∈ budget.maxfev, c.nfev < m) (f : Except E V) (s : S) :
    Accounted budget inside
      { c with nfev := c.nfev + 1, objective := s, evaluations := c.evaluations ++ [(x, f)] } where
  inside e he := by
    rcases List.mem_append.1 he with he | he
    · exact h.inside e he
    · rwa [List.mem_singleton.1 he]
  nfev    := by rw [h.nfev, List.length_append, List.length_singleton]
  maxfev  := hbudget
  maxiter := h.maxiter

end Counters
end Optimize
end Itofin
