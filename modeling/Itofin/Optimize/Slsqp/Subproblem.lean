import Itofin.Optimize.Lsq.Lsei
import Itofin.Optimize.Objective
import Itofin.Optimize.Slsqp.Hessian
/-!
# Subproblem — the quadratic model of an SQP iteration

`slsqp/subproblem.rs`, in exact arithmetic: a step in a quadratic model under the linearized constraints and the bounds, as a
least-squares problem, relaxed by one more variable where that has no solution.

The bounds are rows of either problem, so a step is within them (`solve_within`).
-/
namespace Itofin
namespace Optimize
namespace Slsqp

open LeastSquares (Mat Multipliers)
open Lsq (Numbers lsei lsi extend)

/-- The first-order model of the problem at the current iterate; a step bound is `none` where it is open. -/
structure Linearization (K : Type) (n : ℕ) where
  gradient : Fin n → K
  values   : List K
  jacobian : List (Fin n → K)
  kinds    : List ConstraintKind
  lower    : Fin n → Option K
  upper    : Fin n → Option K

/-- A solution: the direction, a multiplier for each constraint, and the relaxation. -/
structure Step (K : Type) (n : ℕ) where
  d           : Fin n → K
  multipliers : List K
  relaxation  : K

variable {K : Type} [Field K] [LinearOrder K] {n : ℕ}

/-! ## Rows -/

abbrev Rows (K : Type) : Type := List ((ℕ → K) × K)

namespace Rows

def view (cols : ℕ) (rows : Rows K) : Mat K := ⟨rows.length, cols, fun i => (rows.getD i (0, 0)).1⟩

def rhs (rows : Rows K) : ℕ → K := fun i => (rows.getD i (0, 0)).2

end Rows

/-- A row of the buffer, zero past its end. -/
def pad (v : Fin n → K) : ℕ → K := fun j => if h : j < n then v ⟨j, h⟩ else 0

def square (l : Hessian K n) : ℕ → ℕ → K := fun i => pad (fun j => pad (fun a => l a j) i)

def unit (i : ℕ) (sign : K) : ℕ → K := Function.update 0 i sign

/-- The bound rows on the finite sides. -/
def boundRows (lower upper : Fin n → Option K) : Rows K :=
  (List.finRange n).flatMap (fun i =>
    ((lower i).map (fun l => (unit i 1, l))).toList ++ ((upper i).map (fun u => (unit i (-1), -u))).toList)

/-! ## The two problems -/

namespace Linearization

variable (model : Linearization K n)

/-- The constraints: the form of each, its value and its row of the Jacobian. -/
def constraints : List (ConstraintKind × K × (Fin n → K)) := model.kinds.zip (model.values.zip model.jacobian)

def rows (kind : ConstraintKind) : Rows K :=
  (model.constraints.filter (fun c => c.1 = kind)).map (fun c => (pad c.2.2, -c.2.1))

/-- The rows of the relaxed constraints: an equality is a pair of inequalities. -/
def relaxedRows : Rows K :=
  model.constraints.flatMap (fun (kind, c, a) => match kind with
    | .eq   => [(Function.update (pad a) n (-c), -c), (Function.update (-pad a) n c, c)]
    | .ineq => [(Function.update (pad a) n (if c < 0 then -c else 0), -c)])

end Linearization

def relaxationWeight : K := (10 ^ 6 : ℕ)

/-- A multiplier for each constraint, in constraint order: those of the equalities start at one place, those of the
inequalities at another. -/
def pick (multipliers : ℕ → K) : ℕ → ℕ → List ConstraintKind → List K
  | _, _, []               => []
  | eq, next, .eq :: kinds   => multipliers eq :: pick multipliers (eq + 1) next kinds
  | eq, next, .ineq :: kinds => multipliers next :: pick multipliers eq (next + 1) kinds

/-- And where an equality has two. -/
def pickPairs (multipliers : ℕ → K) : ℕ → List ConstraintKind → List K
  | _, []               => []
  | next, .eq :: kinds   => (multipliers next - multipliers (next + 1)) :: pickPairs multipliers (next + 2) kinds
  | next, .ineq :: kinds => multipliers next :: pickPairs multipliers (next + 1) kinds

variable (N : Numbers K) (l : Hessian K n) (f : ℕ → K) (model : Linearization K n)

def exact : Except Lsq.Failure (Step K n) := do
  let e : Mat K := ⟨n, n, fun i j => square l j i⟩
  let equalities := model.rows .eq
  let inequalities := model.rows .ineq ++ boundRows model.lower model.upper
  let solution ← lsei N (Rows.view n equalities) (Rows.rhs equalities) e f (Rows.view n inequalities) (Rows.rhs inequalities)
  return ⟨fun i => solution.x i, pick solution.multipliers 0 equalities.length model.kinds, 0⟩

def relaxedConstraints : Rows K :=
  model.relaxedRows ++ boundRows model.lower model.upper ++ [(unit n 1, 0), (unit n (-1), -1)]

/-- The relaxed subproblem in the step and the relaxation. -/
def relaxed : Except Lsq.Failure (Step K n) := do
  let cols := n + 1
  let e : Mat K := ⟨cols, cols, fun i j =>
    if i = n ∧ j = n then N.sqrt relaxationWeight else if i ≤ j then square l j i else 0⟩
  let g := relaxedConstraints model
  let solution ← lsi N e (extend n f 0) (Rows.view cols g) (Rows.rhs g)
  return ⟨fun i => solution.x i, pickPairs solution.multipliers 0 model.kinds, min 1 (max 0 (solution.x n))⟩

/-- Solves the subproblem for the factor of the Hessian. -/
def solve : Except Lsq.Failure (Step K n) :=
  let w := Elimination.forwardSolve (fun j i => square l i j) n (pad model.gradient)
  match exact N l (-w) model with
  | .ok step => .ok step
  | .error _ => relaxed N l (-w) model

/-! ## Within the bounds -/

variable {N l f model} {step : Step K n}

omit [LinearOrder K] in
theorem unit_sum {cols i : ℕ} (hi : i < cols) (sign : K) (x : ℕ → K) :
    ∑ j ∈ Finset.range cols, unit i sign j * x j = sign * x i := by
  rw [Finset.sum_eq_single_of_mem i (Finset.mem_range.2 hi) (fun j _ hj => ?_)]
  · rw [unit, Function.update_self]
  · rw [unit, Function.update_of_ne hj, Pi.zero_apply, zero_mul]

theorem row_le {rows : Rows K} {cols : ℕ} {x : ℕ → K}
    (h : ∀ i < (Rows.view cols rows).rows, Rows.rhs rows i ≤ (Rows.view cols rows).mulVec x i) {row : (ℕ → K) × K}
    (hrow : row ∈ rows) : row.2 ≤ ∑ j ∈ Finset.range cols, row.1 j * x j := by
  obtain ⟨i, hi, rfl⟩ := List.mem_iff_getElem.1 hrow
  have := h i hi
  rw [Rows.rhs, Mat.mulVec] at this
  simpa only [Rows.view, List.getD_eq_getElem _ _ hi] using this

omit [LinearOrder K] in
theorem mem_boundRows_lower {lower upper : Fin n → Option K} {i : Fin n} {a : K} (h : a ∈ lower i) :
    (unit i 1, a) ∈ boundRows lower upper := by
  refine List.mem_flatMap.2 ⟨i, List.mem_finRange i, List.mem_append_left _ ?_⟩
  rw [Option.mem_def.1 h]
  exact List.mem_singleton_self _

omit [LinearOrder K] in
theorem mem_boundRows_upper {lower upper : Fin n → Option K} {i : Fin n} {a : K} (h : a ∈ upper i) :
    (unit i (-1), -a) ∈ boundRows lower upper := by
  refine List.mem_flatMap.2 ⟨i, List.mem_finRange i, List.mem_append_right _ ?_⟩
  rw [Option.mem_def.1 h]
  exact List.mem_singleton_self _

def Within (model : Linearization K n) (d : Fin n → K) : Prop :=
  ∀ i, (∀ a ∈ model.lower i, a ≤ d i) ∧ ∀ a ∈ model.upper i, d i ≤ a

variable [IsStrictOrderedRing K]

/-- **The bound rows keep a solution within the bounds.** -/
theorem within_of_rows {rows : Rows K} {cols : ℕ} {x : ℕ → K} (hcols : n ≤ cols)
    (hrows : boundRows model.lower model.upper ⊆ rows)
    (h : ∀ i < (Rows.view cols rows).rows, Rows.rhs rows i ≤ (Rows.view cols rows).mulVec x i) :
    Within model (fun i => x i) := by
  refine fun i => ⟨fun a ha => ?_, fun a ha => ?_⟩
  · have := row_le h (hrows (mem_boundRows_lower ha))
    rwa [unit_sum (i.isLt.trans_le hcols), one_mul] at this
  · have := row_le h (hrows (mem_boundRows_upper ha))
    rw [unit_sum (i.isLt.trans_le hcols), neg_one_mul] at this
    exact neg_le_neg_iff.1 this

theorem exact_within (hN : N.Exact) (h : exact N l f model = .ok step) : Within model step.d := by
  obtain ⟨solution, hsolution, hstep⟩ := Effect.bind_eq_ok.1 h
  have hd : (fun i : Fin n => solution.x i) = step.d := congrArg Step.d (Except.ok.inj hstep)
  rw [← hd]
  obtain ⟨hstationary, -⟩ := Lsq.lsei_spec hN (by rfl) (by rfl) hsolution
  exact within_of_rows le_rfl (List.subset_append_right _ _) hstationary.inequality

theorem relaxed_within (hN : N.Exact) (h : relaxed N l f model = .ok step) : Within model step.d := by
  obtain ⟨solution, hsolution, hstep⟩ := Effect.bind_eq_ok.1 h
  have hd : (fun i : Fin n => solution.x i) = step.d := congrArg Step.d (Except.ok.inj hstep)
  have hrows : boundRows model.lower model.upper ⊆ relaxedConstraints model := fun _ hr =>
    List.mem_append_left _ (List.mem_append_right _ hr)
  rw [← hd]
  obtain ⟨hmultipliers, -⟩ := Lsq.lsi_spec hN (by rfl) hsolution
  exact within_of_rows (Nat.le_succ n) hrows hmultipliers.inequality

/-- **A step is within its bounds**, relaxed or not. -/
theorem solve_within (hN : N.Exact) (h : solve N l model = .ok step) : Within model step.d := by
  rw [solve] at h
  split at h
  · rename_i hexact
    cases h
    exact exact_within hN hexact
  · exact relaxed_within hN h

end Slsqp
end Optimize
end Itofin
