import Mathlib.Algebra.Order.Floor.Ring
import Mathlib.Algebra.Order.Ring.Abs
import Mathlib.Data.Rat.Floor
import Mathlib.Tactic.Linarith
import Mathlib.Tactic.Ring
/-!
# Comparison — closeness and rounding

`close` and `close_enough` of `math/comparison.rs` and the rounding of `f64`, in exact arithmetic.  Two reals are close
when they are the same or differ by 42 epsilons of both, and close enough when by 42 epsilons of either; where one of them
is zero, by less than the square of that.
-/
namespace Itofin.Math

variable {K : Type} [Field K] [LinearOrder K]

/-- `f64::EPSILON` -/
def epsilon : K := ((2 ^ 52 : ℕ) : K)⁻¹

def closeN (x y : K) (n : ℕ) : Bool :=
  if x = y then true
  else
    let diff := |x - y|
    let tolerance := (n : K) * epsilon
    if x = 0 ∨ y = 0 then diff < tolerance * tolerance else diff ≤ tolerance * |x| ∧ diff ≤ tolerance * |y|

def close (x y : K) : Bool := closeN x y 42

def closeEnoughN (x y : K) (n : ℕ) : Bool :=
  if x = y then true
  else
    let diff := |x - y|
    let tolerance := (n : K) * epsilon
    if x = 0 ∨ y = 0 then diff < tolerance * tolerance else diff ≤ tolerance * |x| ∨ diff ≤ tolerance * |y|

def closeEnough (x y : K) : Bool := closeEnoughN x y 42

/-- `x.round()`: the nearest integer, away from zero halfway between two. -/
def roundAway [FloorRing K] (x : K) : ℤ :=
  if 0 ≤ x then ⌊x + ((2 : ℕ) : K)⁻¹⌋ else -⌊-x + ((2 : ℕ) : K)⁻¹⌋

variable {x y : K}

theorem epsilon_pos [IsStrictOrderedRing K] : (0 : K) < epsilon := by
  unfold epsilon
  positivity

theorem ne_of_close_eq_false (h : ¬ close x y = true) : x ≠ y := fun he => h (if_pos he)

theorem closeEnough_self (x : K) : closeEnough x x = true := if_pos rfl

theorem closeEnough_comm (x y : K) : closeEnough x y = closeEnough y x := by
  unfold closeEnough closeEnoughN
  simp only [abs_sub_comm x y, eq_comm (a := x) (b := y), or_comm]

theorem closeEnough_of_close (h : close x y = true) : closeEnough x y = true := by
  unfold close closeN at h
  unfold closeEnough closeEnoughN
  split
  · rfl
  · rename_i hne
    rw [if_neg hne] at h
    dsimp only at h ⊢
    split
    · rename_i hzero
      rwa [if_pos hzero] at h
    · rename_i hzero
      rw [if_neg hzero] at h
      exact decide_eq_true (.inl (of_decide_eq_true h).1)

theorem ne_of_not_close (h : ¬ closeEnough x y = true) : x ≠ y := by
  rintro rfl
  exact h (closeEnough_self x)

/-- What is close to zero is below the square of 42 epsilons. -/
def zeroTolerance : K := ((42 : ℕ) : K) * epsilon * (((42 : ℕ) : K) * epsilon)

theorem not_close_zero_iff [IsStrictOrderedRing K] : ¬ close x 0 = true ↔ zeroTolerance ≤ |x| := by
  have hepsilon : (0 : K) < epsilon := epsilon_pos
  have hpos : (0 : K) < zeroTolerance := by
    unfold zeroTolerance
    positivity
  unfold close closeN
  by_cases hx : x = 0
  · rw [if_pos hx, hx, abs_zero]
    exact iff_of_false (fun h => h rfl) (not_le.2 hpos)
  · rw [if_neg hx, if_pos (.inr rfl), sub_zero, decide_eq_true_eq, not_lt]
    rfl

end Itofin.Math
