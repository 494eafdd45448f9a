import Mathlib.Algebra.BigOperators.Group.Finset.Basic
import Mathlib.Algebra.Order.Field.Basic
import Mathlib.Tactic.FieldSimp
import Mathlib.Tactic.Linarith
import Mathlib.Tactic.LinearCombination
import Mathlib.Tactic.Ring
/-!
# ThreePoint — a jump to one of three neighbouring points

Weights on three points `dx` apart.  They `Match` a mean `e` away from the middle point and a variance when they sum to one
and their first two moments are the ones asked for; two choices of the weights do.
-/
namespace ThreePoint

open Finset

/-- The weights of the points below, in the middle and above. -/
structure Weights (K : Type) where
  p1 : K
  p2 : K
  p3 : K

variable {K : Type} [Field K]

namespace Weights

/-- The weight of the point by its number. -/
def get (w : Weights K) : ℕ → K
  | 0 => w.p1
  | 1 => w.p2
  | _ => w.p3

/-- The moments are those of a mean `e` from the middle, with variance `v2`. -/
structure Match (w : Weights K) (dx e v2 : K) : Prop where
  total  : w.p1 + w.p2 + w.p3 = 1
  first  : (w.p3 - w.p1) * dx = e
  second : (w.p1 + w.p3) * dx ^ 2 = v2 + e ^ 2

/-- Weights for any spacing, which can be negative. -/
def general (dx e v2 : K) : Weights K :=
  ⟨(v2 + e * e - e * dx) / ((2 : ℕ) * (dx * dx)), 1 - (v2 + e * e) / (dx * dx),
    (v2 + e * e + e * dx) / ((2 : ℕ) * (dx * dx))⟩

/-- Weights for the spacing `v √3`. -/
def natural (sqrt3 v v2 e : K) : Weights K :=
  ⟨(1 + e * e / v2 - e * sqrt3 / v) / (6 : ℕ), ((2 : ℕ) - e * e / v2) / (3 : ℕ),
    (1 + e * e / v2 + e * sqrt3 / v) / (6 : ℕ)⟩

variable {w : Weights K} {dx e v2 v sqrt3 c : K}

theorem general_match [CharZero K] (hdx : dx ≠ 0) (e v2 : K) : (general dx e v2).Match dx e v2 where
  total  := by
    unfold general
    push_cast
    field_simp
    ring
  first  := by
    unfold general
    push_cast
    field_simp
    ring
  second := by
    unfold general
    push_cast
    field_simp
    ring

theorem natural_match [CharZero K] (hv : v * v = v2) (hv0 : v ≠ 0) (h3 : sqrt3 * sqrt3 = 3) (e : K) :
    (natural sqrt3 v v2 e).Match (v * sqrt3) e v2 where
  total  := by
    unfold natural
    push_cast
    ring
  first  := by
    have h6 : (6 : K) ≠ 0 := by norm_num
    unfold natural
    push_cast
    field_simp
    linear_combination 2 * e * h3
  second := by
    subst hv
    unfold natural
    push_cast
    field_simp
    linear_combination (2 * v ^ 2 + 2 * e ^ 2) * h3

/-- The mean of values that lie `dx` apart. -/
theorem Match.mean (h : w.Match dx e v2) {x : ℕ → K} (hx : ∀ b, b < 3 → x b = c + (b - 1) * dx) :
    ∑ b ∈ range 3, w.get b * x b = c + e := by
  rw [sum_range_succ, sum_range_succ, sum_range_one, hx 0 (by decide), hx 1 (by decide), hx 2 (by decide)]
  simp only [get]
  push_cast
  linear_combination c * h.total + h.first

theorem Match.variance (h : w.Match dx e v2) {x : ℕ → K} (hx : ∀ b, b < 3 → x b = c + (b - 1) * dx) :
    ∑ b ∈ range 3, w.get b * (x b - (c + e)) ^ 2 = v2 := by
  rw [sum_range_succ, sum_range_succ, sum_range_one, hx 0 (by decide), hx 1 (by decide), hx 2 (by decide)]
  simp only [get]
  push_cast
  linear_combination e ^ 2 * h.total - 2 * e * h.first + h.second

theorem Match.sum (h : w.Match dx e v2) : ∑ b ∈ range 3, w.get b = 1 := by
  rw [sum_range_succ, sum_range_succ, sum_range_one]
  exact h.total

/-- **The natural weights are positive** when the mean is nearest to the middle point. -/
theorem natural_nonneg [LinearOrder K] [IsStrictOrderedRing K] (hv : v * v = v2) (hv0 : 0 < v) (h3 : sqrt3 * sqrt3 = 3)
    (he : |e| ≤ v * sqrt3 / 2) :
    0 ≤ (natural sqrt3 v v2 e).p1 ∧ 0 ≤ (natural sqrt3 v v2 e).p2 ∧ 0 ≤ (natural sqrt3 v v2 e).p3 := by
  have hsquare : e * e / v2 = (e / v) ^ 2 := by
    rw [← hv]
    field_simp
  have hedge : e * sqrt3 / v = e / v * sqrt3 := (div_mul_eq_mul_div e v sqrt3).symm
  have hbound : (e / v) ^ 2 ≤ 3 / 4 := by
    have : |e / v| ≤ sqrt3 / 2 := by
      rw [abs_div, abs_of_pos hv0, div_le_iff₀ hv0]
      linarith
    have hsq := mul_self_le_mul_self (abs_nonneg _) this
    rw [abs_mul_abs_self] at hsq
    linarith [sq (e / v)]
  unfold natural
  rw [hsquare, hedge]
  push_cast
  refine ⟨?_, ?_, ?_⟩
  · have := sq_nonneg (e / v - sqrt3 / 2)
    apply div_nonneg _ (by norm_num)
    linarith
  · apply div_nonneg _ (by norm_num)
    linarith
  · have := sq_nonneg (e / v + sqrt3 / 2)
    apply div_nonneg _ (by norm_num)
    linarith

end Weights
end ThreePoint
