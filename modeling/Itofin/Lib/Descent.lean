import Mathlib.Algebra.Order.Field.Basic
import Mathlib.Algebra.Order.Group.Abs
import Mathlib.Order.Interval.Set.Basic
import Mathlib.Order.Monotone.Union
import Mathlib.Tactic.FieldSimp
import Mathlib.Tactic.Linarith
import Mathlib.Tactic.Positivity
import Mathlib.Tactic.Ring
/-!
# Descent — the first minimum of a function of the time

A function of the times from 0 on that falls strictly up to a time, and does not fall right after it, has its first minimum
there (`FirstMinimum.of_strictAntiOn`).  A quadratic with a positive curvature falls up to its minimizer and does not fall
after it.
-/
namespace Descent

variable {K : Type} [Field K] [LinearOrder K]

/-- No time near has a smaller value. -/
def LocalMinimum (φ : K → K) (t : K) : Prop := ∃ ε, 0 < ε ∧ ∀ u, 0 ≤ u → |u - t| < ε → φ t ≤ φ u

/-- **The first local minimum.** -/
structure FirstMinimum (φ : K → K) (t : K) : Prop where
  nonneg  : 0 ≤ t
  minimum : LocalMinimum φ t
  first   : ∀ s, 0 ≤ s → s < t → ¬ LocalMinimum φ s

/-- From `τ` to `t` the function is a quadratic of the time since `τ`. -/
def Quadratic (φ : K → K) (τ t slope curvature : K) : Prop :=
  ∀ u, τ ≤ u → u ≤ t → φ u = φ τ + (u - τ) * slope + (u - τ) * (u - τ) / (2 : ℕ) * curvature

variable [IsStrictOrderedRing K] {φ : K → K} {τ s t t' slope curvature : K}

theorem FirstMinimum.of_strictAntiOn (ht : 0 ≤ t) (hbefore : StrictAntiOn φ (Set.Icc 0 t)) (htt' : t < t')
    (hafter : ∀ u, t ≤ u → u ≤ t' → φ t ≤ φ u) : FirstMinimum φ t where
  nonneg := ht
  minimum := by
    refine ⟨t' - t, sub_pos.2 htt', fun u hu hnear => ?_⟩
    rcases le_total u t with hle | hle
    · exact hbefore.antitoneOn ⟨hu, hle⟩ ⟨ht, le_rfl⟩ hle
    · rw [abs_of_nonneg (sub_nonneg.2 hle)] at hnear
      exact hafter u hle (by linarith)
  first s hs hst := by
    rintro ⟨ε, hε, hmin⟩
    have hstep : 0 < min (ε / 2) (t - s) := lt_min (by positivity) (sub_pos.2 hst)
    have hu : s + min (ε / 2) (t - s) ≤ t := by linarith [min_le_right (ε / 2) (t - s)]
    have hlower : φ (s + min (ε / 2) (t - s)) < φ s :=
      hbefore ⟨hs, hst.le⟩ ⟨by linarith, hu⟩ (by linarith)
    refine absurd (hmin _ (by linarith) ?_) (not_le.2 hlower)
    rw [add_sub_cancel_left, abs_of_pos hstep]
    linarith [min_le_left (ε / 2) (t - s)]

omit [Field K] [IsStrictOrderedRing K] in
theorem strictAntiOn_append (h : StrictAntiOn φ (Set.Icc s τ)) (h' : StrictAntiOn φ (Set.Icc τ t)) (hs : s ≤ τ) (ht : τ ≤ t) :
    StrictAntiOn φ (Set.Icc s t) := by
  rw [← Set.Icc_union_Icc_eq_Icc hs ht]
  exact h.union h' (isGreatest_Icc hs) (isLeast_Icc ht)

/-- **Up to its minimizer a quadratic falls.** -/
theorem Quadratic.strictAntiOn (h : Quadratic φ τ t slope curvature) (hcurvature : 0 < curvature)
    (ht : t - τ ≤ -slope / curvature) : StrictAntiOn φ (Set.Icc τ t) := by
  rintro u ⟨hτu, hut⟩ v ⟨hτv, hvt⟩ huv
  rw [h u hτu hut, h v hτv hvt]
  have hv : (v - τ) * curvature ≤ -slope := (le_div_iff₀ hcurvature).1 (by linarith)
  have hu : (u - τ) * curvature < -slope := lt_of_lt_of_le (mul_lt_mul_of_pos_right (by linarith) hcurvature) hv
  have hgap : (v - u) * (slope + ((v - τ) + (u - τ)) / 2 * curvature) < 0 :=
    mul_neg_of_pos_of_neg (by linarith) (by linarith)
  push_cast
  linarith

theorem Quadratic.le_of_nonneg (h : Quadratic φ τ t slope curvature) (hcurvature : 0 ≤ curvature) (hslope : 0 ≤ slope) {u : K}
    (hu : τ ≤ u) (hut : u ≤ t) : φ τ ≤ φ u := by
  rw [h u hu hut, add_assoc]
  have hu : 0 ≤ u - τ := sub_nonneg.2 hu
  exact le_add_of_nonneg_right (by positivity)

theorem Quadratic.le_of_minimizer (h : Quadratic φ τ t slope curvature) (hcurvature : 0 < curvature) (hslope : slope ≤ 0) {u : K}
    (hu : τ + -slope / curvature ≤ u) (hut : u ≤ t) : φ (τ + -slope / curvature) ≤ φ u := by
  have hmin : 0 ≤ -slope / curvature := div_nonneg (neg_nonneg.2 hslope) hcurvature.le
  rw [h _ (by linarith) (hu.trans hut), h u (by linarith) hut, add_sub_cancel_left]
  have hproduct : -slope / curvature * curvature = -slope := div_mul_cancel₀ _ hcurvature.ne'
  generalize -slope / curvature = m at *
  have hgap : 0 ≤ (u - τ - m) * (slope + ((u - τ) + m) / 2 * curvature) := by
    refine mul_nonneg (by linarith) ?_
    have : m * curvature ≤ ((u - τ) + m) / 2 * curvature := mul_le_mul_of_nonneg_right (by linarith) hcurvature.le
    linarith
  push_cast
  linarith

end Descent
