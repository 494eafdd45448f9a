import Mathlib.Algebra.BigOperators.Intervals
import Mathlib.Algebra.Order.Field.Basic
import Mathlib.LinearAlgebra.Matrix.Symmetric
import Mathlib.Tactic.FieldSimp
import Mathlib.Tactic.LinearCombination
import Mathlib.Tactic.Module
/-!
# Bfgs — the rank-two recurrence and its two products

The matrix of a quasi-Newton method starts as a multiple of the identity and takes one rank-two update for each pair of a
step and the change of the gradient over it.  It stays positive definite as long as the pairs have positive products
(`positiveDefinite_dense`).  Its product with a vector comes from one system of equations in the products of the pairs
(`dense_mulVec_compact`); a vector whose product is known goes through an update by a step of the two-loop recursion
(`update_mulVec_twoLoop`).  The inverse takes a rank-two update of its own, which a positive product keeps positive definite
too (`PositiveDefinite.inverseUpdate`).
-/
namespace Bfgs

open Matrix

variable {K ι : Type} [Fintype ι]

section

variable [Field K] [DecidableEq ι]

/-- The rank-two update. -/
def update (B : Matrix ι ι K) (s y : ι → K) : Matrix ι ι K := fun i j =>
  B i j + (y i * y j / (s ⬝ᵥ y) - (B *ᵥ s) i * (B *ᵥ s) j / (s ⬝ᵥ B *ᵥ s))

/-- `m` updates of a multiple of the identity, oldest first. -/
def dense (θ : K) (s y : ℕ → ι → K) : ℕ → Matrix ι ι K
  | 0     => θ • 1
  | m + 1 => update (dense θ s y m) (s m) (y m)

end

section

variable [Field K] {B : Matrix ι ι K} {s y v : ι → K}

theorem update_mulVec (B : Matrix ι ι K) (s y v : ι → K) : update B s y *ᵥ v =
    B *ᵥ v + ((y ⬝ᵥ v / (s ⬝ᵥ y)) • y - ((B *ᵥ s) ⬝ᵥ v / (s ⬝ᵥ B *ᵥ s)) • (B *ᵥ s)) := by
  have hupdate : update B s y = B + ((s ⬝ᵥ y)⁻¹ • vecMulVec y y - (s ⬝ᵥ B *ᵥ s)⁻¹ • vecMulVec (B *ᵥ s) (B *ᵥ s)) := by
    funext i j
    simp only [update, Matrix.add_apply, Matrix.sub_apply, Matrix.smul_apply, vecMulVec_apply, smul_eq_mul]
    ring
  rw [hupdate, add_mulVec, sub_mulVec, smul_mulVec, smul_mulVec, vecMulVec_mulVec, vecMulVec_mulVec]
  simp only [op_smul_eq_smul, smul_smul]
  congr 3 <;> ring

theorem dotProduct_mulVec_comm (h : B.IsSymm) (u v : ι → K) : (B *ᵥ u) ⬝ᵥ v = u ⬝ᵥ B *ᵥ v := by
  rw [dotProduct_mulVec, ← mulVec_transpose, h.eq]

theorem update_symm (h : B.IsSymm) : (update B s y).IsSymm := by
  refine IsSymm.ext fun i j => ?_
  have hij := h.apply i j
  rw [update, update, hij]
  ring

/-- **A step of the compact product.**  Where `s` is orthogonal to the product with `v`, the update changes the product
with `v + p s` along `y` only. -/
theorem update_mulVec_compact (h : B.IsSymm) (hs : s ⬝ᵥ B *ᵥ s ≠ 0) (horth : s ⬝ᵥ B *ᵥ v = 0) (p : K) :
    update B s y *ᵥ (v + p • s) = B *ᵥ v + (y ⬝ᵥ (v + p • s) / (s ⬝ᵥ y)) • y := by
  have hcoefficient : (B *ᵥ s) ⬝ᵥ (v + p • s) / (s ⬝ᵥ B *ᵥ s) = p := by
    rw [dotProduct_add, dotProduct_smul, dotProduct_mulVec_comm h, dotProduct_mulVec_comm h, horth, zero_add, smul_eq_mul,
      mul_div_cancel_right₀ p hs]
  rw [update_mulVec, hcoefficient, mulVec_add, mulVec_smul]
  module

/-- **A step of the two-loop recursion.** -/
theorem update_mulVec_twoLoop (h : B.IsSymm) (hs : s ⬝ᵥ B *ᵥ s ≠ 0) (hsy : s ⬝ᵥ y ≠ 0) {q r : ι → K}
    (hr : B *ᵥ r = q - (s ⬝ᵥ q / (s ⬝ᵥ y)) • y) :
    update B s y *ᵥ (r + (s ⬝ᵥ q / (s ⬝ᵥ y) - y ⬝ᵥ r / (s ⬝ᵥ y)) • s) = q := by
  have horth : s ⬝ᵥ B *ᵥ r = 0 := by
    rw [hr, dotProduct_sub, dotProduct_smul, smul_eq_mul, div_mul_cancel₀ _ hsy, sub_self]
  have hcoefficient : y ⬝ᵥ (r + (s ⬝ᵥ q / (s ⬝ᵥ y) - y ⬝ᵥ r / (s ⬝ᵥ y)) • s) / (s ⬝ᵥ y) = s ⬝ᵥ q / (s ⬝ᵥ y) := by
    rw [dotProduct_add, dotProduct_smul, smul_eq_mul, dotProduct_comm y s, sub_mul, div_mul_cancel₀ _ hsy,
      div_mul_cancel₀ _ hsy]
    ring
  rw [update_mulVec_compact h hs horth, hcoefficient, hr]
  module

end

/-! ## Positive definite -/

section

variable [Field K] [LinearOrder K]

structure PositiveDefinite (B : Matrix ι ι K) : Prop where
  symm     : B.IsSymm
  positive : ∀ v, v ≠ 0 → 0 < v ⬝ᵥ B *ᵥ v

variable {B : Matrix ι ι K} {s y v : ι → K}

theorem ne_zero_of_dotProduct (h : 0 < s ⬝ᵥ y) : s ≠ 0 := by
  rintro rfl
  rw [zero_dotProduct] at h
  exact lt_irrefl 0 h

theorem PositiveDefinite.nonneg (h : PositiveDefinite B) (v : ι → K) : 0 ≤ v ⬝ᵥ B *ᵥ v := by
  by_cases hv : v = 0
  · rw [hv, zero_dotProduct]
  · exact (h.positive v hv).le

theorem PositiveDefinite.injective (h : PositiveDefinite B) : Function.Injective (B *ᵥ ·) := by
  intro u v huv
  by_contra hne
  have hzero : B *ᵥ (u - v) = 0 := by rw [mulVec_sub, sub_eq_zero.2 huv]
  have hpos := h.positive (u - v) (sub_ne_zero.2 hne)
  rw [hzero, dotProduct_zero] at hpos
  exact lt_irrefl 0 hpos

variable [IsStrictOrderedRing K]

theorem positiveDefinite_smul_one [DecidableEq ι] {θ : K} (h : 0 < θ) : PositiveDefinite (θ • (1 : Matrix ι ι K)) where
  symm         := isSymm_one.smul θ
  positive v hv := by
    rw [smul_mulVec, one_mulVec, dotProduct_smul, smul_eq_mul]
    apply mul_pos h
    obtain ⟨i, hi⟩ := Function.ne_iff.1 hv
    exact Finset.sum_pos' (fun j _ => mul_self_nonneg (v j)) ⟨i, Finset.mem_univ i, mul_self_pos.2 hi⟩

/-- **An update with a positive product** leaves the matrix positive definite: along `s` the product with `y` counts, off
it what was there before. -/
theorem PositiveDefinite.update (h : PositiveDefinite B) (hsy : 0 < s ⬝ᵥ y) : PositiveDefinite (Bfgs.update B s y) where
  symm          := update_symm h.symm
  positive v hv := by
    have hs : 0 < s ⬝ᵥ B *ᵥ s := h.positive s (ne_zero_of_dotProduct hsy)
    -- `v` is `z`, on which the old product with `s` vanishes, and a multiple of `s`
    let c : K := s ⬝ᵥ B *ᵥ v / (s ⬝ᵥ B *ᵥ s)
    let z : ι → K := v - c • s
    have hz : s ⬝ᵥ B *ᵥ z = 0 := by
      rw [mulVec_sub, mulVec_smul, dotProduct_sub, dotProduct_smul, smul_eq_mul, div_mul_cancel₀ _ hs.ne', sub_self]
    have hv' : v = z + c • s := (sub_add_cancel v (c • s)).symm
    have hzs : (c • s) ⬝ᵥ B *ᵥ z = 0 := by rw [smul_dotProduct, hz, smul_zero]
    have hproduct : v ⬝ᵥ Bfgs.update B s y *ᵥ v = z ⬝ᵥ B *ᵥ z + (y ⬝ᵥ v) * (y ⬝ᵥ v) / (s ⬝ᵥ y) := by
      have hmul := update_mulVec_compact (y := y) h.symm hs.ne' hz c
      rw [← hv'] at hmul
      have hleft : v ⬝ᵥ B *ᵥ z = z ⬝ᵥ B *ᵥ z := by
        calc v ⬝ᵥ B *ᵥ z = (z + c • s) ⬝ᵥ B *ᵥ z := by rw [← hv']
          _ = z ⬝ᵥ B *ᵥ z := by rw [add_dotProduct, hzs, add_zero]
      rw [hmul, dotProduct_add, dotProduct_smul, smul_eq_mul, hleft, dotProduct_comm v y, div_mul_eq_mul_div]
    rw [hproduct]
    by_cases hz0 : z = 0
    · have hvs : v = c • s := by rw [hv', hz0, zero_add]
      have hc : c ≠ 0 := by
        intro hc
        rw [hc, zero_smul] at hvs
        exact hv hvs
      have hyv : y ⬝ᵥ v = c * (s ⬝ᵥ y) := by rw [hvs, dotProduct_smul, smul_eq_mul, dotProduct_comm]
      rw [hz0, zero_dotProduct, zero_add, hyv]
      exact div_pos (mul_self_pos.2 (mul_ne_zero hc hsy.ne')) hsy
    · exact add_pos_of_pos_of_nonneg (h.positive z hz0) (div_nonneg (mul_self_nonneg _) hsy.le)

end

/-! ## The inverse -/

section

variable [Field K]

/-- The rank-two update of the inverse. -/
def inverseUpdate (H : Matrix ι ι K) (s y : ι → K) : Matrix ι ι K :=
  let rho := 1 / (s ⬝ᵥ y)
  let hy := H *ᵥ y
  let shift := rho * rho * (y ⬝ᵥ hy) + rho
  fun i j => H i j + (shift * s i * s j - rho * (s i * hy j + hy i * s j))

variable {H : Matrix ι ι K} {s y v : ι → K}

theorem inverseUpdate_symm (h : H.IsSymm) : (inverseUpdate H s y).IsSymm := by
  refine IsSymm.ext fun i j => ?_
  have hij := h.apply i j
  simp only [inverseUpdate, hij]
  ring

theorem inverseUpdate_mulVec (H : Matrix ι ι K) (s y v : ι → K) : inverseUpdate H s y *ᵥ v =
    H *ᵥ v + (((1 / (s ⬝ᵥ y)) * (1 / (s ⬝ᵥ y)) * (y ⬝ᵥ H *ᵥ y) + 1 / (s ⬝ᵥ y)) * (s ⬝ᵥ v)) • s -
      (1 / (s ⬝ᵥ y)) • (((H *ᵥ y) ⬝ᵥ v) • s + (s ⬝ᵥ v) • (H *ᵥ y)) := by
  have hupdate : inverseUpdate H s y =
      H + (((1 / (s ⬝ᵥ y)) * (1 / (s ⬝ᵥ y)) * (y ⬝ᵥ H *ᵥ y) + 1 / (s ⬝ᵥ y)) • vecMulVec s s -
        (1 / (s ⬝ᵥ y)) • (vecMulVec s (H *ᵥ y) + vecMulVec (H *ᵥ y) s)) := by
    funext i j
    simp only [inverseUpdate, Matrix.add_apply, Matrix.sub_apply, Matrix.smul_apply, vecMulVec_apply, smul_eq_mul]
    ring
  rw [hupdate, add_mulVec, sub_mulVec, smul_mulVec, smul_mulVec, add_mulVec, vecMulVec_mulVec, vecMulVec_mulVec, vecMulVec_mulVec]
  simp only [op_smul_eq_smul]
  module

/-- **The secant equation.** -/
theorem inverseUpdate_secant (h : H.IsSymm) (hsy : s ⬝ᵥ y ≠ 0) : inverseUpdate H s y *ᵥ y = s := by
  rw [inverseUpdate_mulVec, dotProduct_mulVec_comm h]
  funext i
  simp only [Pi.add_apply, Pi.sub_apply, Pi.smul_apply, smul_eq_mul]
  field_simp
  ring

/-- **The product of an updated inverse** is the one of `v` less a multiple of `y`, and what the step adds. -/
theorem dotProduct_inverseUpdate (h : H.IsSymm) (hsy : s ⬝ᵥ y ≠ 0) (v : ι → K) :
    v ⬝ᵥ inverseUpdate H s y *ᵥ v = (v - (s ⬝ᵥ v / (s ⬝ᵥ y)) • y) ⬝ᵥ H *ᵥ (v - (s ⬝ᵥ v / (s ⬝ᵥ y)) • y) +
      (s ⬝ᵥ v) * (s ⬝ᵥ v) / (s ⬝ᵥ y) := by
  rw [inverseUpdate_mulVec, mulVec_sub, mulVec_smul]
  simp only [dotProduct_add, dotProduct_sub, dotProduct_smul, sub_dotProduct, smul_dotProduct, smul_eq_mul]
  rw [dotProduct_mulVec_comm h, dotProduct_comm v s, ← dotProduct_mulVec_comm h v y, dotProduct_comm (H *ᵥ v) y]
  field_simp
  ring

end

section

variable [Field K] [LinearOrder K] [IsStrictOrderedRing K] {H : Matrix ι ι K} {s y : ι → K}

/-- **An update with a positive product** leaves the inverse positive definite. -/
theorem PositiveDefinite.inverseUpdate (h : PositiveDefinite H) (hsy : 0 < s ⬝ᵥ y) :
    PositiveDefinite (Bfgs.inverseUpdate H s y) where
  symm          := inverseUpdate_symm h.symm
  positive v hv := by
    rw [dotProduct_inverseUpdate h.symm hsy.ne']
    by_cases hz : v - (s ⬝ᵥ v / (s ⬝ᵥ y)) • y = 0
    · have hsv : s ⬝ᵥ v ≠ 0 := by
        intro hsv
        rw [hsv, zero_div, zero_smul, sub_zero] at hz
        exact hv hz
      rw [hz, zero_dotProduct, zero_add]
      exact div_pos (mul_self_pos.2 hsv) hsy
    · exact add_pos_of_pos_of_nonneg (h.positive _ hz) (div_nonneg (mul_self_nonneg _) hsy.le)

end

/-! ## A sequence of updates -/

section

variable [Field K] [LinearOrder K] [IsStrictOrderedRing K] [DecidableEq ι] {θ : K} {s y : ℕ → ι → K}

theorem positiveDefinite_dense (hθ : 0 < θ) : ∀ {m : ℕ}, (∀ i < m, 0 < s i ⬝ᵥ y i) → PositiveDefinite (dense θ s y m)
  | 0, _     => positiveDefinite_smul_one hθ
  | m + 1, h => (positiveDefinite_dense hθ fun i hi => h i (Nat.lt_succ_of_lt hi)).update (h m (Nat.lt_succ_self m))

/-- **The compact product.**  The weights solve the block system of the products of the pairs. -/
theorem dense_mulVec_compact (hθ : 0 < θ) {m : ℕ} (hsy : ∀ i < m, 0 < s i ⬝ᵥ y i) {v : ι → K} {p q : ℕ → K}
    (htop : ∀ i < m, -(s i ⬝ᵥ y i) * p i + ∑ k ∈ Finset.Ico (i + 1) m, (s k ⬝ᵥ y i) * q k = y i ⬝ᵥ v)
    (hbottom : ∀ i < m, ∑ j ∈ Finset.range i, (s i ⬝ᵥ y j) * p j + ∑ k ∈ Finset.range m, θ * (s i ⬝ᵥ s k) * q k =
      θ * (s i ⬝ᵥ v)) :
    dense θ s y m *ᵥ v = θ • (v - ∑ k ∈ Finset.range m, q k • s k) - ∑ j ∈ Finset.range m, p j • y j := by
  -- the product of the matrix of the first `k` pairs with `v` less the rest of the steps
  have hpartial : ∀ k ≤ m, dense θ s y k *ᵥ (v - ∑ i ∈ Finset.Ico k m, q i • s i) =
      θ • (v - ∑ i ∈ Finset.range m, q i • s i) - ∑ j ∈ Finset.range k, p j • y j := by
    intro k hk
    induction k with
    | zero      =>
      rw [dense, smul_mulVec, one_mulVec, Finset.range_zero, Finset.sum_empty, sub_zero, Finset.range_eq_Ico]
    | succ k ih =>
      have ih := ih (Nat.le_of_succ_le hk)
      have hpos := positiveDefinite_dense (s := s) (y := y) hθ (m := k) fun i hi => hsy i (by omega)
      have hk' := hsy k hk
      have horth : s k ⬝ᵥ dense θ s y k *ᵥ (v - ∑ i ∈ Finset.Ico k m, q i • s i) = 0 := by
        have hrow := hbottom k hk
        rw [ih, dotProduct_sub, dotProduct_smul, dotProduct_sub, dotProduct_sum, dotProduct_sum]
        simp only [dotProduct_smul, smul_eq_mul, mul_sub, Finset.mul_sum]
        have hp : ∑ j ∈ Finset.range k, p j * (s k ⬝ᵥ y j) = ∑ j ∈ Finset.range k, (s k ⬝ᵥ y j) * p j :=
          Finset.sum_congr rfl fun j _ => mul_comm _ _
        have hq : ∑ i ∈ Finset.range m, θ * (q i * (s k ⬝ᵥ s i)) = ∑ i ∈ Finset.range m, θ * (s k ⬝ᵥ s i) * q i :=
          Finset.sum_congr rfl fun i _ => by ring
        rw [hp, hq]
        linear_combination -hrow
      have hsplit : v - ∑ i ∈ Finset.Ico (k + 1) m, q i • s i = (v - ∑ i ∈ Finset.Ico k m, q i • s i) + q k • s k := by
        rw [Finset.sum_eq_sum_Ico_succ_bot hk]
        module
      have hcoefficient : y k ⬝ᵥ (v - ∑ i ∈ Finset.Ico (k + 1) m, q i • s i) / (s k ⬝ᵥ y k) = -p k := by
        have hrow := htop k hk
        rw [div_eq_iff hk'.ne', dotProduct_sub, dotProduct_sum]
        simp only [dotProduct_smul, smul_eq_mul]
        have hq : ∑ i ∈ Finset.Ico (k + 1) m, q i * (y k ⬝ᵥ s i) = ∑ i ∈ Finset.Ico (k + 1) m, (s i ⬝ᵥ y k) * q i :=
          Finset.sum_congr rfl fun i _ => by rw [dotProduct_comm, mul_comm]
        rw [hq]
        linear_combination -hrow
      have hmul := update_mulVec_compact (y := y k) hpos.symm (hpos.positive (s k) (ne_zero_of_dotProduct hk')).ne' horth (q k)
      rw [← hsplit, hcoefficient, ih] at hmul
      rw [dense, hmul, Finset.sum_range_succ]
      module
  have hlast := hpartial m le_rfl
  rwa [Finset.Ico_self, Finset.sum_empty, sub_zero] at hlast

end

end Bfgs
