import Itofin.Lib.Bfgs
/-!
# Cholesky — the pivots of a positive definite matrix

The factor of a matrix is found row by row.  A row that has its entries off the diagonal leaves a pivot, which is the product
of the matrix with a vector that is not zero (`pivot_pos`): the rows before it combine to it (`exists_vecMul`).
-/
namespace Cholesky

open Matrix Bfgs

section

variable {K : Type} [Field K] {n : ℕ} {L : Matrix (Fin n) (Fin n) K}

/-- **Rows with entries on the diagonal combine to every vector as long as they are.** -/
theorem exists_vecMul (hlow : ∀ a b, a < b → L a b = 0) : ∀ m : ℕ, (∀ a : Fin n, a < m → L a a ≠ 0) →
    ∀ u : Fin n → K, (∀ k : Fin n, m ≤ k → u k = 0) → ∃ w, (∀ a : Fin n, m ≤ a → w a = 0) ∧ w ᵥ* L = u
  | 0, _, u, hu         => ⟨0, fun _ _ => rfl, by rw [zero_vecMul]; exact funext fun k => (hu k (Nat.zero_le _)).symm⟩
  | m + 1, hdiag, u, hu => by
    by_cases hm : m < n
    · let i : Fin n := ⟨m, hm⟩
      have hi : L i i ≠ 0 := hdiag i (Nat.lt_succ_self m)
      obtain ⟨w, hw, hwu⟩ := exists_vecMul hlow m (fun a ha => hdiag a (Nat.lt_succ_of_lt ha)) (u - (u i / L i i) • L i)
        (fun k hk => by
          rcases hk.eq_or_lt with rfl | hlt
          · rw [Pi.sub_apply, Pi.smul_apply, smul_eq_mul, div_mul_cancel₀ _ hi, sub_self]
          · rw [Pi.sub_apply, Pi.smul_apply, hu k hlt, hlow i k hlt, smul_zero, sub_zero])
      refine ⟨w + Pi.single i (u i / L i i), fun a ha => ?_, ?_⟩
      · have hne : a ≠ i := by
          rintro rfl
          exact absurd ha (Nat.not_succ_le_self m)
        rw [Pi.add_apply, hw a (Nat.le_of_succ_le ha), Pi.single_eq_of_ne hne, add_zero]
      · rw [add_vecMul, hwu, single_vecMul]
        exact sub_add_cancel u _
    · obtain ⟨w, hw, hwu⟩ := exists_vecMul hlow m (fun a ha => hdiag a (Nat.lt_succ_of_lt ha)) u
        (fun k hk => absurd k.isLt (by omega))
      exact ⟨w, fun a ha => hw a (Nat.le_of_succ_le ha), hwu⟩

end

section

variable {K : Type} [Field K] [LinearOrder K] [IsStrictOrderedRing K] {n : ℕ} {B L : Matrix (Fin n) (Fin n) K}

/-- **A pivot is positive**: it is the product with the unit vector less what the rows before the row combine to it by. -/
theorem pivot_pos (hB : PositiveDefinite B) (i : Fin n) (hlow : ∀ a b, a < b → L a b = 0) (hdiag : ∀ a < i, L a a ≠ 0)
    (hrow : ∀ k, i ≤ k → L i k = 0) (hproduct : ∀ a ≤ i, ∀ b ≤ a, b < i → L a ⬝ᵥ L b = B a b) : 0 < B i i - L i ⬝ᵥ L i := by
  obtain ⟨w, hw, hwi⟩ := exists_vecMul hlow i.val hdiag (L i) hrow
  let v : Fin n → K := Pi.single i 1 - w
  have hv : ∀ k, v k = (Pi.single i 1 : Fin n → K) k - w k := fun _ => rfl
  have hvi : v i = 1 := by rw [hv, Pi.single_eq_same, hw i le_rfl, sub_zero]
  have hvnot : ∀ k, i < k → v k = 0 := fun k hk => by rw [hv, Pi.single_eq_of_ne hk.ne', hw k hk.le, sub_zero]
  have hvL : v ᵥ* L = 0 := by
    rw [sub_vecMul, single_vecMul, one_smul, hwi]
    exact sub_self _
  have hentry : ∀ a b, a ≤ i → b ≤ i → ¬ (a = i ∧ b = i) → (B - L * Lᵀ) a b = 0 := by
    intro a b ha hb hne
    have hmul : (L * Lᵀ) a b = L a ⬝ᵥ L b := rfl
    rw [Matrix.sub_apply, hmul, sub_eq_zero]
    rcases le_total b a with hle | hle
    · refine (hproduct a ha b hle (lt_of_le_of_ne hb ?_)).symm
      rintro rfl
      exact hne ⟨le_antisymm ha hle, rfl⟩
    · rw [dotProduct_comm, hB.symm.apply]
      refine (hproduct b hb a hle (lt_of_le_of_ne ha ?_)).symm
      rintro rfl
      exact hne ⟨rfl, le_antisymm hb hle⟩
  have hrest : v ⬝ᵥ (B - L * Lᵀ) *ᵥ v = B i i - L i ⬝ᵥ L i := by
    have hterm : ∀ a b, ¬ (a = i ∧ b = i) → v a * ((B - L * Lᵀ) a b * v b) = 0 := by
      intro a b hne
      rcases lt_or_ge i a with ha | ha
      · rw [hvnot a ha, zero_mul]
      rcases lt_or_ge i b with hb | hb
      · rw [hvnot b hb, mul_zero, mul_zero]
      · rw [hentry a b ha hb hne, zero_mul, mul_zero]
    calc v ⬝ᵥ (B - L * Lᵀ) *ᵥ v = ∑ a, ∑ b, v a * ((B - L * Lᵀ) a b * v b) :=
          Finset.sum_congr rfl fun a _ => Finset.mul_sum Finset.univ (fun b => (B - L * Lᵀ) a b * v b) (v a)
      _ = v i * ((B - L * Lᵀ) i i * v i) := by
          rw [Finset.sum_eq_single i, Finset.sum_eq_single i]
          · exact fun b _ hb => hterm i b fun h => hb h.2
          · exact fun h => absurd (Finset.mem_univ i) h
          · exact fun a _ ha => Finset.sum_eq_zero fun b _ => hterm a b fun h => ha h.1
          · exact fun h => absurd (Finset.mem_univ i) h
      _ = B i i - L i ⬝ᵥ L i := by rw [hvi, mul_one, one_mul]; rfl
  have hquadratic : v ⬝ᵥ B *ᵥ v = B i i - L i ⬝ᵥ L i := by
    calc v ⬝ᵥ B *ᵥ v = v ⬝ᵥ (B - L * Lᵀ) *ᵥ v + v ⬝ᵥ (L * Lᵀ) *ᵥ v := by
          rw [← dotProduct_add, ← add_mulVec, sub_add_cancel]
      _ = B i i - L i ⬝ᵥ L i + v ⬝ᵥ L *ᵥ (v ᵥ* L) := by rw [hrest, ← mulVec_mulVec, mulVec_transpose]
      _ = B i i - L i ⬝ᵥ L i := by rw [hvL, mulVec_zero, dotProduct_zero, add_zero]
  rw [← hquadratic]
  refine hB.positive v fun hv => ?_
  rw [hv] at hvi
  exact zero_ne_one hvi

end
end Cholesky
