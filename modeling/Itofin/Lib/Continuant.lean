import Itofin.Lib.Tridiagonal
import Mathlib.LinearAlgebra.Matrix.Determinant.Basic
/-!
# Continuant — the leading minors of a tridiagonal matrix

The leading minors follow a recurrence of three terms (`minor_add_two`), so that as long as no pivot is zero the next one is
the ratio of two of them (`rowPivot_mul_minor`).  A sweep has no zero pivot exactly where no minor is zero.
-/
namespace Tridiagonal

variable {K : Type} [Field K] {L D U : ℕ → K} {n k : ℕ}

/-- The entries of the rows. -/
def entry (L D U : ℕ → K) (i j : ℕ) : K :=
  if j = i then D i else if j + 1 = i then L i else if i + 1 = j then U i else 0

/-- The leading `k` rows and columns. -/
def leading (L D U : ℕ → K) (k : ℕ) : Matrix (Fin k) (Fin k) K := Matrix.of fun i j => entry L D U i j

def minor (L D U : ℕ → K) (k : ℕ) : K := (leading L D U k).det

theorem minor_zero : minor L D U 0 = 1 := Matrix.det_isEmpty

theorem minor_one : minor L D U 1 = D 0 := Matrix.det_fin_one _

/-- The minor beside the last entry: its last column has one entry. -/
theorem det_beside (L D U : ℕ → K) (n : ℕ) :
    ((leading L D U (n + 2)).submatrix (Fin.last (n + 1)).succAbove (Fin.last n).castSucc.succAbove).det =
      U n * minor L D U n := by
  have hlast : (Fin.last n).castSucc.succAbove (Fin.last n) = Fin.last (n + 1) := by
    rw [Fin.succAbove_castSucc_self, Fin.succ_last]
  have hrest : ∀ j : Fin n, (Fin.last n).castSucc.succAbove j.castSucc = j.castSucc.castSucc := fun j =>
    Fin.succAbove_castSucc_of_lt _ _ (Fin.castSucc_lt_last j)
  rw [Matrix.det_succ_column _ (Fin.last n), Fin.sum_univ_castSucc]
  have hzero : ∀ i : Fin n, (leading L D U (n + 2)).submatrix (Fin.last (n + 1)).succAbove
      (Fin.last n).castSucc.succAbove i.castSucc (Fin.last n) = 0 := by
    intro i
    rw [Matrix.submatrix_apply, hlast, Fin.succAbove_last]
    have hi := i.isLt
    simp only [leading, Matrix.of_apply, entry, Fin.val_last, Fin.val_castSucc]
    rw [if_neg (by omega), if_neg (by omega), if_neg (by omega)]
  have hentry : (leading L D U (n + 2)).submatrix (Fin.last (n + 1)).succAbove
      (Fin.last n).castSucc.succAbove (Fin.last n) (Fin.last n) = U n := by
    rw [Matrix.submatrix_apply, hlast, Fin.succAbove_last]
    simp only [leading, Matrix.of_apply, entry, Fin.val_last, Fin.val_castSucc]
    rw [if_neg (by omega), if_neg (by omega), if_pos trivial]
  have hminor : ((leading L D U (n + 2)).submatrix (Fin.last (n + 1)).succAbove
      (Fin.last n).castSucc.succAbove).submatrix (Fin.last n).succAbove (Fin.last n).succAbove = leading L D U n := by
    rw [Matrix.submatrix_submatrix, Fin.succAbove_last, Fin.succAbove_last]
    ext i j
    simp only [Matrix.submatrix_apply, Function.comp_apply, hrest]
    rfl
  rw [Finset.sum_eq_zero fun i _ => by rw [hzero, mul_zero, zero_mul], hentry, hminor, zero_add, ← two_mul, pow_mul,
    neg_one_sq, one_pow, one_mul, minor]

/-- **Three terms.** -/
theorem minor_add_two (L D U : ℕ → K) (n : ℕ) :
    minor L D U (n + 2) = D (n + 1) * minor L D U (n + 1) - L (n + 1) * U n * minor L D U n := by
  have hzero : ∀ i : Fin n, leading L D U (n + 2) (Fin.last (n + 1)) i.castSucc.castSucc = 0 := by
    intro i
    have hi := i.isLt
    simp only [leading, Matrix.of_apply, entry, Fin.val_last, Fin.val_castSucc]
    rw [if_neg (by omega), if_neg (by omega), if_neg (by omega)]
  have hlow : leading L D U (n + 2) (Fin.last (n + 1)) (Fin.last n).castSucc = L (n + 1) := by
    simp only [leading, Matrix.of_apply, entry, Fin.val_last, Fin.val_castSucc]
    rw [if_neg (by omega), if_pos trivial]
  have hmid : leading L D U (n + 2) (Fin.last (n + 1)) (Fin.last (n + 1)) = D (n + 1) := by
    simp only [leading, Matrix.of_apply, entry, Fin.val_last]
    rw [if_pos trivial]
  have hminor : (leading L D U (n + 2)).submatrix (Fin.last (n + 1)).succAbove (Fin.last (n + 1)).succAbove =
      leading L D U (n + 1) := by
    rw [Fin.succAbove_last]
    rfl
  rw [minor, Matrix.det_succ_row _ (Fin.last (n + 1)), Fin.sum_univ_castSucc, Fin.sum_univ_castSucc,
    Finset.sum_eq_zero fun i _ => by rw [hzero, mul_zero, zero_mul], det_beside, hlow, hmid, hminor, zero_add,
    Fin.val_last, Fin.val_castSucc, Fin.val_last, ← two_mul, pow_mul, neg_one_sq, one_pow, one_mul,
    show n + 1 + n = 2 * n + 1 by omega, pow_succ, pow_mul, neg_one_sq, one_pow, one_mul]
  change _ + D (n + 1) * minor L D U (n + 1) = _
  ring

/-- **The next pivot** is the ratio of two minors. -/
theorem rowPivot_mul_minor : ∀ (k : ℕ), (∀ j < k, rowPivot 1 0 L D U j ≠ 0) →
    rowPivot 1 0 L D U k * minor L D U k = minor L D U (k + 1)
  | 0, _     => by rw [rowPivot, minor_zero, minor_one]; ring
  | k + 1, h => by
    have ih := rowPivot_mul_minor k fun j hj => h j (by omega)
    have hfactor := factor_eq (h k (by omega))
    rw [minor_add_two, rowPivot, pivot, ← ih]
    linear_combination (-L (k + 1) * minor L D U k) * hfactor

theorem minor_ne_zero : ∀ (k : ℕ), (∀ j < k, rowPivot 1 0 L D U j ≠ 0) → minor L D U k ≠ 0
  | 0, _     => by rw [minor_zero]; exact one_ne_zero
  | k + 1, h => by
    rw [← rowPivot_mul_minor k fun j hj => h j (by omega)]
    exact mul_ne_zero (h k (by omega)) (minor_ne_zero k fun j hj => h j (by omega))

end Tridiagonal
