import Mathlib.Algebra.Field.Basic
import Mathlib.Algebra.Order.Field.Basic
import Mathlib.Data.Finset.Max
import Mathlib.Order.Interval.Finset.Nat
import Mathlib.Tactic.Linarith
import Mathlib.Tactic.LinearCombination
import Mathlib.Tactic.Ring
/-!
# Tridiagonal — elimination without pivoting

The system `(a T + b) y = r` for a tridiagonal `T`, whose row `j` has `L j`, `D j` and `U j`, solved by a sweep up
(`inverse`, `factor`, `forward`) and a sweep down (`solution`).  Over any operations the sweeps are recurrences; over a
field they solve the system where no pivot is zero (`solution_spec`), and keep bounds (`Generator.within`).
-/
namespace Tridiagonal

section

variable {R : Type} [One R] [Add R] [Sub R] [Mul R] [Div R] (a b : R) (L D U r : ℕ → R)

/-- The inverses of the pivots. -/
def inverse : ℕ → R
  | 0     => 1 / (a * D 0 + b)
  | j + 1 => 1 / (b + a * (D (j + 1) - a * U j * inverse j * L (j + 1)))

/-- What row `j + 1` is reduced by, and what the sweep down multiplies its solution with. -/
def factor (j : ℕ) : R := a * U j * inverse a b L D U j

/-- The pivot of row `j + 1`. -/
def pivot (j : ℕ) : R := b + a * (D (j + 1) - factor a b L D U j * L (j + 1))

/-- The right-hand side after the sweep up. -/
def forward : ℕ → R
  | 0     => r 0 * inverse a b L D U 0
  | j + 1 => (r (j + 1) - a * L (j + 1) * forward j) * inverse a b L D U (j + 1)

/-- The solution `k` rows before row `n`. -/
def backward (n : ℕ) : ℕ → R
  | 0     => forward a b L D U r n
  | k + 1 => forward a b L D U r (n - (k + 1)) - factor a b L D U (n - (k + 1)) * backward n k

/-- The solution at row `j`, of rows up to `n`. -/
def solution (n j : ℕ) : R := backward a b L D U r n (n - j)

theorem inverse_succ (j : ℕ) : inverse a b L D U (j + 1) = 1 / pivot a b L D U j := rfl

theorem solution_last (n : ℕ) : solution a b L D U r n n = forward a b L D U r n := by
  rw [solution, Nat.sub_self, backward]

theorem solution_step {n j : ℕ} (h : j < n) : solution a b L D U r n j =
    forward a b L D U r j - factor a b L D U j * solution a b L D U r n (j + 1) := by
  have hk : n - j = n - (j + 1) + 1 := by omega
  have hj : n - (n - (j + 1) + 1) = j := by omega
  rw [solution, hk, backward, hj, solution]

end

section

variable {K : Type} [Field K] {a b : K} {L D U r : ℕ → K}

/-- The pivot of a row, the first one included. -/
def rowPivot (a b : K) (L D U : ℕ → K) : ℕ → K
  | 0     => a * D 0 + b
  | j + 1 => pivot a b L D U j

theorem inverse_eq (j : ℕ) : inverse a b L D U j = 1 / rowPivot a b L D U j := by
  cases j <;> rfl

theorem forward_zero (h : rowPivot a b L D U 0 ≠ 0) : rowPivot a b L D U 0 * forward a b L D U r 0 = r 0 := by
  rw [forward, inverse_eq, one_div, mul_comm (r 0), mul_inv_cancel_left₀ h]

theorem forward_succ {j : ℕ} (h : rowPivot a b L D U (j + 1) ≠ 0) :
    rowPivot a b L D U (j + 1) * forward a b L D U r (j + 1) =
      r (j + 1) - a * L (j + 1) * forward a b L D U r j := by
  rw [forward, inverse_eq, one_div, mul_comm _ (rowPivot a b L D U (j + 1))⁻¹, mul_inv_cancel_left₀ h]

theorem factor_eq {j : ℕ} (h : rowPivot a b L D U j ≠ 0) :
    rowPivot a b L D U j * factor a b L D U j = a * U j := by
  rw [factor, inverse_eq, one_div, mul_comm, mul_assoc, inv_mul_cancel₀ h, mul_one]

/-- **The sweeps solve the system**, where no pivot is zero.  `low` and `high` are the solutions of the rows beside, where
row `j` has an entry for them. -/
theorem solution_spec {n : ℕ} (h : ∀ j ≤ n, rowPivot a b L D U j ≠ 0) {j : ℕ} (hj : j ≤ n) {low high : K}
    (hlow : L j ≠ 0 → 0 < j ∧ low = solution a b L D U r n (j - 1))
    (hhigh : U j ≠ 0 → j < n ∧ high = solution a b L D U r n (j + 1)) :
    a * (low * L j + solution a b L D U r n j * D j + high * U j) + b * solution a b L D U r n j = r j := by
  -- the sweep down: the row times its pivot is the right-hand side less the row above
  have hdown : rowPivot a b L D U j * solution a b L D U r n j + a * (high * U j) =
      rowPivot a b L D U j * forward a b L D U r j := by
    have hfactor := factor_eq (h j hj)
    by_cases hU : U j = 0
    · have hzero : factor a b L D U j = 0 := by
        rw [hU, mul_zero] at hfactor
        exact (mul_eq_zero.1 hfactor).resolve_left (h j hj)
      rcases Nat.lt_or_eq_of_le hj with hlt | rfl
      · rw [solution_step _ _ _ _ _ _ hlt, hU, hzero]
        ring
      · rw [solution_last, hU]
        ring
    · obtain ⟨hlt, rfl⟩ := hhigh hU
      rw [solution_step _ _ _ _ _ _ hlt]
      linear_combination (-solution a b L D U r n (j + 1)) * hfactor
  cases j with
  | zero   =>
    have hL : L 0 = 0 := by
      by_contra hL
      exact absurd (hlow hL).1 (Nat.lt_irrefl 0)
    rw [forward_zero (h 0 hj), rowPivot] at hdown
    rw [hL]
    linear_combination hdown
  | succ j =>
    have hstep := solution_step a b L D U r (Nat.lt_of_succ_le hj)
    rw [forward_succ (h (j + 1) hj), rowPivot, pivot] at hdown
    by_cases hL : L (j + 1) = 0
    · rw [hL] at hdown ⊢
      linear_combination hdown
    · rw [(hlow hL).2, Nat.add_sub_cancel]
      linear_combination hdown + a * L (j + 1) * hstep

/-- The row of a solution, with nothing above the first and below the last. -/
def Row (a b : K) (L D U r : ℕ → K) (n : ℕ) (y : ℕ → K) (j : ℕ) : Prop :=
  a * ((if j = 0 then 0 else y (j - 1)) * L j + y j * D j + (if j < n then y (j + 1) else 0) * U j) + b * y j = r j

theorem solution_row {n : ℕ} (h : ∀ j ≤ n, rowPivot a b L D U j ≠ 0) (hL : L 0 = 0) (hU : U n = 0) {j : ℕ} (hj : j ≤ n) :
    Row a b L D U r n (solution a b L D U r n) j := by
  refine solution_spec h hj (fun hne => ?_) (fun hne => ?_)
  · have hpos : j ≠ 0 := fun h₀ => hne (h₀ ▸ hL)
    exact ⟨Nat.pos_of_ne_zero hpos, if_neg hpos⟩
  · have hlt : j < n := lt_of_le_of_ne hj fun hn => hne (hn ▸ hU)
    exact ⟨hlt, if_pos hlt⟩

theorem forward_unique {n : ℕ} (h : ∀ j ≤ n, rowPivot a b L D U j ≠ 0) {y : ℕ → K}
    (hy : ∀ j ≤ n, Row a b L D U r n y j) : ∀ {j : ℕ}, j ≤ n →
      y j + factor a b L D U j * (if j < n then y (j + 1) else 0) = forward a b L D U r j
  | 0, hj     => by
    have hrow := hy 0 hj
    have hfactor := factor_eq (h 0 hj)
    have hforward := forward_zero (r := r) (h 0 hj)
    rw [Row, if_pos rfl] at hrow
    refine mul_left_cancel₀ (h 0 hj) ?_
    rw [hforward, mul_add, ← mul_assoc, hfactor, rowPivot]
    linear_combination hrow
  | j + 1, hj => by
    have hrow := hy (j + 1) hj
    have hfactor := factor_eq (h (j + 1) hj)
    have hforward := forward_succ (r := r) (h (j + 1) hj)
    have ih := forward_unique h hy (Nat.le_of_succ_le hj)
    rw [if_pos (Nat.lt_of_succ_le hj)] at ih
    rw [Row, if_neg (Nat.succ_ne_zero j), Nat.add_sub_cancel] at hrow
    refine mul_left_cancel₀ (h (j + 1) hj) ?_
    rw [hforward, mul_add, ← mul_assoc, hfactor, rowPivot, pivot]
    linear_combination hrow - a * L (j + 1) * ih

/-- **Where no pivot is zero the solution is the only one.** -/
theorem solution_unique {n : ℕ} (h : ∀ j ≤ n, rowPivot a b L D U j ≠ 0) {y : ℕ → K}
    (hy : ∀ j ≤ n, Row a b L D U r n y j) {j : ℕ} (hj : j ≤ n) : y j = solution a b L D U r n j := by
  obtain ⟨k, hk⟩ := Nat.exists_eq_add_of_le hj
  induction k generalizing j with
  | zero      =>
    obtain rfl : n = j := hk
    have hlast := forward_unique h hy le_rfl
    rw [if_neg (lt_irrefl _), mul_zero, add_zero] at hlast
    rw [hlast, solution_last]
  | succ k ih =>
    have hlt : j < n := by omega
    have hstep := forward_unique h hy hj
    rw [if_pos hlt, ih (Nat.succ_le_of_lt hlt) (by omega)] at hstep
    rw [solution_step _ _ _ _ _ _ hlt, ← hstep, add_sub_cancel_right]

end

/-! ## Generators -/

section

variable {K : Type} [Field K] [LinearOrder K] [IsStrictOrderedRing K] {L D U r y : ℕ → K} {dt low high : K} {n j : ℕ}

/-- A row that moves a value to those beside at rates, and decays it between the bounds. -/
structure Rates (low high l d u : K) : Prop where
  lower : 0 ≤ l
  upper : 0 ≤ u
  sum   : l + d + u ≤ 0
  low   : 0 ≤ (l + d + u) * low
  high  : (l + d + u) * high ≤ 0

structure Generator (low high : K) (L D U : ℕ → K) (n : ℕ) : Prop where
  rates : ∀ j ≤ n, Rates low high (L j) (D j) (U j)
  first : L 0 = 0
  last  : U n = 0

/-- **The pivots of an implicit step** are one and more. -/
theorem Generator.le_rowPivot (h : Generator low high L D U n) (hdt : 0 ≤ dt) : ∀ {j : ℕ}, j ≤ n →
    1 + dt * U j ≤ rowPivot (-dt) 1 L D U j
  | 0, hj     => by
    have hsum := mul_nonpos_of_nonneg_of_nonpos hdt (h.rates 0 hj).sum
    rw [h.first] at hsum
    rw [rowPivot]
    linarith
  | j + 1, hj => by
    have hpivot := h.le_rowPivot hdt (Nat.le_of_succ_le hj)
    have hupper := mul_nonneg hdt (h.rates j (Nat.le_of_succ_le hj)).upper
    have hfactor := factor_eq (a := -dt) (b := 1) (show rowPivot (-dt) 1 L D U j ≠ 0 by linarith)
    -- a row is reduced by no more than the one before
    have hge : -1 ≤ factor (-dt) 1 L D U j := by
      by_contra hlt
      nlinarith
    have hlower := mul_le_mul_of_nonneg_right hge (mul_nonneg hdt (h.rates (j + 1) hj).lower)
    have hsum := mul_nonpos_of_nonneg_of_nonpos hdt (h.rates (j + 1) hj).sum
    rw [rowPivot, pivot]
    linarith

/-- **The maximum principle.** -/
theorem Generator.le (h : Generator low high L D U n) (hdt : 0 ≤ dt) (hy : ∀ j ≤ n, Row (-dt) 1 L D U r n y j)
    (hr : ∀ j ≤ n, r j ≤ high) (hj : j ≤ n) : y j ≤ high := by
  -- where the solution is greatest, nothing moves it up
  obtain ⟨k, hk, hmax⟩ := Finset.exists_max_image (Finset.range (n + 1)) y ⟨0, by simp⟩
  simp only [Finset.mem_range, Nat.lt_succ_iff] at hk hmax
  apply (hmax j hj).trans
  by_contra hlt
  have hrates := h.rates k hk
  have hlower : (if k = 0 then 0 else y (k - 1)) * L k ≤ y k * L k := by
    split
    · rename_i hzero
      simp [hzero, h.first]
    · exact mul_le_mul_of_nonneg_right (hmax _ (by omega)) hrates.lower
  have hupper : (if k < n then y (k + 1) else 0) * U k ≤ y k * U k := by
    split
    · exact mul_le_mul_of_nonneg_right (hmax _ (by omega)) hrates.upper
    · obtain rfl : k = n := by omega
      simp [h.last]
  have hsum := mul_le_mul_of_nonpos_left (not_le.1 hlt).le hrates.sum
  have hmove := mul_nonpos_of_nonneg_of_nonpos hdt (show (if k = 0 then 0 else y (k - 1)) * L k + y k * D k +
    (if k < n then y (k + 1) else 0) * U k ≤ 0 by linarith [hrates.high])
  have hrow := hy k hk
  unfold Row at hrow
  linarith [hr k hk]

/-- **An implicit step keeps the bounds.** -/
theorem Generator.within (h : Generator low high L D U n) (hdt : 0 ≤ dt) (hy : ∀ j ≤ n, Row (-dt) 1 L D U r n y j)
    (hr : ∀ j ≤ n, low ≤ r j ∧ r j ≤ high) (hj : j ≤ n) : low ≤ y j ∧ y j ≤ high := by
  have hneg : Generator (-high) (-low) L D U n := ⟨fun j hj =>
    have hrates := h.rates j hj
    ⟨hrates.lower, hrates.upper, hrates.sum, by linarith [hrates.high], by linarith [hrates.low]⟩, h.first, h.last⟩
  refine ⟨neg_le_neg_iff.1 (hneg.le (r := fun j => -r j) (y := fun j => -y j) hdt (fun j hj => ?_)
    (fun j hj => neg_le_neg (hr j hj).1) hj), h.le hdt hy (fun j hj => (hr j hj).2) hj⟩
  have hrow := hy j hj
  unfold Row at hrow ⊢
  dsimp only
  rw [← hrow]
  split_ifs <;> ring

end

end Tridiagonal
