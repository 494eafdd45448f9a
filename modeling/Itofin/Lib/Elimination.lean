import Mathlib.Algebra.BigOperators.Intervals
import Mathlib.Algebra.BigOperators.Ring.Finset
import Mathlib.Algebra.Field.Basic
import Mathlib.Tactic.LinearCombination
import Mathlib.Tactic.Ring
/-!
# Elimination — linear systems by Gaussian elimination

The rows of a system are eliminated column by column: rows are exchanged (`swap`), and the rows below the pivot are
reduced by multiples of its row (`eliminate`), which leaves the entries below the pivot as they were, to be read as zeros
from then on.  `SolvesFrom k` is what the first `k` columns leave of the system.  What solves the system after a step
solves it before (`solves_swap`, `solves_eliminate`), and `backward` solves the last one (`solves_backward`).

`backSolve` and `forwardSolve` are the substitutions in place, with an upper triangle and with its transpose.
-/
namespace Elimination

/-- Coefficients and right-hand side, row by row. -/
structure System (K : Type) where
  coefficient : ℕ → ℕ → K
  rhs         : ℕ → K

section

variable {K : Type} [Field K] (n k : ℕ) (s : System K) (x : ℕ → K)

def swap (p : ℕ) : System K where
  coefficient i := s.coefficient (Equiv.swap k p i)
  rhs i         := s.rhs (Equiv.swap k p i)

/-- The rows below row `k` less the multiple of it that has their entry in column `k`. -/
def eliminate : System K where
  coefficient i j := if k < i ∧ k < j then s.coefficient i j - s.coefficient i k / s.coefficient k k * s.coefficient k j
    else s.coefficient i j
  rhs i           := if k < i then s.rhs i - s.coefficient i k / s.coefficient k k * s.rhs k else s.rhs i

/-- Rows from the last up, each divided by its diagonal; the first argument counts them. -/
def backward : ℕ → ℕ → K
  | 0     => fun _ => 0
  | t + 1 =>
    let x := backward t
    let i := n - (t + 1)
    Function.update x i
      ((s.rhs i - ∑ j ∈ Finset.Ico (i + 1) n, s.coefficient i j * x j) / s.coefficient i i)

/-- The columns before `k` are eliminated below the diagonal. -/
def SolvesFrom : Prop := ∀ i < n, ∑ j ∈ Finset.Ico (min i k) n, s.coefficient i j * x j = s.rhs i

end

section

variable {K : Type} [Field K] {n k : ℕ} {s : System K} {x : ℕ → K}

theorem solvesFrom_zero : SolvesFrom n 0 s x ↔ ∀ i < n, ∑ j ∈ Finset.range n, s.coefficient i j * x j = s.rhs i := by
  simp only [SolvesFrom, Nat.min_zero, Finset.range_eq_Ico]

/-- **An exchange of rows not yet used** changes no solution. -/
theorem solves_swap {p : ℕ} (hk : k < n) (hkp : k ≤ p) (hp : p < n) (h : SolvesFrom n k (swap k s p) x) :
    SolvesFrom n k s x := by
  intro i hi
  have hswap : Equiv.swap k p i < n ∧ min (Equiv.swap k p i) k = min i k := by
    rw [Equiv.swap_apply_def]
    split
    · omega
    · split <;> omega
  have hrow := h (Equiv.swap k p i) hswap.1
  simp only [swap, Equiv.swap_apply_self, hswap.2] at hrow
  exact hrow

/-- **The reduction of the rows below a pivot** changes no solution. -/
theorem solves_eliminate (hk : k < n) (hpivot : s.coefficient k k ≠ 0) (h : SolvesFrom n (k + 1) (eliminate k s) x) :
    SolvesFrom n k s x := by
  have habove : ∀ i, i ≤ k → i < n → ∑ j ∈ Finset.Ico (min i k) n, s.coefficient i j * x j = s.rhs i := by
    intro i hik hi
    have hrow := h i hi
    have hmin : min i (k + 1) = min i k := by omega
    simp only [eliminate, Nat.not_lt.2 hik, false_and, if_false, hmin] at hrow
    exact hrow
  intro i hi
  by_cases hik : i ≤ k
  · exact habove i hik hi
  · have hlt : k < i := Nat.lt_of_not_le hik
    have hrow := h i hi
    have hpivotRow := habove k le_rfl hk
    have hmin : min i (k + 1) = k + 1 := by omega
    have hreduced : ∀ j ∈ Finset.Ico (k + 1) n, (eliminate k s).coefficient i j * x j =
        s.coefficient i j * x j - s.coefficient i k / s.coefficient k k * (s.coefficient k j * x j) := by
      intro j hj
      have hentry : k < i ∧ k < j := ⟨hlt, (Finset.mem_Ico.1 hj).1⟩
      simp only [eliminate, if_pos hentry]
      ring
    rw [hmin, Finset.sum_congr rfl hreduced, Finset.sum_sub_distrib, ← Finset.mul_sum] at hrow
    rw [Nat.min_self, Finset.sum_eq_sum_Ico_succ_bot hk] at hpivotRow
    rw [Nat.min_eq_right hlt.le, Finset.sum_eq_sum_Ico_succ_bot (hlt.trans hi)]
    have hmultiple : s.coefficient i k / s.coefficient k k * s.coefficient k k = s.coefficient i k :=
      div_mul_cancel₀ _ hpivot
    simp only [eliminate, if_pos hlt] at hrow
    linear_combination hrow + s.coefficient i k / s.coefficient k k * hpivotRow - x k * hmultiple

theorem backward_of_lt : ∀ {t i : ℕ}, i + t < n → backward n s t i = 0
  | 0, _, _     => rfl
  | t + 1, i, h => by
    rw [backward, Function.update_of_ne (by omega)]
    exact backward_of_lt (by omega)

theorem backward_eq {i : ℕ} (hi : i < n) : ∀ {t : ℕ}, n - i ≤ t → t ≤ n → backward n s t i = backward n s n i := by
  intro t ht htn
  induction htn using Nat.decreasingInduction with
  | of_succ t htn ih =>
    rw [← ih (by omega), backward, Function.update_of_ne (by omega)]
  | self => rfl

/-- **The rows from the last up solve the system.** -/
theorem solves_backward (hpivot : ∀ i < n, s.coefficient i i ≠ 0) : SolvesFrom n n s (backward n s n) := by
  intro i hi
  have hsum : ∑ j ∈ Finset.Ico (i + 1) n, s.coefficient i j * backward n s (n - (i + 1)) j =
      ∑ j ∈ Finset.Ico (i + 1) n, s.coefficient i j * backward n s n j := by
    refine Finset.sum_congr rfl fun j hj => ?_
    have := Finset.mem_Ico.1 hj
    rw [backward_eq this.2 (by omega) (by omega)]
  have hrow : backward n s n i = (s.rhs i - ∑ j ∈ Finset.Ico (i + 1) n, s.coefficient i j * backward n s n j) /
      s.coefficient i i := by
    rw [← hsum, ← backward_eq hi (le_refl (n - i)) (Nat.sub_le n i)]
    have hturn : n - i = n - (i + 1) + 1 := by omega
    have hindex : n - (n - (i + 1) + 1) = i := by omega
    rw [hturn, backward]
    simp only [hindex, Function.update_self]
  rw [Nat.min_eq_left hi.le, Finset.sum_eq_sum_Ico_succ_bot hi, hrow, mul_div_cancel₀ _ (hpivot i hi), sub_add_cancel]

end

/-! ## Substitution in place -/

section

variable {K : Type} [Field K] (r : ℕ → ℕ → K) (n : ℕ) (y : ℕ → K)

/-- Rows from the last up, each divided by its diagonal. -/
def backSolve : ℕ → K :=
  (List.range n).foldr (fun i y => Function.update y i ((y i - ∑ j ∈ Finset.Ico (i + 1) n, r i j * y j) / r i i)) y

/-- Columns of the triangle from the first on, as rows. -/
def forwardSolve : ℕ → K :=
  (List.range n).foldl (fun y i => Function.update y i ((y i - ∑ j ∈ Finset.range i, r j i * y j) / r i i)) y

variable {r n}

theorem backSolve_from (h : ∀ i < n, r i i ≠ 0) : ∀ (t k : ℕ), k + t = n →
    let z := (List.range' k t).foldr
      (fun i y => Function.update y i ((y i - ∑ j ∈ Finset.Ico (i + 1) n, r i j * y j) / r i i)) y
    (∀ i, i < k ∨ n ≤ i → z i = y i) ∧ ∀ i, k ≤ i → i < n → ∑ j ∈ Finset.Ico i n, r i j * z j = y i
  | 0, k, hk     => ⟨fun _ _ => rfl, fun i hki hi => absurd hi (by omega)⟩
  | t + 1, k, hk => by
    obtain ⟨hout, hrow⟩ := backSolve_from h t (k + 1) (by omega)
    rw [List.range'_succ, List.foldr_cons]
    set z := (List.range' (k + 1) t).foldr
      (fun i y => Function.update y i ((y i - ∑ j ∈ Finset.Ico (i + 1) n, r i j * y j) / r i i)) y
    have hlater : ∀ a, ∀ i, k < i → ∑ j ∈ Finset.Ico i n, r a j *
        Function.update z k ((z k - ∑ j ∈ Finset.Ico (k + 1) n, r k j * z j) / r k k) j =
          ∑ j ∈ Finset.Ico i n, r a j * z j := by
      intro a i hi
      refine Finset.sum_congr rfl fun j hj => ?_
      rw [Function.update_of_ne (hi.trans_le (Finset.mem_Ico.1 hj).1).ne']
    refine ⟨fun i hi => ?_, fun i hki hi => ?_⟩
    · rw [Function.update_of_ne (by omega)]
      exact hout i (by omega)
    · rcases Nat.eq_or_lt_of_le hki with rfl | hlt
      · rw [Finset.sum_eq_sum_Ico_succ_bot hi, Function.update_self, mul_div_cancel₀ _ (h k hi),
          hlater k (k + 1) (Nat.lt_succ_self k), sub_add_cancel]
        exact hout k (.inl (Nat.lt_succ_self k))
      · rw [hlater i i hlt]
        exact hrow i hlt hi

/-- **Back substitution** solves the triangle, and keeps the entries past it. -/
theorem backSolve_spec (h : ∀ i < n, r i i ≠ 0) :
    (∀ i < n, ∑ j ∈ Finset.Ico i n, r i j * backSolve r n y j = y i) ∧ ∀ i, n ≤ i → backSolve r n y i = y i := by
  obtain ⟨hout, hrow⟩ := backSolve_from y h n 0 (Nat.zero_add n)
  rw [backSolve, List.range_eq_range']
  exact ⟨fun i hi => hrow i (Nat.zero_le i) hi, fun i hi => hout i (.inr hi)⟩

/-- **Forward substitution** solves the transpose, and keeps the entries past it. -/
theorem forwardSolve_spec : ∀ {n : ℕ}, (∀ i < n, r i i ≠ 0) →
    (∀ i < n, ∑ j ∈ Finset.range (i + 1), r j i * forwardSolve r n y j = y i) ∧
      ∀ i, n ≤ i → forwardSolve r n y i = y i
  | 0, _     => ⟨nofun, fun _ _ => rfl⟩
  | n + 1, h => by
    obtain ⟨hrow, hout⟩ := forwardSolve_spec (n := n) fun i hi => h i (Nat.lt_succ_of_lt hi)
    have hstep : forwardSolve r (n + 1) y = Function.update (forwardSolve r n y) n
        ((forwardSolve r n y n - ∑ j ∈ Finset.range n, r j n * forwardSolve r n y j) / r n n) := by
      rw [forwardSolve, List.range_succ, List.foldl_append, List.foldl_cons, List.foldl_nil]
      rfl
    have hbefore : ∀ i ≤ n, ∀ a, ∑ j ∈ Finset.range i, r j a * forwardSolve r (n + 1) y j =
        ∑ j ∈ Finset.range i, r j a * forwardSolve r n y j := by
      intro i hi a
      refine Finset.sum_congr rfl fun j hj => ?_
      rw [hstep, Function.update_of_ne ((Finset.mem_range.1 hj).trans_le hi).ne]
    refine ⟨fun i hi => ?_, fun i hi => ?_⟩
    · rcases Nat.lt_succ_iff_lt_or_eq.1 hi with hlt | rfl
      · rw [hbefore (i + 1) hlt]
        exact hrow i hlt
      · rw [Finset.sum_range_succ, hbefore i le_rfl, hstep, Function.update_self,
          mul_div_cancel₀ _ (h i (Nat.lt_succ_self i)), add_sub_cancel]
        exact hout i le_rfl
    · rw [hstep, Function.update_of_ne (by omega)]
      exact hout i (by omega)

end

end Elimination
