import Itofin.Lib.Tridiagonal
/-!
# Extended — a field with what division by zero leaves

The numbers of a field, one infinity and `nan`, computed with as floating point does where nothing is rounded: `1 / 0`
is infinite, `0 * infinite` is not a number, and neither stops a computation.  The infinity has no sign; where the signs
of two infinities would decide, the result is `nan`.  On numbers of the field the operations are the field's own as long
as nothing is divided by zero.
-/
inductive Extended (K : Type)
  | finite (x : K)
  | infinite
  | nan
  deriving DecidableEq

namespace Extended

section

variable {K : Type} [Field K] [DecidableEq K]

instance : Zero (Extended K) := ⟨.finite 0⟩
instance : One (Extended K) := ⟨.finite 1⟩

instance : Add (Extended K) where
  add
    | .finite x, .finite y   => .finite (x + y)
    | .finite _, .infinite   => .infinite
    | .infinite, .finite _   => .infinite
    | .infinite, .infinite   => .nan
    | .nan, _                => .nan
    | _, .nan                => .nan

instance : Sub (Extended K) where
  sub
    | .finite x, .finite y   => .finite (x - y)
    | .finite _, .infinite   => .infinite
    | .infinite, .finite _   => .infinite
    | .infinite, .infinite   => .nan
    | .nan, _                => .nan
    | _, .nan                => .nan

instance : Mul (Extended K) where
  mul
    | .finite x, .finite y   => .finite (x * y)
    | .finite x, .infinite   => if x = 0 then .nan else .infinite
    | .infinite, .finite y   => if y = 0 then .nan else .infinite
    | .infinite, .infinite   => .infinite
    | .nan, _                => .nan
    | _, .nan                => .nan

instance : Div (Extended K) where
  div
    | .finite x, .finite y   => if y = 0 then if x = 0 then .nan else .infinite else .finite (x / y)
    | .finite _, .infinite   => .finite 0
    | .infinite, .finite _   => .infinite
    | .infinite, .infinite   => .nan
    | .nan, _                => .nan
    | _, .nan                => .nan

variable {x y : K} {e : Extended K}

@[simp] theorem nan_mul : nan * e = nan := by cases e <;> rfl
@[simp] theorem mul_nan : e * nan = nan := by cases e <;> rfl
@[simp] theorem div_nan : e / nan = nan := by cases e <;> rfl

omit [DecidableEq K] in
@[simp] theorem add_nan : e + nan = nan := by cases e <;> rfl

omit [DecidableEq K] in
@[simp] theorem sub_nan : e - nan = nan := by cases e <;> rfl

theorem finite_div (h : y ≠ 0) : finite x / finite y = finite (x / y) := if_neg h

theorem div_zero (h : x ≠ 0) : finite x / finite 0 = infinite := (if_pos rfl).trans (if_neg h)

theorem mul_infinite (h : x ≠ 0) : finite x * infinite = infinite := if_neg h

theorem infinite_mul (h : y ≠ 0) : infinite * finite y = infinite := if_neg h

theorem zero_mul_infinite : finite (0 : K) * infinite = nan := if_pos rfl

theorem infinite_mul_zero : infinite * finite (0 : K) = nan := if_pos rfl

end

end Extended

/-! ## Elimination -/

namespace Tridiagonal

open Extended

variable {K : Type} [Field K] [DecidableEq K] {a b : K} {L D U r : ℕ → K}

/-- A row of the field, as one of the extended numbers. -/
def lift (f : ℕ → K) (j : ℕ) : Extended K := .finite (f j)

theorem inverse_lift : ∀ {j : ℕ}, (∀ k ≤ j, rowPivot a b L D U k ≠ 0) →
    inverse (finite a) (finite b) (lift L) (lift D) (lift U) j = finite (inverse a b L D U j)
  | 0, h     => finite_div (h 0 le_rfl)
  | j + 1, h => by
    rw [inverse, inverse_lift (fun k hk => h k (Nat.le_succ_of_le hk))]
    exact finite_div (h (j + 1) le_rfl)

theorem pivot_lift {j : ℕ} (h : ∀ k ≤ j, rowPivot a b L D U k ≠ 0) :
    pivot (finite a) (finite b) (lift L) (lift D) (lift U) j = finite (pivot a b L D U j) := by
  rw [pivot, factor, inverse_lift h]
  rfl

theorem forward_lift : ∀ {j : ℕ}, (∀ k ≤ j, rowPivot a b L D U k ≠ 0) →
    forward (finite a) (finite b) (lift L) (lift D) (lift U) (lift r) j = finite (forward a b L D U r j)
  | 0, h     => by
    rw [forward, inverse_lift h]
    rfl
  | j + 1, h => by
    rw [forward, inverse_lift h, forward_lift (fun k hk => h k (Nat.le_succ_of_le hk))]
    rfl

/-- **Where no pivot is zero, the solution is the field's.** -/
theorem backward_lift {n : ℕ} (h : ∀ j ≤ n, rowPivot a b L D U j ≠ 0) : ∀ k ≤ n,
    backward (finite a) (finite b) (lift L) (lift D) (lift U) (lift r) n k = finite (backward a b L D U r n k)
  | 0, _      => forward_lift h
  | k + 1, hk => by
    have hle : ∀ i ≤ n - (k + 1), rowPivot a b L D U i ≠ 0 := fun i hi => h i (by omega)
    rw [backward, forward_lift hle, factor, inverse_lift hle, backward_lift h k (by omega)]
    rfl

theorem solution_lift {n : ℕ} (h : ∀ j ≤ n, rowPivot a b L D U j ≠ 0) (j : ℕ) :
    solution (finite a) (finite b) (lift L) (lift D) (lift U) (lift r) n j = finite (solution a b L D U r n j) :=
  backward_lift h (n - j) (Nat.sub_le n j)

/-- **The first pivot found to be zero is the field's**, where row 0 has none. -/
theorem exists_pivot_lift {n : ℕ} (h0 : rowPivot a b L D U 0 ≠ 0) :
    (∃ k, k < n ∧ pivot (finite a) (finite b) (lift L) (lift D) (lift U) k = 0) ↔
      ∃ k, k < n ∧ rowPivot a b L D U (k + 1) = 0 := by
  have hlift : ∀ k, (∀ i, i < k → rowPivot a b L D U (i + 1) ≠ 0) →
      pivot (finite a) (finite b) (lift L) (lift D) (lift U) k = finite (pivot a b L D U k) := by
    refine fun k h => pivot_lift fun i hi => ?_
    cases i with
    | zero   => exact h0
    | succ i => exact h i hi
  constructor
  · rintro ⟨k, hk, hzero⟩
    by_contra hn
    have hne : ∀ i, i < n → rowPivot a b L D U (i + 1) ≠ 0 := fun i hi h => hn ⟨i, hi, h⟩
    rw [hlift k (fun i hi => hne i (hi.trans hk))] at hzero
    exact hne k hk (Extended.finite.inj hzero)
  · intro hex
    obtain ⟨hk, hzero⟩ := Nat.find_spec hex
    have hne : ∀ i, i < Nat.find hex → rowPivot a b L D U (i + 1) ≠ 0 :=
      fun i hi h => Nat.find_min hex hi ⟨hi.trans hk, h⟩
    exact ⟨Nat.find hex, hk, (hlift _ hne).trans (congrArg finite hzero)⟩

/-! ### A first pivot of zero -/

theorem inverse_infinite (h0 : rowPivot a b L D U 0 = 0) :
    inverse (finite a) (finite b) (lift L) (lift D) (lift U) 0 = infinite :=
  (congrArg (fun p => finite 1 / finite p) h0).trans (div_zero one_ne_zero)

/-- Row 1 divides by infinity, where both bands between the rows are there. -/
theorem pivot_zero (h0 : rowPivot a b L D U 0 = 0) (hU : a * U 0 ≠ 0) (hL : L 1 ≠ 0) :
    pivot (finite a) (finite b) (lift L) (lift D) (lift U) 0 = infinite := by
  have hfactor : factor (finite a) (finite b) (lift L) (lift D) (lift U) 0 = infinite := by
    rw [factor, inverse_infinite h0]
    exact mul_infinite hU
  have hreduced : lift D 1 - infinite * lift L 1 = infinite := congrArg (finite (D 1) - ·) (infinite_mul hL)
  rw [pivot, hfactor, hreduced, mul_infinite (left_ne_zero_of_mul hU)]
  rfl

theorem pivot_one (h0 : rowPivot a b L D U 0 = 0) (hU : a * U 0 ≠ 0) (hL : L 1 ≠ 0) :
    pivot (finite a) (finite b) (lift L) (lift D) (lift U) 1 =
      finite (rowPivot a b (fun j => L (j + 2)) (fun j => D (j + 2)) (fun j => U (j + 2)) 0) := by
  rw [pivot, factor, inverse_succ, pivot_zero h0 hU hL]
  apply congrArg finite
  rw [rowPivot]
  ring

/-- From row 2 on the elimination is that of the rows from there. -/
theorem inverse_restart (h0 : rowPivot a b L D U 0 = 0) (hU : a * U 0 ≠ 0) (hL : L 1 ≠ 0) : ∀ j,
    inverse (finite a) (finite b) (lift L) (lift D) (lift U) (j + 2) =
      inverse (finite a) (finite b) (lift fun j => L (j + 2)) (lift fun j => D (j + 2)) (lift fun j => U (j + 2)) j
  | 0     => by
    rw [inverse_succ, pivot_one h0 hU hL, inverse]
    rfl
  | j + 1 => by
    rw [inverse, inverse_restart h0 hU hL j, inverse]
    rfl

theorem pivot_restart (h0 : rowPivot a b L D U 0 = 0) (hU : a * U 0 ≠ 0) (hL : L 1 ≠ 0) (j : ℕ) :
    pivot (finite a) (finite b) (lift L) (lift D) (lift U) (j + 2) =
      pivot (finite a) (finite b) (lift fun j => L (j + 2)) (lift fun j => D (j + 2)) (lift fun j => U (j + 2)) j := by
  rw [pivot, factor, inverse_restart h0 hU hL j, pivot, factor]
  rfl

/-- Where a band between the first rows is missing, no pivot after it is a number. -/
theorem pivot_nan (h0 : rowPivot a b L D U 0 = 0) (h : ¬ (a * U 0 ≠ 0 ∧ L 1 ≠ 0)) : ∀ j,
    pivot (finite a) (finite b) (lift L) (lift D) (lift U) j = nan
  | 0     => by
    have hreduced : factor (finite a) (finite b) (lift L) (lift D) (lift U) 0 * lift L 1 = nan := by
      rw [factor, inverse_infinite h0]
      by_cases hU : a * U 0 = 0
      · have : finite a * lift U 0 = finite 0 := congrArg finite hU
        rw [this, zero_mul_infinite, nan_mul]
      · have hL : L 1 = 0 := not_not.1 fun hL => h ⟨hU, hL⟩
        have : finite a * lift U 0 * infinite = infinite := mul_infinite hU
        rw [this, lift, hL, infinite_mul_zero]
    rw [pivot, hreduced, sub_nan, mul_nan, add_nan]
  | j + 1 => by
    rw [pivot, factor, inverse_succ, pivot_nan h0 h j, div_nan, mul_nan, nan_mul, sub_nan, mul_nan, add_nan]

/-- **A first pivot of zero is found only by a zero among the pivots of an elimination from row 2 on.** -/
theorem exists_pivot_restart {n : ℕ} (h0 : rowPivot a b L D U 0 = 0) :
    (∃ k, k < n ∧ pivot (finite a) (finite b) (lift L) (lift D) (lift U) k = 0) ↔ a * U 0 ≠ 0 ∧ L 1 ≠ 0 ∧
      ∃ k, k + 1 < n ∧ rowPivot a b (fun j => L (j + 2)) (fun j => D (j + 2)) (fun j => U (j + 2)) k = 0 := by
  by_cases hband : a * U 0 ≠ 0 ∧ L 1 ≠ 0
  · obtain ⟨hU, hL⟩ := hband
    have hone := pivot_one h0 hU hL
    by_cases hfirst : rowPivot a b (fun j => L (j + 2)) (fun j => D (j + 2)) (fun j => U (j + 2)) 0 = 0
    · by_cases hn : 1 < n
      · refine iff_of_true ⟨1, hn, ?_⟩ ⟨hU, hL, 0, hn, hfirst⟩
        rw [hone, hfirst]
        rfl
      · refine iff_of_false ?_ fun ⟨_, _, k, hk, _⟩ => hn (by omega)
        rintro ⟨k, hk, h⟩
        have : k = 0 := by omega
        rw [this, pivot_zero h0 hU hL] at h
        exact nomatch h
    · have hlift := exists_pivot_lift (n := n - 2) hfirst
      constructor
      · rintro ⟨k, hk, h⟩
        match k, hk, h with
        | 0, _, h      =>
          rw [pivot_zero h0 hU hL] at h
          exact nomatch h
        | 1, _, h      => exact absurd (Extended.finite.inj (hone ▸ h)) hfirst
        | k + 2, hk, h =>
          obtain ⟨i, hi, hzero⟩ := hlift.1 ⟨k, by omega, pivot_restart h0 hU hL k ▸ h⟩
          exact ⟨hU, hL, i + 1, by omega, hzero⟩
      · rintro ⟨-, -, k, hk, h⟩
        cases k with
        | zero   => exact absurd h hfirst
        | succ k =>
          obtain ⟨i, hi, hzero⟩ := hlift.2 ⟨k, by omega, h⟩
          exact ⟨i + 2, by omega, (pivot_restart h0 hU hL i).trans hzero⟩
  · refine iff_of_false ?_ fun ⟨hU, hL, _⟩ => hband ⟨hU, hL⟩
    rintro ⟨k, -, h⟩
    rw [pivot_nan h0 hband] at h
    exact nomatch h

end Tridiagonal
