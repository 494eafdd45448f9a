import Itofin.Lib.Tridiagonal
import Itofin.Math.Interpolations.CubicMonotone
import Mathlib.Algebra.Polynomial.Derivative
import Mathlib.Analysis.Calculus.ContDiff.Deriv
import Mathlib.LinearAlgebra.Lagrange
/-!
# CubicSpline — the slopes of a spline, and the conditions at its ends

The slopes at the nodes solve a tridiagonal system, by elimination without pivoting.  The rows of the inner nodes are
diagonally dominant and the not-a-knot rows are not: what the sweep up carries past an inner row stays below one, past a
left not-a-knot row it is the exact ratio of two widths (`sweepUpper_lt`, `sweepUpper_zero`), and so no pivot is zero
(`pivot_ne_zero`).  The inner rows say that the second derivatives of two segments meet (`segmentSecond_meet`), the
boundary rows that the conditions at the ends hold (`endCondition_left`, `endCondition_right`).
-/
namespace Itofin

open Polynomial

namespace CubicSlopes

/-! ## The sweeps -/

section Sweeps

variable {K : Type} [Field K] {n j : ℕ} {lo diag up rhs : ℕ → K}

/-- The sub-diagonal entry in front of a row. -/
def before (lo : ℕ → K) : ℕ → K
  | 0     => 0
  | j + 1 => lo j

/-- The super-diagonal entry behind a row, none behind the last. -/
def behind (n : ℕ) (up : ℕ → K) (j : ℕ) : K := if j < n - 1 then up j else 0

theorem inverse_pivot (hj : j < n) :
    Tridiagonal.inverse 1 0 (before lo) diag (behind n up) j = 1 / pivot lo diag up j := by
  induction j with
  | zero      => simp [Tridiagonal.inverse, pivot]
  | succ j ih =>
    have hlt : j < n - 1 := by omega
    have hstep : Tridiagonal.inverse 1 0 (before lo) diag (behind n up) j = 1 / pivot lo diag up j := ih (by omega)
    have hsweep : sweepUpper lo diag up j = up j * (1 / pivot lo diag up j) := by
      cases j <;> simp [sweepUpper, pivot, div_eq_mul_inv]
    simp only [Tridiagonal.inverse, hstep, pivot, hsweep, behind, if_pos hlt, before]
    congr 1
    ring

theorem factor_sweep (hj : j < n - 1) :
    Tridiagonal.factor 1 0 (before lo) diag (behind n up) j = sweepUpper lo diag up j := by
  rw [Tridiagonal.factor, inverse_pivot (by omega), behind, if_pos hj]
  cases j <;> simp [sweepUpper, pivot, div_eq_mul_inv]

theorem rowPivot_eq (hj : j < n) : Tridiagonal.rowPivot 1 0 (before lo) diag (behind n up) j = pivot lo diag up j := by
  cases j with
  | zero   => simp [Tridiagonal.rowPivot, pivot]
  | succ j =>
    rw [Tridiagonal.rowPivot, Tridiagonal.pivot, factor_sweep (by omega), pivot, before]
    ring

theorem forward_sweep (hj : j < n) :
    Tridiagonal.forward 1 0 (before lo) diag (behind n up) rhs j = sweepRhs lo diag up rhs j := by
  induction j with
  | zero      => simp [Tridiagonal.forward, Tridiagonal.inverse, sweepRhs, div_eq_mul_inv]
  | succ j ih =>
    rw [Tridiagonal.forward, ih (by omega), inverse_pivot hj, before, sweepRhs]
    ring

theorem backward_sweep {k : ℕ} (hk : k < n) :
    Tridiagonal.backward 1 0 (before lo) diag (behind n up) rhs (n - 1) k = backSubstitute lo diag up rhs (n - 1) k := by
  induction k with
  | zero      => rw [Tridiagonal.backward, backSubstitute, forward_sweep (by omega)]
  | succ k ih =>
    rw [Tridiagonal.backward, backSubstitute, forward_sweep (by omega), factor_sweep (by omega), ih (by omega)]

variable (rhs) in
theorem solveTridiagonal_ok [LinearOrder K] (h : ∀ i < n, pivot lo diag up i ≠ 0) :
    ∃ d, solveTridiagonal n lo diag up rhs = .ok d ∧
      ∀ j < n, d j = Tridiagonal.solution 1 0 (before lo) diag (behind n up) rhs (n - 1) j := by
  have hnone : (List.range n).find? (fun i => decide (pivot lo diag up i = 0)) = none :=
    List.find?_eq_none.2 fun i hi => by simpa using h i (List.mem_range.1 hi)
  refine ⟨fun i => backSubstitute lo diag up rhs (n - 1) (n - 1 - i), by rw [solveTridiagonal, hnone], fun j hj => ?_⟩
  rw [Tridiagonal.solution, backward_sweep (by omega)]

theorem row_iff {d : ℕ → K} (hj : j < n) : Tridiagonal.Row 1 0 (before lo) diag (behind n up) rhs (n - 1) d j ↔
    (if j = 0 then 0 else lo (j - 1) * d (j - 1)) + diag j * d j + (if j < n - 1 then up j * d (j + 1) else 0) = rhs j := by
  rw [Tridiagonal.Row, behind]
  cases j with
  | zero   => by_cases h : 0 < n - 1 <;> simp [before, h, mul_comm]
  | succ j => by_cases h : j + 1 < n - 1 <;> simp [before, h, mul_comm]

end Sweeps

/-! ## The pivots of a spline -/

section Rows

variable {K : Type} [Field K] {config : CubicConfig K} {n i : ℕ} {x y dx s : ℕ → K}

theorem lower_inner (hi : i < n - 2) : lower config n x y dx s i = dx (i + 1) := if_neg hi.ne

theorem diag_inner (hi : i + 1 < n - 1) : diag config n x y dx s (i + 1) = 2 • (dx (i + 1) + dx i) := by
  rw [diag, if_neg (Nat.succ_ne_zero i), if_neg hi.ne, Nat.add_sub_cancel]

theorem upper_inner (i : ℕ) : upper config x y dx s (i + 1) = dx i := rfl

theorem rhs_inner (hi : i + 1 < n - 1) :
    rhs config n x y dx s (i + 1) = 3 • (dx (i + 1) * s i + dx i * s (i + 1)) := by
  rw [rhs, if_neg (Nat.succ_ne_zero i), if_neg hi.ne, Nat.add_sub_cancel]

end Rows

/-- The counts of points that the boundary conditions ask for. -/
structure Enough {K : Type} (config : CubicConfig K) (n : ℕ) : Prop where
  two : 2 ≤ n
  left : config.leftCond = .notAKnot → 3 ≤ n
  right : config.rightCond = .notAKnot → 3 ≤ n
  both : config.leftCond = .notAKnot → config.rightCond = .notAKnot → 4 ≤ n
  leftFour : config.leftCond = .lagrange → 4 ≤ n
  rightFour : config.rightCond = .lagrange → 4 ≤ n

section Enough

variable {K : Type} [Field K] [LinearOrder K] {config : CubicConfig K} {n : ℕ} {x y dx s : ℕ → K}

theorem splineNodeDerivatives_solve (h : Enough config n) : splineNodeDerivatives config n x y dx s =
    solveTridiagonal n (lower config n x y dx s) (diag config n x y dx s) (upper config x y dx s)
      (rhs config n x y dx s) := by
  have h₁ : ¬ ((config.leftCond = .notAKnot ∨ config.rightCond = .notAKnot) ∧ n < 3) := by
    rintro ⟨hl | hr, hn⟩
    · exact absurd (h.left hl) (not_le.2 hn)
    · exact absurd (h.right hr) (not_le.2 hn)
  have h₂ : ¬ ((config.leftCond = .notAKnot ∧ config.rightCond = .notAKnot) ∧ n < 4) := by
    rintro ⟨⟨hl, hr⟩, hn⟩
    exact absurd (h.both hl hr) (not_le.2 hn)
  have h₃ : ¬ ((config.leftCond = .lagrange ∨ config.rightCond = .lagrange) ∧ n < 4) := by
    rintro ⟨hl | hr, hn⟩
    · exact absurd (h.leftFour hl) (not_le.2 hn)
    · exact absurd (h.rightFour hr) (not_le.2 hn)
  rw [splineNodeDerivatives, if_neg h₁, if_neg h₂, if_neg h₃]

theorem splineNodeDerivatives_few (h : ¬ Enough config n) (h₂ : 2 ≤ n) : ∃ e, splineNodeDerivatives config n x y dx s =
    .error e ∧ (e = .notAKnot n ∨ e = .twoNotAKnots n ∨ e = .lagrange n) := by
  by_cases hone : (config.leftCond = .notAKnot ∨ config.rightCond = .notAKnot) ∧ n < 3
  · exact ⟨_, by rw [splineNodeDerivatives, if_pos hone], .inl rfl⟩
  by_cases htwo : (config.leftCond = .notAKnot ∧ config.rightCond = .notAKnot) ∧ n < 4
  · exact ⟨_, by rw [splineNodeDerivatives, if_neg hone, if_pos htwo], .inr (.inl rfl)⟩
  by_cases hfour : (config.leftCond = .lagrange ∨ config.rightCond = .lagrange) ∧ n < 4
  · exact ⟨_, by rw [splineNodeDerivatives, if_neg hone, if_neg htwo, if_pos hfour], .inr (.inr rfl)⟩
  · exact absurd ⟨h₂, fun hl => not_lt.1 fun hn => hone ⟨.inl hl, hn⟩, fun hr => not_lt.1 fun hn => hone ⟨.inr hr, hn⟩,
      fun hl hr => not_lt.1 fun hn => htwo ⟨⟨hl, hr⟩, hn⟩, fun hl => not_lt.1 fun hn => hfour ⟨.inl hl, hn⟩,
      fun hr => not_lt.1 fun hn => hfour ⟨.inr hr, hn⟩⟩ h

end Enough

section Pivots

variable {K : Type} [Field K] (config : CubicConfig K) (n : ℕ) (x y dx s : ℕ → K)

/-- What the sweep up carries past a row. -/
def carried (i : ℕ) : K :=
  sweepUpper (lower config n x y dx s) (diag config n x y dx s) (upper config x y dx s) i

def splinePivot (i : ℕ) : K := pivot (lower config n x y dx s) (diag config n x y dx s) (upper config x y dx s) i

/-- What an inner row is reduced by is at most its widths, and less but behind a left not-a-knot row. -/
def Reduced [LT K] (i : ℕ) : Prop :=
  dx (i + 1) * carried config n x y dx s i < dx (i + 1) + dx i ∨
  (config.leftCond = .notAKnot ∧ i = 0 ∧ dx (i + 1) * carried config n x y dx s i = dx (i + 1) + dx i)

variable {config n x y dx s} {i : ℕ}

theorem splinePivot_succ (i : ℕ) : splinePivot config n x y dx s (i + 1) =
    diag config n x y dx s (i + 1) - lower config n x y dx s i * carried config n x y dx s i := rfl

theorem carried_succ (i : ℕ) : carried config n x y dx s (i + 1) = dx i / splinePivot config n x y dx s (i + 1) := rfl

theorem splinePivot_inner (hi : i + 1 < n - 1) : splinePivot config n x y dx s (i + 1) =
    (dx (i + 1) + dx i) + (dx (i + 1) + dx i) - dx (i + 1) * carried config n x y dx s i := by
  rw [splinePivot_succ, lower_inner (by omega), diag_inner hi, two_nsmul]

variable [LinearOrder K] [IsStrictOrderedRing K]

/-- Past the left row: below one, but for a not-a-knot row, where it is a ratio of widths. -/
theorem carried_zero (h : Enough config n) (hdx : ∀ i < n - 1, 0 < dx i) : carried config n x y dx s 0 < 1 ∨
    (config.leftCond = .notAKnot ∧ carried config n x y dx s 0 * dx 1 = dx 0 + dx 1) := by
  cases hl : config.leftCond with
  | secondDerivative => exact .inl (by norm_num [carried, sweepUpper, upper, diag, leftRow, hl])
  | firstDerivative  => exact .inl (by norm_num [carried, sweepUpper, upper, diag, leftRow, hl])
  | lagrange         => exact .inl (by norm_num [carried, sweepUpper, upper, diag, leftRow, hl])
  | notAKnot         =>
    have hn := h.left hl
    have h₀ := hdx 0 (by omega)
    have h₁ := hdx 1 (by omega)
    have hne := (add_pos h₁ h₀).ne'
    refine .inr ⟨rfl, ?_⟩
    simp only [carried, sweepUpper, upper, diag, leftRow, hl, if_pos]
    field_simp
    ring

theorem reduced_of_lt (hdx : ∀ i < n - 1, 0 < dx i) (hi : i + 1 < n - 1) (h : carried config n x y dx s i < 1) :
    Reduced config n x y dx s i := by
  have h₀ := hdx i (by omega)
  have h₁ := mul_lt_mul_of_pos_left h (hdx (i + 1) hi)
  exact .inl (by linarith)

theorem widths_le_pivot (hi : i + 1 < n - 1) (h : Reduced config n x y dx s i) :
    dx (i + 1) + dx i ≤ splinePivot config n x y dx s (i + 1) := by
  rw [splinePivot_inner hi]
  rcases h with h | ⟨-, -, h⟩ <;> linarith

theorem carried_lt (hdx : ∀ i < n - 1, 0 < dx i) (hi : i + 1 < n - 1) (h : Reduced config n x y dx s i) :
    carried config n x y dx s (i + 1) < 1 := by
  have h₀ := hdx i (by omega)
  have h₁ := hdx (i + 1) hi
  have hle := widths_le_pivot hi h
  rw [carried_succ, div_lt_one (by linarith)]
  linarith

theorem reduced (h : Enough config n) (hdx : ∀ i < n - 1, 0 < dx i) :
    ∀ {i : ℕ}, i + 1 < n - 1 → Reduced config n x y dx s i
  | 0, hi     => by
    rcases carried_zero h hdx with hlt | ⟨hl, heq⟩
    · exact reduced_of_lt hdx hi hlt
    · exact .inr ⟨hl, rfl, by rw [mul_comm, heq, add_comm]⟩
  | i + 1, hi => reduced_of_lt hdx hi (carried_lt hdx (by omega) (reduced h hdx (by omega)))

theorem carried_last (h : Enough config n) (hdx : ∀ i < n - 1, 0 < dx i) (hn : config.leftCond = .notAKnot → 3 ≤ n) :
    carried config n x y dx s (n - 2) < 1 := by
  have h₂ := h.two
  rcases Nat.lt_or_ge 2 n with hlt | hge
  · obtain ⟨m, rfl⟩ : ∃ m, n = m + 3 := ⟨n - 3, by omega⟩
    exact carried_lt hdx (by omega) (reduced h hdx (by omega))
  · obtain rfl : n = 2 := le_antisymm hge h₂
    refine (carried_zero h hdx).resolve_right fun hl => ?_
    exact absurd (hn hl.1) (by decide)

/-- The pivot of a right not-a-knot row: the one before it is more than its widths, as it is not behind a left one. -/
theorem pivot_notAKnot (h : Enough config n) (hdx : ∀ i < n - 1, 0 < dx i) (hr : config.rightCond = .notAKnot) :
    splinePivot config n x y dx s (n - 1) ≠ 0 := by
  obtain ⟨m, rfl⟩ : ∃ m, n = m + 3 := ⟨n - 3, by have := h.right hr; omega⟩
  have h₀ := hdx m (by omega)
  have h₁ := hdx (m + 1) (by omega)
  have hlt : dx (m + 1) + dx m < splinePivot config (m + 3) x y dx s (m + 1) := by
    rw [splinePivot_inner (by omega)]
    rcases reduced h hdx (show m + 1 < m + 3 - 1 by omega) with hred | ⟨hl, rfl, -⟩
    · linarith
    · exact absurd (h.both hl hr) (by decide)
  have hlower : lower config (m + 3) x y dx s (m + 1) = -(dx (m + 1) + dx m) * (dx (m + 1) + dx m) := by
    simp [lower, rightRow, hr]
  have hdiag : diag config (m + 3) x y dx s (m + 2) = -dx m * (dx m + dx (m + 1)) := by
    simp [diag, rightRow, hr]
  rw [show m + 3 - 1 = m + 1 + 1 from rfl, splinePivot_succ, carried_succ, hlower, hdiag]
  generalize splinePivot config (m + 3) x y dx s (m + 1) = p at hlt ⊢
  have hp : p ≠ 0 := by linarith
  have hne : dx m * (dx m + dx (m + 1)) * (dx (m + 1) + dx m - p) ≠ 0 :=
    mul_ne_zero (mul_pos h₀ (add_pos h₀ h₁)).ne' (by linarith)
  intro hzero
  apply hne
  field_simp at hzero
  linear_combination hzero

/-- **The elimination meets no zero pivot**, whatever the conditions at the ends. -/
theorem splinePivot_ne_zero (h : Enough config n) (hdx : ∀ i < n - 1, 0 < dx i) (hi : i < n) :
    splinePivot config n x y dx s i ≠ 0 := by
  have h₂ := h.two
  cases i with
  | zero   =>
    cases hl : config.leftCond with
    | secondDerivative => norm_num [splinePivot, pivot, diag, leftRow, hl]
    | firstDerivative  => norm_num [splinePivot, pivot, diag, leftRow, hl]
    | lagrange         => norm_num [splinePivot, pivot, diag, leftRow, hl]
    | notAKnot         =>
      have hn := h.left hl
      have h₀ := hdx 0 (by omega)
      have h₁ := hdx 1 (by omega)
      simp only [splinePivot, pivot, diag, leftRow, hl, if_pos]
      positivity
  | succ i =>
    rcases Nat.lt_or_ge (i + 1) (n - 1) with hlt | hge
    · have h₀ := hdx i (by omega)
      have h₁ := hdx (i + 1) hlt
      have hle := widths_le_pivot hlt (reduced (x := x) (y := y) (s := s) h hdx hlt)
      exact ((add_pos h₁ h₀).trans_le hle).ne'
    · obtain rfl : n = i + 2 := by omega
      have hlower : lower config (i + 2) x y dx s i = (rightRow config (i + 2) x y dx s).1 := if_pos rfl
      have hdiag : diag config (i + 2) x y dx s (i + 1) = (rightRow config (i + 2) x y dx s).2.1 := by simp [diag]
      cases hr : config.rightCond with
      | secondDerivative =>
        have hlast := carried_last (x := x) (y := y) (s := s) h hdx h.left
        rw [splinePivot_succ, hlower, hdiag]
        simp only [rightRow, hr, one_mul, Nat.cast_ofNat]
        rw [Nat.add_sub_cancel] at hlast
        linarith
      | firstDerivative  => simp [splinePivot_succ, hlower, hdiag, rightRow, hr]
      | lagrange         => simp [splinePivot_succ, hlower, hdiag, rightRow, hr]
      | notAKnot         => exact pivot_notAKnot h hdx hr

end Pivots

/-! ## The rows -/

section System

variable {K : Type} [Field K] {config : CubicConfig K} {n i : ℕ} {x y dx s d : ℕ → K}

/-- Slopes that solve the system of a spline. -/
structure SplineRows (config : CubicConfig K) (n : ℕ) (x y dx s d : ℕ → K) : Prop where
  left : (leftRow config x y dx s).1 * d 0 + (leftRow config x y dx s).2.1 * d 1 = (leftRow config x y dx s).2.2
  inner : ∀ i, i + 1 < n - 1 → dx (i + 1) * d i + 2 • (dx (i + 1) + dx i) * d (i + 1) + dx i * d (i + 2) =
    3 • (dx (i + 1) * s i + dx i * s (i + 1))
  right : (rightRow config n x y dx s).1 * d (n - 2) + (rightRow config n x y dx s).2.1 * d (n - 1) =
    (rightRow config n x y dx s).2.2

theorem splineRows_iff (h : 2 ≤ n) : SplineRows config n x y dx s d ↔ ∀ j ≤ n - 1,
    Tridiagonal.Row 1 0 (before (lower config n x y dx s)) (diag config n x y dx s) (behind n (upper config x y dx s))
      (rhs config n x y dx s) (n - 1) d j := by
  have hleft : (leftRow config x y dx s).1 * d 0 + (leftRow config x y dx s).2.1 * d 1 =
      (leftRow config x y dx s).2.2 ↔ Tridiagonal.Row 1 0 (before (lower config n x y dx s)) (diag config n x y dx s)
        (behind n (upper config x y dx s)) (rhs config n x y dx s) (n - 1) d 0 := by
    rw [row_iff (by omega), if_pos rfl, if_pos (by omega), zero_add, diag, if_pos rfl, upper, if_pos rfl, rhs, if_pos rfl]
  have hinner : ∀ i, i + 1 < n - 1 → (dx (i + 1) * d i + 2 • (dx (i + 1) + dx i) * d (i + 1) + dx i * d (i + 2) =
      3 • (dx (i + 1) * s i + dx i * s (i + 1)) ↔ Tridiagonal.Row 1 0 (before (lower config n x y dx s))
        (diag config n x y dx s) (behind n (upper config x y dx s)) (rhs config n x y dx s) (n - 1) d (i + 1)) := by
    intro i hi
    rw [row_iff (by omega), if_neg (Nat.succ_ne_zero i), if_pos hi, Nat.add_sub_cancel, lower_inner (by omega),
      diag_inner hi, upper_inner, rhs_inner hi]
  have hright : (rightRow config n x y dx s).1 * d (n - 2) + (rightRow config n x y dx s).2.1 * d (n - 1) =
      (rightRow config n x y dx s).2.2 ↔ Tridiagonal.Row 1 0 (before (lower config n x y dx s)) (diag config n x y dx s)
        (behind n (upper config x y dx s)) (rhs config n x y dx s) (n - 1) d (n - 1) := by
    have hlast : n - 1 ≠ 0 := by omega
    rw [row_iff (by omega), if_neg hlast, if_neg (lt_irrefl _), add_zero, show n - 1 - 1 = n - 2 by omega, lower,
      if_pos rfl, diag, if_neg hlast, if_pos rfl, rhs, if_neg hlast, if_pos rfl]
  constructor
  · rintro ⟨hl, hi, hr⟩ j hj
    rcases Nat.eq_zero_or_pos j with rfl | hpos
    · exact hleft.1 hl
    · obtain ⟨i, rfl⟩ := Nat.exists_eq_succ_of_ne_zero hpos.ne'
      rcases Nat.lt_or_eq_of_le hj with hlt | heq
      · exact (hinner i hlt).1 (hi i hlt)
      · exact heq ▸ hright.1 hr
  · exact fun h => ⟨hleft.2 (h 0 (Nat.zero_le _)), fun i hi => (hinner i hi).2 (h _ hi.le), hright.2 (h _ le_rfl)⟩

variable [LinearOrder K] [IsStrictOrderedRing K]

/-- **The slopes of a spline are the only solution of its rows.** -/
theorem splineNodeDerivatives_ok (h : Enough config n) (hdx : ∀ i < n - 1, 0 < dx i) :
    ∃ d, splineNodeDerivatives config n x y dx s = .ok d ∧ SplineRows config n x y dx s d ∧
      ∀ d', SplineRows config n x y dx s d' → ∀ i < n, d' i = d i := by
  have h₂ := h.two
  obtain ⟨d, hd, hsol⟩ := solveTridiagonal_ok (rhs config n x y dx s)
    (fun i hi => splinePivot_ne_zero (x := x) (y := y) (s := s) h hdx hi)
  have hpivot : ∀ j ≤ n - 1, Tridiagonal.rowPivot 1 0 (before (lower config n x y dx s)) (diag config n x y dx s)
      (behind n (upper config x y dx s)) j ≠ 0 := fun j hj => by
    rw [rowPivot_eq (by omega)]
    exact splinePivot_ne_zero h hdx (by omega)
  refine ⟨d, (splineNodeDerivatives_solve h).trans hd, (splineRows_iff h₂).2 fun j hj => ?_, fun d' hd' i hi => ?_⟩
  · have hrow := Tridiagonal.solution_row hpivot rfl (if_neg (lt_irrefl _)) hj (r := rhs config n x y dx s)
    rw [row_iff (by omega)] at hrow ⊢
    rw [hsol j (by omega), hsol (j - 1) (by omega)]
    rw [← hrow]
    congr 1
    split_ifs with hlt
    · rw [hsol (j + 1) (by omega)]
    · rfl
  · rw [hsol i hi]
    exact Tridiagonal.solution_unique hpivot ((splineRows_iff h₂).1 hd') (by omega)

end System

end CubicSlopes

/-! ## The cubics of a spline -/

theorem eval_cubic {K : Type} [Field K] {q : K[X]} (hq : q.natDegree ≤ 3) (t : K) :
    q.eval t = q.coeff 0 + q.coeff 1 * t + q.coeff 2 * t ^ 2 + q.coeff 3 * t ^ 3 := by
  rw [eval_eq_sum_range' (Nat.lt_succ_of_le hq)]
  simp [Finset.sum_range_succ]

theorem eval_derivative_cubic {K : Type} [Field K] {q : K[X]} (hq : q.natDegree ≤ 3) (t : K) :
    q.derivative.eval t = q.coeff 1 + 2 * q.coeff 2 * t + 3 * q.coeff 3 * t ^ 2 := by
  have hd : q.derivative.natDegree < 3 := by
    have := natDegree_derivative_le q
    omega
  rw [eval_eq_sum_range' hd]
  simp [Finset.sum_range_succ, coeff_derivative]
  ring

namespace CubicSlopes

section Lagrange

variable {K : Type} [Field K] {x y : ℕ → K} {i : ℕ}

/-- The slope at the end is that of the cubic through the four nodes, by comparing the coefficients. -/
theorem lagrangeSlope_eq {q : K[X]} (hq : q.natDegree ≤ 3) (hy : ∀ j < 4, y (i + j) = q.eval (x (i + j)))
    (hne : ∀ j < 4, ∀ k < 4, j < k → x (i + j) ≠ x (i + k)) (t : K) :
    lagrangeSlope x y i t = q.derivative.eval t := by
  have h₀₁ := sub_ne_zero.2 (hne 0 (by decide) 1 (by decide) (by decide))
  have h₀₂ := sub_ne_zero.2 (hne 0 (by decide) 2 (by decide) (by decide))
  have h₀₃ := sub_ne_zero.2 (hne 0 (by decide) 3 (by decide) (by decide))
  have h₁₂ := sub_ne_zero.2 (hne 1 (by decide) 2 (by decide) (by decide))
  have h₁₃ := sub_ne_zero.2 (hne 1 (by decide) 3 (by decide) (by decide))
  have h₂₃ := sub_ne_zero.2 (hne 2 (by decide) 3 (by decide) (by decide))
  rw [add_zero] at h₀₁ h₀₂ h₀₃
  have hden := mul_ne_zero (mul_ne_zero (mul_ne_zero (mul_ne_zero (mul_ne_zero h₀₁ h₀₂) h₀₃) h₁₂) h₁₃) h₂₃
  have hy₀ := hy 0 (by decide)
  rw [add_zero] at hy₀
  rw [lagrangeSlope, cubicInterpolatingPolynomialDerivative, hy₀, hy 1 (by decide), hy 2 (by decide), hy 3 (by decide),
    eval_derivative_cubic hq]
  simp only [eval_cubic hq]
  rw [div_eq_iff hden]
  ring

end Lagrange

end CubicSlopes

namespace CubicInterpolation

open CubicSlopes

section Segments

variable {K : Type} [Field K] [LinearOrder K] [IsStrictOrderedRing K] (self : CubicInterpolation K)
  {config : CubicConfig K} {i : ℕ} {q : K[X]}

theorem segmentSecond_start (h : i < self.nodes.size - 1) :
    self.segmentSecond i (self.nodes.x i) * self.dx i = 6 * self.s i - 2 * self.d (i + 1) - 4 * self.d i := by
  have hne := (self.dx_pos h).ne'
  simp only [segmentSecond, b, sub_self, mul_zero, add_zero, nsmul_eq_mul, Nat.cast_ofNat]
  field_simp
  ring

theorem segmentSecond_end (h : i < self.nodes.size - 1) :
    self.segmentSecond i (self.nodes.x (i + 1)) * self.dx i = 4 * self.d (i + 1) + 2 * self.d i - 6 * self.s i := by
  have hne := (self.dx_pos h).ne'
  have hdx : self.nodes.x (i + 1) - self.nodes.x i = self.dx i := rfl
  simp only [segmentSecond, b, c, hdx, nsmul_eq_mul, Nat.cast_ofNat]
  field_simp
  ring

/-- The slopes solve the rows of a spline. -/
def Solves (config : CubicConfig K) : Prop :=
  SplineRows config self.nodes.size self.nodes.x self.nodes.y self.dx self.s self.d

variable {self}

/-- An inner row says that the second derivatives agree at its node. -/
theorem segmentSecond_meet (h : self.Solves config) (hi : i < self.nodes.size - 2) :
    self.segmentSecond i (self.nodes.x (i + 1)) = self.segmentSecond (i + 1) (self.nodes.x (i + 1)) := by
  have h₀ := self.dx_pos (show i < self.nodes.size - 1 by omega)
  have h₁ := self.dx_pos (show i + 1 < self.nodes.size - 1 by omega)
  have hend := self.segmentSecond_end (show i < self.nodes.size - 1 by omega)
  have hstart := self.segmentSecond_start (show i + 1 < self.nodes.size - 1 by omega)
  have hrow := h.inner i (by omega)
  simp only [nsmul_eq_mul, Nat.cast_ofNat] at hrow
  refine mul_right_cancel₀ (mul_pos h₀ h₁).ne' ?_
  linear_combination self.dx (i + 1) * hend - self.dx i * hstart + 2 * hrow

/-- Two segments of one cubic coefficient, whose second derivatives agree at the node between, are one cubic. -/
theorem segment_shared (h : self.Solves config) (hi : i < self.nodes.size - 2) (hc : self.c i = self.c (i + 1)) (t : K) :
    self.segment i t = self.segment (i + 1) t := by
  have hy := self.segment_end (show i < self.nodes.size - 1 by omega)
  have hd := self.segmentDerivative_end (show i < self.nodes.size - 1 by omega)
  have hb := segmentSecond_meet h hi
  have htwo : (2 : K) ≠ 0 := two_ne_zero
  simp only [segment, segmentDerivative, segmentSecond, a, nsmul_eq_mul, Nat.cast_ofNat, sub_self, mul_zero,
    add_zero, ← hc] at hy hd hb ⊢
  have hb' : self.b (i + 1) = self.b i + 3 * self.c i * (self.nodes.x (i + 1) - self.nodes.x i) := by
    apply mul_left_cancel₀ htwo
    linear_combination -hb
  rw [← hy, ← hd, hb']
  ring

theorem c_eq_iff (h₀ : i < self.nodes.size - 1) (h₁ : i + 1 < self.nodes.size - 1) : self.c i = self.c (i + 1) ↔
    (self.d (i + 1) + self.d i - 2 * self.s i) * (self.dx (i + 1) * self.dx (i + 1)) =
      (self.d (i + 2) + self.d (i + 1) - 2 * self.s (i + 1)) * (self.dx i * self.dx i) := by
  have hne := (self.dx_pos h₀).ne'
  have hne' := (self.dx_pos h₁).ne'
  rw [c, c, div_eq_div_iff (mul_ne_zero hne hne) (mul_ne_zero hne' hne')]
  simp only [nsmul_eq_mul, Nat.cast_ofNat]

/-- A left not-a-knot row says, with the inner row after it, that the first two segments are one cubic. -/
theorem shared_left (h : self.Solves config) (hl : config.leftCond = .notAKnot) (hn : 3 ≤ self.nodes.size) :
    self.c 0 = self.c 1 := by
  have hleft := h.left
  have hinner := h.inner 0 (by omega)
  simp only [leftRow, hl, nsmul_eq_mul, Nat.cast_ofNat, zero_add] at hleft hinner
  rw [c_eq_iff (by omega) (by omega)]
  linear_combination hleft - self.dx 0 * hinner

theorem shared_right {m : ℕ} (h : self.Solves config) (hr : config.rightCond = .notAKnot)
    (hn : self.nodes.size = m + 3) : self.c m = self.c (m + 1) := by
  have hright := h.right
  have hinner := h.inner m (by omega)
  simp only [rightRow, hr, hn, nsmul_eq_mul, Nat.cast_ofNat] at hright hinner
  simp only [show m + 3 - 2 = m + 1 from rfl, show m + 3 - 3 = m from rfl, show m + 3 - 1 = m + 2 from rfl] at hright
  rw [c_eq_iff (by omega) (by omega)]
  linear_combination hright + self.dx (m + 1) * hinner

/-! ## Cubic data -/

/-- The data at the nodes are values of a polynomial. -/
def Samples (self : CubicInterpolation K) (q : K[X]) : Prop := ∀ i < self.nodes.size, self.nodes.y i = q.eval (self.nodes.x i)

theorem s_cubic (hq : q.natDegree ≤ 3) (hy : self.Samples q) (h : i < self.nodes.size - 1) :
    self.s i = q.coeff 1 + q.coeff 2 * (self.nodes.x i + self.nodes.x (i + 1)) +
      q.coeff 3 * (self.nodes.x i ^ 2 + self.nodes.x i * self.nodes.x (i + 1) + self.nodes.x (i + 1) ^ 2) := by
  refine mul_right_cancel₀ (self.dx_pos h).ne' ?_
  rw [self.s_mul_dx h, hy i (by omega), hy (i + 1) (by omega), eval_cubic hq, eval_cubic hq, dx, width]
  ring

/-- With the slopes of the polynomial at the nodes a segment is the polynomial. -/
theorem segment_cubic (hq : q.natDegree ≤ 3) (hy : self.Samples q) (h : i < self.nodes.size - 1)
    (h₀ : self.d i = q.derivative.eval (self.nodes.x i)) (h₁ : self.d (i + 1) = q.derivative.eval (self.nodes.x (i + 1)))
    (t : K) : self.segment i t = q.eval t := by
  have hne : self.nodes.x (i + 1) - self.nodes.x i ≠ 0 := (self.dx_pos h).ne'
  have hb : self.b i = q.coeff 2 + 3 * q.coeff 3 * self.nodes.x i := by
    rw [b, s_cubic hq hy h, h₀, h₁, eval_derivative_cubic hq, eval_derivative_cubic hq, dx, width, div_eq_iff hne]
    simp only [nsmul_eq_mul, Nat.cast_ofNat]
    ring
  have hc : self.c i = q.coeff 3 := by
    rw [c, s_cubic hq hy h, h₀, h₁, eval_derivative_cubic hq, eval_derivative_cubic hq, dx, width,
      div_eq_iff (mul_ne_zero hne hne)]
    simp only [nsmul_eq_mul, Nat.cast_ofNat]
    ring
  rw [segment, a, hb, hc, h₀, hy i (by omega), eval_cubic hq, eval_cubic hq, eval_derivative_cubic hq]
  ring

/-- The slopes of the polynomial solve the rows when each end is not-a-knot or Lagrange. -/
theorem rows_cubic (hq : q.natDegree ≤ 3) (hy : self.Samples q) (hn : Enough config self.nodes.size)
    (hl : config.leftCond = .notAKnot ∨ config.leftCond = .lagrange)
    (hr : config.rightCond = .notAKnot ∨ config.rightCond = .lagrange) :
    SplineRows config self.nodes.size self.nodes.x self.nodes.y self.dx self.s
      (fun i => q.derivative.eval (self.nodes.x i)) where
  left := by
    rcases hl with hl | hl
    · have hthree := hn.left hl
      simp only [leftRow, hl, s_cubic hq hy (show 0 < self.nodes.size - 1 by omega),
        s_cubic hq hy (show 1 < self.nodes.size - 1 by omega), eval_derivative_cubic hq, dx, width, nsmul_eq_mul,
        Nat.cast_ofNat]
      ring
    · have hfour := hn.leftFour hl
      simp only [leftRow, hl, one_mul, zero_mul, add_zero]
      refine (lagrangeSlope_eq hq (fun j hj => hy _ (by omega)) (fun j hj k hk hjk => ?_) _).symm
      exact (self.nodes.x_lt (by omega) (by omega)).ne
  inner i hi := by
    simp only [s_cubic hq hy (show i < self.nodes.size - 1 by omega), s_cubic hq hy hi, eval_derivative_cubic hq, dx, width,
      nsmul_eq_mul, Nat.cast_ofNat]
    ring
  right := by
    rcases hr with hr | hr
    · have hthree := hn.right hr
      obtain ⟨m, hm⟩ : ∃ m, self.nodes.size = m + 3 := ⟨self.nodes.size - 3, by omega⟩
      have h₀ : self.nodes.size - 3 = m := by omega
      have h₁ : self.nodes.size - 2 = m + 1 := by omega
      have h₂ : self.nodes.size - 1 = m + 2 := by omega
      simp only [rightRow, hr, h₀, h₁, h₂, s_cubic hq hy (show m < self.nodes.size - 1 by omega),
        s_cubic hq hy (show m + 1 < self.nodes.size - 1 by omega), eval_derivative_cubic hq, dx, width, nsmul_eq_mul,
        Nat.cast_ofNat]
      ring
    · have hfour := hn.rightFour hr
      simp only [rightRow, hr, one_mul, zero_mul, zero_add]
      refine (lagrangeSlope_eq hq (fun j hj => hy _ (by omega)) (fun j hj k hk hjk => ?_) _).symm
      exact (self.nodes.x_lt (by omega) (by omega)).ne

end Segments

/-! ## The interpolation -/

section Spline

open Piecewise Piecewise.Locates

variable (self : CubicInterpolation ℝ) {config : CubicConfig ℝ} {i : ℕ} {t : ℝ}

/-- What a condition asks of the end at node `e`: `lo` is the first node of the two segments at that end, `base` the first
of the four nodes nearest to it. -/
def EndCondition (cond : CubicBoundaryCondition) (value : ℝ) (e lo base : ℕ) : Prop := match cond with
  | .secondDerivative => self.secondDerivative (self.nodes.x e) = .ok value
  | .firstDerivative  => self.interpolation.derivative (self.nodes.x e) = .ok value
  | .notAKnot         => ∃ q : ℝ[X], q.natDegree ≤ 3 ∧
    ∀ t, self.nodes.x lo ≤ t → t ≤ self.nodes.x (lo + 2) → self.interpolation.value t = .ok (q.eval t)
  | .lagrange         => ∃ q : ℝ[X], q.natDegree ≤ 3 ∧
    (∀ j < 4, q.eval (self.nodes.x (base + j)) = self.nodes.y (base + j)) ∧
    self.interpolation.derivative (self.nodes.x e) = .ok (q.derivative.eval (self.nodes.x e))

/-- **What a cubic spline is**: it passes through its nodes, has two continuous derivatives, meets the condition of each
end, and gives back cubics where both ends are not-a-knot or Lagrange. -/
structure IsSpline (config : CubicConfig ℝ) : Prop where
  node : ∀ i < self.nodes.size, self.interpolation.value (self.nodes.x i) = .ok (self.nodes.y i)
  smooth : ∃ g : ℝ → ℝ, ContDiff ℝ 2 g ∧ ∀ t, self.nodes.Admits self.allowExtrapolation t →
    self.interpolation.value t = .ok (g t) ∧ self.interpolation.derivative t = .ok (deriv g t) ∧
    self.secondDerivative t = .ok (deriv (deriv g) t)
  left : self.EndCondition config.leftCond config.leftValue 0 0 0
  right : self.EndCondition config.rightCond config.rightValue (self.nodes.size - 1) (self.nodes.size - 3)
    (self.nodes.size - 4)
  cubic : (config.leftCond = .notAKnot ∨ config.leftCond = .lagrange) →
    (config.rightCond = .notAKnot ∨ config.rightCond = .lagrange) → ∀ q : ℝ[X], q.natDegree ≤ 3 → self.Samples q →
    ∀ t, self.nodes.Admits self.allowExtrapolation t → self.interpolation.value t = .ok (q.eval t)

variable {self}

theorem value_ok (h : self.nodes.Admits self.allowExtrapolation t) :
    self.interpolation.value t = .ok (self.segment (self.nodes.locate t) t) := self.nodes.map_checkRange.2 ⟨h, rfl⟩

theorem derivative_ok (h : self.nodes.Admits self.allowExtrapolation t) :
    self.interpolation.derivative t = .ok (self.segmentDerivative (self.nodes.locate t) t) :=
  self.nodes.map_checkRange.2 ⟨h, rfl⟩

theorem secondDerivative_ok (h : self.nodes.Admits self.allowExtrapolation t) :
    self.secondDerivative t = .ok (self.segmentSecond (self.nodes.locate t) t) := self.nodes.map_checkRange.2 ⟨h, rfl⟩

theorem smooth_spline (h : self.Solves config) : ContDiff ℝ 2 (fun t => self.segment (self.nodes.locate t) t) ∧
    deriv (fun t => self.segment (self.nodes.locate t) t) =
      (fun t => self.segmentDerivative (self.nodes.locate t) t) ∧
    deriv (fun t => self.segmentDerivative (self.nodes.locate t) t) =
      fun t => self.segmentSecond (self.nodes.locate t) t := by
  have hmeet : Meet self.nodes.x (self.nodes.size - 2) self.segmentSecond := fun i hi => segmentSecond_meet h hi
  have hloc := self.nodes.locates self.nodes.enough
  have hfirst := self.hasDerivAt_value
  have hsecond : ∀ t, HasDerivAt (fun t => self.segmentDerivative (self.nodes.locate t) t)
      (self.segmentSecond (self.nodes.locate t) t) t :=
    hasDerivAt_piecewise hloc (fun i _ => self.hasDerivAt_segmentDerivative i) self.segmentDerivative_meet hmeet
  have hcont : Continuous fun t => self.segmentSecond (self.nodes.locate t) t := by
    refine continuous_piecewise hloc (fun i _ => ?_) hmeet
    unfold segmentSecond
    fun_prop
  have hd₁ := funext fun t => (hfirst t).deriv
  have hd₂ := funext fun t => (hsecond t).deriv
  refine ⟨?_, hd₁, hd₂⟩
  rw [show (2 : WithTop ℕ∞) = 1 + 1 by norm_num, contDiff_succ_iff_deriv]
  refine ⟨fun t => (hfirst t).differentiableAt, by simp, ?_⟩
  rw [hd₁, contDiff_one_iff_deriv, hd₂]
  exact ⟨fun t => (hsecond t).differentiableAt, hcont⟩

theorem segment_polynomial (i : ℕ) : ∃ q : ℝ[X], q.natDegree ≤ 3 ∧ ∀ t, self.segment i t = q.eval t := by
  refine ⟨C (self.nodes.y i) + (X - C (self.nodes.x i)) * (C (self.a i) + (X - C (self.nodes.x i)) *
    (C (self.b i) + (X - C (self.nodes.x i)) * C (self.c i))), by compute_degree, fun t => ?_⟩
  simp [segment]

/-- The two segments from node `m` on, when they are one cubic. -/
theorem shared_segments {m : ℕ} (h : self.Solves config) (hm : m + 2 < self.nodes.size) (hc : self.c m = self.c (m + 1))
    (hlo : self.nodes.x m ≤ t) (hhi : t ≤ self.nodes.x (m + 2)) :
    self.interpolation.value t = .ok (self.segment m t) := by
  have hadmits : self.nodes.Admits self.allowExtrapolation t :=
    self.nodes.admits_between (self.nodes.admits_node _ (by omega)) (self.nodes.admits_node _ hm) hlo hhi
  have hshared := segment_shared h (by omega) hc t
  rcases lt_or_eq_of_le hhi with hlt | rfl
  · rw [value_ok hadmits]
    rcases lt_or_ge t (self.nodes.x (m + 1)) with hin | hge
    · rw [self.nodes.locate_inside (by omega) hlo hin]
    · rw [self.nodes.locate_inside (by omega) hge hlt, hshared]
  · rw [value_ok hadmits, self.segment_node hm, hshared, self.segment_end (by omega)]

theorem exists_cubic {m : ℕ} (hm : m + 3 < self.nodes.size) : ∃ q : ℝ[X], q.natDegree ≤ 3 ∧
    ∀ j < 4, q.eval (self.nodes.x (m + j)) = self.nodes.y (m + j) := by
  have hinj : Set.InjOn (fun j => self.nodes.x (m + j)) (Finset.range 4) := by
    refine StrictMonoOn.injOn fun i _ j hj hij => ?_
    exact self.nodes.x_lt (by omega) (by have := Finset.mem_range.1 hj; omega)
  refine ⟨Lagrange.interpolate (Finset.range 4) (fun j => self.nodes.x (m + j)) fun j => self.nodes.y (m + j), ?_,
    fun j hj => ?_⟩
  · have hdegree := Lagrange.degree_interpolate_lt (fun j => self.nodes.y (m + j)) hinj
    rw [Finset.card_range] at hdegree
    refine natDegree_le_iff_coeff_eq_zero.2 fun k hk => coeff_eq_zero_of_degree_lt (hdegree.trans_le ?_)
    exact_mod_cast hk
  · have heval := Lagrange.eval_interpolate_at_node (fun j => self.nodes.y (m + j)) hinj (Finset.mem_range.2 hj)
    exact heval

variable (self) in
theorem lagrangeSlope_cubic {m : ℕ} (hm : m + 3 < self.nodes.size) (t : ℝ) : ∃ q : ℝ[X], q.natDegree ≤ 3 ∧
    (∀ j < 4, q.eval (self.nodes.x (m + j)) = self.nodes.y (m + j)) ∧
    lagrangeSlope self.nodes.x self.nodes.y m t = q.derivative.eval t := by
  obtain ⟨q, hq, hy⟩ := exists_cubic hm
  refine ⟨q, hq, hy, lagrangeSlope_eq hq (fun j hj => (hy j hj).symm) (fun j hj k hk hjk => ?_) t⟩
  exact (self.nodes.x_lt (by omega) (by omega)).ne

theorem endCondition_left (h : self.Solves config) (hn : Enough config self.nodes.size) :
    self.EndCondition config.leftCond config.leftValue 0 0 0 := by
  have htwo := hn.two
  have hadmits := self.nodes.admits_node self.allowExtrapolation (show 0 < self.nodes.size by omega)
  have hlocate : self.nodes.locate (self.nodes.x 0) = 0 := self.nodes.locate_node (by omega)
  have hpos := self.dx_pos (show 0 < self.nodes.size - 1 by omega)
  have hrow := h.left
  cases hl : config.leftCond with
  | secondDerivative =>
    have hsecond := self.segmentSecond_start (show 0 < self.nodes.size - 1 by omega)
    simp only [leftRow, hl, nsmul_eq_mul, Nat.cast_ofNat] at hrow
    rw [EndCondition, secondDerivative_ok hadmits, hlocate]
    refine congrArg _ (mul_right_cancel₀ hpos.ne' ?_)
    rw [hsecond]
    linear_combination (-2) * hrow
  | firstDerivative  =>
    simp only [leftRow, hl, one_mul, zero_mul, add_zero] at hrow
    rw [EndCondition, derivative_ok hadmits, hlocate, segmentDerivative_start, hrow]
  | notAKnot         =>
    have hthree := hn.left hl
    obtain ⟨q, hq, heval⟩ := self.segment_polynomial 0
    refine ⟨q, hq, fun t hlo hhi => ?_⟩
    rw [shared_segments h (by omega) (shared_left h hl hthree) hlo hhi, heval]
  | lagrange         =>
    have hfour := hn.leftFour hl
    obtain ⟨q, hq, hy, hslope⟩ := lagrangeSlope_cubic self (m := 0) (by omega) (self.nodes.x 0)
    simp only [leftRow, hl, one_mul, zero_mul, add_zero] at hrow
    refine ⟨q, hq, hy, ?_⟩
    rw [derivative_ok hadmits, hlocate, segmentDerivative_start, hrow, hslope]

theorem endCondition_right (h : self.Solves config) (hn : Enough config self.nodes.size) :
    self.EndCondition config.rightCond config.rightValue (self.nodes.size - 1) (self.nodes.size - 3)
      (self.nodes.size - 4) := by
  have htwo := hn.two
  have hadmits := self.nodes.admits_node self.allowExtrapolation (show self.nodes.size - 1 < self.nodes.size by omega)
  have hlocate := self.nodes.locate_last htwo
  have hlast : self.nodes.size - 2 + 1 = self.nodes.size - 1 := by omega
  have hpos := self.dx_pos (show self.nodes.size - 2 < self.nodes.size - 1 by omega)
  have hslope := self.segmentDerivative_end (show self.nodes.size - 2 < self.nodes.size - 1 by omega)
  have hsecond := self.segmentSecond_end (show self.nodes.size - 2 < self.nodes.size - 1 by omega)
  rw [hlast] at hslope hsecond
  have hrow := h.right
  cases hr : config.rightCond with
  | secondDerivative =>
    simp only [rightRow, hr, nsmul_eq_mul, Nat.cast_ofNat, one_mul] at hrow
    rw [EndCondition, secondDerivative_ok hadmits, hlocate]
    refine congrArg _ (mul_right_cancel₀ hpos.ne' ?_)
    rw [hsecond]
    linear_combination 2 * hrow
  | firstDerivative  =>
    simp only [rightRow, hr, one_mul, zero_mul, zero_add] at hrow
    rw [EndCondition, derivative_ok hadmits, hlocate, hslope, hrow]
  | notAKnot         =>
    have hthree := hn.right hr
    obtain ⟨m, hm⟩ : ∃ m, self.nodes.size = m + 3 := ⟨self.nodes.size - 3, by omega⟩
    obtain ⟨q, hq, heval⟩ := self.segment_polynomial m
    refine ⟨q, hq, fun t hlo hhi => ?_⟩
    rw [show self.nodes.size - 3 = m by omega] at hlo hhi
    rw [shared_segments h (by omega) (shared_right h hr hm) hlo hhi, heval]
  | lagrange         =>
    have hfour := hn.rightFour hr
    obtain ⟨q, hq, hy, heval⟩ := lagrangeSlope_cubic self (m := self.nodes.size - 4) (by omega)
      (self.nodes.x (self.nodes.size - 1))
    simp only [rightRow, hr, one_mul, zero_mul, zero_add] at hrow
    refine ⟨q, hq, hy, ?_⟩
    rw [derivative_ok hadmits, hlocate, hslope, hrow, heval]

theorem isSpline (h : self.Solves config) (hn : Enough config self.nodes.size)
    (hunique : ∀ d, SplineRows config self.nodes.size self.nodes.x self.nodes.y self.dx self.s d →
      ∀ i < self.nodes.size, d i = self.d i) : self.IsSpline config where
  node i hi := by rw [value_ok (self.nodes.admits_node _ hi), self.segment_node hi]
  smooth := by
    obtain ⟨hsmooth, hfirst, hsecond⟩ := smooth_spline h
    refine ⟨_, hsmooth, fun t ht => ⟨value_ok ht, ?_, ?_⟩⟩
    · rw [hfirst, derivative_ok ht]
    · rw [hfirst, hsecond, secondDerivative_ok ht]
  left := endCondition_left h hn
  right := endCondition_right h hn
  cubic hl hr q hq hy t ht := by
    have htwo := hn.two
    have hslopes := hunique _ (rows_cubic hq hy hn hl hr)
    have hle := self.nodes.locate_le htwo t
    rw [value_ok ht, segment_cubic hq hy (by omega) (hslopes _ (by omega)).symm (hslopes _ (by omega)).symm]

/-- What `ofNodes` makes with a spline. -/
theorem ofNodes_spline {nodes : Nodes ℝ 2} (hda : config.da = .spline) (hn : Enough config nodes.size) :
    ∃ f, ofNodes nodes config = .ok f ∧ f.nodes = nodes ∧
      (config.monotonic = false → ∀ allow, (f.withExtrapolation allow).IsSpline config) := by
  obtain ⟨d, hd, hrows, hunique⟩ : ∃ d, splineNodeDerivatives config nodes.size nodes.x nodes.y (width nodes)
      (secant nodes) = .ok d ∧ _ := splineNodeDerivatives_ok hn fun i hi => sub_pos.2 (nodes.increasing i hi)
  have hshort : ¬ (config.da = .akima ∧ nodes.size < 4) := by simp [hda]
  have hscheme : schemeDerivatives nodes config = .ok d := by rw [schemeDerivatives, if_pos hda, hd]
  refine ⟨⟨nodes, if config.monotonic then applyHymanFilter nodes.size (width nodes) (secant nodes) d else d, config,
    false⟩, by rw [ofNodes, if_neg hshort, hscheme]; rfl, rfl, fun hmono allow => ?_⟩
  have hraw : (if config.monotonic then applyHymanFilter nodes.size (width nodes) (secant nodes) d else d) = d := by
    simp [hmono]
  rw [hraw]
  exact isSpline hrows hn hunique

theorem ofNodes_not_singular {nodes : Nodes ℝ 2} (row : ℕ) (hda : config.da = .spline) :
    ofNodes nodes config ≠ .error (.singular row) := by
  by_cases hn : Enough config nodes.size
  · obtain ⟨f, hf, -⟩ := ofNodes_spline hda hn
    simp [hf]
  · obtain ⟨e, he, hcase⟩ : ∃ e, splineNodeDerivatives config nodes.size nodes.x nodes.y (width nodes)
        (secant nodes) = .error e ∧ _ := splineNodeDerivatives_few hn nodes.enough
    have hshort : ¬ (config.da = .akima ∧ nodes.size < 4) := by simp [hda]
    rw [ofNodes, if_neg hshort, schemeDerivatives, if_pos hda, he]
    rcases hcase with rfl | rfl | rfl <;> simp [Except.map]

/-- **Cubic splines**: the system is never singular, and from a strictly increasing grid with the points that the
conditions ask for, `build` makes a spline. -/
theorem build_spline (x y : List ℝ) (config : CubicConfig ℝ) (hda : config.da = .spline) :
    (∀ row, build x y config ≠ .error (.singular row)) ∧
    (x.length = y.length → x.Pairwise (· < ·) → Enough config x.length →
      ∃ f, build x y config = .ok f ∧ f.nodes.size = x.length ∧ (∀ i, f.nodes.x i = x.getD i 0) ∧
        (∀ i, f.nodes.y i = y.getD i 0) ∧
        (config.monotonic = false → ∀ allow, (f.withExtrapolation allow).IsSpline config)) := by
  constructor
  · intro row
    unfold build
    cases hv : Nodes.validate 2 x y with
    | error e  =>
      unfold Nodes.validate at hv
      split_ifs at hv <;> (obtain rfl := Except.error.inj hv; simp [Except.bind])
    | ok nodes => exact ofNodes_not_singular row hda
  · intro hlen hx hn
    have hstep : ∀ i < x.length - 1, x.getD i 0 < x.getD (i + 1) 0 := fun i hi => getD_rel hx (by omega)
    have hv : Nodes.validate 2 x y = .ok ⟨x.length, fun i => x.getD i 0, fun i => y.getD i 0, hn.two, hstep⟩ := by
      rw [Nodes.validate, if_neg (not_not.2 hlen), dif_pos hn.two, dif_pos hstep]
    obtain ⟨f, hf, hnodes, hspline⟩ := @ofNodes_spline config
      ⟨x.length, fun i => x.getD i 0, fun i => y.getD i 0, hn.two, hstep⟩ hda hn
    refine ⟨f, by rw [build, hv]; exact hf, ?_, ?_, ?_, hspline⟩ <;> simp [hnodes]

theorem build_spline_cube : ∃ f, build [0, 1, 3, 4] [0, 1, 27, 64] ⟨.spline, false, .notAKnot, 0, .lagrange, 0⟩ = .ok f ∧
    f.IsSpline ⟨.spline, false, .notAKnot, 0, .lagrange, 0⟩ := by
  obtain ⟨f, hf, -, -, -, h⟩ := (build_spline [0, 1, 3, 4] [0, 1, 27, 64] ⟨.spline, false, .notAKnot, 0, .lagrange, 0⟩
    rfl).2 rfl (by norm_num) ⟨by decide, fun _ => by decide, fun _ => by decide, fun _ _ => by decide,
      fun _ => by decide, fun _ => by decide⟩
  exact ⟨f, hf, h rfl f.allowExtrapolation⟩

end Spline

end CubicInterpolation

end Itofin
