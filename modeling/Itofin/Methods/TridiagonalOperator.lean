import Itofin.Lib.Continuant
import Itofin.Lib.Loop
import Itofin.Math.Comparison
/-!
# TridiagonalOperator — the nonpivoting Thomas algorithm

`apply_to` and `solve_for` of `methods/finitedifferences/tridiagonaloperator.rs`, in exact arithmetic, where every number is
finite.  The pivots of the elimination are the ratios of consecutive leading minors, and it stops at one that is close to
zero; where it does not stop it solves the system (`solves`).
-/
namespace Itofin

inductive TridiagonalError (K : Type) where
  /-- "uninitialized TridiagonalOperator" -/
  | uninitialized
  /-- "vector of the wrong size {found} instead of {n}", for the vector or the right-hand side. -/
  | wrongSize (found n : ℕ)
  /-- "diagonal's first element ({bet}) cannot be close to zero" -/
  | firstCloseToZero (bet : K)
  /-- "division by zero" -/
  | divisionByZero
deriving DecidableEq

/-- The sizes are those that `from_diagonals` checks. -/
structure TridiagonalOperator (K : Type) where
  n : ℕ
  diagonal : List K
  lowerDiagonal : List K
  upperDiagonal : List K
  size : n = 0 ∨ 2 ≤ n
  diagonal_length : diagonal.length = n
  lower_length : lowerDiagonal.length = n - 1
  upper_length : upperDiagonal.length = n - 1

namespace TridiagonalOperator

open Tridiagonal (forward factor solution rowPivot)

variable {K : Type}

def modify (result : ℕ → K) (i : ℕ) (f : K → K) : ℕ → K := Function.update result i (f (result i))

theorem modify_apply (result : ℕ → K) (i : ℕ) (f : K → K) (j : ℕ) :
    modify result i f j = if j = i then f (result j) else result j := by
  unfold modify
  by_cases h : j = i
  · rw [h, Function.update_self, if_pos rfl]
  · rw [Function.update_of_ne h, if_neg h]

theorem foldl_modify (f : ℕ → K → K) : ∀ {l : List ℕ} (result : ℕ → K) (i : ℕ), l.Nodup →
    (l.foldl (fun result j => modify result j (f j)) result) i = if i ∈ l then f i (result i) else result i
  | [], _, _, _          => rfl
  | j :: l, result, i, h => by
    obtain ⟨hj, hl⟩ := List.nodup_cons.1 h
    rw [List.foldl_cons, foldl_modify f _ i hl, modify_apply]
    by_cases hi : i = j
    · subst hi
      rw [if_neg hj, if_pos rfl, if_pos List.mem_cons_self]
    · simp only [hi, if_false, List.mem_cons, false_or]

section Field

variable [Field K]

/-- The element of an array; the loops stay within the sizes. -/
def get (v : List K) (i : ℕ) : K := v.getD i 0

variable (self : TridiagonalOperator K)

def applyTo (v : List K) : Except (TridiagonalError K) (List K) :=
  if self.n = 0 then .error .uninitialized
  else if v.length ≠ self.n then .error (.wrongSize v.length self.n)
  else
    let result := fun i => get self.diagonal i * get v i
    let result := modify result 0 (· + get self.upperDiagonal 0 * get v 1)
    let result := (List.range' 1 (self.n - 2)).foldl (fun result j => modify result j
      (· + (get self.lowerDiagonal (j - 1) * get v (j - 1) + get self.upperDiagonal j * get v (j + 1)))) result
    let result := modify result (self.n - 1) (· + get self.lowerDiagonal (self.n - 2) * get v (self.n - 2))
    .ok ((List.range self.n).map result)

/-- What the elimination changes. -/
structure Elimination (K : Type) where
  temp : ℕ → K
  bet : K
  result : ℕ → K

/-! ## The matrix -/

/-- The rows, with nothing before the first and behind the last. -/
def lower (j : ℕ) : K := if j = 0 then 0 else get self.lowerDiagonal (j - 1)

def diag (j : ℕ) : K := get self.diagonal j

def upper (j : ℕ) : K := get self.upperDiagonal j

/-- The leading principal minor of the first `k` rows. -/
def leadingMinor (k : ℕ) : K := Tridiagonal.minor self.lower self.diag self.upper k

def pivot (j : ℕ) : K := Tridiagonal.rowPivot 1 0 self.lower self.diag self.upper j

variable {self} {v rhs x : List K} {j : ℕ}

theorem upper_last : self.upper (self.n - 1) = 0 := by
  unfold upper get
  rw [List.getD_eq_getElem?_getD, List.getElem?_eq_none (by rw [self.upper_length])]
  rfl

theorem lower_zero : self.lower 0 = 0 := if_pos rfl

theorem lower_succ (j : ℕ) : self.lower (j + 1) = get self.lowerDiagonal j := if_neg (Nat.succ_ne_zero j)

theorem get_map (f : ℕ → K) {n : ℕ} (h : j < n) : get ((List.range n).map f) j = f j := by
  unfold get
  rw [List.getD_eq_getElem?_getD, List.getElem?_map, List.getElem?_range h]
  rfl

/-- **The product** of the matrix and a vector. -/
theorem applyTo_ok (hn : 2 ≤ self.n) (hv : v.length = self.n) : self.applyTo v = .ok ((List.range self.n).map fun i =>
    self.lower i * get v (i - 1) + self.diag i * get v i + self.upper i * get v (i + 1)) := by
  unfold applyTo
  rw [if_neg (by omega), if_neg (by omega)]
  refine congrArg Except.ok (List.map_congr_left fun i hi => ?_)
  rw [List.mem_range] at hi
  have hmid := foldl_modify (fun j => (· + (get self.lowerDiagonal (j - 1) * get v (j - 1) +
    get self.upperDiagonal j * get v (j + 1)))) (modify (fun i => get self.diagonal i * get v i) 0
      (· + get self.upperDiagonal 0 * get v 1)) i (List.nodup_range' (s := 1) (n := self.n - 2))
  rw [modify_apply, hmid, modify_apply]
  simp only [List.mem_range'_1]
  rcases Nat.eq_zero_or_pos i with rfl | hpos
  · rw [if_neg (by omega), if_neg (by omega), if_pos rfl, lower_zero]
    unfold diag upper
    ring
  obtain ⟨k, rfl⟩ := Nat.exists_eq_succ_of_ne_zero hpos.ne'
  rw [Nat.succ_eq_add_one, lower_succ, Nat.add_sub_cancel, if_neg (Nat.succ_ne_zero k)]
  by_cases hlast : k + 1 = self.n - 1
  · have hupper : self.upper (k + 1) = 0 := hlast ▸ upper_last
    rw [if_pos hlast, if_neg (by omega), hupper, show self.n - 2 = k by omega]
    unfold diag
    ring
  · rw [if_neg hlast, if_pos (by omega)]
    unfold diag upper
    ring

theorem pivot_zero : self.pivot 0 = get self.diagonal 0 := by
  unfold pivot rowPivot diag
  ring

/-- **The sweep down** leaves the solution, row by row. -/
theorem foldl_solution {N : ℕ} {temp : ℕ → K} (htemp : ∀ j, j < N → temp (j + 1) = factor 1 0 self.lower self.diag self.upper j) :
    ∀ (m : ℕ) (result : ℕ → K), m ≤ N →
      (∀ j, m ≤ j → j ≤ N → result j = solution 1 0 self.lower self.diag self.upper (get rhs) N j) →
      (∀ j, j < m → result j = forward 1 0 self.lower self.diag self.upper (get rhs) j) → ∀ j, j ≤ N →
      ((List.range m).reverse.foldl (fun result j => modify result j (· - temp (j + 1) * result (j + 1))) result) j =
        solution 1 0 self.lower self.diag self.upper (get rhs) N j
  | 0, result, _, hdone, _          => fun j hj => hdone j (Nat.zero_le j) hj
  | m + 1, result, hm, hdone, hrest => by
    intro j hj
    rw [List.range_succ, List.reverse_append, List.reverse_singleton, List.singleton_append, List.foldl_cons]
    refine foldl_solution htemp m _ (Nat.le_of_succ_le hm) (fun i hi hN => ?_) (fun i hi => ?_) j hj
    · rw [modify_apply]
      by_cases him : i = m
      · subst him
        rw [if_pos rfl, htemp i hm, hrest i (Nat.lt_succ_self i), hdone (i + 1) le_rfl hm, Tridiagonal.solution_step _ _ _ _ _ _ hm]
      · rw [if_neg him, hdone i (by omega) hN]
    · rw [modify_apply, if_neg hi.ne, hrest i (Nat.lt_succ_of_lt hi)]

theorem map_get (h : rhs.length = self.n) : (List.range self.n).map (get rhs) = rhs := by
  refine List.ext_getElem (by rw [List.length_map, List.length_range, h]) fun j _ hj => ?_
  rw [List.getElem_map, List.getElem_range, get, List.getD_eq_getElem?_getD, List.getElem?_eq_getElem hj]
  rfl

/-- **The solution** is one of the system. -/
theorem applyTo_solution (hn : 2 ≤ self.n) (hrhs : rhs.length = self.n) (hne : ∀ j, j < self.n → self.pivot j ≠ 0) :
    self.applyTo ((List.range self.n).map (solution 1 0 self.lower self.diag self.upper (get rhs) (self.n - 1))) = .ok rhs := by
  rw [applyTo_ok hn (by rw [List.length_map, List.length_range])]
  refine congrArg Except.ok ((List.map_congr_left fun j hj => ?_).trans (map_get hrhs))
  rw [List.mem_range] at hj
  have hrow := Tridiagonal.solution_row (r := get rhs) (fun j hj => hne j (by omega)) lower_zero upper_last
    (show j ≤ self.n - 1 by omega)
  unfold Tridiagonal.Row at hrow
  rw [← hrow, get_map _ hj, get_map _ (show j - 1 < self.n by omega)]
  by_cases hlast : j < self.n - 1
  · rw [if_pos hlast, get_map _ (show j + 1 < self.n by omega)]
    rcases Nat.eq_zero_or_pos j with rfl | hpos
    · rw [lower_zero]
      ring
    · rw [if_neg hpos.ne']
      ring
  · obtain rfl : j = self.n - 1 := by omega
    rw [if_neg hlast, upper_last, if_neg (show self.n - 1 ≠ 0 by omega)]
    ring

end Field

section Solve

variable [Field K] [LinearOrder K] (self : TridiagonalOperator K)

/-- A turn of the elimination, for row `j + 1`. -/
def eliminate (rhs : List K) (s : Elimination K) (j : ℕ) : Except (TridiagonalError K) (Elimination K) :=
  let temp := Function.update s.temp (j + 1) (get self.upperDiagonal j / s.bet)
  let bet := get self.diagonal (j + 1) - get self.lowerDiagonal j * temp (j + 1)
  if Math.close bet 0 then .error .divisionByZero
  else .ok ⟨temp, bet, Function.update s.result (j + 1) ((get rhs (j + 1) - get self.lowerDiagonal j * s.result j) / bet)⟩

/-- `solve_for`, into an array of zeros. -/
def solveFor (rhs : List K) : Except (TridiagonalError K) (List K) :=
  if self.n = 0 then .error .uninitialized
  else if rhs.length ≠ self.n then .error (.wrongSize rhs.length self.n)
  else
    let bet := get self.diagonal 0
    if Math.close bet 0 then .error (.firstCloseToZero bet)
    else (Loop.loop (self.n - 1) (self.eliminate rhs) ⟨fun _ => 0, bet, Function.update (fun _ => 0) 0 (get rhs 0 / bet)⟩).bind
      fun s =>
        let result := (List.range' 1 (self.n - 2)).reverse.foldl
          (fun result j => modify result j (· - s.temp (j + 1) * result (j + 1))) s.result
        let result := modify result 0 (· - s.temp 1 * result 1)
        .ok ((List.range self.n).map result)

variable {self} {rhs x : List K} {j : ℕ}

/-! ## The elimination -/

/-- The arrays after the turns for the rows up to `k`. -/
structure Eliminated (op : TridiagonalOperator K) (rhs : List K) (k : ℕ) (s : Elimination K) : Prop where
  bet : s.bet = op.pivot k
  temp : ∀ j, j < k → s.temp (j + 1) = factor 1 0 op.lower op.diag op.upper j
  result : ∀ j, j ≤ k → s.result j = forward 1 0 op.lower op.diag op.upper (get rhs) j

/-- **A turn** stops at a pivot that is close to zero, or goes on to the next row. -/
theorem eliminate_spec {k : ℕ} {s : Elimination K} (h : Eliminated self rhs k s) :
    (Math.close (self.pivot (k + 1)) 0 = true ∧ self.eliminate rhs s k = .error .divisionByZero) ∨
    (¬ Math.close (self.pivot (k + 1)) 0 = true ∧
      ∃ s', self.eliminate rhs s k = .ok s' ∧ Eliminated self rhs (k + 1) s') := by
  have htemp : get self.upperDiagonal k / s.bet = factor 1 0 self.lower self.diag self.upper k := by
    rw [factor, Tridiagonal.inverse_eq, h.bet, one_mul, mul_one_div]
    rfl
  have hbet : get self.diagonal (k + 1) - get self.lowerDiagonal k * factor 1 0 self.lower self.diag self.upper k =
      self.pivot (k + 1) := by
    rw [pivot, rowPivot, Tridiagonal.pivot, lower_succ]
    unfold diag
    ring
  have hresult : (get rhs (k + 1) - get self.lowerDiagonal k * s.result k) / self.pivot (k + 1) =
      forward 1 0 self.lower self.diag self.upper (get rhs) (k + 1) := by
    rw [forward, Tridiagonal.inverse_eq, h.result k le_rfl, lower_succ, one_mul, mul_one_div]
    rfl
  unfold eliminate
  dsimp only
  rw [htemp, Function.update_self, hbet]
  by_cases hclose : Math.close (self.pivot (k + 1)) 0 = true
  · rw [if_pos hclose]
    exact .inl ⟨hclose, rfl⟩
  · rw [if_neg hclose, hresult]
    refine .inr ⟨hclose, _, rfl, rfl, fun j hj => ?_, fun j hj => ?_⟩
    · dsimp only
      rcases Nat.lt_succ_iff_lt_or_eq.1 hj with hlt | rfl
      · rw [Function.update_of_ne (by omega), h.temp j hlt]
      · rw [Function.update_self]
    · dsimp only
      rcases Nat.lt_succ_iff_lt_or_eq.1 (Nat.lt_succ_of_le hj) with hlt | rfl
      · rw [Function.update_of_ne hlt.ne, h.result j (Nat.le_of_lt_succ hlt)]
      · rw [Function.update_self]

/-- **The algorithm** stops at the first pivot that is close to zero, and else returns the solution. -/
theorem solveFor_cases (hn : 2 ≤ self.n) (hrhs : rhs.length = self.n) :
    ((∃ j, j < self.n ∧ Math.close (self.pivot j) 0 = true) ∧ (self.solveFor rhs).isOk = false) ∨
    ((∀ j, j < self.n → ¬ Math.close (self.pivot j) 0 = true) ∧ self.solveFor rhs = .ok ((List.range self.n).map
      (solution 1 0 self.lower self.diag self.upper (get rhs) (self.n - 1)))) := by
  have hfirst : self.solveFor rhs = if Math.close (self.pivot 0) 0 = true then .error (.firstCloseToZero (self.pivot 0))
      else (Loop.loop (self.n - 1) (self.eliminate rhs)
        ⟨fun _ => 0, self.pivot 0, Function.update (fun _ => 0) 0 (get rhs 0 / self.pivot 0)⟩).bind fun s =>
          .ok ((List.range self.n).map ((List.range (self.n - 1)).reverse.foldl
            (fun result j => modify result j (· - s.temp (j + 1) * result (j + 1))) s.result)) := by
    have hrange : List.range (self.n - 1) = 0 :: List.range' 1 (self.n - 2) := by
      rw [List.range_eq_range', show self.n - 1 = self.n - 2 + 1 by omega, List.range'_succ]
    unfold solveFor
    rw [if_neg (by omega), if_neg (by omega), ← pivot_zero, hrange]
    simp only [List.reverse_cons, List.foldl_append, List.foldl_cons, List.foldl_nil]
  rw [hfirst]
  by_cases hclose : Math.close (self.pivot 0) 0 = true
  · rw [if_pos hclose]
    exact .inl ⟨⟨0, by omega, hclose⟩, rfl⟩
  rw [if_neg hclose]
  have hstart : Eliminated self rhs 0
      ⟨fun _ => 0, self.pivot 0, Function.update (fun _ => 0) 0 (get rhs 0 / self.pivot 0)⟩ := by
    refine ⟨rfl, nofun, fun j hj => ?_⟩
    obtain rfl : j = 0 := by omega
    dsimp only
    rw [Function.update_self, forward, Tridiagonal.inverse_eq, mul_one_div]
    rfl
  rcases Loop.loop_cases (Eliminated self rhs) (fun k => Math.close (self.pivot (k + 1)) 0 = true) TridiagonalError.divisionByZero (self.n - 1)
    hstart (fun k _ s hs => eliminate_spec hs) with ⟨⟨k, hk, hfail⟩, hrun⟩ | ⟨hpivots, s, hrun, hs⟩ <;> rw [hrun]
  · exact .inl ⟨⟨k + 1, by omega, hfail⟩, rfl⟩
  · refine .inr ⟨fun j hj => ?_, congrArg Except.ok (List.map_congr_left fun j hj => ?_)⟩
    · cases j with
      | zero   => exact hclose
      | succ j => exact hpivots j (by omega)
    · rw [List.mem_range] at hj
      refine foldl_solution hs.temp (self.n - 1) s.result le_rfl (fun i hi hN => ?_) (fun i hi => hs.result i hi.le) j (by omega)
      obtain rfl : i = self.n - 1 := by omega
      rw [Tridiagonal.solution_last, hs.result _ le_rfl]

variable [IsStrictOrderedRing K]

/-- **No pivot is close to zero** where each leading minor is large enough beside the one before it. -/
theorem pivots_iff (self : TridiagonalOperator K) (n : ℕ) : (∀ j, j < n → ¬ Math.close (self.pivot j) 0 = true) ↔
    ∀ k, k < n → Math.zeroTolerance * |self.leadingMinor k| ≤ |self.leadingMinor (k + 1)| := by
  have hratio : ∀ k, (∀ j, j < k → ¬ Math.close (self.pivot j) 0 = true) → self.leadingMinor k ≠ 0 ∧
      self.pivot k * self.leadingMinor k = self.leadingMinor (k + 1) := by
    intro k hk
    have hne : ∀ j, j < k → self.pivot j ≠ 0 := fun j hj => Math.ne_of_close_eq_false (hk j hj)
    exact ⟨Tridiagonal.minor_ne_zero k hne, Tridiagonal.rowPivot_mul_minor k hne⟩
  constructor
  · intro h k hk
    obtain ⟨-, hnext⟩ := hratio k fun j hj => h j (hj.trans hk)
    rw [← hnext, abs_mul]
    exact mul_le_mul_of_nonneg_right (Math.not_close_zero_iff.1 (h k hk)) (abs_nonneg _)
  · intro h j
    induction j using Nat.strong_induction_on with
    | _ j ih =>
      intro hj
      obtain ⟨hne, hnext⟩ := hratio j fun i hi => ih i hi (hi.trans hj)
      have hle := h j hj
      rw [← hnext, abs_mul] at hle
      exact Math.not_close_zero_iff.2 (le_of_mul_le_mul_right hle (abs_pos.2 hne))

/-- **The algorithm solves the system** where each leading minor is large enough beside the one before it, and stops
elsewhere. -/
theorem solves (self : TridiagonalOperator K) (hn : 2 ≤ self.n) (rhs : List K) (hrhs : rhs.length = self.n) :
    ((self.solveFor rhs).isOk = true ↔
      ∀ k, k < self.n → Math.zeroTolerance * |self.leadingMinor k| ≤ |self.leadingMinor (k + 1)|) ∧
    ∀ x, self.solveFor rhs = .ok x → (∀ k, k ≤ self.n → self.leadingMinor k ≠ 0) ∧ self.applyTo x = .ok rhs := by
  rw [← pivots_iff]
  rcases solveFor_cases hn hrhs with ⟨⟨j, hj, hclose⟩, hfail⟩ | ⟨hpivots, hsolve⟩
  · rw [hfail]
    refine ⟨iff_of_false Bool.false_ne_true fun h => h j hj hclose, fun x hx => ?_⟩
    rw [hx] at hfail
    exact absurd hfail nofun
  · rw [hsolve]
    have hne : ∀ j, j < self.n → self.pivot j ≠ 0 := fun j hj => Math.ne_of_close_eq_false (hpivots j hj)
    refine ⟨iff_of_true rfl hpivots, fun x hx => ?_⟩
    cases hx
    exact ⟨fun k hk => Tridiagonal.minor_ne_zero k fun j hj => hne j (by omega), applyTo_solution hn hrhs hne⟩

end Solve

/-! ## Examples -/

/-- A matrix of order three with a pivot of each row. -/
def three : TridiagonalOperator ℚ where
  n := 3
  diagonal := [2, 2, 2]
  lowerDiagonal := [1, 1]
  upperDiagonal := [1, 1]
  size := by decide
  diagonal_length := rfl
  lower_length := rfl
  upper_length := rfl

theorem solves_three : three.applyTo [1, 2, 3] = .ok [4, 8, 8] ∧
    ∀ x, three.solveFor [4, 8, 8] = .ok x → three.applyTo x = .ok [4, 8, 8] :=
  ⟨by decide +kernel, fun x hx => ((solves three (by decide) [4, 8, 8] rfl).2 x hx).2⟩

/-- A diagonal with a small first entry. -/
def small : TridiagonalOperator ℚ where
  n := 2
  diagonal := [1 / 10 ^ 30, 1]
  lowerDiagonal := [0]
  upperDiagonal := [0]
  size := by decide
  diagonal_length := rfl
  lower_length := rfl
  upper_length := rfl

/-- **A leading minor that is not zero**, but close to it. -/
theorem not_solves_small : ¬ ((small.solveFor [1, 1]).isOk = true ↔ ∀ k, k ≤ small.n → small.leadingMinor k ≠ 0) := by
  have hfail : (small.solveFor [1, 1]).isOk = false := by decide +kernel
  rw [hfail]
  refine fun h => Bool.false_ne_true (h.2 fun k hk => ?_)
  have hsmall : k ≤ 2 := hk
  have hcases : k = 0 ∨ k = 1 ∨ k = 2 := by omega
  unfold leadingMinor
  rcases hcases with rfl | rfl | rfl
  · rw [Tridiagonal.minor_zero]
    decide
  · rw [Tridiagonal.minor_one]
    decide +kernel
  · rw [Tridiagonal.minor_add_two, Tridiagonal.minor_one, Tridiagonal.minor_zero]
    decide +kernel

end TridiagonalOperator
end Itofin
