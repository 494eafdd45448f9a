import Mathlib.Algebra.Order.Field.Basic
import Mathlib.Algebra.Order.Ring.Rat
import Mathlib.Data.List.GetD
import Mathlib.Tactic.FieldSimp
import Mathlib.Tactic.Linarith
/-!
# Drawdown — the largest loss from a peak

`maximum_drawdown` of `math/statistics/drawdown.rs`, in exact arithmetic.  One pass keeps the running peak, with the first
index it has, and the largest loss from a running peak, with the indices of that peak and of the value.

`Scanned` is what the pass knows after so many values: a loss from any value is at most the one from the running peak, and
is that just when the value is the peak (`loss_le`), so no other pair of indices needs to be looked at.
-/
namespace Itofin.Drawdown

variable {K : Type} [Field K] [LinearOrder K]

structure DrawdownResult (K : Type) where
  drawdown    : K
  peakIndex   : ℕ
  troughIndex : ℕ
deriving DecidableEq

inductive Failure where
  /-- `maximum drawdown requires at least one NAV value` -/
  | noValue
  /-- `NAV value at index {index} must be finite and strictly positive` -/
  | notPositive (index : ℕ)
deriving DecidableEq

def scan : List K → ℕ → K → ℕ → DrawdownResult K → Except Failure (DrawdownResult K)
  | [], _, _, _, result                         => .ok result
  | value :: rest, index, peak, peakIndex, result =>
    if value ≤ 0 then .error (.notPositive index)
    else if peak < value then scan rest (index + 1) value index result
    else
      let loss := (peak - value) / peak
      scan rest (index + 1) peak peakIndex (if result.drawdown < loss then ⟨loss, peakIndex, index⟩ else result)

def maximumDrawdown (values : List K) : Except Failure (DrawdownResult K) :=
  match values with
  | []         => .error .noValue
  | first :: _ => scan values 0 first 0 ⟨0, 0, 0⟩

/-! ## Losses -/

/-- The fractional loss from one value to another. -/
def loss (v : ℕ → K) (i j : ℕ) : K := (v i - v j) / v i

/-- **A largest loss over the first `n` values**, with the first value that has it and the first peak. -/
structure IsMaximum (v : ℕ → K) (n : ℕ) (result : DrawdownResult K) : Prop where
  ordered  : result.peakIndex ≤ result.troughIndex
  bound    : result.troughIndex < n
  attained : result.drawdown = loss v result.peakIndex result.troughIndex
  largest  : ∀ i j, i ≤ j → j < n → loss v i j ≤ result.drawdown
  first    : ∀ i j, i ≤ j → j < n → loss v i j = result.drawdown → result.troughIndex ≤ j ∧ result.peakIndex ≤ i

/-- **What the pass knows after the first `n` values.** -/
structure Scanned (v : ℕ → K) (n : ℕ) (peak : K) (peakIndex : ℕ) (result : DrawdownResult K) : Prop where
  index   : peakIndex < n
  value   : v peakIndex = peak
  highest : ∀ i, i < n → v i ≤ peak
  first   : ∀ i, i < peakIndex → v i < peak
  result  : IsMaximum v n result

variable {v : ℕ → K} {n : ℕ} {peak x y : K} {peakIndex : ℕ} {result : DrawdownResult K}

omit [LinearOrder K] in
theorem loss_self (v : ℕ → K) (i : ℕ) : loss v i i = 0 := by rw [loss, sub_self, zero_div]

theorem IsMaximum.nonneg (h : IsMaximum v n result) : 0 ≤ result.drawdown := by
  have hself := h.largest _ _ le_rfl h.bound
  rwa [loss_self] at hself

variable [IsStrictOrderedRing K]

theorem loss_lt (hx : 0 < x) (hxy : x < y) {z : K} (hz : 0 < z) : (x - z) / x < (y - z) / y := by
  rw [div_lt_div_iff₀ hx (hx.trans hxy)]
  nlinarith

theorem loss_le (hx : 0 < x) (hxy : x ≤ y) {z : K} (hz : 0 < z) :
    (x - z) / x ≤ (y - z) / y ∧ ((x - z) / x = (y - z) / y → x = y) := by
  rcases hxy.eq_or_lt with rfl | hlt
  · exact ⟨le_rfl, fun _ => rfl⟩
  · exact ⟨(loss_lt hx hlt hz).le, fun h => absurd h (loss_lt hx hlt hz).ne⟩

theorem IsMaximum.rise (h : IsMaximum v n result) (hpos : ∀ i, i ≤ n → 0 < v i) (hn : ∀ i, i < n → v i < v n) :
    IsMaximum v (n + 1) result where
  ordered := h.ordered
  bound := h.bound.trans (Nat.lt_succ_self n)
  attained := h.attained
  largest i j hij hj := by
    rcases Nat.lt_succ_iff_lt_or_eq.mp hj with hj | rfl
    · exact h.largest i j hij hj
    · rcases hij.eq_or_lt with rfl | hi
      · rw [loss_self]
        exact h.nonneg
      · exact (div_neg_of_neg_of_pos (sub_neg.mpr (hn i hi)) (hpos i hij)).le.trans h.nonneg
  first i j hij hj heq := by
    rcases Nat.lt_succ_iff_lt_or_eq.mp hj with hj | rfl
    · exact h.first i j hij hj heq
    · rcases hij.eq_or_lt with rfl | hi
      · exact ⟨h.bound.le, h.ordered.trans h.bound.le⟩
      · have hneg := div_neg_of_neg_of_pos (sub_neg.mpr (hn i hi)) (hpos i hij)
        exact absurd (h.nonneg.trans_eq heq.symm) (not_le.mpr hneg)

/-- A value that is no peak: the losses to it are at most the one from the peak. -/
theorem Scanned.fall (h : Scanned v n peak peakIndex result) (hpos : ∀ i, i ≤ n → 0 < v i) (hle : v n ≤ peak) :
    IsMaximum v (n + 1)
      (if result.drawdown < (peak - v n) / peak then ⟨(peak - v n) / peak, peakIndex, n⟩ else result) := by
  have hupper : ∀ i, i ≤ n → v i ≤ peak := fun i hi => by
    rcases hi.eq_or_lt with rfl | hi
    · exact hle
    · exact h.highest i hi
  have hloss : ∀ i, i ≤ n → loss v i n ≤ (peak - v n) / peak ∧ (loss v i n = (peak - v n) / peak → v i = peak) :=
    fun i hi => loss_le (hpos i hi) (hupper i hi) (hpos n le_rfl)
  have hm := h.result
  split
  case isTrue hlt =>
    refine ⟨h.index.le, Nat.lt_succ_self n, by rw [loss, h.value], fun i j hij hj => ?_, fun i j hij hj heq => ?_⟩
    · rcases Nat.lt_succ_iff_lt_or_eq.mp hj with hj | rfl
      · exact (hm.largest i j hij hj).trans hlt.le
      · exact (hloss i hij).1
    · rcases Nat.lt_succ_iff_lt_or_eq.mp hj with hj | rfl
      · exact absurd heq ((hm.largest i j hij hj).trans_lt hlt).ne
      · exact ⟨le_rfl, not_lt.mp (fun hi => (h.first i hi).ne ((hloss i hij).2 heq))⟩
  case isFalse hlt =>
    rw [not_lt] at hlt
    refine ⟨hm.ordered, hm.bound.trans (Nat.lt_succ_self n), hm.attained, fun i j hij hj => ?_, fun i j hij hj heq => ?_⟩
    · rcases Nat.lt_succ_iff_lt_or_eq.mp hj with hj | rfl
      · exact hm.largest i j hij hj
      · exact (hloss i hij).1.trans hlt
    · rcases Nat.lt_succ_iff_lt_or_eq.mp hj with hj | rfl
      · exact hm.first i j hij hj heq
      · refine ⟨hm.bound.le, not_lt.mp (fun hi => ?_)⟩
        -- a peak before the one found has its loss at the trough found already
        have hpeak : v i = peak := (hloss i hij).2 ((hloss i hij).1.antisymm (hlt.trans heq.ge))
        have hit : i ≤ result.troughIndex := hi.le.trans hm.ordered
        have hp : v result.peakIndex ≤ v i := hpeak ▸ hupper _ (hm.ordered.trans hm.bound.le)
        have hge := (loss_le (hpos _ (hm.ordered.trans hm.bound.le)) hp (hpos _ hm.bound.le)).1
        have hsame := (hm.largest i _ hit hm.bound).antisymm (hm.attained.trans_le hge)
        exact absurd (hm.first i _ hit hm.bound hsame).2 (not_le.mpr hi)

/-- **The step of the pass.** -/
theorem Scanned.step (h : Scanned v n peak peakIndex result) (hpos : ∀ i, i ≤ n → 0 < v i) :
    (peak < v n → Scanned v (n + 1) (v n) n result) ∧
      (¬ peak < v n → Scanned v (n + 1) peak peakIndex
        (if result.drawdown < (peak - v n) / peak then ⟨(peak - v n) / peak, peakIndex, n⟩ else result)) := by
  constructor
  · intro hlt
    have hbelow : ∀ i, i < n → v i < v n := fun i hi => (h.highest i hi).trans_lt hlt
    refine ⟨Nat.lt_succ_self n, rfl, fun i hi => ?_, hbelow, h.result.rise hpos hbelow⟩
    rcases Nat.lt_succ_iff_lt_or_eq.mp hi with hi | rfl
    · exact (hbelow i hi).le
    · exact le_rfl
  · intro hle
    rw [not_lt] at hle
    refine ⟨h.index.trans (Nat.lt_succ_self n), h.value, fun i hi => ?_, h.first, h.fall hpos hle⟩
    rcases Nat.lt_succ_iff_lt_or_eq.mp hi with hi | rfl
    · exact h.highest i hi
    · exact hle

omit [IsStrictOrderedRing K] in
theorem scanned_one (v : ℕ → K) : Scanned v 1 (v 0) 0 ⟨0, 0, 0⟩ := by
  have hzero : ∀ {i j}, i ≤ j → j < 1 → i = 0 ∧ j = 0 := fun hij hj => by omega
  refine ⟨Nat.one_pos, rfl, fun i hi => ?_, nofun, le_rfl, Nat.one_pos, (loss_self v 0).symm, fun i j hij hj => ?_,
    fun i j _ _ _ => ⟨Nat.zero_le j, Nat.zero_le i⟩⟩
  · rw [Nat.lt_one_iff.mp hi]
  · obtain ⟨rfl, rfl⟩ := hzero hij hj
    exact (loss_self v 0).le

theorem scan_spec : ∀ (rest : List K) {n : ℕ} {peak : K} {peakIndex : ℕ} {result : DrawdownResult K},
    Scanned v n peak peakIndex result → (∀ i, i < n + rest.length → 0 < v i) → (∀ i, rest[i]? = some (v (n + i)) ∨ rest.length ≤ i) →
    ∃ r, scan rest n peak peakIndex result = .ok r ∧ IsMaximum v (n + rest.length) r
  | [], n, _, _, result, h, _, _                         => ⟨result, rfl, h.result⟩
  | value :: rest, n, peak, peakIndex, result, h, hpos, hv => by
    obtain rfl : value = v n := Option.some.inj ((hv 0).resolve_right (by simp))
    rw [List.length_cons] at hpos
    have hvalue : 0 < v n := hpos n (by omega)
    have hrest : ∀ i, rest[i]? = some (v (n + 1 + i)) ∨ rest.length ≤ i := fun i => by
      have := hv (i + 1)
      rwa [List.getElem?_cons_succ, List.length_cons, Nat.succ_le_succ_iff, show n + (i + 1) = n + 1 + i by omega] at this
    obtain ⟨hrise, hfall⟩ := h.step (fun i hi => hpos i (by omega))
    rw [scan, if_neg (not_le.mpr hvalue), List.length_cons, show n + (rest.length + 1) = n + 1 + rest.length by omega]
    have hpos' : ∀ i, i < n + 1 + rest.length → 0 < v i := fun i hi => hpos i (by omega)
    split
    case isTrue hlt => exact scan_spec rest (hrise hlt) hpos' hrest
    case isFalse hle => exact scan_spec rest (hfall hle) hpos' hrest

theorem scan_scale {c : K} (hc : 0 < c) : ∀ (rest : List K) (n : ℕ) (peak : K) (peakIndex : ℕ) (result : DrawdownResult K),
    scan (rest.map (c * ·)) n (c * peak) peakIndex result = scan rest n peak peakIndex result
  | [], _, _, _, _                              => rfl
  | value :: rest, n, peak, peakIndex, result => by
    have hnonpos : c * value ≤ 0 ↔ value ≤ 0 := by rw [← mul_zero c, mul_le_mul_iff_right₀ hc, mul_zero]
    have hloss : (c * peak - c * value) / (c * peak) = (peak - value) / peak := by
      rw [← mul_sub, mul_div_mul_left _ _ hc.ne']
    rw [List.map_cons, scan, scan, hloss]
    simp only [hnonpos, mul_lt_mul_iff_right₀ hc, scan_scale hc rest]

/-- **The maximum drawdown of positive values**: the largest loss from a value to one not before it, from the earliest peak
and to the first trough that have it, and the same for the values scaled. -/
theorem maximumDrawdown_spec (values : List K) (hpos : ∀ x ∈ values, 0 < x) :
    (values ≠ [] → ∃ r, maximumDrawdown values = .ok r ∧ IsMaximum (fun i => values.getD i 0) values.length r) ∧
      ∀ c, 0 < c → maximumDrawdown (values.map (c * ·)) = maximumDrawdown values := by
  constructor
  · intro hne
    cases values with
    | nil => exact absurd rfl hne
    | cons first rest =>
      have hv : ∀ i, i < 1 + rest.length → 0 < (first :: rest).getD i 0 := fun i hi => by
        have hlt : i < (first :: rest).length := by rw [List.length_cons]; omega
        rw [List.getD_eq_getElem _ _ hlt]
        exact hpos _ (List.getElem_mem hlt)
      obtain ⟨r, hr, hm⟩ := scan_spec rest (scanned_one (fun i => (first :: rest).getD i 0)) hv (fun i => by
        rcases lt_or_ge i rest.length with hi | hi
        · refine .inl ?_
          rw [Nat.add_comm 1 i, List.getD_cons_succ, List.getD_eq_getElem _ _ hi]
          exact List.getElem?_eq_getElem hi
        · exact .inr hi)
      refine ⟨r, ?_, by rwa [List.length_cons, Nat.add_comm]⟩
      have hfirst : ¬ first ≤ 0 := not_le.mpr (hpos first List.mem_cons_self)
      rw [maximumDrawdown, scan, if_neg hfirst, if_neg (lt_irrefl first), sub_self, zero_div]
      dsimp only
      rw [if_neg (lt_irrefl _)]
      exact hr
  · intro c hc
    cases values with
    | nil => rfl
    | cons first rest => exact scan_scale hc (first :: rest) 0 first 0 ⟨0, 0, 0⟩

theorem maximumDrawdown_spec_four :
    ([100, 120, 90, 130] ≠ ([] : List ℚ) → ∃ r, maximumDrawdown [(100 : ℚ), 120, 90, 130] = .ok r ∧
      IsMaximum (fun i => [(100 : ℚ), 120, 90, 130].getD i 0) 4 r) ∧
      ∀ c : ℚ, 0 < c → maximumDrawdown ([100, 120, 90, 130].map (c * ·)) = maximumDrawdown [(100 : ℚ), 120, 90, 130] :=
  maximumDrawdown_spec [(100 : ℚ), 120, 90, 130] (by decide +kernel)

example : maximumDrawdown [(100 : ℚ), 120, 90, 130] = .ok ⟨1 / 4, 1, 2⟩ := by decide +kernel

end Itofin.Drawdown
