import Itofin.Lib.Ieee
import Mathlib.Algebra.Order.Floor.Ring
import Mathlib.Algebra.Order.Ring.Abs
import Mathlib.Tactic.Linarith
/-!
# Floating — rounded arithmetic

A format has a nearest number for every number of an ordered field.  An operation on its numbers is the exact one of `Ieee`,
rounded, and infinite where the nearest number does not fit: so it is with binary64, and with the field itself, whose
numbers are all in the format.

Results are bounded by bounds of the exact ones that are numbers of the format (`between_rounded`), and a number clamped to
an interval is in it unless it is not a number (`clamp_mem`).
-/

namespace Ieee

variable {K : Type} [LinearOrder K]

/-- `a <= b` -/
def le : Ieee K → Ieee K → Bool
  | .finite x, .finite y     => x ≤ y
  | .finite _, .infinite s   => !s
  | .infinite s, .finite _   => s
  | .infinite s, .infinite t => s || !t
  | .nan, _                  => false
  | _, .nan                  => false

variable {a b c : Ieee K} {x y : K}

theorem le_trans (hab : le a b = true) (hbc : le b c = true) : le a c = true := by
  cases a <;> cases b <;> cases c <;> simp only [le, decide_eq_true_eq] at * <;> grind

theorem le_self (ha : a ≠ .nan) : le a a = true := by
  cases a <;> simp [le] at *

theorem le_of_not_lt [Field K] (ha : a ≠ .nan) (hb : b ≠ .nan) (h : ¬ lt a b = true) : le b a = true := by
  cases a <;> cases b <;> simp_all [le, lt]
  grind

theorem lt_of_not_le [Field K] (ha : a ≠ .nan) (hb : b ≠ .nan) (h : ¬ le a b = true) : lt b a = true := by
  cases a <;> cases b <;> simp_all [le, lt]

theorem lt_of_lt_of_le (hab : lt a b = true) (hbc : le b c = true) : lt a c = true := by
  cases a <;> cases b <;> cases c <;> simp only [lt, le, decide_eq_true_eq] at * <;> grind

theorem le_of_lt (h : lt a b = true) : le a b = true := by
  cases a <;> cases b <;> simp only [lt, le, decide_eq_true_eq] at * <;> grind

theorem not_nan_of_le (h : le a b = true) : a ≠ .nan ∧ b ≠ .nan := by
  cases a <;> cases b <;> simp [le] at *

/-- What is between finite numbers is one. -/
theorem finite_of_le (h : le (.finite x) a = true) (h' : le a (.finite y) = true) : ∃ z, a = .finite z := by
  cases a <;> simp_all [le]

end Ieee

/-- **A floating-point format**, over its exact arithmetic. -/
structure Format (K : Type) [Field K] [LinearOrder K] where
  /-- The nearest number, were there no largest one. -/
  nearest         : K → K
  /-- It is not beyond the largest number. -/
  fits            : K → Bool
  mono            : Monotone nearest
  nearest_neg     : ∀ x, nearest (-x) = -nearest x
  nearest_nearest : ∀ x, nearest (nearest x) = nearest x
  fits_of_le      : ∀ x y, |x| ≤ |y| → fits y = true → fits x = true
  /-- Integers are numbers up to the precision. -/
  integer         : ∀ n : ℕ, n ≤ 2 ^ 53 → nearest n = n ∧ fits n = true
  dyadic          : ∀ k : ℕ, k ≤ 53 → nearest (1 / ((2 ^ k : ℕ) : K)) = 1 / ((2 ^ k : ℕ) : K)
  /-- Different numbers have a difference, however small. -/
  gradual         : ∀ x y, nearest x = x → nearest y = y → x < y → 0 < nearest (y - x)

namespace Format

variable {K : Type} [Field K] [LinearOrder K]

section

variable (R : Format K)

/-- A number of the format. -/
def Fixed (x : K) : Prop := R.nearest x = x ∧ R.fits x = true

def Represents : Ieee K → Prop
  | .finite x => R.Fixed x
  | _         => True

def round : Ieee K → Ieee K
  | .finite x => if R.fits (R.nearest x) then .finite (R.nearest x) else .infinite (x < 0)
  | a         => a

theorem represents_round : ∀ a, R.Represents (R.round a)
  | .finite x   => by
    rw [round]
    split
    · rename_i h
      exact ⟨R.nearest_nearest x, h⟩
    · trivial
  | .infinite _ => trivial
  | .nan        => trivial

/-- The numbers of the format, with the infinities and `nan`. -/
@[ext] structure Number where
  val        : Ieee K
  represents : R.Represents val

instance : DecidableEq R.Number := fun a b => decidable_of_iff (a.val = b.val) Number.ext_iff.symm

def rounded (a : Ieee K) : R.Number := ⟨R.round a, R.represents_round a⟩

/-- The number that a decimal literal stands for. -/
def literal (numerator denominator : ℕ) : R.Number := R.rounded (.finite ((numerator : K) / (denominator : K)))

/-- `n as f64` -/
def ofNat (n : ℕ) : R.Number := R.rounded (.finite n)

def infinity : R.Number := ⟨.infinite false, trivial⟩

def nan : R.Number := ⟨.nan, trivial⟩

end

variable {R : Format K}

theorem fixed_natCast {n : ℕ} (h : n ≤ 2 ^ 53) : R.Fixed (n : K) := R.integer n h

theorem fixed_zero : R.Fixed 0 := by
  rw [← Nat.cast_zero]
  exact fixed_natCast (Nat.zero_le _)

theorem fixed_one : R.Fixed 1 := by
  rw [← Nat.cast_one]
  exact fixed_natCast Nat.one_le_two_pow

theorem Fixed.neg {x : K} [IsOrderedRing K] (h : R.Fixed x) : R.Fixed (-x) :=
  ⟨by rw [R.nearest_neg, h.1], R.fits_of_le _ _ (abs_neg x).le h.2⟩

theorem fixed_dyadic [IsStrictOrderedRing K] {k : ℕ} (h : k ≤ 53) : R.Fixed (1 / ((2 ^ k : ℕ) : K)) := by
  have hpos : (1 : K) ≤ ((2 ^ k : ℕ) : K) := by exact_mod_cast Nat.one_le_two_pow
  refine ⟨R.dyadic k h, R.fits_of_le _ 1 ?_ fixed_one.2⟩
  rw [abs_one, abs_of_nonneg (div_nonneg zero_le_one (zero_le_one.trans hpos))]
  exact (div_le_one (one_pos.trans_le hpos)).2 hpos

namespace Number

section

instance : Zero R.Number := ⟨⟨.finite 0, fixed_zero⟩⟩
instance : One R.Number := ⟨⟨.finite 1, fixed_one⟩⟩
instance : Inhabited R.Number := ⟨0⟩

instance : Add R.Number := ⟨fun a b => R.rounded (a.val + b.val)⟩
instance : Sub R.Number := ⟨fun a b => R.rounded (a.val - b.val)⟩
instance : Mul R.Number := ⟨fun a b => R.rounded (a.val * b.val)⟩
instance : Div R.Number := ⟨fun a b => R.rounded (a.val / b.val)⟩
instance : Neg R.Number := ⟨fun a => R.rounded (-a.val)⟩

instance : LE R.Number := ⟨fun a b => Ieee.le a.val b.val = true⟩
instance : LT R.Number := ⟨fun a b => Ieee.lt a.val b.val = true⟩

instance : DecidableLE R.Number := fun a b => inferInstanceAs (Decidable (Ieee.le a.val b.val = true))
instance : DecidableLT R.Number := fun a b => inferInstanceAs (Decidable (Ieee.lt a.val b.val = true))

/-- `a == b` -/
def Equals (a b : R.Number) : Prop := a ≤ b ∧ b ≤ a

instance (a b : R.Number) : Decidable (Equals a b) := inferInstanceAs (Decidable (_ ∧ _))

def IsNan (a : R.Number) : Prop := a.val = .nan

instance (a : R.Number) : Decidable a.IsNan := inferInstanceAs (Decidable (_ = _))

def isFinite (a : R.Number) : Bool :=
  match a.val with
  | .finite _ => true
  | _         => false

def abs (a : R.Number) : R.Number := if a < 0 then -a else a

/-- `f64::min`, which ignores what is not a number. -/
def min (a b : R.Number) : R.Number := if a.IsNan then b else if b < a then b else a

def max (a b : R.Number) : R.Number := if a.IsNan then b else if a < b then b else a

def clamp (a lower upper : R.Number) : R.Number := if a < lower then lower else if upper < a then upper else a

end

section

variable [FloorRing K]

/-- `a % b`, with the sign of `a`. -/
def rem (a b : R.Number) : R.Number :=
  match a.val, b.val with
  | .finite x, .finite y   =>
    if y = 0 then R.nan
    else R.rounded (.finite (x - y * ((if 0 ≤ x / y then ⌊x / y⌋ else ⌈x / y⌉ : ℤ) : K)))
  | .finite _, .infinite _ => a
  | _, _                   => R.nan

/-- `f64::rem_euclid` -/
def remEuclid (a b : R.Number) : R.Number :=
  let r := a.rem b
  if r < 0 then r + b.abs else r

end

/-! ### What is a number -/

section

variable {a b lower upper : R.Number} {x y : K}

def IsFinite (a : R.Number) : Prop := Ieee.IsFinite a.val

theorem isFinite_iff : a.isFinite = true ↔ a.IsFinite := by
  rcases a with ⟨x | s | _, ha⟩
  · exact iff_of_true rfl ⟨x, rfl⟩
  · exact iff_of_false nofun nofun
  · exact iff_of_false nofun nofun

theorem IsFinite.not_isNan (h : a.IsFinite) : ¬ a.IsNan := by
  obtain ⟨x, hx⟩ := h
  exact fun hn => nomatch hx.symm.trans hn

theorem fixed_of_eq (h : a.val = .finite x) : R.Fixed x := by
  have := a.2
  rwa [h] at this

theorem rounded_isNan {a : Ieee K} : (R.rounded a).IsNan ↔ a = .nan := by
  rcases a with x | s | _
  · refine iff_of_false (fun h => ?_) nofun
    have hround : (if R.fits (R.nearest x) then .finite (R.nearest x) else .infinite (x < 0)) = Ieee.nan := h
    split at hround <;> exact nomatch hround
  · exact iff_of_false nofun nofun
  · exact iff_of_true rfl rfl

theorem rounded_isFinite {a : Ieee K} (h : (R.rounded a).IsFinite) : a.IsFinite := by
  obtain ⟨z, hz⟩ := h
  rcases a with x | s | _
  · exact ⟨x, rfl⟩
  · exact nomatch hz
  · exact nomatch hz

theorem isFinite_add (h : (a + b).IsFinite) : a.IsFinite ∧ b.IsFinite := Ieee.isFinite_add.1 (rounded_isFinite h)

theorem isFinite_mul (h : (a * b).IsFinite) : a.IsFinite ∧ b.IsFinite := Ieee.isFinite_mul.1 (rounded_isFinite h)

theorem isFinite_foldl : ∀ (values : List R.Number) (a : R.Number), (values.foldl (· + ·) a).IsFinite →
    a.IsFinite ∧ ∀ v ∈ values, v.IsFinite
  | [], _, h          => ⟨h, by simp⟩
  | v :: values, a, h => by
    obtain ⟨hsum, hvalues⟩ := isFinite_foldl values (a + v) h
    obtain ⟨ha, hv⟩ := isFinite_add hsum
    exact ⟨ha, List.forall_mem_cons.2 ⟨hv, hvalues⟩⟩

/-- A number of the format is not rounded. -/
theorem rounded_val (h : R.Fixed x) : (R.rounded (.finite x)).val = .finite x := by
  change (if R.fits (R.nearest x) then Ieee.finite (R.nearest x) else Ieee.infinite (x < 0)) = _
  rw [h.1, if_pos h.2]

theorem add_eq (ha : a.val = .finite x) (hb : b.val = .finite y) : a + b = R.rounded (.finite (x + y)) := by
  change R.rounded (a.val + b.val) = _
  rw [ha, hb]
  rfl

theorem sub_eq (ha : a.val = .finite x) (hb : b.val = .finite y) : a - b = R.rounded (.finite (x - y)) := by
  change R.rounded (a.val - b.val) = _
  rw [ha, hb, sub_eq_add_neg x y]
  rfl

theorem mul_eq (ha : a.val = .finite x) (hb : b.val = .finite y) : a * b = R.rounded (.finite (x * y)) := by
  change R.rounded (a.val * b.val) = _
  rw [ha, hb]
  rfl

theorem div_eq (ha : a.val = .finite x) (hb : b.val = .finite y) (hy : y ≠ 0) : a / b = R.rounded (.finite (x / y)) := by
  change R.rounded (a.val / b.val) = _
  rw [ha, hb, Ieee.finite_div hy]

/-- A finite number and one that is a number. -/
theorem add_isNan (ha : a.IsFinite) (hb : ¬ b.IsNan) : ¬ (a + b).IsNan := by
  obtain ⟨x, hx⟩ := ha
  intro h
  have hnan : a.val + b.val = .nan := rounded_isNan.1 h
  rw [hx] at hnan
  rcases b with ⟨y | s | _, hb'⟩
  · exact nomatch hnan
  · exact nomatch hnan
  · exact hb rfl

theorem add_isNan_right (ha : ¬ a.IsNan) (hb : b.IsFinite) : ¬ (a + b).IsNan := by
  obtain ⟨y, hy⟩ := hb
  intro h
  have hnan : a.val + b.val = .nan := rounded_isNan.1 h
  rw [hy] at hnan
  rcases a with ⟨x | s | _, ha'⟩
  · exact nomatch hnan
  · exact nomatch hnan
  · exact ha rfl

theorem neg_isNan (ha : ¬ a.IsNan) : ¬ (-a).IsNan := by
  intro h
  have hnan : -a.val = .nan := rounded_isNan.1 h
  rcases a with ⟨x | s | _, ha'⟩
  · exact nomatch hnan
  · exact nomatch hnan
  · exact ha rfl

theorem sub_isNan (ha : a.IsFinite) (hb : ¬ b.IsNan) : ¬ (a - b).IsNan := by
  obtain ⟨x, hx⟩ := ha
  intro h
  have hnan : a.val + -b.val = .nan := rounded_isNan.1 h
  rw [hx] at hnan
  rcases b with ⟨y | s | _, hb'⟩
  · exact nomatch hnan
  · exact nomatch hnan
  · exact hb rfl

/-- A number by a finite one that is not zero. -/
theorem mul_isNan (ha : ¬ a.IsNan) (hb : b.val = .finite y) (hy : y ≠ 0) : ¬ (a * b).IsNan := by
  intro h
  have hnan : a.val * b.val = .nan := rounded_isNan.1 h
  rw [hb] at hnan
  rcases a with ⟨x | s | _, ha'⟩
  · exact nomatch hnan
  · have : (Ieee.infinite (xor s (y < 0)) : Ieee K) = .nan := (if_neg hy).symm.trans hnan
    exact nomatch this
  · exact ha rfl

theorem mul_isNan_of_finite (ha : a.IsFinite) (hb : b.IsFinite) : ¬ (a * b).IsNan := by
  obtain ⟨x, hx⟩ := ha
  obtain ⟨y, hy⟩ := hb
  intro h
  rw [mul_eq hx hy] at h
  exact nomatch rounded_isNan.1 h

theorem div_isNan (ha : ¬ a.IsNan) (hb : b.val = .finite y) (hy : y ≠ 0) : ¬ (a / b).IsNan := by
  intro h
  have hnan : a.val / b.val = .nan := rounded_isNan.1 h
  rw [hb] at hnan
  rcases a with ⟨x | s | _, ha'⟩
  · rw [Ieee.finite_div hy] at hnan
    exact nomatch hnan
  · exact nomatch hnan
  · exact ha rfl

theorem rem_isNan [FloorRing K] (ha : a.IsFinite) (hb : b.val = .finite y) (hy : y ≠ 0) : ¬ (a.rem b).IsNan := by
  obtain ⟨x, hx⟩ := ha
  simp only [rem, hx, hb, if_neg hy]
  exact fun h => nomatch rounded_isNan.1 h

/-! ### Order -/

theorem le_finite (ha : a.val = .finite x) (hb : b.val = .finite y) : a ≤ b ↔ x ≤ y := by
  change Ieee.le a.val b.val = true ↔ _
  rw [ha, hb]
  exact decide_eq_true_iff

theorem lt_finite (ha : a.val = .finite x) (hb : b.val = .finite y) : a < b ↔ x < y := by
  change Ieee.lt a.val b.val = true ↔ _
  rw [ha, hb]
  exact decide_eq_true_iff

theorem remEuclid_isNan [FloorRing K] (ha : a.IsFinite) (hb : b.val = .finite y) (hy : 0 < y) : ¬ (a.remEuclid b).IsNan := by
  have hrem := rem_isNan ha hb hy.ne'
  have habs : b.abs = b := if_neg (fun h => hy.not_gt ((lt_finite hb rfl).1 h))
  simp only [remEuclid, habs]
  split
  · exact add_isNan_right hrem ⟨y, hb⟩
  · exact hrem

theorem le_trans {c : R.Number} (hab : a ≤ b) (hbc : b ≤ c) : a ≤ c := Ieee.le_trans hab hbc

theorem le_self (ha : ¬ a.IsNan) : a ≤ a := Ieee.le_self ha

theorem not_isNan_of_le (h : a ≤ b) : ¬ a.IsNan ∧ ¬ b.IsNan := Ieee.not_nan_of_le h

theorem le_of_not_lt (ha : ¬ a.IsNan) (hb : ¬ b.IsNan) (h : ¬ a < b) : b ≤ a := Ieee.le_of_not_lt ha hb h

theorem lt_of_not_le (ha : ¬ a.IsNan) (hb : ¬ b.IsNan) (h : ¬ a ≤ b) : b < a := Ieee.lt_of_not_le ha hb h

theorem lt_of_lt_of_le {c : R.Number} (hab : a < b) (hbc : b ≤ c) : a < c := Ieee.lt_of_lt_of_le hab hbc

theorem le_of_lt (h : a < b) : a ≤ b := Ieee.le_of_lt h

theorem lt_infinity_sub (ha : a.IsFinite) (hb : b.IsFinite) : a < R.infinity - b := by
  obtain ⟨x, hx⟩ := ha
  obtain ⟨y, hy⟩ := hb
  change Ieee.lt a.val (R.round (Ieee.infinite false + -b.val)) = true
  rw [hx, hy]
  rfl

/-- The smaller one is no larger than a bound that is a number. -/
theorem min_le_right (hb : ¬ b.IsNan) : a.min b ≤ b := by
  unfold min
  split_ifs with ha hlt
  · exact le_self hb
  · exact le_self hb
  · exact le_of_not_lt hb ha hlt

theorem le_max_right (hb : ¬ b.IsNan) : b ≤ a.max b := by
  unfold max
  split_ifs with ha hlt
  · exact le_self hb
  · exact le_self hb
  · exact le_of_not_lt ha hb hlt

theorem isFinite_of_le (hl : lower.IsFinite) (hu : upper.IsFinite) (h : lower ≤ a) (h' : a ≤ upper) : a.IsFinite := by
  obtain ⟨x, hx⟩ := hl
  obtain ⟨y, hy⟩ := hu
  change Ieee.le lower.val a.val = true at h
  change Ieee.le a.val upper.val = true at h'
  rw [hx] at h
  rw [hy] at h'
  exact Ieee.finite_of_le h h'

/-- **A number that is clamped** to an interval is in it. -/
theorem clamp_mem (ha : ¬ a.IsNan) (h : lower ≤ upper) : lower ≤ a.clamp lower upper ∧ a.clamp lower upper ≤ upper := by
  obtain ⟨hl, hu⟩ := not_isNan_of_le h
  rw [clamp]
  split
  · exact ⟨le_self hl, h⟩
  · rename_i hlower
    split
    · exact ⟨h, le_self hu⟩
    · rename_i hupper
      exact ⟨le_of_not_lt ha hl hlower, le_of_not_lt hu ha hupper⟩

end

/-! ### How large it is -/

section

variable [IsStrictOrderedRing K] {a b lower upper : R.Number} {x y l u : K}

/-- **A number between bounds.** -/
def Between (l u : K) (a : R.Number) : Prop := ∃ x, a.val = .finite x ∧ l ≤ x ∧ x ≤ u

omit [IsStrictOrderedRing K] in
theorem Between.isFinite (h : Between l u a) : a.IsFinite := by
  obtain ⟨x, hx, -⟩ := h
  exact ⟨x, hx⟩

omit [IsStrictOrderedRing K] in
theorem Between.weaken {l' u' : K} (h : Between l u a) (hl : l' ≤ l) (hu : u ≤ u') : Between l' u' a := by
  obtain ⟨x, hx, hlx, hxu⟩ := h
  exact ⟨x, hx, hl.trans hlx, hxu.trans hu⟩

/-- **Rounding stays between numbers of the format.** -/
theorem between_rounded (hl : R.Fixed l) (hu : R.Fixed u) (h : l ≤ x) (h' : x ≤ u) :
    Between l u (R.rounded (.finite x)) := by
  have hlow : l ≤ R.nearest x := hl.1 ▸ R.mono h
  have hhigh : R.nearest x ≤ u := hu.1 ▸ R.mono h'
  have hfits : R.fits (R.nearest x) = true := by
    rcases le_max_iff.1 (abs_le_max_abs_abs hlow hhigh) with habs | habs
    · exact R.fits_of_le _ _ habs hl.2
    · exact R.fits_of_le _ _ habs hu.2
  exact ⟨R.nearest x, if_pos hfits, hlow, hhigh⟩

theorem neg_val (ha : a.val = .finite x) : (-a).val = .finite (-x) := by
  change R.round (-a.val) = _
  rw [ha]
  exact rounded_val (fixed_of_eq ha).neg

theorem Between.neg (h : Between l u a) : Between (-u) (-l) (-a) := by
  obtain ⟨x, hx, hlx, hxu⟩ := h
  exact ⟨-x, neg_val hx, neg_le_neg hxu, neg_le_neg hlx⟩

theorem between_of_unit (h : Between 0 1 a) : Between (-1) 1 a := h.weaken (neg_nonpos.2 zero_le_one) le_rfl

theorem mul_between (ha : Between (-1) 1 a) (hb : Between (-1) 1 b) : Between (-1) 1 (a * b) := by
  obtain ⟨x, hx, hlx, hxu⟩ := ha
  obtain ⟨y, hy, hly, hyu⟩ := hb
  rw [mul_eq hx hy]
  have habs : |x * y| ≤ 1 := by
    rw [abs_mul]
    exact mul_le_one₀ (abs_le.2 ⟨hlx, hxu⟩) (abs_nonneg y) (abs_le.2 ⟨hly, hyu⟩)
  exact between_rounded fixed_one.neg fixed_one (abs_le.1 habs).1 (abs_le.1 habs).2

theorem mul_self_between (ha : Between (-1) 1 a) : Between 0 1 (a * a) := by
  obtain ⟨x, hx, hlx, hxu⟩ := ha
  rw [mul_eq hx hx]
  refine between_rounded fixed_zero fixed_one (mul_self_nonneg x) ?_
  rw [← abs_mul_abs_self]
  exact mul_le_one₀ (abs_le.2 ⟨hlx, hxu⟩) (abs_nonneg x) (abs_le.2 ⟨hlx, hxu⟩)

theorem sub_between_unit (ha : Between 0 1 a) (hb : Between 0 1 b) : Between (-1) 1 (a - b) := by
  obtain ⟨x, hx, hlx, hxu⟩ := ha
  obtain ⟨y, hy, hly, hyu⟩ := hb
  rw [sub_eq hx hy]
  exact between_rounded fixed_one.neg fixed_one (by linarith) (by linarith)

theorem mul_between_unit (ha : Between 0 1 a) (hb : Between 0 1 b) : Between 0 1 (a * b) := by
  obtain ⟨x, hx, hlx, hxu⟩ := ha
  obtain ⟨y, hy, hly, hyu⟩ := hb
  rw [mul_eq hx hy]
  exact between_rounded fixed_zero fixed_one (mul_nonneg hlx hly) (mul_le_one₀ hxu hly hyu)

omit [IsStrictOrderedRing K] in
theorem between_of_le (hl : lower.val = .finite l) (hu : upper.val = .finite u) (h : lower ≤ a ∧ a ≤ upper) :
    Between l u a := by
  obtain ⟨x, hx⟩ := isFinite_of_le ⟨l, hl⟩ ⟨u, hu⟩ h.1 h.2
  exact ⟨x, hx, (le_finite hl hx).1 h.1, (le_finite hx hu).1 h.2⟩

omit [IsStrictOrderedRing K] in
theorem clamp_between (hl : lower.val = .finite l) (hu : upper.val = .finite u) (h : l ≤ u) (ha : ¬ a.IsNan) :
    Between l u (a.clamp lower upper) :=
  between_of_le hl hu (clamp_mem ha ((le_finite hl hu).2 h))

theorem clamp_unit (ha : ¬ a.IsNan) : Between 0 1 (a.clamp 0 1) := clamp_between rfl rfl zero_le_one ha

omit [IsStrictOrderedRing K] in
theorem ofNat_val {n : ℕ} (h : n ≤ 2 ^ 53) : (R.ofNat n).val = .finite (n : K) :=
  rounded_val (fixed_natCast h)

/-- **A number of at most `k` in absolute value.** -/
def Bounded (k : ℕ) (a : R.Number) : Prop := Between (-(k : K)) k a

theorem bounded_of_between {k : ℕ} (h : Between 0 (k : K) a) : Bounded k a :=
  h.weaken (neg_nonpos.2 (Nat.cast_nonneg k)) le_rfl

omit [IsStrictOrderedRing K] in
theorem bounded_one (h : Between (-1) 1 a) : Bounded 1 a := by
  rwa [Bounded, Nat.cast_one]

theorem between_bounded {k : ℕ} (hk : k ≤ 2 ^ 53) (h : |x| ≤ k) : Bounded k (R.rounded (.finite x)) :=
  between_rounded (fixed_natCast hk).neg (fixed_natCast hk) (abs_le.1 h).1 (abs_le.1 h).2

theorem Bounded.add {j k : ℕ} (ha : Bounded j a) (hb : Bounded k b) (h : j + k ≤ 2 ^ 53) : Bounded (j + k) (a + b) := by
  obtain ⟨x, hx, hlx, hxu⟩ := ha
  obtain ⟨y, hy, hly, hyu⟩ := hb
  rw [add_eq hx hy]
  refine between_bounded h ((abs_add_le x y).trans ?_)
  rw [Nat.cast_add]
  exact add_le_add (abs_le.2 ⟨hlx, hxu⟩) (abs_le.2 ⟨hly, hyu⟩)

/-- Sums of numbers that are not negative. -/
theorem add_between {j k : ℕ} (ha : Between 0 (j : K) a) (hb : Between 0 (k : K) b) (h : j + k ≤ 2 ^ 53) :
    Between 0 ((j + k : ℕ) : K) (a + b) := by
  obtain ⟨x, hx, hlx, hxu⟩ := ha
  obtain ⟨y, hy, hly, hyu⟩ := hb
  rw [add_eq hx hy]
  refine between_rounded fixed_zero (fixed_natCast h) (add_nonneg hlx hly) ?_
  rw [Nat.cast_add]
  exact add_le_add hxu hyu

theorem Bounded.sub {j k : ℕ} (ha : Bounded j a) (hb : Bounded k b) (h : j + k ≤ 2 ^ 53) : Bounded (j + k) (a - b) := by
  obtain ⟨x, hx, hlx, hxu⟩ := ha
  obtain ⟨y, hy, hly, hyu⟩ := hb
  rw [sub_eq hx hy]
  refine between_bounded h ((abs_sub x y).trans ?_)
  rw [Nat.cast_add]
  exact add_le_add (abs_le.2 ⟨hlx, hxu⟩) (abs_le.2 ⟨hly, hyu⟩)

theorem Bounded.mul {j k : ℕ} (ha : Bounded j a) (hb : Bounded k b) (h : j * k ≤ 2 ^ 53) : Bounded (j * k) (a * b) := by
  obtain ⟨x, hx, hlx, hxu⟩ := ha
  obtain ⟨y, hy, hly, hyu⟩ := hb
  rw [mul_eq hx hy]
  refine between_bounded h ?_
  rw [abs_mul, Nat.cast_mul]
  exact mul_le_mul (abs_le.2 ⟨hlx, hxu⟩) (abs_le.2 ⟨hly, hyu⟩) (abs_nonneg y) (Nat.cast_nonneg j)

omit [IsStrictOrderedRing K] in
/-- The smaller one is within the bounds of both. -/
theorem min_between {u' : K} (ha : Between 0 u' a) (hb : Between 0 u b) : Between 0 u (a.min b) := by
  obtain ⟨x, hx, hx0, -⟩ := ha
  have hle : a.min b ≤ b := min_le_right hb.isFinite.not_isNan
  obtain ⟨y, hy, hy0, hyu⟩ := hb
  have hzero : (0 : R.Number).val = .finite 0 := rfl
  refine (between_of_le hzero hy ⟨?_, hle⟩).weaken le_rfl hyu
  unfold min
  split_ifs
  · exact (le_finite rfl hy).2 hy0
  · exact (le_finite rfl hy).2 hy0
  · exact (le_finite rfl hx).2 hx0

/-- Products of numbers that are not negative. -/
theorem mul_between_natCast {j k : ℕ} (ha : Between 0 (j : K) a) (hb : Between 0 (k : K) b) (h : j * k ≤ 2 ^ 53) :
    Between 0 ((j * k : ℕ) : K) (a * b) := by
  obtain ⟨x, hx, hlx, hxu⟩ := ha
  obtain ⟨y, hy, hly, hyu⟩ := hb
  rw [mul_eq hx hy]
  refine between_rounded fixed_zero (fixed_natCast h) (mul_nonneg hlx hly) ?_
  rw [Nat.cast_mul]
  exact mul_le_mul hxu hyu hly (Nat.cast_nonneg j)

theorem half_val : (R.literal 1 2).val = .finite (1 / 2) := by
  have hfixed := fixed_dyadic (R := R) (k := 1) (by norm_num)
  rw [pow_one, Nat.cast_two] at hfixed
  change (R.rounded (.finite (((1 : ℕ) : K) / ((2 : ℕ) : K)))).val = _
  rw [Nat.cast_one, Nat.cast_two]
  exact rounded_val hfixed

/-- Half of a sum of two. -/
theorem half_between_natCast {k : ℕ} (ha : Between 0 ((k + k : ℕ) : K) a) (h : k ≤ 2 ^ 53) :
    Between 0 (k : K) (a * R.literal 1 2) := by
  obtain ⟨x, hx, hlx, hxu⟩ := ha
  rw [mul_eq hx half_val]
  rw [Nat.cast_add] at hxu
  exact between_rounded fixed_zero (fixed_natCast h) (by linarith) (by linarith)

theorem half_between : Between 0 1 (R.literal 1 2) := by
  refine between_rounded fixed_zero fixed_one ?_ ?_
  · exact div_nonneg (Nat.cast_nonneg 1) (Nat.cast_nonneg 2)
  · rw [Nat.cast_one, Nat.cast_two]
    exact (div_le_one two_pos).2 one_le_two

/-! ### Intervals -/

omit [IsStrictOrderedRing K] in
/-- The width of an interval with more than one number. -/
theorem width_pos [IsStrictOrderedRing K] (h : lower < upper) (hl : lower.IsFinite) (hu : upper.IsFinite)
    (hw : (upper - lower).IsFinite) : ∃ w, (upper - lower).val = .finite w ∧ 0 < w := by
  obtain ⟨l, hl⟩ := hl
  obtain ⟨u, hu⟩ := hu
  obtain ⟨w, hw⟩ := hw
  refine ⟨w, hw, ?_⟩
  rw [sub_eq hu hl] at hw
  have hround : (if R.fits (R.nearest (u - l)) then .finite (R.nearest (u - l)) else .infinite (u - l < 0)) =
      Ieee.finite w := hw
  split at hround
  · rw [← Ieee.finite.inj hround]
    exact R.gradual l u (fixed_of_eq hl).1 (fixed_of_eq hu).1 ((lt_finite hl hu).1 h)
  · exact nomatch hround

/-- Two numbers of an interval are not farther apart than its ends. -/
theorem sub_between {w : K} (hw : (upper - lower).val = .finite w) (hl : lower.IsFinite) (hu : upper.IsFinite)
    (ha : lower ≤ a ∧ a ≤ upper) (hb : lower ≤ b ∧ b ≤ upper) : Between (-w) w (a - b) := by
  obtain ⟨x, hx⟩ := isFinite_of_le hl hu ha.1 ha.2
  obtain ⟨y, hy⟩ := isFinite_of_le hl hu hb.1 hb.2
  obtain ⟨l, hl⟩ := hl
  obtain ⟨u, hu⟩ := hu
  have hxl := (le_finite hl hx).1 ha.1
  have hxu := (le_finite hx hu).1 ha.2
  have hyl := (le_finite hl hy).1 hb.1
  have hyu := (le_finite hy hu).1 hb.2
  rw [sub_eq hu hl] at hw
  have hround : (if R.fits (R.nearest (u - l)) then .finite (R.nearest (u - l)) else .infinite (u - l < 0)) =
      Ieee.finite w := hw
  split at hround
  · rename_i hfits
    obtain rfl := Ieee.finite.inj hround
    have hlow : -R.nearest (u - l) ≤ R.nearest (x - y) := by
      rw [← R.nearest_neg]
      exact R.mono (by linarith)
    have hhigh : R.nearest (x - y) ≤ R.nearest (u - l) := R.mono (by linarith)
    have hfits' := R.fits_of_le _ _ ((abs_le.2 ⟨hlow, hhigh⟩).trans (le_abs_self _)) hfits
    rw [sub_eq hx hy]
    exact ⟨_, if_pos hfits', hlow, hhigh⟩
  · exact nomatch hround

/-- A distance as a share of the width. -/
theorem div_between {w : K} (ha : Between (-w) w a) (hb : b.val = .finite w) (hw : 0 < w) : Between (-1) 1 (a / b) := by
  obtain ⟨x, hx, hlx, hxu⟩ := ha
  rw [div_eq hx hb hw.ne']
  exact between_rounded fixed_one.neg fixed_one (by rwa [le_div_iff₀ hw, neg_one_mul]) ((div_le_one hw).2 hxu)

end

end Number
end Format
