import Itofin.Lib.Floating
import Mathlib.Data.Int.ConditionallyCompleteOrder
import Mathlib.Data.Int.Log
import Mathlib.Data.Rat.Floor
import Mathlib.Tactic.Positivity
import Mathlib.Tactic.Ring
/-!
# Binary64 — the format of `f64`

Numbers are the multiples `m 2^e` with `m` of 53 bits and `e` from -1074 on, up to the largest one.  A number between two
of them is rounded to the nearer one, and to the even one of two that are as near.
-/
namespace Binary64

/-- The nearest integer, the even one of two. -/
def roundEven (q : ℚ) : ℤ :=
  if q - ⌊q⌋ < 1 / 2 then ⌊q⌋ else if 1 / 2 < q - ⌊q⌋ then ⌊q⌋ + 1 else if ⌊q⌋ % 2 = 0 then ⌊q⌋ else ⌊q⌋ + 1

/-- The exponent of the last bit. -/
def exponent (x : ℚ) : ℤ := max (Int.log 2 x - 52) (-1074)

def magnitude (x : ℚ) : ℚ := roundEven (x / (2 : ℚ) ^ exponent x) * (2 : ℚ) ^ exponent x

def nearest (x : ℚ) : ℚ := if x < 0 then -magnitude (-x) else magnitude x

/-- `f64::MAX` -/
def largest : ℚ := (2 ^ 53 - 1) * 2 ^ 971

/-! ## Integers -/

theorem floor_le_roundEven (q : ℚ) : ⌊q⌋ ≤ roundEven q := by
  unfold roundEven
  split_ifs <;> omega

theorem roundEven_le_floor (q : ℚ) : roundEven q ≤ ⌊q⌋ + 1 := by
  unfold roundEven
  split_ifs <;> omega

theorem roundEven_intCast (n : ℤ) : roundEven n = n := by
  rw [roundEven, Int.floor_intCast, sub_self, if_pos (by norm_num)]

theorem roundEven_mono : Monotone roundEven := by
  intro q r h
  rcases (Int.floor_mono h).eq_or_lt with heq | hlt
  · unfold roundEven
    rw [← heq]
    split_ifs <;> first | omega | linarith
  · exact (roundEven_le_floor q).trans (hlt.trans_le (floor_le_roundEven r))

theorem roundEven_nonneg {q : ℚ} (h : 0 ≤ q) : 0 ≤ roundEven q := (Int.floor_nonneg.2 h).trans (floor_le_roundEven q)

/-! ## The grid -/

theorem two_zpow_pos (k : ℤ) : (0 : ℚ) < (2 : ℚ) ^ k := zpow_pos two_pos k

theorem le_exponent (x : ℚ) : -1074 ≤ exponent x := le_max_right _ _

theorem lt_zpow_exponent {x : ℚ} : x < (2 : ℚ) ^ (exponent x + 53) := by
  have hlog : x < ((2 : ℕ) : ℚ) ^ (Int.log 2 x + 1) := Int.lt_zpow_succ_log_self Nat.one_lt_two x
  have hexp : Int.log 2 x - 52 ≤ exponent x := le_max_left _ _
  exact hlog.trans_le (zpow_le_zpow_right₀ (by norm_num) (by omega))

theorem exponent_le {x : ℚ} {k : ℤ} (hx : 0 < x) (hk : -1074 ≤ k) (h : x < (2 : ℚ) ^ (k + 53)) : exponent x ≤ k := by
  have hlog : Int.log 2 x < k + 53 := (Int.lt_zpow_iff_log_lt Nat.one_lt_two hx).1 h
  exact max_le (by omega) hk

/-- A multiple of a coarser power is one of a finer. -/
theorem zpow_of_le {j k : ℤ} (h : j ≤ k) : ∃ n : ℕ, (2 : ℚ) ^ k = (n : ℚ) * (2 : ℚ) ^ j := by
  refine ⟨2 ^ (k - j).toNat, ?_⟩
  have hnat : ((k - j).toNat : ℤ) = k - j := Int.toNat_of_nonneg (by omega)
  rw [Nat.cast_pow, Nat.cast_ofNat, ← zpow_natCast, hnat, ← zpow_add₀ two_ne_zero, sub_add_cancel]

theorem magnitude_of_mul {m : ℤ} {x : ℚ} (h : x = m * (2 : ℚ) ^ exponent x) : magnitude x = x := by
  rw [magnitude]
  nth_rewrite 1 [h]
  rw [mul_div_assoc, div_self (two_zpow_pos _).ne', mul_one, roundEven_intCast, ← h]

theorem magnitude_of_lt {m : ℕ} {k : ℤ} (hm : m < 2 ^ 53) (hk : -1074 ≤ k) :
    magnitude (m * (2 : ℚ) ^ k) = m * (2 : ℚ) ^ k := by
  rcases Nat.eq_zero_or_pos m with rfl | hpos
  · rw [Nat.cast_zero, zero_mul]
    exact magnitude_of_mul (m := 0) (by rw [Int.cast_zero, zero_mul])
  · have hx : (0 : ℚ) < m * (2 : ℚ) ^ k := mul_pos (Nat.cast_pos.2 hpos) (two_zpow_pos k)
    have hlt : (m : ℚ) * (2 : ℚ) ^ k < (2 : ℚ) ^ (k + 53) := by
      rw [add_comm, zpow_add₀ two_ne_zero]
      exact mul_lt_mul_of_pos_right (by exact_mod_cast hm) (two_zpow_pos k)
    obtain ⟨n, hn⟩ := zpow_of_le (exponent_le hx hk hlt)
    refine magnitude_of_mul (m := (m * n : ℕ)) ?_
    nth_rewrite 1 [hn]
    push_cast
    ring

/-- **Numbers of the format are not rounded.** -/
theorem magnitude_grid {m : ℕ} {k : ℤ} (hm : m ≤ 2 ^ 53) (hk : -1074 ≤ k) :
    magnitude (m * (2 : ℚ) ^ k) = m * (2 : ℚ) ^ k := by
  rcases hm.eq_or_lt with rfl | hlt
  · have hnext : ((2 ^ 53 : ℕ) : ℚ) * (2 : ℚ) ^ k = ((2 ^ 52 : ℕ) : ℚ) * (2 : ℚ) ^ (k + 1) := by
      rw [zpow_add_one₀ two_ne_zero]
      push_cast
      ring
    rw [hnext]
    exact magnitude_of_lt (by norm_num) (by omega)
  · exact magnitude_of_lt hlt hk

theorem magnitude_nonneg {x : ℚ} (h : 0 ≤ x) : 0 ≤ magnitude x :=
  mul_nonneg (Int.cast_nonneg (roundEven_nonneg (div_nonneg h (two_zpow_pos _).le))) (two_zpow_pos _).le

/-- The result of rounding as a number of the format. -/
theorem magnitude_eq {x : ℚ} (h : 0 ≤ x) : ∃ m : ℕ, m ≤ 2 ^ 53 ∧ magnitude x = m * (2 : ℚ) ^ exponent x := by
  have hlt : x / (2 : ℚ) ^ exponent x ≤ ((2 ^ 53 : ℕ) : ℤ) := by
    rw [div_le_iff₀ (two_zpow_pos _)]
    refine lt_zpow_exponent.le.trans_eq ?_
    rw [add_comm, zpow_add₀ two_ne_zero]
    norm_cast
  have hround := (roundEven_mono hlt).trans_eq (roundEven_intCast _)
  have hnonneg := roundEven_nonneg (div_nonneg h (two_zpow_pos (exponent x)).le)
  refine ⟨(roundEven (x / (2 : ℚ) ^ exponent x)).toNat, by omega, ?_⟩
  have hcast : (((roundEven (x / (2 : ℚ) ^ exponent x)).toNat : ℤ) : ℚ) = roundEven (x / (2 : ℚ) ^ exponent x) := by
    rw [Int.toNat_of_nonneg hnonneg]
  rw [magnitude, ← hcast, Int.cast_natCast]

theorem magnitude_magnitude {x : ℚ} (h : 0 ≤ x) : magnitude (magnitude x) = magnitude x := by
  obtain ⟨m, hm, heq⟩ := magnitude_eq h
  rw [heq]
  exact magnitude_grid hm (le_exponent x)

theorem exponent_mono {x y : ℚ} (hx : 0 < x) (h : x ≤ y) : exponent x ≤ exponent y :=
  max_le_max (Int.sub_le_sub_right (Int.log_mono_right hx h) _) le_rfl

theorem magnitude_le {x : ℚ} {n : ℤ} (h : x ≤ n * (2 : ℚ) ^ exponent x) : magnitude x ≤ n * (2 : ℚ) ^ exponent x := by
  have hround := roundEven_mono ((div_le_iff₀ (two_zpow_pos (exponent x))).2 h)
  rw [roundEven_intCast] at hround
  exact mul_le_mul_of_nonneg_right (Int.cast_le.2 hround) (two_zpow_pos _).le

theorem le_magnitude {x : ℚ} {n : ℤ} (h : n * (2 : ℚ) ^ exponent x ≤ x) : n * (2 : ℚ) ^ exponent x ≤ magnitude x := by
  have hround := roundEven_mono ((le_div_iff₀ (two_zpow_pos (exponent x))).2 h)
  rw [roundEven_intCast] at hround
  exact mul_le_mul_of_nonneg_right (Int.cast_le.2 hround) (two_zpow_pos _).le

theorem magnitude_zero : magnitude 0 = 0 := magnitude_of_mul (m := 0) (by rw [Int.cast_zero, zero_mul])

/-- Rounding goes past no power of two. -/
theorem magnitude_mono {x y : ℚ} (hx : 0 ≤ x) (h : x ≤ y) : magnitude x ≤ magnitude y := by
  rcases hx.eq_or_lt with rfl | hpos
  · rw [magnitude_zero]
    exact magnitude_nonneg h
  rcases (exponent_mono hpos h).eq_or_lt with heq | hlt
  · rw [magnitude, magnitude, heq]
    exact mul_le_mul_of_nonneg_right (Int.cast_le.2 (roundEven_mono (div_le_div_of_nonneg_right h (two_zpow_pos _).le)))
      (two_zpow_pos _).le
  · -- a power of two is between them
    have hnormal : exponent y = Int.log 2 y - 52 := by
      have hmin := le_exponent x
      rcases max_choice (Int.log 2 y - 52) (-1074) with hmax | hmax
      · exact hmax
      · have : exponent y = -1074 := hmax
        omega
    have hbelow : x < (2 : ℚ) ^ (exponent y + 52) :=
      lt_zpow_exponent.trans_le (zpow_le_zpow_right₀ (by norm_num) (by omega))
    have habove : (2 : ℚ) ^ (exponent y + 52) ≤ y := by
      rw [hnormal, sub_add_cancel]
      exact Int.zpow_log_le_self Nat.one_lt_two (hpos.trans_le h)
    obtain ⟨n, hn⟩ := zpow_of_le (show exponent x ≤ exponent y + 52 by omega)
    have hpower : (2 : ℚ) ^ (exponent y + 52) = ((2 ^ 52 : ℤ) : ℚ) * (2 : ℚ) ^ exponent y := by
      rw [add_comm, zpow_add₀ two_ne_zero]
      norm_cast
    calc magnitude x ≤ (n : ℤ) * (2 : ℚ) ^ exponent x := magnitude_le (by rw [Int.cast_natCast, ← hn]; exact hbelow.le)
      _ = (2 : ℚ) ^ (exponent y + 52) := by rw [Int.cast_natCast, hn]
      _ = ((2 ^ 52 : ℤ) : ℚ) * (2 : ℚ) ^ exponent y := hpower
      _ ≤ magnitude y := le_magnitude (hpower ▸ habove)

/-! ## Signs -/

theorem nearest_of_nonneg {x : ℚ} (h : 0 ≤ x) : nearest x = magnitude x := if_neg (not_lt.2 h)

theorem nearest_of_nonpos {x : ℚ} (h : x ≤ 0) : nearest x = -magnitude (-x) := by
  rcases h.eq_or_lt with rfl | hlt
  · rw [nearest_of_nonneg le_rfl, neg_zero, magnitude_zero, neg_zero]
  · exact if_pos hlt

theorem nearest_neg (x : ℚ) : nearest (-x) = -nearest x := by
  rcases le_total 0 x with h | h
  · rw [nearest_of_nonneg h, nearest_of_nonpos (neg_nonpos.2 h), neg_neg]
  · rw [nearest_of_nonpos h, nearest_of_nonneg (neg_nonneg.2 h), neg_neg]

theorem nearest_mono : Monotone nearest := by
  intro x y h
  rcases le_total 0 x with hx | hx
  · rw [nearest_of_nonneg hx, nearest_of_nonneg (hx.trans h)]
    exact magnitude_mono hx h
  · rcases le_total 0 y with hy | hy
    · rw [nearest_of_nonpos hx, nearest_of_nonneg hy]
      have hx' := magnitude_nonneg (neg_nonneg.2 hx)
      have hy' := magnitude_nonneg hy
      linarith
    · rw [nearest_of_nonpos hx, nearest_of_nonpos hy]
      exact neg_le_neg (magnitude_mono (neg_nonneg.2 hy) (neg_le_neg h))

theorem nearest_nearest (x : ℚ) : nearest (nearest x) = nearest x := by
  rcases le_total 0 x with h | h
  · rw [nearest_of_nonneg h, nearest_of_nonneg (magnitude_nonneg h), magnitude_magnitude h]
  · have hneg := neg_nonneg.2 h
    rw [nearest_of_nonpos h, nearest_neg, nearest_of_nonneg (magnitude_nonneg hneg), magnitude_magnitude hneg]

/-- A number of the format is a multiple of the smallest one. -/
theorem exists_smallest {x : ℚ} (h : nearest x = x) : ∃ i : ℤ, x = i * (2 : ℚ) ^ (-1074 : ℤ) := by
  have hpos : ∀ {z : ℚ}, 0 ≤ z → ∃ i : ℤ, magnitude z = i * (2 : ℚ) ^ (-1074 : ℤ) := fun {z} hz => by
    obtain ⟨m, -, hm⟩ := magnitude_eq hz
    obtain ⟨n, hn⟩ := zpow_of_le (le_exponent z)
    refine ⟨((m * n : ℕ) : ℤ), ?_⟩
    rw [hm, hn, Nat.cast_mul, Int.cast_mul, Int.cast_natCast, Int.cast_natCast, mul_assoc]
  rcases le_total 0 x with hx | hx
  · obtain ⟨i, hi⟩ := hpos hx
    exact ⟨i, by rw [← hi, ← nearest_of_nonneg hx, h]⟩
  · obtain ⟨i, hi⟩ := hpos (neg_nonneg.2 hx)
    exact ⟨-i, by rw [Int.cast_neg, neg_mul, ← hi, ← nearest_of_nonpos hx, h]⟩

theorem gradual {x y : ℚ} (hx : nearest x = x) (hy : nearest y = y) (h : x < y) : 0 < nearest (y - x) := by
  obtain ⟨i, rfl⟩ := exists_smallest hx
  obtain ⟨j, rfl⟩ := exists_smallest hy
  have hij : i < j := by
    have := lt_of_mul_lt_mul_right h (two_zpow_pos _).le
    exact_mod_cast this
  have hsmallest : (1 : ℕ) * (2 : ℚ) ^ (-1074 : ℤ) ≤ (j : ℚ) * (2 : ℚ) ^ (-1074 : ℤ) - (i : ℚ) * (2 : ℚ) ^ (-1074 : ℤ) := by
    have hdiff : (i : ℚ) + 1 ≤ j := by exact_mod_cast hij
    rw [← sub_mul, Nat.cast_one]
    exact mul_le_mul_of_nonneg_right (by linarith only [hdiff]) (two_zpow_pos _).le
  have hpos : (0 : ℚ) < (1 : ℕ) * (2 : ℚ) ^ (-1074 : ℤ) := mul_pos (by norm_num) (two_zpow_pos _)
  have hfixed := magnitude_grid (m := 1) (k := -1074) (by norm_num) le_rfl
  calc (0 : ℚ) < (1 : ℕ) * (2 : ℚ) ^ (-1074 : ℤ) := hpos
    _ = nearest ((1 : ℕ) * (2 : ℚ) ^ (-1074 : ℤ)) := by rw [nearest_of_nonneg hpos.le, hfixed]
    _ ≤ _ := nearest_mono hsmallest

/-- **`f64`**, but for the sign of zero. -/
def format : Format ℚ where
  nearest         := nearest
  fits x          := |x| ≤ largest
  mono            := nearest_mono
  nearest_neg     := nearest_neg
  nearest_nearest := nearest_nearest
  fits_of_le x y h hy := decide_eq_true (h.trans (of_decide_eq_true hy))
  integer n hn    := by
    have hgrid := magnitude_grid (k := 0) hn (by norm_num)
    rw [zpow_zero, mul_one] at hgrid
    refine ⟨(nearest_of_nonneg (Nat.cast_nonneg n)).trans hgrid, decide_eq_true ?_⟩
    have hbound : (n : ℚ) ≤ 2 ^ 53 := by exact_mod_cast hn
    rw [abs_of_nonneg (Nat.cast_nonneg n)]
    refine hbound.trans ?_
    calc (2 : ℚ) ^ 53 ≤ (2 ^ 53 - 1) * 2 := by norm_num
      _ ≤ (2 ^ 53 - 1) * 2 ^ 971 := mul_le_mul_of_nonneg_left (le_self_pow₀ (by norm_num) (by norm_num)) (by norm_num)
  dyadic k hk     := by
    have hgrid := magnitude_grid (m := 1) (k := -(k : ℤ)) (by norm_num) (by omega)
    rw [Nat.cast_one, one_mul, zpow_neg, zpow_natCast] at hgrid
    push_cast
    rw [nearest_of_nonneg (by positivity), one_div, hgrid]
  gradual _ _     := gradual

end Binary64
