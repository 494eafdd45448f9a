import Mathlib.Data.List.Nodup
import Mathlib.Data.List.Perm.Subperm
import Mathlib.Data.Nat.Bitwise
import Mathlib.Tactic.Common
/-!
# Gray — Gray codes and the numbers that digits select

The Gray code of `n` is `n ^^^ (n >>> 1)`, and the next code flips one digit: the lowest one that `n` has not
(`gray_succ`).  The digits of a number select from a list of numbers, the lowest digit the first one, and `select` is
the exclusive-or of what they select.  It is linear (`select_xor`), so flipping one digit changes it by one number.
-/
namespace Gray

def gray (n : ℕ) : ℕ := n ^^^ (n >>> 1)

/-- How many of the lowest digits are ones, in so many turns at most. -/
def trailingOnes : ℕ → ℕ → ℕ
  | 0, _        => 0
  | fuel + 1, n => if n % 2 = 1 then trailingOnes fuel (n / 2) + 1 else 0

theorem gray_bit (b : Bool) (n : ℕ) : gray (Nat.bit b n) = Nat.bit (b != n.testBit 0) (gray n) := by
  have h : Nat.bit b n >>> 1 = n := by rw [Nat.shiftRight_one, Nat.bit_div_two]
  rw [gray, h]
  conv_lhs => rhs; rw [← Nat.bit_testBit_zero_shiftRight_one n]
  rw [Nat.xor_bit, gray]

/-- **The next Gray code flips the lowest digit that is not a one.** -/
theorem gray_succ : ∀ (fuel n : ℕ), n < 2 ^ fuel → gray (n + 1) = gray n ^^^ 2 ^ trailingOnes (fuel + 1) n
  | 0, n, h        => by
    obtain rfl : n = 0 := by simpa using h
    rfl
  | fuel + 1, n, h => by
    rw [trailingOnes]
    have hn : n = Nat.bit (n.testBit 0) (n / 2) := by
      rw [← Nat.shiftRight_one, Nat.bit_testBit_zero_shiftRight_one]
    cases hb : n.testBit 0 with
    | false =>
      have hm : ¬ n % 2 = 1 := by simpa [Nat.testBit_zero] using hb
      rw [hb] at hn
      rw [if_neg hm, hn, show Nat.bit false (n / 2) + 1 = Nat.bit true (n / 2) by simp [Nat.bit_val], gray_bit,
        gray_bit, show 2 ^ 0 = Nat.bit true 0 from rfl, Nat.xor_bit, Nat.xor_zero]
      cases (n / 2).testBit 0 <;> rfl
    | true =>
      have hm : n % 2 = 1 := by simpa [Nat.testBit_zero] using hb
      rw [hb] at hn
      have ih := gray_succ fuel (n / 2) (by omega)
      have hs : n + 1 = Nat.bit false (n / 2 + 1) := by rw [Nat.bit_val]; simp; omega
      have hp : 2 ^ (trailingOnes (fuel + 1) (n / 2) + 1) = Nat.bit false (2 ^ trailingOnes (fuel + 1) (n / 2)) := by
        rw [Nat.bit_val, pow_succ, Bool.toNat_false, add_zero, mul_comm]
      have ht : (n / 2 + 1).testBit 0 = !(n / 2).testBit 0 := by
        rw [Nat.testBit_zero, Nat.testBit_zero]
        rcases Nat.mod_two_eq_zero_or_one (n / 2) with h | h <;> simp [Nat.add_mod, h]
      rw [if_pos hm, hs, gray_bit, ih, hp]
      conv_rhs => lhs; rw [hn]
      rw [gray_bit, Nat.xor_bit, ht]
      cases (n / 2).testBit 0 <;> rfl

theorem two_pow_trailingOnes_le : ∀ (fuel n : ℕ), 2 ^ trailingOnes fuel n ≤ n + 1
  | 0, n        => by simp [trailingOnes]
  | fuel + 1, n => by
    rw [trailingOnes]
    split
    case isTrue h =>
      have := two_pow_trailingOnes_le fuel (n / 2)
      rw [pow_succ]
      omega
    case isFalse => simp

theorem gray_xor (a b : ℕ) : gray (a ^^^ b) = gray a ^^^ gray b := by
  rw [gray, gray, gray, Nat.shiftRight_xor_distrib]
  simp only [Nat.xor_assoc, Nat.xor_left_comm]

theorem gray_ne_zero {n : ℕ} (h : n ≠ 0) : gray n ≠ 0 := by
  rw [gray, ne_eq, Nat.xor_eq_zero_iff, Nat.shiftRight_one]
  omega

theorem gray_lt {m n : ℕ} (h : n < 2 ^ m) : gray n < 2 ^ m :=
  Nat.xor_lt_two_pow h (lt_of_le_of_lt (Nat.shiftRight_le _ 1) h)

theorem gray_injective : Function.Injective gray := by
  intro a b h
  by_contra hne
  rw [← Nat.xor_eq_zero_iff, ← gray_xor] at h
  exact gray_ne_zero (fun h => hne (Nat.xor_eq_zero_iff.mp h)) h

/-! ## Selecting -/

/-- The exclusive-or of the numbers selected by the digits. -/
def select : List ℕ → ℕ → ℕ
  | [], _      => 0
  | d :: ds, n => (if n.testBit 0 then d else 0) ^^^ select ds (n / 2)

theorem select_xor : ∀ (ds : List ℕ) (a b : ℕ), select ds (a ^^^ b) = select ds a ^^^ select ds b
  | [], _, _      => (Nat.xor_self 0).symm
  | d :: ds, a, b => by
    have hx : (a ^^^ b) / 2 = a / 2 ^^^ b / 2 := by
      rw [← Nat.shiftRight_one, ← Nat.shiftRight_one, ← Nat.shiftRight_one, Nat.shiftRight_xor_distrib]
    rw [select, select, select, Nat.testBit_xor, hx, select_xor ds]
    cases a.testBit 0 <;> cases b.testBit 0 <;> simp [Nat.xor_assoc, Nat.xor_left_comm]

theorem select_zero : ∀ ds : List ℕ, select ds 0 = 0
  | []      => rfl
  | d :: ds => by rw [select, Nat.zero_div, select_zero ds]; simp

theorem select_two_pow : ∀ (ds : List ℕ) (j : ℕ), select ds (2 ^ j) = ds.getD j 0
  | [], _          => rfl
  | d :: ds, 0     => by
    rw [select, pow_zero, show 1 / 2 = 0 from rfl, select_zero]
    simp
  | d :: ds, j + 1 => by
    rw [select, pow_succ, Nat.mul_div_cancel _ (by decide), select_two_pow ds j]
    simp [Nat.testBit_zero]

theorem select_take : ∀ (ds : List ℕ) (m n : ℕ), n < 2 ^ m → select (ds.take m) n = select ds n
  | [], _, _, _          => by rw [List.take_nil]
  | d :: ds, 0, n, h     => by
    obtain rfl : n = 0 := by simpa using h
    rw [List.take_zero, select_zero, select_zero]
  | d :: ds, m + 1, n, h => by
    rw [List.take_succ_cons, select, select, select_take ds m (n / 2) (by omega)]

/-- The powers of two from the highest one down: what they select is the number with its digits reversed. -/
def reversing : ℕ → List ℕ
  | 0     => []
  | w + 1 => 2 ^ w :: reversing w

theorem select_reversing_lt : ∀ (w n : ℕ), select (reversing w) n < 2 ^ w
  | 0, _     => Nat.one_pos
  | w + 1, n => by
    have h := select_reversing_lt w (n / 2)
    have hp : 2 ^ w < 2 ^ (w + 1) := Nat.pow_lt_pow_right (by decide) (Nat.lt_succ_self w)
    rw [reversing, select]
    refine Nat.xor_lt_two_pow ?_ (h.trans hp)
    split
    · exact hp
    · exact Nat.two_pow_pos _

theorem select_reversing_eq_zero : ∀ (w n : ℕ), n < 2 ^ w → select (reversing w) n = 0 → n = 0
  | 0, n, h, _      => by simpa using h
  | w + 1, n, h, h₀ => by
    rw [reversing, select, Nat.xor_eq_zero_iff] at h₀
    have hlt := select_reversing_lt w (n / 2)
    split at h₀
    case isTrue => exact absurd (h₀ ▸ hlt) (lt_irrefl _)
    case isFalse hb =>
      have := select_reversing_eq_zero w (n / 2) (by omega) h₀.symm
      rw [Nat.testBit_zero, decide_eq_true_eq] at hb
      omega

/-- **Numbers of so many digits are told apart by what they select of the powers of two.** -/
theorem select_reversing_injective (w : ℕ) {m n : ℕ} (hm : m < 2 ^ w) (hn : n < 2 ^ w)
    (h : select (reversing w) m = select (reversing w) n) : m = n := by
  rw [← Nat.xor_eq_zero_iff, ← select_xor] at h
  exact Nat.xor_eq_zero_iff.mp (select_reversing_eq_zero w _ (Nat.xor_lt_two_pow hm hn) h)

/-! ## Stairs -/

/-- The lowest one of the binary digits is at `i`. -/
def LowestOne (i x : ℕ) : Prop := x.testBit i = true ∧ ∀ j < i, x.testBit j = false

theorem lowestOne_iff {i x : ℕ} : LowestOne i x ↔ x % 2 ^ (i + 1) = 2 ^ i := by
  refine ⟨fun h => Nat.eq_of_testBit_eq (fun j => ?_), fun h => ⟨?_, fun j hj => ?_⟩⟩
  · rw [Nat.testBit_mod_two_pow, Nat.testBit_two_pow]
    rcases lt_trichotomy j i with hj | rfl | hj
    · simp [h.2 j hj, hj.ne']
    · simp [h.1]
    · simp [hj.ne, show ¬ j < i + 1 by omega]
  · have := congrArg (fun y => y.testBit i) h
    simpa [Nat.testBit_mod_two_pow, Nat.testBit_two_pow_self] using this
  · have := congrArg (fun y => y.testBit j) h
    simpa [Nat.testBit_mod_two_pow, Nat.testBit_two_pow, hj.ne', show j < i + 1 by omega] using this

theorem LowestOne.xor {i x y : ℕ} (hx : LowestOne i x) (hy : y % 2 ^ (i + 1) = 0) : LowestOne i (x ^^^ y) := by
  rw [lowestOne_iff] at hx ⊢
  rw [Nat.xor_mod_two_pow, hx, hy, Nat.xor_zero]

theorem LowestOne.mod_eq_zero {i j x : ℕ} (h : LowestOne i x) (hj : j ≤ i) : x % 2 ^ j = 0 := by
  refine Nat.eq_of_testBit_eq (fun k => ?_)
  rw [Nat.testBit_mod_two_pow, Nat.zero_testBit]
  by_cases hk : k < j
  · simp [h.2 k (by omega)]
  · simp [hk]

theorem LowestOne.ne_zero {i x : ℕ} (h : LowestOne i x) : x ≠ 0 := by
  rintro rfl
  simpa using h.1

theorem lowestOne_shiftLeft {m : ℕ} (h : m % 2 = 1) (i : ℕ) : LowestOne i (m <<< i) := by
  refine ⟨by simp [Nat.testBit_shiftLeft, Nat.testBit_zero, h], fun j hj => ?_⟩
  simp [Nat.testBit_shiftLeft, hj]

theorem LowestOne.shiftRight {i k x : ℕ} (h : LowestOne (i + k) x) : LowestOne i (x >>> k) :=
  ⟨by rw [Nat.testBit_shiftRight, Nat.add_comm, h.1], fun j hj => by
    rw [Nat.testBit_shiftRight]
    exact h.2 _ (by omega)⟩

/-- Numbers whose lowest ones go down the digits below `w`, from the highest one on. -/
def Stairs : ℕ → List ℕ → Prop
  | _, []          => True
  | 0, _ :: _      => False
  | w + 1, d :: ds => LowestOne w d ∧ Stairs w ds

theorem stairs_of_getD : ∀ (w : ℕ) (ds : List ℕ), ds.length ≤ w → (∀ l < ds.length, LowestOne (w - 1 - l) (ds.getD l 0)) →
    Stairs w ds
  | 0, [], _, _          => trivial
  | _ + 1, [], _, _      => trivial
  | 0, _ :: _, h, _      => absurd h (by simp)
  | w + 1, d :: ds, h, hd => by
    refine ⟨by simpa using hd 0 (by simp), stairs_of_getD w ds (by simpa using h) (fun l hl => ?_)⟩
    have := hd (l + 1) (by simpa using hl)
    rwa [List.getD_cons_succ, show w + 1 - 1 - (l + 1) = w - 1 - l by omega] at this

theorem stairs_length : ∀ (w : ℕ) (ds : List ℕ), Stairs w ds → ds.length ≤ w
  | _, [], _           => Nat.zero_le _
  | 0, _ :: _, hs      => hs.elim
  | w + 1, _ :: ds, hs => Nat.succ_le_succ (stairs_length w ds hs.2)

/-- **What a number selects of stairs has its lowest one as far down as the number has its highest.** -/
theorem lowestOne_select : ∀ (w : ℕ) (ds : List ℕ) (n : ℕ), Stairs w ds → n ≠ 0 → n < 2 ^ ds.length →
    LowestOne (w - 1 - Nat.log2 n) (select ds n)
  | _, [], n, _, h₀, hn          => absurd hn (by simpa using h₀)
  | 0, _ :: _, _, hs, _, _       => hs.elim
  | w + 1, d :: ds, n, hs, h₀, hn => by
    rw [List.length_cons, pow_succ] at hn
    rw [select]
    by_cases hhalf : n / 2 = 0
    · obtain rfl : n = 1 := by omega
      simpa [select_zero, show Nat.log2 1 = 0 by decide] using hs.1
    · have ih := lowestOne_select w ds (n / 2) hs.2 hhalf (by omega)
      have hlog : Nat.log2 n = Nat.log2 (n / 2) + 1 := by
        rw [Nat.log2_def, if_pos (by omega)]
      have hlt : Nat.log2 (n / 2) < ds.length := (Nat.log2_lt hhalf).mpr (by omega)
      rw [hlog, show w + 1 - 1 - (Nat.log2 (n / 2) + 1) = w - 1 - Nat.log2 (n / 2) by omega, Nat.xor_comm]
      apply ih.xor
      split
      · refine hs.1.mod_eq_zero ?_
        have : ds.length ≤ w := stairs_length w ds hs.2
        omega
      · exact Nat.zero_mod _

theorem select_lt {w : ℕ} : ∀ {ds : List ℕ}, (∀ d ∈ ds, d < 2 ^ w) → ∀ n, select ds n < 2 ^ w
  | [], _, _      => Nat.two_pow_pos w
  | d :: ds, h, n => by
    refine Nat.xor_lt_two_pow ?_ (select_lt (fun e he => h e (List.mem_cons_of_mem _ he)) _)
    split
    · exact h d List.mem_cons_self
    · exact Nat.two_pow_pos w

/-- A list without repetitions, as long as one that holds its members, is a permutation of that one. -/
theorem perm_of_subset {α : Type} {l₁ l₂ : List α} (hd : l₁.Nodup) (hs : l₁ ⊆ l₂) (hl : l₂.length ≤ l₁.length) :
    l₁.Perm l₂ := (List.subperm_of_subset hd hs).perm_of_length_le hl

section
variable {w : ℕ} {ds : List ℕ}

theorem select_ne_zero (hs : Stairs w ds) {n : ℕ} (h₀ : n ≠ 0) (hn : n < 2 ^ ds.length) : select ds n ≠ 0 :=
  (lowestOne_select w ds n hs h₀ hn).ne_zero

theorem select_injOn (hs : Stairs w ds) {a b : ℕ} (ha : a < 2 ^ ds.length) (hb : b < 2 ^ ds.length)
    (h : select ds a = select ds b) : a = b := by
  by_contra hne
  rw [← Nat.xor_eq_zero_iff, ← select_xor] at h
  exact select_ne_zero hs (fun h => hne (Nat.xor_eq_zero_iff.mp h)) (Nat.xor_lt_two_pow ha hb) h

/-- **Below a power of two, stairs select every multiple of the complementary power, each once.** -/
theorem select_perm (hs : Stairs w ds) (hlt : ∀ d ∈ ds, d < 2 ^ w) {m : ℕ} (hm : m ≤ ds.length) :
    ((List.range (2 ^ m)).map (select ds)).Perm ((List.range (2 ^ m)).map (· * 2 ^ (w - m))) := by
  have hpow : 2 ^ m ≤ 2 ^ ds.length := Nat.pow_le_pow_right (by decide) hm
  have hw := stairs_length w ds hs
  refine perm_of_subset (List.Nodup.map_on (fun a ha b hb h => ?_) List.nodup_range) (fun x hx => ?_) (by simp)
  · rw [List.mem_range] at ha hb
    exact select_injOn hs (ha.trans_le hpow) (hb.trans_le hpow) h
  · obtain ⟨n, hn, rfl⟩ := List.mem_map.mp hx
    rw [List.mem_range] at hn
    have hdvd : select ds n % 2 ^ (w - m) = 0 := by
      by_cases h₀ : n = 0
      · rw [h₀, select_zero, Nat.zero_mod]
      · refine (lowestOne_select w ds n hs h₀ (hn.trans_le hpow)).mod_eq_zero ?_
        have : Nat.log2 n < m := (Nat.log2_lt h₀).mpr hn
        omega
    refine List.mem_map.mpr ⟨select ds n / 2 ^ (w - m), List.mem_range.mpr ?_, Nat.div_mul_cancel (Nat.dvd_of_mod_eq_zero hdvd)⟩
    rw [Nat.div_lt_iff_lt_mul (Nat.two_pow_pos _), ← pow_add, Nat.add_sub_cancel' (hm.trans hw)]
    exact select_lt hlt n

/-- The Gray codes below a power of two are the numbers below it. -/
theorem gray_perm (m : ℕ) : ((List.range (2 ^ m)).map gray).Perm (List.range (2 ^ m)) := by
  refine perm_of_subset (List.nodup_range.map gray_injective) (fun x hx => ?_) (by simp)
  obtain ⟨n, hn, rfl⟩ := List.mem_map.mp hx
  exact List.mem_range.mpr (gray_lt (List.mem_range.mp hn))

end

end Gray
