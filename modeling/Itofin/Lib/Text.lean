import Mathlib.Algebra.Order.Ring.Int
import Mathlib.Data.List.Basic
import Mathlib.Tactic.Common
import Mathlib.Tactic.Ring
/-!
# Text — positions in UTF-8 text, and decimal integers

A text is a list of characters, and a position in it counts the bytes before.  A slice whose ends are not between two
characters does not exist; the ones that searches find are (`slice_append`, `find_append`).  Decimal integers are read
with a check of the range at every digit, which is the range of the whole (`parseInt_eq_some_iff`).
-/
namespace Text

variable {a b c s : List Char} {p : Char → Bool} {x : Char} {n : ℕ}

def asBytes (s : List Char) : List UInt8 := s.flatMap String.utf8EncodeChar

def size : List Char → ℕ
  | []     => 0
  | x :: s => x.utf8Size + size s

/-- The position of the first character that meets the condition. -/
def find (p : Char → Bool) : List Char → Option ℕ
  | []     => none
  | x :: s => if p x then some 0 else (find p s).map (· + x.utf8Size)

/-- `s[start..]` -/
def after : List Char → ℕ → Option (List Char)
  | s, 0          => some s
  | [], _ + 1     => none
  | x :: s, n + 1 => if x.utf8Size ≤ n + 1 then after s (n + 1 - x.utf8Size) else none

/-- `s[..stop]` -/
def before : List Char → ℕ → Option (List Char)
  | _, 0          => some []
  | [], _ + 1     => none
  | x :: s, n + 1 => if x.utf8Size ≤ n + 1 then (before s (n + 1 - x.utf8Size)).map (x :: ·) else none

/-- `s[start..stop]` -/
def slice (s : List Char) (start stop : ℕ) : Option (List Char) :=
  if start ≤ stop then (after s start).bind (fun s => before s (stop - start)) else none

/-- The characters with their positions, from a position on. -/
def charIndices : ℕ → List Char → List (ℕ × Char)
  | _, []     => []
  | n, x :: s => (n, x) :: charIndices (n + x.utf8Size) s

/-! ## Positions -/

@[simp] theorem size_nil : size [] = 0 := rfl

@[simp] theorem size_cons (x : Char) (s : List Char) : size (x :: s) = x.utf8Size + size s := rfl

@[simp] theorem size_append : ∀ a b : List Char, size (a ++ b) = size a + size b
  | [], b     => (Nat.zero_add _).symm
  | x :: a, b => by rw [List.cons_append, size_cons, size_cons, size_append a b, Nat.add_assoc]

theorem asBytes_length : ∀ s : List Char, (asBytes s).length = size s
  | []     => rfl
  | x :: s => by
    rw [asBytes, List.flatMap_cons, List.length_append, String.length_utf8EncodeChar, ← asBytes, asBytes_length s,
      size_cons]

theorem size_eq_zero : size s = 0 ↔ s = [] := by
  cases s with
  | nil      => exact iff_of_true rfl rfl
  | cons x s =>
    have := x.utf8Size_pos
    exact iff_of_false (by rw [size_cons]; omega) (List.cons_ne_nil x s)

theorem find_eq_none : find p s = none ↔ ∀ x ∈ s, p x = false := by
  induction s with
  | nil         => exact iff_of_true rfl (fun _ h => absurd h List.not_mem_nil)
  | cons x s ih =>
    rw [find, List.forall_mem_cons, ← ih]
    cases p x with
    | true  => exact iff_of_false (Option.some_ne_none 0) (fun h => Bool.noConfusion h.1)
    | false => simp only [Bool.false_eq_true, if_false, Option.map_eq_none_iff, true_and]

theorem find_append (ha : ∀ y ∈ a, p y = false) (hx : p x = true) : find p (a ++ x :: b) = some (size a) := by
  induction a with
  | nil         => exact if_pos hx
  | cons y a ih =>
    rw [List.cons_append, find, ha y List.mem_cons_self, ih (fun z hz => ha z (List.mem_cons_of_mem y hz))]
    rw [if_neg (by decide), Option.map_some, size_cons, Nat.add_comm]

theorem after_zero (s : List Char) : after s 0 = some s := by cases s <;> rfl

theorem before_zero (s : List Char) : before s 0 = some [] := by cases s <;> rfl

theorem after_append : ∀ a b : List Char, after (a ++ b) (size a) = some b
  | [], b     => after_zero b
  | x :: a, b => by
    have := x.utf8Size_pos
    obtain ⟨m, hm⟩ : ∃ m, x.utf8Size = m + 1 := ⟨x.utf8Size - 1, by omega⟩
    rw [List.cons_append, size_cons, hm, show m + 1 + size a = m + size a + 1 by omega, after, hm, if_pos (by omega),
      show m + size a + 1 - (m + 1) = size a by omega, after_append a b]

theorem before_append : ∀ a b : List Char, before (a ++ b) (size a) = some a
  | [], b     => before_zero b
  | x :: a, b => by
    have := x.utf8Size_pos
    obtain ⟨m, hm⟩ : ∃ m, x.utf8Size = m + 1 := ⟨x.utf8Size - 1, by omega⟩
    rw [List.cons_append, size_cons, hm, show m + 1 + size a = m + size a + 1 by omega, before, hm, if_pos (by omega),
      show m + size a + 1 - (m + 1) = size a by omega, before_append a b, Option.map_some]

/-- **A slice between characters exists.** -/
theorem slice_append (a b c : List Char) : slice (a ++ b ++ c) (size a) (size a + size b) = some b := by
  rw [slice, if_pos (Nat.le_add_right _ _), List.append_assoc, after_append, Option.bind_some, Nat.add_sub_cancel_left,
    before_append]

/-! ## Bytes -/

theorem encode_of_ascii (h : x.toNat < 128) : String.utf8EncodeChar x = [UInt8.ofNat x.toNat] :=
  if_pos (Nat.le_of_lt_succ h)

theorem ascii_of_mem_encode {v : UInt8} (h : v ∈ String.utf8EncodeChar x) (hv : v.toNat < 128) :
    x.toNat < 128 ∧ v = UInt8.ofNat x.toNat := by
  by_cases hx : x.toNat < 128
  · rw [encode_of_ascii hx, List.mem_singleton] at h
    exact ⟨hx, h⟩
  exfalso
  have high : ∀ m, 128 ≤ m % 256 → v = UInt8.ofNat m → False := fun m hm he => by
    rw [he, UInt8.toNat_ofNat'] at hv
    omega
  have hx' : ¬ x.val.toNat ≤ 127 := fun h => hx (Nat.lt_succ_of_le h)
  unfold String.utf8EncodeChar at h
  dsimp only at h
  rw [if_neg hx'] at h
  split at h
  · rcases h with _ | ⟨_, _ | ⟨_, h⟩⟩
    · exact high _ (by omega) rfl
    · exact high _ (by omega) rfl
    · cases h
  split at h
  · rcases h with _ | ⟨_, _ | ⟨_, _ | ⟨_, h⟩⟩⟩
    · exact high _ (by omega) rfl
    · exact high _ (by omega) rfl
    · exact high _ (by omega) rfl
    · cases h
  · rcases h with _ | ⟨_, _ | ⟨_, _ | ⟨_, _ | ⟨_, h⟩⟩⟩⟩
    · exact high _ (by omega) rfl
    · exact high _ (by omega) rfl
    · exact high _ (by omega) rfl
    · exact high _ (by omega) rfl
    · cases h

theorem asBytes_append (a b : List Char) : asBytes (a ++ b) = asBytes a ++ asBytes b := List.flatMap_append

theorem asBytes_ascii (hx : x.toNat < 128) : (asBytes (a ++ x :: b))[size a]? = some (UInt8.ofNat x.toNat) := by
  rw [asBytes_append, List.getElem?_append_right (by rw [asBytes_length]), asBytes_length, Nat.sub_self, asBytes,
    List.flatMap_cons, encode_of_ascii hx]
  rfl

/-- **An ASCII byte is a character**, with texts before and after it. -/
theorem ascii_of_asBytes {v : UInt8} (hv : v.toNat < 128) : ∀ {s : List Char} {n : ℕ}, (asBytes s)[n]? = some v →
    ∃ a x b, s = a ++ x :: b ∧ size a = n ∧ x.toNat < 128 ∧ v = UInt8.ofNat x.toNat
  | [], _, h    => absurd h.symm (Option.some_ne_none v)
  | x :: s, n, h => by
    rw [asBytes, List.flatMap_cons] at h
    by_cases hn : n < x.utf8Size
    · rw [List.getElem?_append_left (by rwa [String.length_utf8EncodeChar])] at h
      obtain ⟨hx, hv'⟩ := ascii_of_mem_encode (List.mem_of_getElem? h) hv
      have hlen := String.length_utf8EncodeChar x
      rw [encode_of_ascii hx, List.length_singleton] at hlen
      exact ⟨[], x, s, rfl, by rw [size_nil]; omega, hx, hv'⟩
    · rw [List.getElem?_append_right (by rw [String.length_utf8EncodeChar]; omega), String.length_utf8EncodeChar] at h
      obtain ⟨a, y, b, rfl, hsize, hy⟩ := ascii_of_asBytes hv h
      exact ⟨x :: a, y, b, rfl, by rw [size_cons]; omega, hy⟩

/-! ## Decimal integers -/

def value (ds : List Char) : ℕ := Nat.ofDigitChars 10 ds 0

/-- `from_str` of a machine integer, after the sign: every multiplication and every addition is checked. -/
def accumulate (lo hi sign : ℤ) : ℤ → List Char → Option ℤ
  | n, []     => some n
  | n, x :: s =>
    let next := n * 10 + sign * (x.toNat - 48)
    if x.isDigit ∧ (lo ≤ n * 10 ∧ n * 10 ≤ hi) ∧ lo ≤ next ∧ next ≤ hi then accumulate lo hi sign next s else none

/-- `from_str` of a machine integer between the bounds. -/
def parseInt (lo hi : ℤ) : List Char → Option ℤ
  | []       => none
  | '+' :: s => if s = [] then none else accumulate lo hi 1 0 s
  | '-' :: s => if s = [] then none else accumulate lo hi (-1) 0 s
  | s        => accumulate lo hi 1 0 s

/-- Decimal digits, at least one. -/
def IsNumeral (ds : List Char) : Prop := ds ≠ [] ∧ ∀ x ∈ ds, x.isDigit = true

/-- **An integer**: an optional sign and digits. -/
inductive IsInteger : List Char → ℤ → Prop
  | plain {ds} (h : IsNumeral ds) : IsInteger ds (value ds)
  | plus {ds} (h : IsNumeral ds) : IsInteger ('+' :: ds) (value ds)
  | minus {ds} (h : IsNumeral ds) : IsInteger ('-' :: ds) (-value ds)

/-- `{}` of an integer. -/
def display : ℤ → List Char
  | .ofNat n   => Nat.toDigits 10 n
  | .negSucc n => '-' :: Nat.toDigits 10 (n + 1)

/-- `{:0width}` of an integer: zeros between the sign and the digits. -/
def displayPadded (width : ℕ) : ℤ → List Char
  | .ofNat n   => List.replicate (width - (Nat.toDigits 10 n).length) '0' ++ Nat.toDigits 10 n
  | .negSucc n =>
    '-' :: (List.replicate (width - 1 - (Nat.toDigits 10 (n + 1)).length) '0' ++ Nat.toDigits 10 (n + 1))

theorem isDigit_bounds {x : Char} (h : x.isDigit = true) : 48 ≤ x.toNat ∧ x.toNat ≤ 57 := by
  rw [Char.isDigit, Bool.and_eq_true, decide_eq_true_eq, decide_eq_true_eq] at h
  exact ⟨UInt32.le_iff_toNat_le.mp h.1, UInt32.le_iff_toNat_le.mp h.2⟩

theorem le_ofDigitChars : ∀ (s : List Char) (m : ℕ), m ≤ Nat.ofDigitChars 10 s m
  | [], m     => by rw [Nat.ofDigitChars_nil]
  | x :: s, m => by
    rw [Nat.ofDigitChars_cons]
    have := le_ofDigitChars s (10 * m + (x.toNat - '0'.toNat))
    omega

theorem accumulate_eq_some_iff {lo hi sign k : ℤ} (hlo : lo ≤ 0) (hhi : 0 ≤ hi) (hsign : sign = 1 ∨ sign = -1) :
    ∀ (s : List Char) (m : ℕ), lo ≤ sign * m ∧ sign * m ≤ hi → (accumulate lo hi sign (sign * m) s = some k ↔
      (∀ x ∈ s, x.isDigit = true) ∧ k = sign * Nat.ofDigitChars 10 s m ∧ lo ≤ k ∧ k ≤ hi)
  | [], m, hm     => by
    rw [accumulate, Nat.ofDigitChars_nil, Option.some.injEq]
    refine ⟨?_, fun h => h.2.1.symm⟩
    rintro rfl
    exact ⟨fun _ h => absurd h List.not_mem_nil, rfl, hm⟩
  | x :: s, m, hm => by
    rw [accumulate, List.forall_mem_cons, Nat.ofDigitChars_cons]
    by_cases hx : x.isDigit = true
    · obtain ⟨h₁, h₂⟩ := isDigit_bounds hx
      have hnext : sign * (m : ℤ) * 10 + sign * ((x.toNat : ℤ) - 48) =
          sign * ((10 * m + (x.toNat - '0'.toNat) : ℕ) : ℤ) := by
        rw [show '0'.toNat = 48 from rfl, Nat.cast_add, Nat.cast_mul, Nat.cast_sub h₁]
        rcases hsign with rfl | rfl <;> push_cast <;> omega
      have hle := le_ofDigitChars s (10 * m + (x.toNat - '0'.toNat))
      rw [hnext]
      split
      · rename_i h
        rw [accumulate_eq_some_iff hlo hhi hsign s _ h.2.2]
        exact ⟨fun h => ⟨⟨hx, h.1⟩, h.2⟩, fun h => ⟨h.1.2, h.2⟩⟩
      · rename_i h
        refine iff_of_false (fun h => absurd h.symm (Option.some_ne_none k)) (fun ⟨_, hk, hk'⟩ => h ⟨hx, ?_⟩)
        rcases hsign with rfl | rfl <;> omega
    · rw [if_neg (fun h => hx h.1)]
      exact iff_of_false (fun h => absurd h.symm (Option.some_ne_none k)) (fun h => hx h.1.1)

/-- **What is read are the integers in the range.** -/
theorem parseInt_eq_some_iff {lo hi k : ℤ} (hlo : lo ≤ 0) (hhi : 0 ≤ hi) :
    parseInt lo hi s = some k ↔ IsInteger s k ∧ lo ≤ k ∧ k ≤ hi := by
  have plain : ∀ s, accumulate lo hi 1 0 s = some k ↔
      (∀ x ∈ s, x.isDigit = true) ∧ k = value s ∧ lo ≤ k ∧ k ≤ hi := fun s => by
    have := accumulate_eq_some_iff (k := k) hlo hhi (.inl rfl) s 0 (by omega)
    rwa [Nat.cast_zero, mul_zero, one_mul] at this
  have minus : ∀ s, accumulate lo hi (-1) 0 s = some k ↔
      (∀ x ∈ s, x.isDigit = true) ∧ k = -value s ∧ lo ≤ k ∧ k ≤ hi := fun s => by
    have := accumulate_eq_some_iff (k := k) hlo hhi (.inr rfl) s 0 (by omega)
    rwa [Nat.cast_zero, mul_zero, neg_one_mul] at this
  have sign_not_digit : ¬ ('+').isDigit = true ∧ ¬ ('-').isDigit = true := by decide
  constructor
  · intro h
    unfold parseInt at h
    split at h
    · cases h
    · split at h
      · cases h
      · rename_i hs
        obtain ⟨hd, rfl, hr⟩ := (plain _).mp h
        exact ⟨.plus ⟨hs, hd⟩, hr⟩
    · split at h
      · cases h
      · rename_i hs
        obtain ⟨hd, rfl, hr⟩ := (minus _).mp h
        exact ⟨.minus ⟨hs, hd⟩, hr⟩
    · rename_i hs _ _
      obtain ⟨hd, rfl, hr⟩ := (plain _).mp h
      exact ⟨.plain ⟨hs, hd⟩, hr⟩
  · rintro ⟨hs, hr⟩
    cases hs with
    | plain h =>
      unfold parseInt
      split
      · exact absurd rfl h.1
      · exact absurd (h.2 _ List.mem_cons_self) sign_not_digit.1
      · exact absurd (h.2 _ List.mem_cons_self) sign_not_digit.2
      · exact (plain _).mpr ⟨h.2, rfl, hr⟩
    | plus h  => exact (if_neg h.1).trans ((plain _).mpr ⟨h.2, rfl, hr⟩)
    | minus h => exact (if_neg h.1).trans ((minus _).mpr ⟨h.2, rfl, hr⟩)

instance : DecidablePred IsNumeral := fun _ => inferInstanceAs (Decidable (_ ∧ _))

def integer : List Char → Option ℤ
  | '+' :: s => if IsNumeral s then some (value s) else none
  | '-' :: s => if IsNumeral s then some (-value s) else none
  | s        => if IsNumeral s then some (value s) else none

theorem integer_eq_some_iff {k : ℤ} : integer s = some k ↔ IsInteger s k := by
  constructor
  · intro h
    unfold integer at h
    split at h <;> split at h <;> cases h
    · exact .plus ‹_›
    · exact .minus ‹_›
    · exact .plain ‹_›
  · intro h
    cases h with
    | plain h =>
      have sign_not_digit : ¬ ('+').isDigit = true ∧ ¬ ('-').isDigit = true := by decide
      unfold integer
      split
      · exact absurd (h.2 _ List.mem_cons_self) sign_not_digit.1
      · exact absurd (h.2 _ List.mem_cons_self) sign_not_digit.2
      · exact if_pos h
    | plus h  => exact if_pos h
    | minus h => exact if_pos h

theorem IsInteger.cons {k : ℤ} (h : IsInteger s k) : ∃ x ds, s = x :: ds ∧ (x = '-' ∨ x = '+' ∨ x.isDigit = true) ∧
    ∀ y ∈ ds, y.isDigit = true := by
  cases h with
  | plain h =>
    obtain ⟨x, ds, rfl⟩ := List.exists_cons_of_ne_nil h.1
    exact ⟨x, ds, rfl, .inr (.inr (h.2 x List.mem_cons_self)), fun y hy => h.2 y (List.mem_cons_of_mem x hy)⟩
  | plus h  => exact ⟨_, _, rfl, .inr (.inl rfl), h.2⟩
  | minus h => exact ⟨_, _, rfl, .inl rfl, h.2⟩

theorem isNumeral_toDigits (n : ℕ) : IsNumeral (Nat.toDigits 10 n) :=
  ⟨Nat.toDigits_ne_nil, fun _ h => Nat.isDigit_of_mem_toDigits (by decide) (by decide) h⟩

theorem isInteger_display : ∀ n : ℤ, IsInteger (display n) n
  | .ofNat n   => by
    have := IsInteger.plain (isNumeral_toDigits n)
    rwa [value, Nat.ofDigitChars_ten_toDigits] at this
  | .negSucc n => by
    have := IsInteger.minus (isNumeral_toDigits (n + 1))
    rwa [value, Nat.ofDigitChars_ten_toDigits] at this

theorem ofDigitChars_lt : ∀ (ds : List Char) (m : ℕ), (∀ x ∈ ds, x.isDigit = true) →
    Nat.ofDigitChars 10 ds m < (m + 1) * 10 ^ ds.length
  | [], m, _      => by rw [Nat.ofDigitChars_nil, List.length_nil]; omega
  | x :: ds, m, h => by
    have hx := isDigit_bounds (h x List.mem_cons_self)
    have ih := ofDigitChars_lt ds (10 * m + (x.toNat - '0'.toNat)) (fun y hy => h y (List.mem_cons_of_mem x hy))
    rw [Nat.ofDigitChars_cons, List.length_cons, Nat.pow_succ]
    apply ih.trans_le
    rw [show (m + 1) * (10 ^ ds.length * 10) = (m + 1) * 10 * 10 ^ ds.length by ring]
    apply Nat.mul_le_mul_right _
    rw [show '0'.toNat = 48 from rfl]
    omega

theorem value_lt {ds : List Char} (h : IsNumeral ds) : value ds < 10 ^ ds.length := by
  have := ofDigitChars_lt ds 0 h.2
  rwa [Nat.zero_add, one_mul] at this

theorem size_eq_length : ∀ {s : List Char}, (∀ x ∈ s, x.toNat < 128) → size s = s.length
  | [], _     => rfl
  | x :: s, h => by
    have hlen := String.length_utf8EncodeChar x
    rw [encode_of_ascii (h x List.mem_cons_self), List.length_singleton] at hlen
    rw [size_cons, ← hlen, size_eq_length (fun y hy => h y (List.mem_cons_of_mem x hy)), List.length_cons, Nat.add_comm]

theorem IsNumeral.size {ds : List Char} (h : IsNumeral ds) : size ds = ds.length :=
  size_eq_length (fun x hx => by have := isDigit_bounds (h.2 x hx); omega)

/-- Padded with zeros, a natural number is a numeral of that length. -/
theorem displayPadded_spec (width n : ℕ) (hw : 0 < width) (hn : n < 10 ^ width) :
    IsNumeral (displayPadded width n) ∧ (displayPadded width n).length = width ∧ value (displayPadded width n) = n := by
  obtain ⟨hne, hdigits⟩ := isNumeral_toDigits n
  have hlen := (Nat.length_toDigits_le_iff (n := n) (b := 10) (by decide) hw).mpr hn
  change IsNumeral (List.replicate _ '0' ++ _) ∧ (List.replicate _ '0' ++ _).length = _ ∧
    value (List.replicate _ '0' ++ _) = _
  refine ⟨⟨List.append_ne_nil_of_right_ne_nil _ hne, List.forall_mem_append.mpr ⟨fun x hx => ?_, hdigits⟩⟩, ?_, ?_⟩
  · rw [List.eq_of_mem_replicate hx]
    rfl
  · rw [List.length_append, List.length_replicate]
    omega
  · rw [value, Nat.ofDigitChars_append, Nat.ofDigitChars_replicate_zero, Nat.mul_zero, Nat.ofDigitChars_ten_toDigits]

end Text
