import Itofin.Lib.Lagged
import Mathlib.Algebra.Order.Field.Rat
import Mathlib.Data.Nat.Bitwise
import Mathlib.Tactic.Positivity
import Mathlib.Algebra.Order.Field.Basic
/-!
# Ranlux — subtraction with borrow

`ranluxuniformrng.rs`: a generator of 48-bit words with lags of 10 and 24, of whose blocks only a part is used.  The
operations on machine words are checked, and there is no result where one overflows.  The ring holds the last words of the
recurrence (`At`), before and after every word and every draw (`next_spec`, `nextU48_spec`).
-/
namespace Itofin

/-- An unsigned word of 64 bits, unless it overflows. -/
def checkedU64 (n : ℕ) : Option ℕ := if n < 2 ^ 64 then some n else none

def checkedSubU64 (a b : ℕ) : Option ℕ := if b ≤ a then some (a - b) else none

/-- A signed word of 64 bits, unless it overflows. -/
def checkedI64 (z : ℤ) : Option ℤ := if -2 ^ 63 ≤ z ∧ z < 2 ^ 63 then some z else none

/-- `as i64` -/
def asI64 (n : ℕ) : ℤ := if n < 2 ^ 63 then n else n - 2 ^ 64

/-- `as u64` -/
def asU64 (z : ℤ) : ℕ := (z % 2 ^ 64).toNat

namespace Ranlux

def wordBits : ℕ := 48
def shortLag : ℕ := 10
def longLag : ℕ := 24
def wordMask : ℕ := 2 ^ wordBits - 1

structure SubtractWithCarry48 where
  x : List ℕ
  carry : ℕ
  k : ℕ

namespace SubtractWithCarry48

def nextLcg (lcg : ℕ) : Option ℕ := do
  let product ← checkedU64 (40014 * lcg)
  return product % 2147483563

/-- The words of the seed; no bit is shifted out of `hi << 32`. -/
def seedWords : ℕ → ℕ → Option (List ℕ)
  | 0, _            => some []
  | words + 1, lcg => do
    let lo ← nextLcg lcg
    let hi ← nextLcg lo
    let shifted ← checkedU64 (hi * 2 ^ 32)
    let word ← checkedU64 (lo + shifted)
    let rest ← seedWords words hi
    return (word &&& wordMask) :: rest

def new (seed : ℕ) : Option SubtractWithCarry48 := do
  let seed := if seed = 0 then 19780503 else seed
  let x ← seedWords longLag (max (seed % 2147483563) 1)
  let last ← x[longLag - 1]?
  return ⟨x, if last = 0 then 1 else 0, 0⟩

/-- The word of a difference, and the carry of the next. -/
def borrowed (y : ℤ) : Option (ℤ × ℕ) :=
  if y < 0 then (checkedI64 (y + 2 ^ wordBits)).map (·, 1) else some (y, 0)

def next (self : SubtractWithCarry48) : Option (ℕ × SubtractWithCarry48) := do
  let shortIndex ← checkedSubU64 (← checkedU64 (self.k + longLag)) shortLag
  let short ← self.x[shortIndex % longLag]?
  let long ← self.x[self.k]?
  let y ← checkedI64 (asI64 short - asI64 long)
  let y ← checkedI64 (y - asI64 self.carry)
  let (y, carry) ← borrowed y
  let y := asU64 y
  let k ← checkedU64 (self.k + 1)
  return (y, ⟨self.x.set self.k y, carry, k % longLag⟩)

/-- So many words that are not used. -/
def skip : ℕ → SubtractWithCarry48 → Option SubtractWithCarry48
  | 0, self     => some self
  | n + 1, self => do
    let (_, self) ← self.next
    skip n self

end SubtractWithCarry48

/-- `P` words are a block, and `R` of them are used. -/
structure Ranlux64UniformRng where
  base : SubtractWithCarry48
  used : ℕ

namespace Ranlux64UniformRng

variable (P R : ℕ)

def new (seed : ℕ) : Option Ranlux64UniformRng := do
  let base ← SubtractWithCarry48.new seed
  return ⟨base, 0⟩

/-- Of a block that is over, the rest is passed over. -/
def block (self : Ranlux64UniformRng) : Option Ranlux64UniformRng :=
  if R ≤ self.used then do
    let base ← self.base.skip (← checkedSubU64 P R)
    return ⟨base, 0⟩
  else some self

def nextU48 (self : Ranlux64UniformRng) : Option (ℕ × Ranlux64UniformRng) := do
  let self ← self.block P R
  let used ← checkedU64 (self.used + 1)
  let (y, base) ← self.base.next
  return (y, ⟨base, used⟩)

def real (word : ℕ) : ℚ := word * (1 / 2 ^ wordBits)

def nextReal (self : Ranlux64UniformRng) : Option (ℚ × Ranlux64UniformRng) := do
  let (y, self) ← self.nextU48 P R
  return (real y, self)

/-- So many draws. -/
def draws : ℕ → Ranlux64UniformRng → Option (List ℚ × Ranlux64UniformRng)
  | 0, self     => some ([], self)
  | n + 1, self => do
    let (y, self) ← self.nextReal P R
    let (rest, self) ← draws n self
    return (y :: rest, self)

end Ranlux64UniformRng

/-! ## The recurrence -/

open Lagged

/-- The next word of the last ones and the carry, modulo `2 ^ 48`, and the next carry. -/
def borrow (word : ℕ → ℕ) (carry : ℕ) : ℕ × ℕ :=
  let y : ℤ := word (longLag - shortLag) - word 0 - carry
  ((y % 2 ^ wordBits).toNat, if y < 0 then 1 else 0)

/-- Words of 48 bits, and a carry of one bit. -/
structure InRange (r : Register ℕ ℕ) : Prop where
  term : ∀ i, i < longLag → r.term i < 2 ^ wordBits
  carry : r.carry = 0 ∨ r.carry = 1

theorem borrow_lt (word : ℕ → ℕ) (carry : ℕ) : (borrow word carry).1 < 2 ^ wordBits := by
  unfold borrow wordBits
  dsimp only
  omega

theorem borrow_fst (word : ℕ → ℕ) (carry : ℕ) :
    ((borrow word carry).1 : ℤ) = ((word (longLag - shortLag) : ℤ) - word 0 - carry) % 2 ^ wordBits :=
  Int.toNat_of_nonneg (Int.emod_nonneg _ (by decide))

theorem InRange.shift {r : Register ℕ ℕ} (h : InRange r) : InRange (shift longLag borrow r) := by
  refine ⟨fun i hi => ?_, ?_⟩
  · unfold Lagged.shift
    dsimp only
    split_ifs with hlast
    · exact h.term _ hlast
    · exact borrow_lt _ _
  · unfold Lagged.shift borrow
    dsimp only
    split_ifs
    · exact .inr rfl
    · exact .inl rfl

theorem InRange.after {r : Register ℕ ℕ} (h : InRange r) : ∀ n, InRange (after longLag borrow r n)
  | 0     => h
  | n + 1 => (h.after n).shift

/-! ## The machine words -/

theorem checkedU64_eq {n : ℕ} (h : n < 2 ^ 64) : checkedU64 n = some n := if_pos h

theorem checkedSubU64_eq {a b : ℕ} (h : b ≤ a) : checkedSubU64 a b = some (a - b) := if_pos h

theorem checkedI64_eq {z : ℤ} (h : -2 ^ 63 ≤ z ∧ z < 2 ^ 63) : checkedI64 z = some z := if_pos h

theorem asI64_eq {n : ℕ} (h : n < 2 ^ 63) : asI64 n = n := if_pos h

theorem asU64_eq {z : ℤ} (h : 0 ≤ z ∧ z < 2 ^ 64) : asU64 z = z.toNat := by
  unfold asU64
  rw [Int.emod_eq_of_lt h.1 h.2]

variable {base : SubtractWithCarry48} {r : Register ℕ ℕ} {t n P R : ℕ}

/-- The generator holds the register, after so many words. -/
structure At (r : Register ℕ ℕ) (t : ℕ) (base : SubtractWithCarry48) : Prop where
  holds : Holds longLag base.x base.k (after longLag borrow r t)
  carry : base.carry = (after longLag borrow r t).carry

theorem borrow_spec {word : ℕ → ℕ} {carry : ℕ} (hshort : word 14 < 2 ^ 48) (hlong : word 0 < 2 ^ 48) (hcarry : carry ≤ 1) :
    ∃ y, SubtractWithCarry48.borrowed ((word 14 : ℤ) - word 0 - carry) = some (y, (borrow word carry).2) ∧
      asU64 y = (borrow word carry).1 := by
  unfold borrow SubtractWithCarry48.borrowed wordBits
  rw [show longLag - shortLag = 14 from rfl]
  dsimp only
  generalize hy : (word 14 : ℤ) - word 0 - carry = y
  rcases Int.lt_or_le y 0 with hneg | hpos
  · -- one borrow brings the word into range
    refine ⟨y + 2 ^ 48, ?_, ?_⟩
    · rw [if_pos hneg, if_pos hneg, checkedI64_eq (by omega), Option.map_some]
    · rw [asU64_eq (by omega), ← Int.add_emod_right, Int.emod_eq_of_lt (by omega) (by omega)]
  · refine ⟨y, ?_, ?_⟩
    · rw [if_neg (by omega), if_neg (by omega)]
    · rw [asU64_eq (by omega), Int.emod_eq_of_lt (by omega) (by omega)]

/-- **A word**: nothing overflows, and the register goes on. -/
theorem next_spec (hr : InRange r) (h : At r t base) :
    ∃ base', base.next = some (seq longLag borrow r (t + longLag), base') ∧ At r (t + 1) base' := by
  have hrange := hr.after t
  have hk : base.k < 24 := h.holds.lt
  have hshort := h.holds.place 14 (by decide)
  have hlong := h.holds.place 0 (by decide)
  rw [Nat.add_zero, Nat.mod_eq_of_lt h.holds.lt] at hlong
  have hshort_lt : (after longLag borrow r t).term 14 < 2 ^ 48 := hrange.term 14 (by decide)
  have hlong_lt : (after longLag borrow r t).term 0 < 2 ^ 48 := hrange.term 0 (by decide)
  have hcarry : base.carry ≤ 1 := by
    rw [h.carry]
    rcases hrange.carry with h | h <;> omega
  have hindex : checkedU64 (base.k + longLag) = some (base.k + 24) := checkedU64_eq (by unfold longLag; omega)
  have hsub : checkedSubU64 (base.k + 24) shortLag = some (base.k + 14) := checkedSubU64_eq (by unfold shortLag; omega)
  have hnext : checkedU64 (base.k + 1) = some (base.k + 1) := checkedU64_eq (by omega)
  have hdiff : checkedI64 (asI64 ((after longLag borrow r t).term 14) - asI64 ((after longLag borrow r t).term 0)) =
      some (((after longLag borrow r t).term 14 : ℤ) - (after longLag borrow r t).term 0) := by
    rw [asI64_eq (by omega), asI64_eq (by omega), checkedI64_eq (by omega)]
  have hy : checkedI64 (((after longLag borrow r t).term 14 : ℤ) - (after longLag borrow r t).term 0 - asI64 base.carry) =
      some (((after longLag borrow r t).term 14 : ℤ) - (after longLag borrow r t).term 0 - base.carry) := by
    rw [asI64_eq (by omega), checkedI64_eq (by omega)]
  obtain ⟨y, hborrow, hword⟩ := borrow_spec hshort_lt hlong_lt hcarry
  refine ⟨⟨base.x.set base.k (borrow (after longLag borrow r t).term base.carry).1,
    (borrow (after longLag borrow r t).term base.carry).2, (base.k + 1) % longLag⟩, ?_, ?_⟩
  · unfold SubtractWithCarry48.next
    rw [seq_add (by decide), ← h.carry, ← hword]
    simp only [hindex, hsub, hnext, hshort, hlong, hdiff, hy, hborrow, Option.bind_eq_bind, Option.bind_some,
      Option.pure_def]
  · rw [h.carry]
    exact ⟨h.holds.write, rfl⟩

theorem skip_spec (hr : InRange r) : ∀ {n t : ℕ} {base : SubtractWithCarry48}, At r t base →
    ∃ base', base.skip n = some base' ∧ At r (t + n) base'
  | 0, _, base, h         => ⟨base, rfl, h⟩
  | n + 1, t, base, h     => by
    obtain ⟨base₁, hnext, h₁⟩ := next_spec hr h
    obtain ⟨base₂, hskip, h₂⟩ := skip_spec (n := n) hr h₁
    refine ⟨base₂, ?_, by rwa [Nat.add_right_comm, Nat.add_assoc] at h₂⟩
    rw [SubtractWithCarry48.skip, hnext]
    exact hskip

/-! ## The seed -/

theorem nextLcg_spec {lcg : ℕ} (h : lcg < 2147483563) :
    ∃ next, SubtractWithCarry48.nextLcg lcg = some next ∧ next < 2147483563 := by
  refine ⟨40014 * lcg % 2147483563, ?_, Nat.mod_lt _ (by decide)⟩
  unfold SubtractWithCarry48.nextLcg
  rw [checkedU64_eq (by omega), Option.bind_eq_bind, Option.bind_some, Option.pure_def]

theorem and_wordMask_lt (word : ℕ) : word &&& wordMask < 2 ^ wordBits := by
  unfold wordMask
  rw [Nat.and_two_pow_sub_one_eq_mod]
  exact Nat.mod_lt _ (Nat.two_pow_pos _)

theorem seedWords_spec (words : ℕ) {lcg : ℕ} (h : lcg < 2147483563) :
    ∃ x, SubtractWithCarry48.seedWords words lcg = some x ∧ x.length = words ∧ ∀ word ∈ x, word < 2 ^ wordBits := by
  induction words generalizing lcg with
  | zero => exact ⟨[], rfl, rfl, fun _ h => absurd h List.not_mem_nil⟩
  | succ words ih =>
    obtain ⟨lo, hlo, hlo_lt⟩ := nextLcg_spec h
    obtain ⟨hi, hhi, hhi_lt⟩ := nextLcg_spec hlo_lt
    obtain ⟨rest, hrest, hlength, hrest_lt⟩ := ih hhi_lt
    have hshift : checkedU64 (hi * 2 ^ 32) = some (hi * 2 ^ 32) := checkedU64_eq (by omega)
    have hword : checkedU64 (lo + hi * 2 ^ 32) = some (lo + hi * 2 ^ 32) := checkedU64_eq (by omega)
    refine ⟨((lo + hi * 2 ^ 32) &&& wordMask) :: rest, ?_, by rw [List.length_cons, hlength], ?_⟩
    · rw [SubtractWithCarry48.seedWords, hlo, Option.bind_eq_bind, Option.bind_some, hhi, Option.bind_some, hshift,
        Option.bind_some, hword, Option.bind_some, hrest, Option.bind_eq_bind, Option.bind_some, Option.pure_def]
    · intro word hmem
      rcases List.mem_cons.1 hmem with rfl | hmem
      · exact and_wordMask_lt _
      · exact hrest_lt word hmem

/-- The register of a generator that starts. -/
def SubtractWithCarry48.register (base : SubtractWithCarry48) : Register ℕ ℕ := ⟨fun i => base.x.getD i 0, base.carry⟩

theorem new_spec (seed : ℕ) :
    ∃ base, SubtractWithCarry48.new seed = some base ∧ InRange base.register ∧ At base.register 0 base := by
  obtain ⟨x, hx, hlength, hlt⟩ := seedWords_spec longLag
    (show max ((if seed = 0 then 19780503 else seed) % 2147483563) 1 < 2147483563 by omega)
  have hplace : ∀ i, i < longLag → x[i]? = some (x.getD i 0) := by
    intro i hi
    rw [List.getD_eq_getElem?_getD, List.getElem?_eq_getElem (by omega), Option.getD_some]
  refine ⟨⟨x, if x.getD (longLag - 1) 0 = 0 then 1 else 0, 0⟩, ?_, ⟨?_, ?_⟩, ⟨⟨hlength, Nat.zero_lt_succ _, ?_⟩, rfl⟩⟩
  · unfold SubtractWithCarry48.new
    simp only [hx, hplace (longLag - 1) (by decide), Option.bind_eq_bind, Option.bind_some, Option.pure_def]
  · intro i hi
    exact hlt _ (List.mem_of_getElem? (hplace i hi))
  · show (if _ then _ else _) = _ ∨ _
    split_ifs
    · exact .inr rfl
    · exact .inl rfl
  · intro i hi
    rw [Nat.zero_add, Nat.mod_eq_of_lt hi]
    exact hplace i hi

/-! ## Blocks -/

/-- The blocks whose rest is passed over in so many draws. -/
def passed (R n : ℕ) : ℕ := if R = 0 then n else (n - 1) / R

/-- The words of so many draws, with those that are passed over. -/
def wordsDrawn (P R n : ℕ) : ℕ := n + (P - R) * passed R n

/-- Where among the words a draw is. -/
def wordIndex (P R n : ℕ) : ℕ := n + (P - R) * passed R (n + 1) + longLag

def usedAfter (R n : ℕ) : ℕ := if R = 0 then min n 1 else n - R * passed R n

theorem passed_zero (R : ℕ) : passed R 0 = 0 := by
  unfold passed
  split_ifs
  · rfl
  · exact Nat.zero_div R

theorem usedAfter_zero (R : ℕ) : usedAfter R 0 = 0 := by
  unfold usedAfter
  split_ifs
  · rfl
  · exact Nat.zero_sub _

theorem passed_pos {R : ℕ} (hR : 0 < R) (n : ℕ) : passed R n = (n - 1) / R := if_neg (by omega)

theorem usedAfter_pos {R : ℕ} (hR : 0 < R) (n : ℕ) : usedAfter R n = n - R * passed R n := if_neg (by omega)

/-- The words of a block that are used: some, but for the first draw, and no more than `R`. -/
theorem passed_range {R : ℕ} (hR : 0 < R) (n : ℕ) : R * passed R n ≤ n ∧ n - 1 < R * passed R n + R := by
  have hle := Nat.mul_div_le (n - 1) R
  have hlt := Nat.lt_mul_div_succ (n - 1) hR
  rw [Nat.mul_add, Nat.mul_one] at hlt
  rw [passed_pos hR]
  exact ⟨by omega, hlt⟩

/-- A block is over when as many words are used as there are in it. -/
theorem passed_succ (R n : ℕ) : passed R (n + 1) = passed R n + if R ≤ usedAfter R n then 1 else 0 := by
  rcases Nat.eq_zero_or_pos R with rfl | hR
  · rw [if_pos (Nat.zero_le _)]
    rfl
  obtain ⟨hle, hlt⟩ := passed_range hR n
  rw [usedAfter_pos hR, passed_pos hR (n + 1), Nat.add_sub_cancel]
  split_ifs with hused
  · apply Nat.div_eq_of_lt_le
    · rw [Nat.mul_comm, Nat.mul_add, Nat.mul_one]
      omega
    · rw [Nat.mul_comm, Nat.mul_add, Nat.mul_add, Nat.mul_one]
      omega
  · apply Nat.div_eq_of_lt_le
    · rw [Nat.mul_comm]
      exact hle
    · rw [Nat.mul_comm, Nat.add_zero, Nat.mul_add, Nat.mul_one]
      omega

theorem usedAfter_succ (R n : ℕ) : usedAfter R (n + 1) = (if R ≤ usedAfter R n then 0 else usedAfter R n) + 1 := by
  rcases Nat.eq_zero_or_pos R with rfl | hR
  · rw [if_pos (Nat.zero_le _)]
    exact Nat.min_eq_right (Nat.le_add_left 1 n)
  have hpassed := passed_succ R n
  obtain ⟨hle, hlt⟩ := passed_range hR n
  rw [usedAfter_pos hR] at hpassed ⊢
  rw [usedAfter_pos hR, hpassed, Nat.mul_add]
  split_ifs with hused
  · rw [Nat.mul_one]
    omega
  · omega

theorem usedAfter_le (R n : ℕ) : usedAfter R n ≤ max R 1 := by
  rcases Nat.eq_zero_or_pos R with rfl | hR
  · exact Nat.min_le_right n 1
  obtain ⟨-, hlt⟩ := passed_range hR n
  rw [usedAfter_pos hR]
  omega

/-- The generator after so many draws. -/
structure Drawn (P R : ℕ) (r : Register ℕ ℕ) (n : ℕ) (rng : Ranlux64UniformRng) : Prop where
  base : At r (wordsDrawn P R n) rng.base
  used : rng.used = usedAfter R n

namespace Ranlux64UniformRng

variable {rng : Ranlux64UniformRng}

theorem block_spec (hr : InRange r) (hR : R ≤ P) (h : Drawn P R r n rng) :
    ∃ rng', block P R rng = some rng' ∧ At r (n + (P - R) * passed R (n + 1)) rng'.base ∧
      rng'.used + 1 = usedAfter R (n + 1) := by
  have hpassed := passed_succ R n
  have hused := usedAfter_succ R n
  have hbase := h.base
  unfold wordsDrawn at hbase
  rw [← h.used] at hpassed hused
  unfold block
  split_ifs at hpassed hused ⊢
  · obtain ⟨base', hskip, hbase'⟩ := skip_spec (n := P - R) hr hbase
    refine ⟨⟨base', 0⟩, ?_, ?_, hused.symm⟩
    · rw [checkedSubU64_eq hR, Option.bind_eq_bind, Option.bind_some, hskip]
      rfl
    · rw [hpassed, Nat.mul_add, Nat.mul_one, ← Nat.add_assoc]
      exact hbase'
  · refine ⟨rng, rfl, ?_, hused.symm⟩
    rw [hpassed]
    exact hbase

/-- **A draw**: it ends where the words of the recurrence are, and nothing overflows. -/
theorem nextU48_spec (hr : InRange r) (hP : P < 2 ^ 64) (hR : R ≤ P) (h : Drawn P R r n rng) :
    ∃ rng', nextU48 P R rng = some (seq longLag borrow r (wordIndex P R n), rng') ∧ Drawn P R r (n + 1) rng' := by
  obtain ⟨begun, hblock, hbase, hused⟩ := block_spec hr hR h
  obtain ⟨base', hnext, hbase'⟩ := next_spec hr hbase
  rw [Nat.add_right_comm] at hbase'
  refine ⟨⟨base', begun.used + 1⟩, ?_, ⟨hbase', hused⟩⟩
  have hcount : checkedU64 (begun.used + 1) = some (begun.used + 1) := by
    have hle := usedAfter_le R (n + 1)
    apply checkedU64_eq
    omega
  unfold nextU48
  simp only [hblock, hcount, hnext, Option.bind_eq_bind, Option.bind_some, Option.pure_def]
  rfl

/-- **A run**: of any number of draws. -/
theorem draws_spec (hr : InRange r) (hP : P < 2 ^ 64) (hR : R ≤ P) (n : ℕ) {m : ℕ} {rng : Ranlux64UniformRng}
    (h : Drawn P R r m rng) :
    ∃ outputs rng', draws P R n rng = some (outputs, rng') ∧ Drawn P R r (m + n) rng' ∧ outputs.length = n ∧
      ∀ i, i < n → outputs[i]? =
        some (real (seq longLag borrow r (wordIndex P R (m + i)))) := by
  induction n generalizing m rng with
  | zero => exact ⟨[], rng, rfl, h, rfl, fun i hi => absurd hi (Nat.not_lt_zero i)⟩
  | succ n ih =>
    obtain ⟨rng₁, hdraw, h₁⟩ := nextU48_spec hr hP hR h
    obtain ⟨outputs, rng₂, hdraws, h₂, hlength, houtputs⟩ := ih h₁
    rw [Nat.add_right_comm, Nat.add_assoc] at h₂
    have hreal : nextReal P R rng = some (real (seq longLag borrow r (wordIndex P R m)), rng₁) := by
      unfold nextReal
      rw [hdraw, Option.bind_eq_bind, Option.bind_some, Option.pure_def]
    refine ⟨real (seq longLag borrow r (wordIndex P R m)) :: outputs, rng₂, ?_, h₂, ?_, ?_⟩
    · unfold draws
      simp only [hreal, hdraws, Option.bind_eq_bind, Option.bind_some, Option.pure_def]
    · rw [List.length_cons, hlength]
    · rintro (_ | i) hi
      · rfl
      · rw [List.getElem?_cons_succ, houtputs i (by omega), Nat.add_right_comm m 1 i, Nat.add_assoc m i 1]

end Ranlux64UniformRng

theorem Ranlux64UniformRng.real_mem {word : ℕ} (h : word < 2 ^ wordBits) :
    0 ≤ Ranlux64UniformRng.real word ∧ Ranlux64UniformRng.real word < 1 := by
  have hscale : (0 : ℚ) < 2 ^ wordBits := by positivity
  have hword : (word : ℚ) < 2 ^ wordBits := by exact_mod_cast h
  unfold Ranlux64UniformRng.real
  rw [mul_one_div]
  exact ⟨by positivity, (div_lt_one hscale).2 hword⟩

/-- **Subtraction with borrow**, modulo `2 ^ 48`: words, and the carry that each leaves to the next. -/
structure Recurrence (word carry : ℕ → ℕ) : Prop where
  word_lt : ∀ n, word n < 2 ^ wordBits
  carry_bit : ∀ n, carry n = 0 ∨ carry n = 1
  next : ∀ n, (word (n + longLag) : ℤ) = ((word (n + longLag - shortLag) : ℤ) - word n - carry n) % 2 ^ wordBits
  borrow : ∀ n, carry (n + 1) = if (word (n + longLag - shortLag) : ℤ) - word n - carry n < 0 then 1 else 0

theorem InRange.recurrence (hr : InRange r) :
    Recurrence (seq longLag borrow r) (fun n => (Lagged.after longLag borrow r n).carry) := by
  have hshort : ∀ n, (Lagged.after longLag borrow r n).term (longLag - shortLag) =
      seq longLag borrow r (n + longLag - shortLag) := fun n => after_term r (by decide)
  refine ⟨fun n => (hr.after n).term 0 (by decide), fun n => (hr.after n).carry, fun n => ?_, fun n => ?_⟩
  · rw [seq_add (by decide), borrow_fst, hshort]
    rfl
  · rw [← hshort]
    rfl

/-- The state of the generator at the `t`th word: the ring holds the words from there on, oldest first from `k`. -/
structure SubtractWithCarry48.Follows (word carry : ℕ → ℕ) (t : ℕ) (base : SubtractWithCarry48) : Prop where
  length : base.x.length = longLag
  k_lt : base.k < longLag
  place : ∀ i, i < longLag → base.x[(base.k + i) % longLag]? = some (word (t + i))
  carry_eq : base.carry = carry t
  mem_lt : ∀ w ∈ base.x, w < 2 ^ wordBits
  carry_bit : base.carry = 0 ∨ base.carry = 1

theorem At.follows (hr : InRange r) (h : At r t base) :
    base.Follows (seq longLag borrow r) (fun n => (Lagged.after longLag borrow r n).carry) t := by
  have hrange := hr.after t
  refine ⟨h.holds.length, h.holds.lt, fun i hi => ?_, h.carry, fun w hw => ?_, ?_⟩
  · rw [h.holds.place i hi, after_term r hi]
  · obtain ⟨i, hi, rfl⟩ := h.holds.mem hw
    exact hrange.term i hi
  · rw [h.carry]
    exact hrange.carry

/-- **The generator**, for every seed and any number of words and draws, of blocks no shorter than what is used of them. -/
theorem ranlux_recurrence (P R seed : ℕ) (hP : P < 2 ^ 64) (hR : R ≤ P) :
    ∃ word carry, Recurrence word carry ∧
      ∃ rng, Ranlux64UniformRng.new seed = some rng ∧
        (∀ t, ∃ base, rng.base.skip t = some base ∧ base.Follows word carry t) ∧
        ∀ n, ∃ outputs final, Ranlux64UniformRng.draws P R n rng = some (outputs, final) ∧
          final.base.Follows word carry (wordsDrawn P R n) ∧ outputs.length = n ∧
          (∀ i, i < n → outputs[i]? = some (Ranlux64UniformRng.real (word (wordIndex P R i)))) ∧
          ∀ output ∈ outputs, 0 ≤ output ∧ output < 1 := by
  obtain ⟨base, hnew, hr, hat⟩ := new_spec seed
  have hrec := hr.recurrence
  refine ⟨_, _, hrec, ⟨base, 0⟩, ?_, fun t => ?_, fun n => ?_⟩
  · unfold Ranlux64UniformRng.new
    rw [hnew]
    rfl
  · obtain ⟨base', hskip, hbase'⟩ := skip_spec (n := t) hr hat
    rw [Nat.zero_add] at hbase'
    exact ⟨base', hskip, hbase'.follows hr⟩
  · have hstart : Drawn P R base.register 0 ⟨base, 0⟩ := by
      refine ⟨?_, (usedAfter_zero R).symm⟩
      rw [wordsDrawn, passed_zero]
      exact hat
    obtain ⟨outputs, final, hdraws, hfinal, hlength, houtputs⟩ := Ranlux64UniformRng.draws_spec hr hP hR n hstart
    rw [Nat.zero_add] at hfinal
    simp only [Nat.zero_add] at houtputs
    refine ⟨outputs, final, hdraws, hfinal.base.follows hr, hlength, houtputs, fun output hmem => ?_⟩
    obtain ⟨i, hi, rfl⟩ := List.mem_iff_getElem.1 hmem
    have houtput := houtputs i (by omega)
    rw [List.getElem?_eq_getElem hi] at houtput
    rw [Option.some.inj houtput]
    exact Ranlux64UniformRng.real_mem (hrec.word_lt _)

theorem ranlux_recurrence_luxury :
    ∃ word carry, Recurrence word carry ∧
      ∃ rng, Ranlux64UniformRng.new 2938723 = some rng ∧
        ∀ n, ∃ outputs final, Ranlux64UniformRng.draws 223 24 n rng = some (outputs, final) ∧
          final.base.Follows word carry (wordsDrawn 223 24 n) ∧ outputs.length = n := by
  obtain ⟨word, carry, hrec, rng, hnew, -, hdraws⟩ := ranlux_recurrence 223 24 2938723 (by decide) (by decide)
  refine ⟨word, carry, hrec, rng, hnew, fun n => ?_⟩
  obtain ⟨outputs, final, hdraw, hfollows, hlength, -⟩ := hdraws n
  exact ⟨outputs, final, hdraw, hfollows, hlength⟩

end Ranlux
end Itofin
