import Itofin.Lib.Lagged
import Itofin.Lib.Mixing
import Mathlib.Algebra.Order.Field.Rat
import Mathlib.Tactic.Linarith
import Mathlib.Tactic.NormNum
/-!
# Mersenne twister — a block written in place

`mt19937uniformrng.rs`: 624 words, of which a twist writes the next block over the last one, place by place.  The places
are those below `N`.  At every draw the array holds one block of the recurrence (`At`), and the word drawn is the tempered
term that is next (`nextU32_spec`, `output_eq`).  Tempering loses nothing, so that the words drawn determine the terms, and
`N` of them all that follow; and no run comes to a block of zeros, whatever it was seeded with.
-/
namespace Itofin
namespace MersenneTwister

open Lagged

def N : ℕ := 624
def M : ℕ := 397
def MATRIX_A : BitVec 32 := 0x9908b0df#32
def UPPER_MASK : BitVec 32 := 0x80000000#32
def LOWER_MASK : BitVec 32 := 0x7fffffff#32

/-- `mag01[(y & 0x1) as usize]` -/
def mag01 (y : BitVec 32) : BitVec 32 := if y &&& 1#32 = 0#32 then 0#32 else MATRIX_A

/-- The upper bit of one word before the lower bits of the next. -/
def joined (word next : BitVec 32) : BitVec 32 := (word &&& UPPER_MASK) ||| (next &&& LOWER_MASK)

def twisted (word next far : BitVec 32) : BitVec 32 :=
  let y := joined word next
  far ^^^ (y >>> 1) ^^^ mag01 y

def temper (y : BitVec 32) : BitVec 32 :=
  let y := y ^^^ (y >>> 11)
  let y := y ^^^ ((y <<< 7) &&& 0x9d2c5680#32)
  let y := y ^^^ ((y <<< 15) &&& 0xefc60000#32)
  y ^^^ (y >>> 18)

/-- The words of the array. -/
abbrev Words : Type := Vector (BitVec 32) N

/-- `mt[i]` -/
def word (mt : Words) (i : ℕ) : BitVec 32 := mt[i]?.getD 0#32

def write (mt : Words) (i : ℕ) (a : BitVec 32) : Words := mt.setIfInBounds i a

structure MersenneTwisterUniformRng where
  mt : Words
  mti : ℕ
  seed : Option (BitVec 32)

namespace MersenneTwisterUniformRng

/-- `mt[i]` from `mt[i - 1]`. -/
def expand (mt : Words) (i : ℕ) : Words :=
  write mt i (1812433253#32 * (word mt (i - 1) ^^^ (word mt (i - 1) >>> 30)) + BitVec.ofNat 32 i)

/-- A generator from one seed; `nonzero` is what the seed generator would give. -/
def new (nonzero seed : BitVec 32) : MersenneTwisterUniformRng :=
  let s := if seed ≠ 0#32 then seed else nonzero
  let mt := write (Vector.replicate N 0#32) 0 s
  ⟨(List.range' 1 (N - 1)).foldl expand mt, N, some s⟩

/-- After a place is mixed, the next one; the last word is before the second too. -/
def advance (mt : Words) (i : ℕ) : Words × ℕ :=
  if N ≤ i + 1 then (write mt 0 (word mt (N - 1)), 1) else (mt, i + 1)

/-- A word with the one before it in it. -/
def spread (mt : Words) (i : ℕ) (factor : BitVec 32) : BitVec 32 :=
  word mt i ^^^ ((word mt (i - 1) ^^^ (word mt (i - 1) >>> 30)) * factor)

def absorb (seeds : List (BitVec 32)) : Words × ℕ × ℕ → Words × ℕ × ℕ
  | (mt, i, j) =>
    let (mt, i) := advance (write mt i (spread mt i 1664525#32 + seeds.getD j 0#32 + BitVec.ofNat 32 j)) i
    (mt, i, if seeds.length ≤ j + 1 then 0 else j + 1)

def diffuse : Words × ℕ → Words × ℕ
  | (mt, i) => advance (write mt i (spread mt i 1566083941#32 - BitVec.ofNat 32 i)) i

/-- A generator from many seeds, of which there must be one. -/
def fromSeeds (nonzero : BitVec 32) (seeds : List (BitVec 32)) : Option MersenneTwisterUniformRng :=
  if seeds = [] then none
  else
    let rng := new nonzero 19650218#32
    let absorbed := (absorb seeds)^[max N seeds.length] (rng.mt, 1, 0)
    let diffused := diffuse^[N - 1] (absorbed.1, absorbed.2.1)
    some ⟨write diffused.1 0 UPPER_MASK, N, none⟩

/-- The word at one place, from those at three. -/
def twistAt (mt : Words) (kk next far : ℕ) : Words := write mt kk (twisted (word mt kk) (word mt next) (word mt far))

def twist (self : MersenneTwisterUniformRng) : MersenneTwisterUniformRng :=
  let mt := (List.range (N - M)).foldl (fun mt kk => twistAt mt kk (kk + 1) (kk + M)) self.mt
  let mt := (List.range' (N - M) (M - 1)).foldl (fun mt kk => twistAt mt kk (kk + 1) (kk + M - N)) mt
  { self with mt := twistAt mt (N - 1) 0 (M - 1), mti := 0 }

def nextU32 (self : MersenneTwisterUniformRng) : BitVec 32 × MersenneTwisterUniformRng :=
  let self := if self.mti = N then self.twist else self
  (temper (word self.mt self.mti), { self with mti := self.mti + 1 })

def nextReal (self : MersenneTwisterUniformRng) : ℚ × MersenneTwisterUniformRng :=
  let (y, self) := self.nextU32
  ((y.toNat + 1 / 2) / 4294967296, self)

/-- The generator after so many draws. -/
def after (self : MersenneTwisterUniformRng) : ℕ → MersenneTwisterUniformRng
  | 0     => self
  | k + 1 => (self.after k).nextU32.2

/-- The word of a draw. -/
def output (self : MersenneTwisterUniformRng) (k : ℕ) : BitVec 32 := (self.after k).nextU32.1

/-- **A generator as its constructors leave it.** -/
def Seeded (rng : MersenneTwisterUniformRng) : Prop :=
  (∃ nonzero seed, new nonzero seed = rng) ∨ ∃ nonzero seeds, fromSeeds nonzero seeds = some rng

end MersenneTwisterUniformRng

open MersenneTwisterUniformRng

/-! ## The recurrence -/

def recur (word : ℕ → BitVec 32) (_ : Unit) : BitVec 32 × Unit := (twisted (word 0) (word 1) (word M), ())

/-- The terms that follow the words of the array, these first. -/
def term (mt : ℕ → BitVec 32) : ℕ → BitVec 32 := seq N recur ⟨mt, ()⟩

variable {mt : ℕ → BitVec 32} {rng : MersenneTwisterUniformRng} {b k n : ℕ}

theorem term_of_lt (h : n < N) : term mt n = mt n := seq_of_lt h

/-- **The recurrence of the twister.** -/
theorem term_add (mt : ℕ → BitVec 32) (n : ℕ) : term mt (n + N) = twisted (term mt n) (term mt (n + 1)) (term mt (n + M)) := by
  unfold term
  rw [seq_add (by decide), recur, after_term _ (by decide), after_term _ (by decide), after_term _ (by decide)]
  rfl

theorem word_write (place : Words) {i : ℕ} (hi : i < N) (a : BitVec 32) :
    word (write place i a) = Function.update (word place) i a := by
  funext j
  unfold word write
  rw [Vector.getElem?_setIfInBounds]
  by_cases hij : i = j
  · simp [← hij, hi]
  · simp [hij, Function.update_of_ne (Ne.symm hij)]

theorem twistAt_written {place : Words} (next far : ℕ) (h : Written N (term mt) b k (word place)) (hk : k < N)
    (hnext : word place next = term mt (b + k + 1)) (hfar : word place far = term mt (b + k + M)) :
    Written N (term mt) b (k + 1) (word (twistAt place k next far)) := by
  rw [twistAt, word_write place hk]
  apply h.write
  rw [h.ahead le_rfl hk, hnext, hfar, show b + N + k = b + k + N by omega, term_add]

/-- A part of the pass, along which the far word is the one `M` terms on. -/
theorem pass_written (far : ℕ → ℕ) {place : Words} (start : ℕ) (h : Written N (term mt) b start (word place)) :
    ∀ n, start + n < N → (∀ kk w, start ≤ kk → kk < start + n → Written N (term mt) b kk w → w (far kk) = term mt (b + kk + M)) →
      Written N (term mt) b (start + n)
        (word ((List.range' start n).foldl (fun mt kk => twistAt mt kk (kk + 1) (far kk)) place)) := by
  intro n
  induction n with
  | zero => exact fun _ _ => h
  | succ n ih =>
    intro hn hfar
    have hw := ih (by omega) fun kk w hstart hkk => hfar kk w hstart (by omega)
    rw [List.range'_concat, List.foldl_append, Nat.one_mul]
    have hnext := hw.ahead (i := start + n + 1) (by omega) (by omega)
    have hstep := twistAt_written _ _ hw (by omega) hnext (hfar _ _ (by omega) (by omega) hw)
    exact hstep

/-- **A twist writes the next block.** -/
theorem twist_written (h : Written N (term mt) b 0 (word rng.mt)) : Written N (term mt) (b + N) 0 (word rng.twist.mt) := by
  have hN : N = 624 := rfl
  have hM : M = 397 := rfl
  -- the far word is ahead in the first part of the pass, and behind in the rest
  have hfirst := pass_written (fun kk => kk + M) 0 h (N - M) (by omega) fun kk w _ hkk hw => by
    rw [hw.ahead (by omega) (by omega), Nat.add_assoc]
  have hsecond := pass_written (fun kk => kk + M - N) (0 + (N - M)) hfirst (M - 1) (by omega) fun kk w hle hkk hw => by
    rw [hw.behind (by omega) (by omega), show b + N + (kk + M - N) = b + kk + M by omega]
  rw [Nat.zero_add, ← List.range_eq_range', show N - M + (M - 1) = N - 1 by omega] at hsecond
  have hlast := twistAt_written 0 (M - 1) hsecond (by omega)
    (by rw [hsecond.behind (by omega) (by omega), show b + N + 0 = b + (N - 1) + 1 by omega])
    (by rw [hsecond.behind (by omega) (by omega), show b + N + (M - 1) = b + (N - 1) + M by omega])
  rw [show N - 1 + 1 = N by omega] at hlast
  exact hlast.full

/-! ## Draws -/

/-- The array holds a block of the recurrence, and so many terms were drawn. -/
structure At (mt : ℕ → BitVec 32) (k : ℕ) (rng : MersenneTwisterUniformRng) : Prop where
  block : ∃ b, Written N (term mt) b 0 (word rng.mt) ∧ b + rng.mti = k + N
  mti_le : rng.mti ≤ N

theorem At.start (h : rng.mti = N) : At (word rng.mt) 0 rng where
  block  := ⟨0, fun i hi => by simp [term_of_lt hi], by simp [h]⟩
  mti_le := h.le

/-- **A draw is the next term, tempered.** -/
theorem nextU32_spec (h : At mt k rng) : rng.nextU32.1 = temper (term mt (k + N)) ∧ At mt (k + 1) rng.nextU32.2 := by
  obtain ⟨b, hb, hk⟩ := h.block
  unfold nextU32
  dsimp only
  by_cases hmti : rng.mti = N
  · rw [if_pos hmti]
    have hw := twist_written hb
    refine ⟨?_, ⟨b + N, hw, ?_⟩, ?_⟩
    · change temper (word rng.twist.mt 0) = _
      rw [hw.ahead le_rfl (by decide), show b + N + 0 = k + N by omega]
    · change b + N + (0 + 1) = k + 1 + N
      omega
    · exact (by decide : 0 + 1 ≤ N)
  · have hle := h.mti_le
    rw [if_neg hmti]
    refine ⟨?_, ⟨b, hb, ?_⟩, ?_⟩
    · rw [hb.ahead (Nat.zero_le _) (by omega), hk]
    · dsimp only
      omega
    · dsimp only
      omega

theorem after_at (h : rng.mti = N) : ∀ k, At (word rng.mt) k (rng.after k)
  | 0     => At.start h
  | k + 1 => (nextU32_spec (after_at h k)).2

theorem MersenneTwisterUniformRng.Seeded.mti_eq (h : Seeded rng) : rng.mti = N := by
  rcases h with ⟨nonzero, seed, rfl⟩ | ⟨nonzero, seeds, h⟩
  · rfl
  · unfold fromSeeds at h
    split at h
    · cases h
    · rw [← Option.some.inj h]

/-- **The words drawn are the tempered terms of the recurrence**, from the first that is not of the seed on. -/
theorem output_eq (h : Seeded rng) (k : ℕ) : rng.output k = temper (term (word rng.mt) (k + N)) :=
  (nextU32_spec (after_at h.mti_eq k)).1

theorem nextReal_mem (rng : MersenneTwisterUniformRng) : 0 < rng.nextReal.1 ∧ rng.nextReal.1 < 1 := by
  have hlt : ((rng.nextU32.1.toNat : ℕ) : ℚ) + 1 ≤ 2 ^ 32 := by exact_mod_cast rng.nextU32.1.isLt
  have hnonneg : (0 : ℚ) ≤ rng.nextU32.1.toNat := Nat.cast_nonneg _
  unfold nextReal
  dsimp only
  constructor
  · apply div_pos <;> linarith
  · rw [div_lt_one (by norm_num)]
    norm_num at hlt
    linarith

/-! ## Tempering -/

theorem temper_injective : Function.Injective temper :=
  (Mixing.xorShift_injective (k := 18) (by decide)).comp
    ((Mixing.xorMaskedShift_injective (k := 15) (by decide) _).comp
      ((Mixing.xorMaskedShift_injective (k := 7) (by decide) _).comp (Mixing.xorShift_injective (k := 11) (by decide))))

/-- **As many words as there are places determine all that follow**, whatever the two generators were seeded with. -/
theorem output_eq_of_window {rng' : MersenneTwisterUniformRng} (h : Seeded rng) (h' : Seeded rng')
    (hwindow : ∀ i, i < N → rng.output (n + i) = rng'.output (k + i)) (i : ℕ) : rng.output (n + i) = rng'.output (k + i) := by
  have hterm : ∀ i, i < N → term (word rng.mt) (n + N + i) = term (word rng'.mt) (k + N + i) := by
    intro i hi
    have hout := hwindow i hi
    rw [output_eq h, output_eq h'] at hout
    simpa only [Nat.add_right_comm] using temper_injective hout
  have hall : term (word rng.mt) (n + N + i) = term (word rng'.mt) (k + N + i) := seq_eq_of_window (by decide) (fun {s t} hst => by
    have h0 := hst 0 (by decide)
    have h1 := hst 1 (by decide)
    have hM := hst M (by decide)
    simp only [recur, h0, h1, hM]) hterm i
  rw [output_eq h, output_eq h', Nat.add_right_comm n, Nat.add_right_comm k, hall]

/-- A zero seed draws as the word drawn in its place. -/
theorem output_eq_of_window_seed : (new 7#32 0#32).output (2 + 1000) = (new 1#32 7#32).output (2 + 1000) :=
  output_eq_of_window (.inl ⟨_, _, rfl⟩) (.inl ⟨_, _, rfl⟩) (fun _ _ => by simp [new]) 1000

/-! ## Zeros -/

theorem eq_zero_of_masks {word : BitVec 32} (hupper : word &&& UPPER_MASK = 0#32) (hlower : word &&& LOWER_MASK = 0#32) :
    word = 0#32 :=
  calc word
    _ = word &&& (UPPER_MASK ||| LOWER_MASK) := (BitVec.and_allOnes (x := word)).symm
    _ = (word &&& UPPER_MASK) ||| (word &&& LOWER_MASK) := BitVec.and_or_distrib_left
    _ = 0#32 := by rw [hupper, hlower, BitVec.or_zero]

/-- The matrix has its upper bit set, and a word that is shifted has not. -/
theorem eq_zero_of_mixed {y : BitVec 32} (h : (y >>> 1) ^^^ mag01 y = 0#32) : y = 0#32 := by
  have hshift := congrArg BitVec.toNat (BitVec.xor_eq_zero_iff.1 h)
  have hlt := y.isLt
  rw [BitVec.toNat_ushiftRight, Nat.shiftRight_eq_div_pow] at hshift
  unfold mag01 at hshift
  apply BitVec.eq_of_toNat_eq
  split_ifs at hshift with heven
  · have hmod := congrArg BitVec.toNat heven
    rw [BitVec.toNat_and] at hmod
    simp only [BitVec.toNat_ofNat, Nat.reducePow, Nat.reduceMod, Nat.and_one_is_mod] at hmod hshift ⊢
    omega
  · simp only [MATRIX_A, BitVec.toNat_ofNat, Nat.reducePow, Nat.reduceMod] at hshift
    omega

/-- The register is zero, all but the bits of its first word that no later one depends on. -/
def Blank (mt : ℕ → BitVec 32) (n : ℕ) : Prop :=
  term mt n &&& UPPER_MASK = 0#32 ∧ ∀ i, 0 < i → i < N → term mt (n + i) = 0#32

theorem Blank.pred (h : Blank mt (n + 1)) : Blank mt n := by
  have hlast : term mt (n + N) = 0#32 := h.2 (N - 1) (by decide) (by decide)
  have hfar : term mt (n + M) = 0#32 := h.2 (M - 1) (by decide) (by decide)
  rw [term_add, twisted, hfar, BitVec.zero_xor] at hlast
  obtain ⟨hupper, hlower⟩ := BitVec.or_eq_zero_iff.1 (eq_zero_of_mixed hlast)
  refine ⟨hupper, fun i hi hiN => ?_⟩
  by_cases hone : i = 1
  · rw [hone]
    exact eq_zero_of_masks h.1 hlower
  · have hrest := h.2 (i - 1) (by omega) (by omega)
    rwa [show n + 1 + (i - 1) = n + i by omega] at hrest

theorem Blank.start (h : Blank mt n) : Blank mt 0 := by
  induction n with
  | zero => exact h
  | succ n ih => exact ih h.pred

theorem expand_foldl (mt : Words) : ∀ n i, n < N → 1 ≤ i → i ≤ n →
    word ((List.range' 1 n).foldl expand mt) i = 1812433253#32 *
      (word ((List.range' 1 n).foldl expand mt) (i - 1) ^^^ (word ((List.range' 1 n).foldl expand mt) (i - 1) >>> 30)) +
        BitVec.ofNat 32 i := by
  intro n i hN hi
  induction n with
  | zero => exact fun hn => absurd hi (by omega)
  | succ n ih =>
    intro hn
    rw [List.range'_concat, List.foldl_append, Nat.one_mul, Nat.add_comm 1 n]
    simp only [List.foldl_cons, List.foldl_nil]
    rw [expand, word_write _ hN]
    by_cases hlast : i = n + 1
    · subst hlast
      simp
    · rw [Function.update_of_ne hlast, Function.update_of_ne (by omega)]
      exact ih (by omega) (by omega)

theorem not_blank (h : Seeded rng) : ¬ Blank (word rng.mt) 0 := by
  rintro ⟨hfirst, hrest⟩
  rw [term_of_lt (by decide)] at hfirst
  rcases h with ⟨nonzero, seed, rfl⟩ | ⟨nonzero, seeds, h⟩
  · -- of two words that follow one another one is not zero
    have hone := hrest 1 (by decide) (by decide)
    have htwo := hrest 2 (by decide) (by decide)
    rw [term_of_lt (by decide), Nat.zero_add] at hone htwo
    unfold new at hone htwo
    dsimp only at hone htwo
    have hnext := expand_foldl (write (Vector.replicate N 0#32) 0 (if seed ≠ 0#32 then seed else nonzero)) (N - 1) 2
      (by decide) (by decide) (by decide)
    rw [htwo, show 2 - 1 = 1 from rfl, hone] at hnext
    exact absurd hnext (by decide)
  · unfold fromSeeds at h
    split at h
    · cases h
    · rw [← Option.some.inj h] at hfirst
      dsimp only at hfirst
      rw [word_write _ (by decide), Function.update_self] at hfirst
      exact absurd hfirst (by decide)

/-- **No generator comes to a block of zeros**, whatever it was seeded with. -/
theorem exists_output_ne_zero (h : Seeded rng) (k : ℕ) : ∃ i, i < N ∧ rng.output (k + i) ≠ 0#32 := by
  by_contra hzero
  simp only [not_exists, not_and, not_not] at hzero
  have hterm : ∀ i, i < N → term (word rng.mt) (k + N + i) = 0#32 := by
    intro i hi
    have hout := hzero i hi
    rw [output_eq h, Nat.add_right_comm] at hout
    exact temper_injective (hout.trans (by decide))
  have hblank : Blank (word rng.mt) (k + N) :=
    ⟨by rw [← Nat.add_zero (k + N), hterm 0 (by decide), BitVec.zero_and], fun i _ hi => hterm i hi⟩
  exact not_blank h hblank.start

theorem exists_output_ne_zero_seed : ∃ i, i < N ∧ (new 1#32 5489#32).output (1000 + i) ≠ 0#32 :=
  exists_output_ne_zero (.inl ⟨_, _, rfl⟩) 1000

end MersenneTwister
end Itofin
