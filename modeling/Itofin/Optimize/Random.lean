import Itofin.Lib.Floating
import Itofin.Lib.Mixing
import Itofin.Lib.Turns
/-!
# Random — the generator of the global searches

`Random` of `global.rs`: a counter, a mixer, and indices below a size by rejection.  The mixer is one-to-one and the counter
meets every word, so that a word is accepted in the end (`index_spec`).
-/
namespace Itofin
namespace Optimize

open Turns

structure Random where
  state : BitVec 64

namespace Random

/-- The step of the counter. -/
def gamma : BitVec 64 := 0x9e3779b97f4a7c15#64

/-- The word of a counter. -/
def mix (state : BitVec 64) : BitVec 64 :=
  let value := (state ^^^ (state >>> 30)) * 0xbf58476d1ce4e5b9#64
  let value := (value ^^^ (value >>> 27)) * 0x94d049bb133111eb#64
  value ^^^ (value >>> 31)

def next (random : Random) : BitVec 64 × Random :=
  let state := random.state + gamma
  (mix state, ⟨state⟩)

/-- The loop of `index`. -/
def draw (bound threshold : BitVec 64) : ℕ → Random → Except Turns.Halt (ℕ × Random)
  | 0, _              => .error .outOfTurns
  | turns + 1, random =>
    let (value, random) := random.next
    if threshold ≤ value then .ok ((value % bound).toNat, random) else draw bound threshold turns random

/-- `size` is a machine word; a remainder by zero panics. -/
def index (turns : ℕ) (random : Random) (size : ℕ) : Except Turns.Halt (ℕ × Random) :=
  let bound := BitVec.ofNat 64 size
  if bound = 0#64 then .error .panic
  else draw bound (-bound % bound) turns random

/-- `(next() >> 11) as f64 * (1.0 / 9_007_199_254_740_992.0)` -/
def unit {K : Type} [Field K] [LinearOrder K] {R : Format K} (random : Random) : R.Number × Random :=
  let (word, random) := random.next
  (R.ofNat (word >>> 11).toNat * (R.ofNat 1 / R.ofNat 9007199254740992), random)

/-! ## The words -/

theorem mix_injective : Function.Injective mix := by
  have hfirst := Mixing.mul_injective 0xbf58476d1ce4e5b9#64 0x96de1b173f119089#64 (by decide)
  have hsecond := Mixing.mul_injective 0x94d049bb133111eb#64 0x319642b2d24d8ec3#64 (by decide)
  exact (Mixing.xorShift_injective (by decide)).comp (hsecond.comp ((Mixing.xorShift_injective (by decide)).comp
    (hfirst.comp (Mixing.xorShift_injective (by decide)))))

/-- The generator after so many words. -/
def after (random : Random) (n : ℕ) : Random := ⟨random.state + BitVec.ofNat 64 n * gamma⟩

/-- The `n`-th of the words to come. -/
def word (random : Random) (n : ℕ) : BitVec 64 := (random.after n).next.1

theorem after_zero (random : Random) : random.after 0 = random := by
  unfold after
  simp

theorem next_after (random : Random) (n : ℕ) : (random.after n).next.2 = random.after (n + 1) := by
  unfold after next
  refine congrArg Random.mk ?_
  dsimp only
  rw [BitVec.ofNat_add, show BitVec.ofNat 64 1 = 1 from rfl]
  ring

theorem after_next (random : Random) (n : ℕ) : random.next.2.after n = random.after (n + 1) := by
  unfold after next
  refine congrArg Random.mk ?_
  dsimp only
  rw [BitVec.ofNat_add, show BitVec.ofNat 64 1 = 1 from rfl]
  ring

/-- **Every word comes.** -/
theorem exists_word (random : Random) (value : BitVec 64) : ∃ n, n < 2 ^ 64 ∧ random.word n = value := by
  obtain ⟨state, rfl⟩ := Finite.surjective_of_injective mix_injective value
  obtain ⟨n, hn, hstate⟩ := Mixing.exists_steps gamma 0xf1de83e19937733d#64 (by decide) random.state state
  refine ⟨n, hn, ?_⟩
  have hword : random.word n = mix (random.after (n + 1)).state := by rw [← next_after]; rfl
  rw [hword, ← hstate]
  rfl

/-! ## The indices -/

/-- The words that are taken for a size. -/
def Accepted (size : ℕ) (value : BitVec 64) : Prop := Mixing.threshold (BitVec.ofNat 64 size) ≤ value

instance (size : ℕ) : DecidablePred (Accepted size) := fun _ => inferInstanceAs (Decidable (_ ≤ _))

/-- The index of a word. -/
def residue (size : ℕ) (value : BitVec 64) : ℕ := (value % BitVec.ofNat 64 size).toNat

variable {size : ℕ}

theorem toNat_size (h : size < 2 ^ 64) : (BitVec.ofNat 64 size).toNat = size := by
  rw [BitVec.toNat_ofNat, Nat.mod_eq_of_lt h]

/-- **Every index has as many words.** -/
theorem ncard_accepted (h : size < 2 ^ 64) {r : ℕ} (hr : r < size) :
    {value : BitVec 64 | Accepted size value ∧ residue size value = r}.ncard = 2 ^ 64 / size := by
  have hr' : r < (BitVec.ofNat 64 size).toNat := by rwa [toNat_size h]
  have hcard := Mixing.ncard_residue hr'
  rwa [toNat_size h] at hcard

theorem word_zero (random : Random) : random.word 0 = random.next.1 := by rw [word, after_zero]

theorem word_next (random : Random) (n : ℕ) : random.next.2.word n = random.word (n + 1) := by rw [word, word, after_next]

theorem draw_eq (bound threshold : BitVec 64) (k : ℕ) : ∀ (turns : ℕ) (random : Random), k < turns →
    (∀ i, i < k → ¬ threshold ≤ random.word i) → threshold ≤ random.word k →
    draw bound threshold turns random = .ok ((random.word k % bound).toNat, random.after (k + 1)) := by
  induction k with
  | zero =>
    intro turns random hturns _ haccepted
    obtain ⟨turns, rfl⟩ := Nat.exists_eq_succ_of_ne_zero (by omega : turns ≠ 0)
    rw [word_zero] at haccepted ⊢
    rw [draw, ← after_next, after_zero]
    exact if_pos haccepted
  | succ k ih =>
    intro turns random hturns hrejected haccepted
    obtain ⟨turns, rfl⟩ := Nat.exists_eq_succ_of_ne_zero (by omega : turns ≠ 0)
    have hfirst := hrejected 0 (Nat.succ_pos k)
    rw [word_zero] at hfirst
    have hrest := ih turns random.next.2 (by omega)
      (fun i hi => by rw [word_next]; exact hrejected (i + 1) (by omega)) (by rwa [word_next])
    rw [word_next, after_next] at hrest
    rw [draw]
    exact (if_neg hfirst).trans hrest

theorem le_allOnes (value : BitVec 64) : value ≤ BitVec.allOnes 64 := by
  rw [BitVec.le_def, BitVec.toNat_allOnes]
  have := value.isLt
  omega

/-- **An index** is that of the first word that is accepted, and one is. -/
theorem index_spec (random : Random) (size : ℕ) (hpos : 0 < size) (h : size < 2 ^ 64) : ∃ k, k < 2 ^ 64 ∧
    (∀ i, i < k → ¬ Accepted size (random.word i)) ∧ Accepted size (random.word k) ∧
    residue size (random.word k) < size ∧
    ∀ turns, k < turns → random.index turns size = .ok (residue size (random.word k), random.after (k + 1)) := by
  obtain ⟨n, hn, hword⟩ := random.exists_word (BitVec.allOnes 64)
  have hlast : ∃ n, Accepted size (random.word n) := by
    refine ⟨n, ?_⟩
    rw [hword]
    exact le_allOnes _
  refine ⟨Nat.find hlast, ?_, fun i hi => Nat.find_min hlast hi, Nat.find_spec hlast, ?_, fun turns hturns => ?_⟩
  · refine (Nat.find_min' hlast ?_).trans_lt hn
    rw [hword]
    exact le_allOnes _
  · rw [residue, BitVec.toNat_umod, toNat_size h]
    exact Nat.mod_lt _ hpos
  · have hne : BitVec.ofNat 64 size ≠ 0#64 := by
      intro hzero
      have := congrArg BitVec.toNat hzero
      rw [toNat_size h] at this
      exact hpos.ne' this
    unfold index
    dsimp only
    rw [if_neg hne]
    exact draw_eq _ _ _ turns random hturns (fun i hi => Nat.find_min hlast hi) (Nat.find_spec hlast)

/-- `index` when the turns do. -/
def below (random : Random) (size : ℕ) : ℕ × Random :=
  match random.index (2 ^ 64) size with
  | .ok drawn => drawn
  | .error _  => (0, random)

theorem index_eq_below (random : Random) (hpos : 0 < size) (h : size < 2 ^ 64) {turns : ℕ} (hturns : 2 ^ 64 ≤ turns) :
    random.index turns size = .ok (random.below size) := by
  obtain ⟨k, hk, -, -, -, hindex⟩ := random.index_spec size hpos h
  unfold below
  rw [hindex turns (hk.trans_le hturns), hindex (2 ^ 64) hk]

/-! ## The unit interval -/

/-- **A draw is in the unit interval**, however it was rounded. -/
theorem unit_between {K : Type} [Field K] [LinearOrder K] [IsStrictOrderedRing K] {R : Format K} (random : Random) :
    Format.Number.Between 0 1 (random.unit (R := R)).1 := by
  obtain ⟨word, hword⟩ : ∃ word, word = (random.next.1 >>> 11).toNat := ⟨_, rfl⟩
  have hlt : word < 2 ^ 53 := by
    rw [hword, BitVec.toNat_ushiftRight, Nat.shiftRight_eq_div_pow]
    omega
  have hvalue := Format.Number.ofNat_val (R := R) hlt.le
  have hone := Format.Number.ofNat_val (R := R) (n := 1) (by norm_num)
  have hpow := Format.Number.ofNat_val (R := R) (n := 9007199254740992) (by norm_num)
  have hne : ((9007199254740992 : ℕ) : K) ≠ 0 := Nat.cast_ne_zero.2 (by norm_num)
  have hpos : (0 : K) < ((9007199254740992 : ℕ) : K) := Nat.cast_pos.2 (by norm_num)
  have hunit : (R.ofNat 1 / R.ofNat 9007199254740992).val = .finite (1 / ((2 ^ 53 : ℕ) : K)) := by
    rw [Format.Number.div_eq hone hpow hne, Nat.cast_one]
    have hfixed := Format.fixed_dyadic (R := R) (k := 53) le_rfl
    exact Format.Number.rounded_val hfixed
  change Format.Number.Between (0 : K) 1 (R.ofNat (random.next.1 >>> 11).toNat * _)
  rw [← hword, Format.Number.mul_eq hvalue hunit]
  refine Format.Number.between_rounded Format.fixed_zero Format.fixed_one ?_ ?_
  · exact mul_nonneg (Nat.cast_nonneg _) (div_nonneg zero_le_one (Nat.cast_nonneg _))
  · rw [mul_one_div]
    exact (div_le_one hpos).2 (Nat.cast_le.2 hlt.le)

end Random
end Optimize
end Itofin
