import Itofin.Lib.Gray
import Itofin.Lib.Machine
/-!
# Sobol — the draws of a low-discrepancy sequence

`SobolRsg` of `math/randomnumbers/sobol/mod.rs`, over raw integers.  A sample is the exclusive-or of the direction
integers that the digits of a number select (`sample`).  The Gray mode steps from one sample to the next by one direction
integer and the plain mode computes each sample anew; `state_gray` and `state_plain` give the state of a fresh generator
after so many draws.

The tables of primitive polynomials and of initializers and the Mersenne twister are not modelled: `Free` holds what they
supply.  The logarithm in `skip_to` is a floating point one, so it is a parameter here, and what is used of it is that it
covers the digits (`Covers`).
-/
namespace Itofin

open Gray Machine

/-- What the tables supply for a dimension after the first: the degree of its polynomial, its coefficients and the free
direction integers. -/
structure Free where
  degree : ℕ → ℕ
  ppmt : ℕ → ℕ
  initial : ℕ → ℕ → ℕ
  degree_le : ∀ k, degree k ≤ 32

/-- A generator; its direction integers are listed for each coordinate. -/
structure SobolRsg (dimensionality : ℕ) where
  sequenceCounter : ℕ
  firstDraw : Bool
  integerSequence : Fin dimensionality → ℕ
  directionIntegers : Fin dimensionality → List ℕ
  useGrayCode : Bool

namespace SobolRsg

def ppmtMaxDim : ℕ := 21200

/-- `for j in 1..gk { if (ppmt[k] >> (gk - j - 1)) & 1 != 0 { n ^= directions[l - j][k]; } }` -/
def recurrence (gk ppmt : ℕ) (directions : List ℕ) : List ℕ → ℕ → ℕ
  | [], n      => n
  | j :: js, n => recurrence gk ppmt directions js
      (if (ppmt >>> (gk - j - 1)) &&& 1 ≠ 0 then n ^^^ directions.getD (directions.length - j) 0 else n)

/-- `for l in gk..32`: the direction integers of a dimension after the free ones, each from the ones before it. -/
def extend (gk ppmt : ℕ) : ℕ → List ℕ → List ℕ
  | 0, directions     => directions
  | m + 1, directions =>
    let last := directions.getD (directions.length - gk) 0
    let n := recurrence gk ppmt directions (List.range' 1 (gk - 1)) (last >>> gk)
    extend gk ppmt m (directions ++ [n ^^^ last])

def directions (t : Free) : ℕ → List ℕ
  | 0     => (List.range 32).map (fun j => 1 <<< (31 - j))
  | k + 1 => extend (t.degree (k + 1)) (t.ppmt (k + 1)) (32 - t.degree (k + 1))
      ((List.range (t.degree (k + 1))).map (t.initial (k + 1)))

/-- `with_gray_code`, which panics without a dimension and with too many. -/
def withGrayCode (t : Free) (dimensionality : ℕ) (useGrayCode : Bool) : Option (SobolRsg dimensionality) :=
  if 0 < dimensionality ∧ dimensionality ≤ ppmtMaxDim then
    let directionIntegers := fun k : Fin dimensionality => directions t k
    some ⟨0, true, fun k => if useGrayCode then (directionIntegers k).getD 0 0 else 0, directionIntegers, useGrayCode⟩
  else none

/-- `checked_add(1)` on `u32`, which panics when there is no successor. -/
def checkedSucc (n : ℕ) : Option ℕ := if n + 1 < 2 ^ 32 then some (n + 1) else none

/-- `for index in .. { if (n >> index) & 1 != 0 { integer ^= direction_integers[index][k]; } }` -/
def xorLoop (n : ℕ) : List ℕ → ℕ → ℕ → ℕ
  | [], _, integer          => integer
  | d :: ds, index, integer =>
    xorLoop n ds (index + 1) (if (n >>> index) &&& 1 ≠ 0 then integer ^^^ d else integer)

variable {dimensionality : ℕ}

/-- `skip_to`; a digit past the last direction integer panics.  `log n` is `(f64::from(n).ln() / LN_2) as u32`. -/
def skipTo (log : ℕ → ℕ) (s : SobolRsg dimensionality) (skip : ℕ) : Option (SobolRsg dimensionality) :=
  (checkedSucc skip).bind (fun n =>
    if s.useGrayCode then
      let ops := log n + 1
      let gray := n ^^^ (n >>> 1)
      if ops ≤ 32 then
        some { s with
          integerSequence := fun k => xorLoop gray ((s.directionIntegers k).take ops) 0 0
          sequenceCounter := skip }
      else none
    else
      some { s with
        integerSequence := fun k => xorLoop n (s.directionIntegers k) 0 0
        sequenceCounter := skip })

/-- `next_int32_sequence`, which panics past the period. -/
def nextInt32Sequence (log : ℕ → ℕ) (s : SobolRsg dimensionality) : Option (SobolRsg dimensionality) :=
  if !s.useGrayCode then
    (s.skipTo log s.sequenceCounter).bind (fun s =>
      if s.firstDraw then some { s with firstDraw := false }
      else (checkedSucc s.sequenceCounter).map (fun c => { s with sequenceCounter := c }))
  else if s.firstDraw then some { s with firstDraw := false }
  else
    (checkedSucc s.sequenceCounter).bind (fun n =>
      let j := trailingOnes 33 n
      if j < 32 then
        some { s with
          sequenceCounter := n
          integerSequence := fun k => s.integerSequence k ^^^ (s.directionIntegers k).getD j 0 }
      else none)

inductive Act where
  | draw
  | skipTo (skip : ℕ)
deriving DecidableEq

def step (log : ℕ → ℕ) (s : SobolRsg dimensionality) : Act → Option (SobolRsg dimensionality)
  | .draw        => s.nextInt32Sequence log
  | .skipTo skip => s.skipTo log skip

/-- The `k`-th draw from here on, the first one being the `0`-th. -/
def drawn (log : ℕ → ℕ) (s : SobolRsg dimensionality) (k : ℕ) : Option (Fin dimensionality → ℕ) :=
  (run (step log) s (List.replicate (k + 1) .draw)).map integerSequence

/-- **The sample of a number**: in each coordinate, the exclusive-or of the direction integers its digits select. -/
def sample (directionIntegers : Fin dimensionality → List ℕ) (n : ℕ) : Fin dimensionality → ℕ :=
  fun k => select (directionIntegers k) n

/-- The truncated logarithm covers the digits of every `u32`. -/
def Covers (log : ℕ → ℕ) : Prop := ∀ n, 0 < n → n < 2 ^ 32 → n < 2 ^ (log n + 1) ∧ log n < 32

variable {t : Free} {log : ℕ → ℕ} {s s' fresh : SobolRsg dimensionality} {k n : ℕ}

theorem checkedSucc_of_lt (h : n + 1 < 2 ^ 32) : checkedSucc n = some (n + 1) := if_pos h

theorem checkedSucc_eq_none (h : 2 ^ 32 ≤ n + 1) : checkedSucc n = none := if_neg (not_lt.mpr h)

theorem xorLoop_eq : ∀ (ds : List ℕ) (n index integer : ℕ),
    xorLoop n ds index integer = integer ^^^ select ds (n >>> index)
  | [], _, _, _                 => (Nat.xor_zero _).symm
  | d :: ds, n, index, integer => by
    have hb : (n >>> index) &&& 1 ≠ 0 ↔ (n >>> index).testBit 0 = true := by
      rw [Nat.testBit_zero, Nat.and_one_is_mod, decide_eq_true_eq]
      omega
    rw [xorLoop, xorLoop_eq ds, select, Nat.shiftRight_succ]
    simp only [hb]
    split
    · rw [Nat.xor_assoc]
    · rw [Nat.zero_xor]

theorem extend_length (gk ppmt : ℕ) : ∀ (m : ℕ) (ds : List ℕ), (extend gk ppmt m ds).length = ds.length + m
  | 0, _      => rfl
  | m + 1, ds => by
    rw [extend, extend_length gk ppmt m, List.length_append, List.length_singleton]
    omega

/-- There are direction integers for all the digits of a `u32`. -/
theorem directions_length (t : Free) : ∀ k, (directions t k).length = 32
  | 0     => rfl
  | k + 1 => by
    have := t.degree_le (k + 1)
    rw [directions, extend_length, List.length_map, List.length_range]
    omega

theorem directions_zero (t : Free) : directions t 0 = reversing 32 := by
  have h : (List.range 32).map (fun j => 1 <<< (31 - j)) = reversing 32 := by decide
  exact h

/-! ## The Gray mode -/

theorem skipTo_gray (hlog : Covers log) (hg : s.useGrayCode = true) (h : k + 1 < 2 ^ 32) :
    s.skipTo log k =
      some { s with integerSequence := sample s.directionIntegers (gray (k + 1)), sequenceCounter := k } := by
  obtain ⟨hn, hl⟩ := hlog (k + 1) (Nat.succ_pos k) h
  have hlt : gray (k + 1) < 2 ^ (log (k + 1) + 1) :=
    Nat.xor_lt_two_pow hn (lt_of_le_of_lt (Nat.shiftRight_le _ 1) hn)
  rw [skipTo, checkedSucc_of_lt h, Option.bind_some, if_pos hg, if_pos (by omega)]
  have hv : ∀ c, xorLoop ((k + 1) ^^^ ((k + 1) >>> 1)) ((s.directionIntegers c).take (log (k + 1) + 1)) 0 0 =
      sample s.directionIntegers (gray (k + 1)) c := by
    intro c
    rw [xorLoop_eq, Nat.zero_xor, Nat.shiftRight_zero]
    exact select_take _ _ _ hlt
  simp only [hv]

theorem withGrayCode_eq {useGrayCode : Bool} (h : withGrayCode t dimensionality useGrayCode = some fresh) :
    0 < dimensionality ∧ fresh = ⟨0, true, fun k => if useGrayCode then (directions t k).getD 0 0 else 0,
      fun k => directions t k, useGrayCode⟩ := by
  unfold withGrayCode at h
  split at h
  case isTrue hd => exact ⟨hd.1, (Option.some.inj h).symm⟩
  case isFalse => exact absurd h.symm (Option.some_ne_none _)

theorem run_replicate (s : SobolRsg dimensionality) (k : ℕ) : run (step log) s (List.replicate (k + 1) .draw) =
    (run (step log) s (List.replicate k .draw)).bind (fun s => s.nextInt32Sequence log) := by
  rw [List.replicate_succ', run_concat]
  rfl

/-- A draw after the first one flips what the lowest digit of the counter that is not a one selects. -/
theorem next_gray (hg : s.useGrayCode = true) (hf : s.firstDraw = false) (hc : s.sequenceCounter = k)
    (hs : s.integerSequence = sample s.directionIntegers (gray (k + 1))) (h : k + 2 < 2 ^ 32) :
    s.nextInt32Sequence log = some { s with
      sequenceCounter := k + 1
      integerSequence := sample s.directionIntegers (gray (k + 2)) } := by
  have hj : trailingOnes 33 (k + 1) < 32 := by
    refine (Nat.pow_lt_pow_iff_right (by decide : 1 < 2)).mp (lt_of_le_of_lt ?_ h)
    exact two_pow_trailingOnes_le 33 (k + 1)
  have hv : ∀ c, s.integerSequence c ^^^ (s.directionIntegers c).getD (trailingOnes 33 (k + 1)) 0 =
      sample s.directionIntegers (gray (k + 2)) c := by
    intro c
    rw [hs, sample, sample, gray_succ 32 (k + 1) (by omega), select_xor, select_two_pow]
  rw [nextInt32Sequence, hg, Bool.not_true, if_neg Bool.false_ne_true, hf, if_neg Bool.false_ne_true, hc,
    checkedSucc_of_lt (by omega), Option.bind_some, if_pos hj]
  simp only [hv]

/-- There is no direction integer for the last number of the counter. -/
theorem next_gray_last (hg : s.useGrayCode = true) (hf : s.firstDraw = false) (hc : s.sequenceCounter + 2 = 2 ^ 32) :
    s.nextInt32Sequence log = none := by
  have hk : s.sequenceCounter = 4294967294 := by omega
  rw [nextInt32Sequence, hg, Bool.not_true, if_neg Bool.false_ne_true, hf, if_neg Bool.false_ne_true, hk]
  rfl

/-- **The state of a fresh generator in the Gray mode after so many draws.** -/
theorem state_gray (hf : withGrayCode t dimensionality true = some fresh) : ∀ k, k + 1 < 2 ^ 32 →
    run (step log) fresh (List.replicate (k + 1) .draw) = some { fresh with
      sequenceCounter := k
      firstDraw := false
      integerSequence := sample fresh.directionIntegers (gray (k + 1)) }
  | 0, _     => by
    obtain ⟨-, rfl⟩ := withGrayCode_eq hf
    have hv : sample (fun k : Fin dimensionality => directions t k) (gray 1) =
        fun k : Fin dimensionality => (directions t k).getD 0 0 :=
      funext (fun c => select_two_pow _ 0)
    rw [show gray (0 + 1) = gray 1 from rfl, hv]
    rfl
  | k + 1, h => by
    rw [run_replicate, state_gray hf k (by omega), Option.bind_some]
    have hg : fresh.useGrayCode = true := by
      obtain ⟨-, rfl⟩ := withGrayCode_eq hf
      rfl
    exact next_gray hg rfl rfl rfl h

theorem drawn_gray (hf : withGrayCode t dimensionality true = some fresh) (h : k + 1 < 2 ^ 32) :
    fresh.drawn log k = some (sample fresh.directionIntegers (gray (k + 1))) := by
  rw [drawn, state_gray hf k h, Option.map_some]

theorem skipTo_keeps (h : s.skipTo log k = some s') : s'.directionIntegers = s.directionIntegers ∧
    s'.useGrayCode = s.useGrayCode ∧ s'.firstDraw = s.firstDraw ∧ s'.sequenceCounter = k := by
  obtain ⟨n, -, h⟩ := Option.bind_eq_some_iff.mp h
  dsimp only at h
  split at h
  case isTrue =>
    split at h
    case isTrue =>
      obtain rfl := Option.some.inj h
      exact ⟨rfl, rfl, rfl, rfl⟩
    case isFalse => exact absurd h.symm (Option.some_ne_none _)
  case isFalse =>
    obtain rfl := Option.some.inj h
    exact ⟨rfl, rfl, rfl, rfl⟩

theorem next_keeps (h : s.nextInt32Sequence log = some s') : s'.directionIntegers = s.directionIntegers ∧
    s'.useGrayCode = s.useGrayCode ∧ s'.firstDraw = false := by
  unfold nextInt32Sequence at h
  split at h
  case isTrue =>
    obtain ⟨m, hm, h⟩ := Option.bind_eq_some_iff.mp h
    obtain ⟨hd, hg, -, -⟩ := skipTo_keeps hm
    split at h
    case isTrue =>
      obtain rfl := Option.some.inj h
      exact ⟨hd, hg, rfl⟩
    case isFalse hf =>
      obtain ⟨c, -, rfl⟩ := Option.map_eq_some_iff.mp h
      exact ⟨hd, hg, by simpa using hf⟩
  case isFalse =>
    split at h
    case isTrue =>
      obtain rfl := Option.some.inj h
      exact ⟨rfl, rfl, rfl⟩
    case isFalse hf =>
      obtain ⟨n, -, h⟩ := Option.bind_eq_some_iff.mp h
      dsimp only at h
      split at h
      case isTrue =>
        obtain rfl := Option.some.inj h
        exact ⟨rfl, rfl, by simpa using hf⟩
      case isFalse => exact absurd h.symm (Option.some_ne_none _)

/-- What a run keeps; the flag of the first draw falls at a draw. -/
theorem run_keeps : ∀ (acts : List Act) (s : SobolRsg dimensionality), run (step log) s acts = some s' →
    s'.directionIntegers = s.directionIntegers ∧ s'.useGrayCode = s.useGrayCode ∧
      (s'.firstDraw = true ↔ s.firstDraw = true ∧ .draw ∉ acts)
  | [], s, h        => by
    obtain rfl := Option.some.inj h
    exact ⟨rfl, rfl, by simp⟩
  | a :: acts, s, h => by
    obtain ⟨m, hm, h⟩ := run_cons.1 h
    obtain ⟨hd, hg, hf⟩ := run_keeps acts m h
    rw [hd, hg, hf, List.mem_cons, not_or]
    cases a with
    | draw =>
      obtain ⟨hd, hg, hf⟩ := next_keeps hm
      exact ⟨hd, hg, by simp [hf]⟩
    | skipTo skip =>
      obtain ⟨hd, hg, hf, -⟩ := skipTo_keeps hm
      exact ⟨hd, hg, by simp [hf]⟩

/-- **The Gray mode, over every run**: the `k`-th draw of a fresh generator is the sample of the Gray code of `k + 1`,
up to the period; skipping to `k` gives the `k`-th draw, and the draw after it is that one again when the generator has
not been drawn from, and the next one when it has. -/
theorem gray_spec (hf : withGrayCode t dimensionality true = some fresh) (hlog : Covers log) :
    (∀ k, k + 1 < 2 ^ 32 → fresh.drawn log k = some (sample fresh.directionIntegers (gray (k + 1)))) ∧
    fresh.drawn log (2 ^ 32 - 1) = none ∧
    ∀ acts s, run (step log) fresh acts = some s →
      (∀ k, k + 1 < 2 ^ 32 → ∃ s', s.skipTo log k = some s' ∧ fresh.drawn log k = some s'.integerSequence ∧
        (s'.nextInt32Sequence log).map integerSequence =
          if .draw ∈ acts then fresh.drawn log (k + 1) else fresh.drawn log k) ∧
      s.skipTo log (2 ^ 32 - 1) = none := by
  have hlast : fresh.drawn log (2 ^ 32 - 1) = none := by
    have hg : fresh.useGrayCode = true := by
      obtain ⟨-, rfl⟩ := withGrayCode_eq hf
      rfl
    rw [drawn, show 2 ^ 32 - 1 + 1 = 4294967294 + 1 + 1 by omega, run_replicate,
      state_gray hf 4294967294 (by decide), Option.bind_some]
    exact Option.map_eq_none_iff.mpr (next_gray_last hg rfl (by change 4294967294 + 2 = 2 ^ 32; omega))
  refine ⟨fun k h => drawn_gray hf h, hlast, fun acts s hr => ⟨fun k h => ?_, ?_⟩⟩
  · obtain ⟨hd, hg, hfirst⟩ := run_keeps acts fresh hr
    have hfresh : fresh.useGrayCode = true ∧ fresh.firstDraw = true := by
      obtain ⟨-, rfl⟩ := withGrayCode_eq hf
      exact ⟨rfl, rfl⟩
    rw [hfresh.1] at hg
    refine ⟨_, skipTo_gray hlog hg h, by rw [drawn_gray hf h, hd], ?_⟩
    -- the state that the skip leaves
    generalize hs : { s with
      integerSequence := sample s.directionIntegers (gray (k + 1)), sequenceCounter := k } = s'
    have hg' : s'.useGrayCode = true := by rw [← hs, hg]
    have hc : s'.sequenceCounter = k := by rw [← hs]
    have hd' : s'.directionIntegers = fresh.directionIntegers := by rw [← hs, hd]
    have hv : s'.integerSequence = sample s'.directionIntegers (gray (k + 1)) := by rw [← hs]
    have hff : s'.firstDraw = s.firstDraw := by rw [← hs]
    by_cases ha : .draw ∈ acts
    · rw [show s.firstDraw = false by simpa [ha] using hfirst] at hff
      rw [if_pos ha]
      by_cases hk : k + 2 < 2 ^ 32
      · rw [next_gray hg' hff hc hv hk, Option.map_some, drawn_gray hf hk, hd']
      · rw [next_gray_last hg' hff (by omega), Option.map_none, show k + 1 = 2 ^ 32 - 1 by omega, hlast]
    · rw [show s.firstDraw = true by simpa [ha, hfresh.2] using hfirst] at hff
      rw [if_neg ha, nextInt32Sequence, hg', Bool.not_true, if_neg Bool.false_ne_true, if_pos hff, Option.map_some,
        drawn_gray hf h, hv, hd']
  · rw [skipTo, checkedSucc_eq_none (by decide), Option.bind_none]

/-- A generator of one dimension; the logarithm is the exact one. -/
theorem gray_spec_one : ∃ fresh : SobolRsg 1,
    withGrayCode ⟨fun _ => 0, fun _ => 0, fun _ _ => 0, fun _ => Nat.zero_le _⟩ 1 true = some fresh ∧
      fresh.drawn Nat.log2 2 = some (sample fresh.directionIntegers (gray 3)) :=
  ⟨_, rfl, (gray_spec rfl (show Covers Nat.log2 from fun n h₁ h₂ => ⟨Nat.lt_log2_self, (Nat.log2_lt h₁.ne').mpr h₂⟩)).1 2
    (by decide)⟩

/-- **A skip on a generator that has been drawn from goes one further**: after one draw and a skip to 0 the next draw is
not the `0`-th one. -/
theorem skipTo_drawn : ∃ fresh s : SobolRsg 1,
    withGrayCode ⟨fun _ => 0, fun _ => 0, fun _ _ => 0, fun _ => Nat.zero_le _⟩ 1 true = some fresh ∧
      run (step Nat.log2) fresh [.draw, .skipTo 0] = some s ∧
      (s.nextInt32Sequence Nat.log2).map integerSequence ≠ fresh.drawn Nat.log2 0 := by
  refine ⟨_, _, rfl, rfl, fun h => ?_⟩
  exact absurd (congrArg (Option.map (fun v => v 0)) h) (by decide +kernel)

/-! ## The plain mode -/

theorem skipTo_plain (hg : s.useGrayCode = false) (h : k + 1 < 2 ^ 32) : s.skipTo log k =
    some { s with integerSequence := sample s.directionIntegers (k + 1), sequenceCounter := k } := by
  rw [skipTo, checkedSucc_of_lt h, Option.bind_some, hg, if_neg Bool.false_ne_true]
  have hv : ∀ c, xorLoop (k + 1) (s.directionIntegers c) 0 0 = sample s.directionIntegers (k + 1) c := by
    intro c
    rw [xorLoop_eq, Nat.zero_xor, Nat.shiftRight_zero]
    rfl
  simp only [hv]

/-- **The state of a fresh generator in the plain mode after so many draws.** -/
theorem state_plain (hf : withGrayCode t dimensionality false = some fresh) : ∀ k, k < 2 ^ 32 →
    run (step log) fresh (List.replicate (k + 1) .draw) = some { fresh with
      sequenceCounter := k
      firstDraw := false
      integerSequence := sample fresh.directionIntegers (max k 1) }
  | 0, _     => by
    obtain ⟨-, rfl⟩ := withGrayCode_eq hf
    rw [run_replicate, List.replicate_zero, run, Option.bind_some, nextInt32Sequence, Bool.not_false, if_pos rfl,
      skipTo_plain rfl (show 0 + 1 < 2 ^ 32 by decide)]
    rfl
  | k + 1, h => by
    rw [run_replicate, state_plain hf k (by omega), Option.bind_some, nextInt32Sequence]
    have hg : fresh.useGrayCode = false := by
      obtain ⟨-, rfl⟩ := withGrayCode_eq hf
      rfl
    rw [hg, Bool.not_false, if_pos rfl, skipTo_plain rfl h, Option.bind_some, if_neg Bool.false_ne_true,
      checkedSucc_of_lt h, max_eq_left (Nat.le_add_left 1 k)]
    rfl

theorem sample_injective (hf : withGrayCode t dimensionality false = some fresh) {m : ℕ} (hm : m < 2 ^ 32)
    (hn : n < 2 ^ 32) (h : sample fresh.directionIntegers m = sample fresh.directionIntegers n) : m = n := by
  obtain ⟨hd, rfl⟩ := withGrayCode_eq hf
  have h : select (directions t 0) m = select (directions t 0) n := congrFun h ⟨0, hd⟩
  rw [directions_zero] at h
  exact select_reversing_injective 32 hm hn h

theorem drawn_plain (hf : withGrayCode t dimensionality false = some fresh) (h : k < 2 ^ 32) :
    fresh.drawn log k = some (sample fresh.directionIntegers (max k 1)) := by
  rw [drawn, state_plain hf k h, Option.map_some]

/-- **The plain mode**: the `k`-th draw is the sample of `k` exactly when it is not the first, which is the sample of
1; so two draws are the same sample exactly when they are the first two. -/
theorem plain_spec (hf : withGrayCode t dimensionality false = some fresh) :
    (∀ k, k < 2 ^ 32 → fresh.drawn log k = some (sample fresh.directionIntegers (max k 1)) ∧
      (fresh.drawn log k = some (sample fresh.directionIntegers k) ↔ k ≠ 0)) ∧
    ∀ i j, i < j → j < 2 ^ 32 → (fresh.drawn log i ≠ fresh.drawn log j ↔ ¬ (i = 0 ∧ j = 1)) := by
  refine ⟨fun k h => ⟨drawn_plain hf h, ?_⟩, fun i j hij hj => ?_⟩
  · rw [drawn_plain hf h, Option.some.injEq]
    refine ⟨fun he hk => ?_, fun hk => by rw [max_eq_left (Nat.one_le_iff_ne_zero.mpr hk)]⟩
    have := sample_injective hf (by omega) h he
    omega
  · rw [drawn_plain hf (hij.trans hj), drawn_plain hf hj, ne_eq, Option.some.injEq]
    refine not_congr ⟨fun he => ?_, ?_⟩
    · have := sample_injective hf (by omega) (by omega) he
      omega
    · rintro ⟨rfl, rfl⟩
      rfl

theorem plain_spec_one : ∃ fresh : SobolRsg 1,
    withGrayCode ⟨fun _ => 0, fun _ => 0, fun _ _ => 0, fun _ => Nat.zero_le _⟩ 1 false = some fresh ∧
      fresh.drawn Nat.log2 2 = some (sample fresh.directionIntegers 2) :=
  ⟨_, rfl, ((plain_spec rfl).1 2 (by decide)).1⟩

/-- **The first two draws in the plain mode are the same sample.** -/
theorem plain_repeats : ∃ fresh : SobolRsg 1,
    withGrayCode ⟨fun _ => 0, fun _ => 0, fun _ _ => 0, fun _ => Nat.zero_le _⟩ 1 false = some fresh ∧
      fresh.drawn Nat.log2 0 = fresh.drawn Nat.log2 1 ∧
      fresh.drawn Nat.log2 0 ≠ some (sample fresh.directionIntegers 0) := by
  refine ⟨_, rfl, rfl, fun h => ?_⟩
  exact absurd (congrArg (Option.map (fun v => v 0)) h) (by decide +kernel)

end SobolRsg
end Itofin
