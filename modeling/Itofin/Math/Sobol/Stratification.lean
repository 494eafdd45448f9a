import Itofin.Math.Sobol
import Mathlib.Algebra.Order.Ring.Rat
import Mathlib.Tactic.NormNum
import Mathlib.Tactic.Linarith
import Mathlib.Tactic.Positivity
/-!
# Sobol — the samples below a power of two

The direction integers of admissible initializers are stairs (`directions_stairs`): the recurrence puts the lowest one of each
a digit below that of the one before.  So the samples below a power of two are, in each coordinate, the multiples of the
complementary power, and no draw is zero.
-/
namespace Itofin

open Gray Machine

/-- The initializers of a dimension after the first: odd and of no more digits than their place, in the highest digits. -/
structure Free.Admissible (t : Free) (k : ℕ) : Prop where
  degree_pos : 0 < t.degree k
  odd        : ∀ l < t.degree k, ∃ m, m % 2 = 1 ∧ m < 2 ^ (l + 1) ∧ t.initial k l = m <<< (31 - l)

namespace SobolRsg

variable {dimensionality : ℕ} {t : Free} {log : ℕ → ℕ} {fresh s s' : SobolRsg dimensionality}

/-- `next_sequence`: the draw, and its coordinates as fractions; the products are exact in the source. -/
def nextSequence (log : ℕ → ℕ) (s : SobolRsg dimensionality) : Option (SobolRsg dimensionality × (Fin dimensionality → ℚ)) :=
  (s.nextInt32Sequence log).map (fun s => (s, fun k => (s.integerSequence k : ℚ) * (1 / 2 / 2147483648)))

/-- Direction integers so far: words whose lowest ones go down the digits. -/
structure Descending (ds : List ℕ) : Prop where
  lowest : ∀ l < ds.length, LowestOne (31 - l) (ds.getD l 0)
  lt     : ∀ d ∈ ds, d < 2 ^ 32

theorem Descending.getD_lt {ds : List ℕ} (h : Descending ds) (l : ℕ) : ds.getD l 0 < 2 ^ 32 := by
  rcases lt_or_ge l ds.length with hl | hl
  · rw [List.getD_eq_getElem _ _ hl]
    exact h.lt _ (List.getElem_mem hl)
  · rw [List.getD_eq_default _ _ hl]
    decide

/-- The exclusive-or over the inner coefficients keeps the lowest one: it is with words whose lowest ones are further up. -/
theorem recurrence_keeps (gk ppmt : ℕ) {ds : List ℕ} (h : Descending ds) (hlen : ds.length < 32) :
    ∀ (js : List ℕ) (n : ℕ), (∀ j ∈ js, 0 < j ∧ j ≤ ds.length) → LowestOne (31 - ds.length) n → n < 2 ^ 32 →
      LowestOne (31 - ds.length) (recurrence gk ppmt ds js n) ∧ recurrence gk ppmt ds js n < 2 ^ 32
  | [], _, _, hn, hlt       => ⟨hn, hlt⟩
  | j :: js, n, hjs, hn, hlt => by
    obtain ⟨hj, hjle⟩ := hjs j List.mem_cons_self
    have hup : ds.getD (ds.length - j) 0 % 2 ^ (31 - ds.length + 1) = 0 :=
      (h.lowest (ds.length - j) (by omega)).mod_eq_zero (by omega)
    rw [recurrence]
    refine recurrence_keeps gk ppmt h hlen js _ (fun i hi => hjs i (List.mem_cons_of_mem _ hi)) ?_ ?_
    · split
      · exact hn.xor hup
      · exact hn
    · split
      · exact Nat.xor_lt_two_pow hlt (h.getD_lt _)
      · exact hlt

theorem Descending.concat {gk ppmt : ℕ} {ds : List ℕ} (h : Descending ds) (hgk : 0 < gk) (hle : gk ≤ ds.length)
    (hlen : ds.length < 32) :
    Descending (ds ++ [recurrence gk ppmt ds (List.range' 1 (gk - 1)) (ds.getD (ds.length - gk) 0 >>> gk) ^^^
      ds.getD (ds.length - gk) 0]) := by
  have hlast := h.lowest (ds.length - gk) (by omega)
  have hshift : LowestOne (31 - ds.length) (ds.getD (ds.length - gk) 0 >>> gk) := by
    apply LowestOne.shiftRight
    rwa [show 31 - ds.length + gk = 31 - (ds.length - gk) by omega]
  obtain ⟨hlow, hlt⟩ := recurrence_keeps gk ppmt h hlen (List.range' 1 (gk - 1)) _
    (fun j hj => by rw [List.mem_range'_1] at hj; omega) hshift
    (lt_of_le_of_lt (Nat.shiftRight_le _ _) (h.getD_lt _))
  refine ⟨fun l hl => ?_, fun d hd => ?_⟩
  · rw [List.length_append, List.length_singleton] at hl
    rcases Nat.lt_succ_iff_lt_or_eq.mp hl with hl | rfl
    · rw [List.getD_append _ _ _ _ hl]
      exact h.lowest l hl
    · rw [List.getD_append_right _ _ _ _ (Nat.le_refl _), Nat.sub_self]
      exact hlow.xor (hlast.mod_eq_zero (by omega))
  · rcases List.mem_append.mp hd with hd | hd
    · exact h.lt d hd
    · rw [List.mem_singleton.mp hd]
      exact Nat.xor_lt_two_pow hlt (h.getD_lt _)

theorem extend_descending {gk ppmt : ℕ} (hgk : 0 < gk) : ∀ (m : ℕ) (ds : List ℕ), Descending ds → gk ≤ ds.length →
    ds.length + m ≤ 32 → Descending (extend gk ppmt m ds)
  | 0, _, h, _, _        => h
  | m + 1, ds, h, hle, hlen => by
    refine extend_descending hgk m _ (h.concat hgk hle (by omega)) ?_ ?_ <;>
      · rw [List.length_append, List.length_singleton]
        omega

theorem initial_descending {k : ℕ} (ht : t.Admissible k) :
    Descending ((List.range (t.degree k)).map (t.initial k)) := by
  have hdegree := t.degree_le k
  refine ⟨fun l hl => ?_, fun d hd => ?_⟩
  · rw [List.length_map, List.length_range] at hl
    obtain ⟨m, hodd, -, heq⟩ := ht.odd l hl
    rw [List.getD_eq_getElem _ _ (by simpa using hl), List.getElem_map, List.getElem_range, heq]
    exact lowestOne_shiftLeft hodd _
  · obtain ⟨l, hl, rfl⟩ := List.mem_map.mp hd
    rw [List.mem_range] at hl
    obtain ⟨m, -, hlt, heq⟩ := ht.odd l hl
    rw [heq, Nat.shiftLeft_eq, show (2 : ℕ) ^ 32 = 2 ^ (l + 1) * 2 ^ (31 - l) by rw [← pow_add]; congr 1; omega]
    exact Nat.mul_lt_mul_of_pos_right hlt (Nat.two_pow_pos _)

/-- **Every direction integer has its lowest one at its place**, and is a word. -/
theorem directions_descending : ∀ k, (0 < k → t.Admissible k) → Descending (directions t k)
  | 0, _      => by
    refine ⟨fun l hl => ?_, fun d hd => ?_⟩
    · rw [directions_length] at hl
      rw [directions, List.getD_eq_getElem _ _ (by simpa using hl), List.getElem_map, List.getElem_range]
      exact lowestOne_shiftLeft rfl _
    · obtain ⟨l, -, rfl⟩ := List.mem_map.mp hd
      rw [Nat.shiftLeft_eq, Nat.one_mul]
      exact Nat.pow_lt_pow_right (by decide) (by omega)
  | k + 1, ht => by
    have ht := ht (Nat.succ_pos k)
    have hdegree := t.degree_le (k + 1)
    refine extend_descending ht.degree_pos _ _ (initial_descending ht) ?_ ?_
    · rw [List.length_map, List.length_range]
    · rw [List.length_map, List.length_range]
      omega

theorem Descending.stairs {ds : List ℕ} (h : Descending ds) (hlen : ds.length = 32) : Stairs 32 ds :=
  stairs_of_getD 32 ds hlen.le h.lowest

/-- The number whose digits select the `n`-th sample. -/
def order (useGrayCode : Bool) (n : ℕ) : ℕ := if useGrayCode then gray n else n

theorem order_ne_zero {useGrayCode : Bool} {n : ℕ} (h : n ≠ 0) : order useGrayCode n ≠ 0 := by
  cases useGrayCode
  · exact h
  · exact gray_ne_zero h

theorem order_lt {useGrayCode : Bool} {m n : ℕ} (h : n < 2 ^ m) : order useGrayCode n < 2 ^ m := by
  cases useGrayCode
  · exact h
  · exact gray_lt h

theorem order_perm (useGrayCode : Bool) (m : ℕ) : ((List.range (2 ^ m)).map (order useGrayCode)).Perm (List.range (2 ^ m)) := by
  cases useGrayCode
  · exact (List.map_id _).symm ▸ List.Perm.refl _
  · exact gray_perm m

/-! ## Draws -/

/-- The samples are numbered from the one after the counter. -/
def Numbered (s : SobolRsg dimensionality) : Prop :=
  s.sequenceCounter + 1 < 2 ^ 32 ∧ s.integerSequence = sample s.directionIntegers (gray (s.sequenceCounter + 1))

theorem skipTo_lt {k : ℕ} (h : s.skipTo log k = some s') : k + 1 < 2 ^ 32 := by
  by_contra hk
  rw [skipTo, checkedSucc_eq_none (not_lt.mp hk), Option.bind_none] at h
  exact Option.some_ne_none _ h.symm

theorem skipTo_eq (hlog : Covers log) {k : ℕ} (hk : k + 1 < 2 ^ 32) : s.skipTo log k = some { s with
    integerSequence := sample s.directionIntegers (order s.useGrayCode (k + 1)), sequenceCounter := k } := by
  cases hg : s.useGrayCode
  · rw [skipTo_plain hg hk, hg]
    rfl
  · rw [skipTo_gray hlog hg hk, hg]
    rfl

theorem skipTo_numbered (hlog : Covers log) (hg : s.useGrayCode = true) {k : ℕ} (h : s.skipTo log k = some s') :
    Numbered s' := by
  have hk := skipTo_lt h
  rw [skipTo_gray hlog hg hk] at h
  obtain rfl := Option.some.inj h
  exact ⟨hk, rfl⟩

theorem next_numbered (hg : s.useGrayCode = true) (hs : Numbered s) (h : s.nextInt32Sequence log = some s') :
    Numbered s' := by
  cases hfirst : s.firstDraw
  · by_cases hk : s.sequenceCounter + 2 < 2 ^ 32
    · rw [next_gray hg hfirst rfl hs.2 hk] at h
      obtain rfl := Option.some.inj h
      exact ⟨hk, rfl⟩
    · have hlast := hs.1
      rw [next_gray_last hg hfirst (by omega)] at h
      exact absurd h.symm (Option.some_ne_none _)
  · rw [nextInt32Sequence, hg, Bool.not_true, if_neg Bool.false_ne_true, if_pos hfirst] at h
    obtain rfl := Option.some.inj h
    exact hs

theorem run_numbered (hlog : Covers log) : ∀ (acts : List Act) (s : SobolRsg dimensionality), s.useGrayCode = true →
    Numbered s → run (step log) s acts = some s' → Numbered s'
  | [], s, _, hs, h        => by
    obtain rfl := Option.some.inj h
    exact hs
  | a :: acts, s, hg, hs, h => by
    obtain ⟨m, hm, hrest⟩ := run_cons.1 h
    cases a with
    | draw => exact run_numbered hlog acts m ((next_keeps hm).2.1.trans hg) (next_numbered hg hs hm) hrest
    | skipTo skip => exact run_numbered hlog acts m ((skipTo_keeps hm).2.1.trans hg) (skipTo_numbered hlog hg hm) hrest

theorem fresh_numbered (hf : withGrayCode t dimensionality true = some fresh) : Numbered fresh := by
  obtain ⟨-, rfl⟩ := withGrayCode_eq hf
  refine ⟨(by decide : 0 + 1 < 2 ^ 32), funext (fun c => ?_)⟩
  have hfirst : select (directions t c) (gray 1) = (directions t c).getD 0 0 := select_two_pow _ 0
  exact hfirst.symm

theorem drawn_sample {useGrayCode : Bool} (hlog : Covers log) (hf : withGrayCode t dimensionality useGrayCode = some fresh)
    {acts : List Act} (hr : run (step log) fresh acts = some s) (h : s.nextInt32Sequence log = some s') :
    ∃ n, n ≠ 0 ∧ n < 2 ^ 32 ∧ s'.integerSequence = sample fresh.directionIntegers (order useGrayCode n) := by
  obtain ⟨hd, hg, -⟩ := run_keeps acts fresh hr
  have hmode : fresh.useGrayCode = useGrayCode := by
    obtain ⟨-, rfl⟩ := withGrayCode_eq hf
    rfl
  rw [hmode] at hg
  rw [← hd]
  cases useGrayCode
  · rw [nextInt32Sequence, hg, Bool.not_false, if_pos rfl] at h
    obtain ⟨m, hm, h⟩ := Option.bind_eq_some_iff.mp h
    have hk := skipTo_lt hm
    rw [skipTo_plain hg hk] at hm
    obtain rfl := Option.some.inj hm
    refine ⟨s.sequenceCounter + 1, Nat.succ_ne_zero _, hk, ?_⟩
    -- a draw after the first one counts, and leaves the sample
    cases hfirst : s.firstDraw
    · rw [if_neg (by simp [hfirst])] at h
      obtain ⟨c, -, rfl⟩ := Option.map_eq_some_iff.mp h
      rfl
    · rw [if_pos (by simp [hfirst])] at h
      obtain rfl := Option.some.inj h
      rfl
  · have hs := next_numbered hg (run_numbered hlog acts fresh hmode (fresh_numbered hf) hr) h
    rw [← (next_keeps h).1]
    exact ⟨s'.sequenceCounter + 1, Nat.succ_ne_zero _, hs.1, hs.2⟩

/-- **The stratification of the samples**, in both modes: every direction integer has its lowest one at its place; the
samples are numbered by what a skip goes to; in each coordinate those below a power of two are the multiples of the
complementary power, each once; and over every run of draws and skips no draw is zero, or outside the open unit interval. -/
theorem stratified {useGrayCode : Bool} (ht : ∀ k, 0 < k → k < dimensionality → t.Admissible k) (hlog : Covers log)
    (hf : withGrayCode t dimensionality useGrayCode = some fresh) :
    (∀ k l, l < 32 → LowestOne (31 - l) ((fresh.directionIntegers k).getD l 0)) ∧
    (∀ n, n + 1 < 2 ^ 32 → (fresh.skipTo log n).map integerSequence =
      some (sample fresh.directionIntegers (order useGrayCode (n + 1)))) ∧
    (∀ m ≤ 32, ∀ k, ((List.range (2 ^ m)).map (fun n => sample fresh.directionIntegers (order useGrayCode n) k)).Perm
      ((List.range (2 ^ m)).map (· * 2 ^ (32 - m)))) ∧
    ∀ acts s s' x, run (step log) fresh acts = some s → s.nextSequence log = some (s', x) →
      ∀ k, s'.integerSequence k ≠ 0 ∧ 0 < x k ∧ x k < 1 := by
  have hfresh := (withGrayCode_eq hf).2
  have hmode : fresh.useGrayCode = useGrayCode := by rw [hfresh]
  have hdirections : ∀ k, fresh.directionIntegers k = directions t k := by
    intro k
    rw [hfresh]
  have hdesc : ∀ k, Descending (fresh.directionIntegers k) := by
    intro k
    rw [hdirections]
    exact directions_descending k (fun hk => ht k hk k.isLt)
  have hlength : ∀ k, (fresh.directionIntegers k).length = 32 := fun k => by rw [hdirections, directions_length]
  have hstairs : ∀ k, Stairs 32 (fresh.directionIntegers k) := fun k => (hdesc k).stairs (hlength k)
  refine ⟨fun k l hl => (hdesc k).lowest l (by rwa [hlength]), fun n hn => ?_, fun m hm k => ?_, ?_⟩
  · rw [skipTo_eq hlog hn, Option.map_some, hmode]
  · have hmap := (order_perm useGrayCode m).map (select (fresh.directionIntegers k))
    rw [List.map_map] at hmap
    exact hmap.trans (select_perm (hstairs k) (hdesc k).lt (by rwa [hlength]))
  · intro acts s s' x hr hnext k
    obtain ⟨s', hdraw, heq⟩ := Option.map_eq_some_iff.mp hnext
    obtain ⟨rfl, rfl⟩ := Prod.mk.inj heq
    obtain ⟨n, h₀, hn, hv⟩ := drawn_sample hlog hf hr hdraw
    have hne : s'.integerSequence k ≠ 0 := by
      rw [hv]
      exact select_ne_zero (hstairs k) (order_ne_zero h₀) (by rw [hlength]; exact order_lt hn)
    have hlt : s'.integerSequence k < 2 ^ 32 := by
      rw [hv]
      exact select_lt (hdesc k).lt _
    have hpos : (0 : ℚ) < s'.integerSequence k := by exact_mod_cast Nat.pos_of_ne_zero hne
    have hword : (s'.integerSequence k : ℚ) < 4294967296 := by exact_mod_cast hlt
    refine ⟨hne, by positivity, ?_⟩
    change (s'.integerSequence k : ℚ) * (1 / 2 / 2147483648) < 1
    linarith

/-- Two dimensions, the second one with the polynomial of degree one. -/
theorem stratified_two : ∃ fresh : SobolRsg 2,
    withGrayCode ⟨fun _ => 1, fun _ => 0, fun _ l => 1 <<< (31 - l), fun _ => by decide⟩ 2 true = some fresh ∧
      ((List.range (2 ^ 3)).map (fun n => sample fresh.directionIntegers (order true n) 1)).Perm
        ((List.range (2 ^ 3)).map (· * 2 ^ (32 - 3))) :=
  ⟨_, rfl, (stratified (fun _ _ _ => ⟨Nat.one_pos, fun _ _ => ⟨1, rfl, Nat.one_lt_two_pow (Nat.succ_ne_zero _), rfl⟩⟩)
    (show Covers Nat.log2 from fun n h₁ h₂ => ⟨Nat.lt_log2_self, (Nat.log2_lt h₁.ne').mpr h₂⟩) rfl).2.2.1 3 (by decide) 1⟩

end SobolRsg
end Itofin
