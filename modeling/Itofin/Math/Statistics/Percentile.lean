import Mathlib.Algebra.Order.Field.Basic
import Mathlib.Data.List.Sort
import Mathlib.Data.Prod.Lex
import Mathlib.Order.Interval.Set.Defs
import Itofin.Lib.Quantile
import Itofin.Math.Statistics
/-!
# Percentile — the sorted samples and the scan over them

`percentile` and `top_percentile` of `GeneralStatistics`, in exact arithmetic.  They sort the samples once and keep a flag
that says so, which the next sample takes back; then a running sum of the weights is compared with a share of the total.

`Stores` is what every call keeps: the samples are those taken since the last reset, in some order, and where the flag is
set in increasing order.  So what a percentile is depends on the samples alone (`percentile_spec`).
-/
namespace Itofin.GeneralStatistics

open Quantile

variable {K : Type} [Field K] [LinearOrder K]

/-- The errors of a percentile; the scan reaches the end of no samples only. -/
inductive Refusal (K : Type) where
  | percentile (percent : K)
  | emptySampleSet
  | unreachable
deriving DecidableEq

/-- `a.0.total_cmp(&b.0).then(a.1.total_cmp(&b.1))` -/
def Before (a b : K × K) : Prop := a.1 < b.1 ∨ a.1 = b.1 ∧ a.2 ≤ b.2

instance : DecidableRel (Before (K := K)) := fun _ _ => inferInstanceAs (Decidable (_ ∨ _))

def sort (g : GeneralStatistics K) : GeneralStatistics K :=
  if !g.sorted then ⟨g.samples.insertionSort Before, true⟩ else g

def weightSum (g : GeneralStatistics K) : K := (g.samples.map Prod.snd).sum

def percentileTarget (g : GeneralStatistics K) (percent : K) : Except (Refusal K) (GeneralStatistics K × K) :=
  if percent ≤ 0 ∨ 1 < percent then .error (.percentile percent)
  else
    let sampleWeight := g.weightSum
    if sampleWeight ≤ 0 then .error .emptySampleSet else .ok (g.sort, percent * sampleWeight)

/-- `integral += weight; if integral >= target || i == last { return value; }` -/
def cumulativePick (target : K) : List (K × K) → K → Except (Refusal K) K
  | [], _                         => .error .unreachable
  | (value, weight) :: rest, integral =>
    if target ≤ integral + weight ∨ rest = [] then .ok value else cumulativePick target rest (integral + weight)

def percentile (g : GeneralStatistics K) (percent : K) : GeneralStatistics K × Except (Refusal K) K :=
  match g.percentileTarget percent with
  | .error e        => (g, .error e)
  | .ok (g, target) => (g, cumulativePick target g.samples 0)

def topPercentile (g : GeneralStatistics K) (percent : K) : GeneralStatistics K × Except (Refusal K) K :=
  match g.percentileTarget percent with
  | .error e        => (g, .error e)
  | .ok (g, target) => (g, cumulativePick target g.samples.reverse 0)

/-! ## Runs -/

inductive Call (K : Type) where
  | add (value weight : K)
  | sort
  | percentile (percent : K)
  | topPercentile (percent : K)
  | reset

/-- A call of the program, which goes on after an error. -/
def call (g : GeneralStatistics K) : Call K → GeneralStatistics K
  | .add value weight      => match g.addWeighted (value, weight) with
    | .ok g'   => g'
    | .error _ => g
  | .sort                  => g.sort
  | .percentile percent    => (g.percentile percent).1
  | .topPercentile percent => (g.topPercentile percent).1
  | .reset                 => .new

def run (calls : List (Call K)) : GeneralStatistics K := calls.foldl call .new

/-- The samples that are accepted. -/
def taken (s : Multiset (K × K)) : Call K → Multiset (K × K)
  | .add value weight => if 0 ≤ weight then (value, weight) ::ₘ s else s
  | .reset            => 0
  | _                 => s

/-- The samples since the last reset. -/
def held (calls : List (Call K)) : Multiset (K × K) := calls.foldl taken 0

/-- **What every call keeps.** -/
structure Stores (g : GeneralStatistics K) (s : Multiset (K × K)) : Prop where
  samples : (g.samples : Multiset (K × K)) = s
  sorted  : g.sorted = true → g.samples.Pairwise Before
  nonneg  : ∀ x ∈ s, 0 ≤ x.2

variable {g : GeneralStatistics K} {s : Multiset (K × K)} {l : List (K × K)} {percent target : K}

omit [Field K] in
theorem before_trans {a b c : K × K} (hab : Before a b) (hbc : Before b c) : Before a c := by
  rcases hab with hab | ⟨hab, hw⟩
  · rcases hbc with hbc | ⟨hbc, -⟩
    · exact .inl (hab.trans hbc)
    · exact .inl (hbc ▸ hab)
  · rcases hbc with hbc | ⟨hbc, hw'⟩
    · exact .inl (hab ▸ hbc)
    · exact .inr ⟨hab.trans hbc, hw.trans hw'⟩

omit [Field K] in
theorem before_total (a b : K × K) : Before a b ∨ Before b a := by
  rcases lt_trichotomy a.1 b.1 with h | h | h
  · exact .inl (.inl h)
  · exact (le_total a.2 b.2).imp (fun hw => .inr ⟨h, hw⟩) (fun hw => .inr ⟨h.symm, hw⟩)
  · exact .inr (.inl h)

omit [Field K] in
theorem le_of_before {a b : K × K} (h : Before a b) : a.1 ≤ b.1 := h.elim le_of_lt (fun h => h.1.le)

theorem Stores.sort (h : Stores g s) : Stores g.sort s ∧ g.sort.samples.Pairwise Before := by
  rw [GeneralStatistics.sort]
  split
  · have : Std.Total (Before (K := K)) := ⟨before_total⟩
    have : IsTrans (K × K) Before := ⟨fun _ _ _ => before_trans⟩
    have hsorted : (g.samples.insertionSort Before).Pairwise Before := List.pairwise_insertionSort Before g.samples
    have hperm := Multiset.coe_eq_coe.mpr (List.perm_insertionSort Before g.samples)
    exact ⟨⟨hperm.trans h.samples, fun _ => hsorted, h.nonneg⟩, hsorted⟩
  · rename_i hs
    exact ⟨h, h.sorted (by simpa using hs)⟩

theorem percentileTarget_cases (g : GeneralStatistics K) (percent : K) :
    (∃ e, g.percentileTarget percent = .error e) ∨ g.percentileTarget percent = .ok (g.sort, percent * g.weightSum) := by
  unfold percentileTarget
  split
  · exact .inl ⟨_, rfl⟩
  · dsimp only
    split
    · exact .inl ⟨_, rfl⟩
    · exact .inr rfl

theorem Stores.percentile (h : Stores g s) (percent : K) :
    Stores (g.percentile percent).1 s ∧ Stores (g.topPercentile percent).1 s := by
  unfold GeneralStatistics.percentile topPercentile
  rcases percentileTarget_cases g percent with ⟨e, he⟩ | he
  · rw [he]
    exact ⟨h, h⟩
  · rw [he]
    exact ⟨h.sort.1, h.sort.1⟩

theorem Stores.call (h : Stores g s) (c : Call K) : Stores (g.call c) (taken s c) := by
  cases c with
  | add value weight =>
    rw [GeneralStatistics.call, taken, addWeighted, checkSample]
    by_cases hw : 0 ≤ weight
    · rw [if_pos hw, if_pos hw]
      refine ⟨?_, fun hsorted => absurd hsorted Bool.false_ne_true, fun x hx => ?_⟩
      · rw [← h.samples, Multiset.cons_coe]
        exact Multiset.coe_eq_coe.mpr (List.perm_append_singleton (value, weight) g.samples)
      · rcases Multiset.mem_cons.mp hx with rfl | hx
        · exact hw
        · exact h.nonneg x hx
    · rw [if_neg hw, if_neg hw]
      exact h
  | sort                  => exact h.sort.1
  | percentile percent    => exact (h.percentile percent).1
  | topPercentile percent => exact (h.percentile percent).2
  | reset                 =>
    exact ⟨rfl, fun _ => List.Pairwise.nil, fun x hx => absurd hx (Multiset.notMem_zero x)⟩

theorem Stores.calls : ∀ (calls : List (Call K)) {g : GeneralStatistics K} {s : Multiset (K × K)}, Stores g s →
    Stores (calls.foldl GeneralStatistics.call g) (calls.foldl taken s)
  | [], _, _, h         => h
  | c :: calls, _, _, h => Stores.calls calls (h.call c)

theorem stores_run (calls : List (Call K)) : Stores (run calls) (held calls) :=
  Stores.calls calls ⟨rfl, fun _ => List.Pairwise.nil, fun x hx => absurd hx (Multiset.notMem_zero x)⟩

/-! ## The scan -/

theorem cumulativePick_reaches (target : K) : ∀ (rest before : List (K × K)), rest ≠ [] →
    (before = [] ∨ (before.map Prod.snd).sum < target) → target ≤ ((before ++ rest).map Prod.snd).sum →
    ∃ v, cumulativePick target rest (before.map Prod.snd).sum = .ok v ∧ Reaches (before ++ rest) target v
  | [], _, hne, _, _                                    => absurd rfl hne
  | (value, weight) :: rest, before, _, hbefore, htotal => by
    have hsum : ((before ++ [(value, weight)]).map Prod.snd).sum = (before.map Prod.snd).sum + weight := by
      rw [List.map_append, List.sum_append, List.map_singleton, List.sum_singleton]
    have happend : before ++ (value, weight) :: rest = before ++ [(value, weight)] ++ rest := by
      rw [List.append_assoc, List.singleton_append]
    rw [cumulativePick]
    by_cases hstop : target ≤ (before.map Prod.snd).sum + weight ∨ rest = []
    · rw [if_pos hstop]
      refine ⟨value, rfl, before, (value, weight), rest, rfl, rfl, hbefore, ?_⟩
      rcases hstop with hle | rfl
      · exact hle.trans_eq hsum.symm
      · exact htotal
    · rw [if_neg hstop, ← hsum]
      rw [happend] at htotal ⊢
      exact cumulativePick_reaches target rest _ (fun h => hstop (.inr h))
        (.inr (hsum ▸ not_le.mp (fun h => hstop (.inl h)))) htotal

variable [IsStrictOrderedRing K]

/-- The samples sorted have the quantile where the scan stops, from either end. -/
theorem cumulativePick_sorted (h : Stores g s) (hl : g.samples.Pairwise Before) (hne : g.samples ≠ [])
    (ht : target ≤ (s.map Prod.snd).sum) :
    (∃ v, cumulativePick target g.samples 0 = .ok v ∧ IsLeast (below s target) v) ∧
      ∃ v, cumulativePick target g.samples.reverse 0 = .ok v ∧ IsGreatest (above s target) v := by
  have hw : ∀ x ∈ g.samples, 0 ≤ x.2 := fun x hx => h.nonneg x (h.samples ▸ Multiset.mem_coe.mpr hx)
  have hrev : (g.samples.reverse : Multiset (K × K)) = s :=
    (Multiset.coe_eq_coe.mpr (List.reverse_perm g.samples)).trans h.samples
  have htotal : ∀ l : List (K × K), (l : Multiset (K × K)) = s → target ≤ ((([] : List (K × K)) ++ l).map Prod.snd).sum :=
    fun l hls => by rwa [← hls, Multiset.map_coe, Multiset.sum_coe] at ht
  constructor
  · obtain ⟨v, hv, hreach⟩ := cumulativePick_reaches target g.samples [] hne (.inl rfl) (htotal _ h.samples)
    exact ⟨v, hv, h.samples ▸ hreach.isLeast (hl.imp le_of_before) hw⟩
  · obtain ⟨v, hv, hreach⟩ := cumulativePick_reaches target g.samples.reverse [] (by simpa using hne) (.inl rfl)
      (htotal _ hrev)
    refine ⟨v, hv, hrev ▸ hreach.isGreatest (List.pairwise_reverse.mpr (hl.imp le_of_before)) (fun x hx => ?_)⟩
    exact hw x (List.mem_reverse.mp hx)

/-! ## Percentiles -/

/-- **What the percentiles of samples are.** -/
structure Percentiles (g : GeneralStatistics K) (s : Multiset (K × K)) : Prop where
  range    : ∀ p, p ∉ Set.Ioc 0 1 → (g.percentile p).2 = .error (.percentile p) ∧
    (g.topPercentile p).2 = .error (.percentile p)
  empty    : (s.map Prod.snd).sum ≤ 0 → ∀ p ∈ Set.Ioc 0 1, (g.percentile p).2 = .error .emptySampleSet ∧
    (g.topPercentile p).2 = .error .emptySampleSet
  least    : 0 < (s.map Prod.snd).sum → ∀ p ∈ Set.Ioc 0 1,
    ∃ v, (g.percentile p).2 = .ok v ∧ IsLeast (below s (p * (s.map Prod.snd).sum)) v
  greatest : 0 < (s.map Prod.snd).sum → ∀ p ∈ Set.Ioc 0 1,
    ∃ v, (g.topPercentile p).2 = .ok v ∧ IsGreatest (above s (p * (s.map Prod.snd).sum)) v

omit [IsStrictOrderedRing K] in
theorem Stores.weightSum (h : Stores g s) : g.weightSum = (s.map Prod.snd).sum := by
  rw [GeneralStatistics.weightSum, ← h.samples, Multiset.map_coe, Multiset.sum_coe]

theorem Stores.pick (h : Stores g s) (hs : 0 < (s.map Prod.snd).sum) (hp : percent ∈ Set.Ioc 0 1) :
    (∃ v, (g.percentile percent).2 = .ok v ∧ IsLeast (below s (percent * (s.map Prod.snd).sum)) v) ∧
      ∃ v, (g.topPercentile percent).2 = .ok v ∧ IsGreatest (above s (percent * (s.map Prod.snd).sum)) v := by
  have ht : g.percentileTarget percent = .ok (g.sort, percent * (s.map Prod.snd).sum) := by
    rw [percentileTarget, if_neg (not_or.mpr ⟨not_le.mpr hp.1, not_lt.mpr hp.2⟩), h.weightSum]
    exact if_neg (not_le.mpr hs)
  obtain ⟨hsort, hl⟩ := h.sort
  have hne : g.sort.samples ≠ [] := fun hnil => by
    rw [← hsort.samples, hnil] at hs
    exact lt_irrefl _ hs
  rw [GeneralStatistics.percentile, topPercentile, ht]
  exact cumulativePick_sorted hsort hl hne (mul_le_of_le_one_left hs.le hp.2)

theorem Stores.percentiles (h : Stores g s) : Percentiles g s where
  range p hp := by
    have ht : g.percentileTarget p = .error (.percentile p) := if_pos (by
      by_contra hc
      exact hp ⟨not_le.mp (fun h => hc (.inl h)), not_lt.mp (fun h => hc (.inr h))⟩)
    rw [GeneralStatistics.percentile, topPercentile, ht]
    exact ⟨rfl, rfl⟩
  empty hs p hp := by
    have ht : g.percentileTarget p = .error .emptySampleSet := by
      rw [percentileTarget, if_neg (not_or.mpr ⟨not_le.mpr hp.1, not_lt.mpr hp.2⟩)]
      exact if_pos (h.weightSum.trans_le hs)
    rw [GeneralStatistics.percentile, topPercentile, ht]
    exact ⟨rfl, rfl⟩
  least hs p hp := (h.pick hs hp).1
  greatest hs p hp := (h.pick hs hp).2

omit [IsStrictOrderedRing K] in
theorem Percentiles.eq_ok (h : Percentiles g s) {p v : K} :
    ((g.percentile p).2 = .ok v → 0 < (s.map Prod.snd).sum ∧ IsLeast (below s (p * (s.map Prod.snd).sum)) v) ∧
      ((g.topPercentile p).2 = .ok v → 0 < (s.map Prod.snd).sum ∧ IsGreatest (above s (p * (s.map Prod.snd).sum)) v) := by
  by_cases hp : p ∈ Set.Ioc 0 1
  · rcases le_or_gt (s.map Prod.snd).sum 0 with hs | hs
    · obtain ⟨hlow, htop⟩ := h.empty hs p hp
      exact ⟨fun hv => (nomatch hlow.symm.trans hv), fun hv => (nomatch htop.symm.trans hv)⟩
    · obtain ⟨u, hu, hleast⟩ := h.least hs p hp
      obtain ⟨w, hw, hgreatest⟩ := h.greatest hs p hp
      exact ⟨fun hv => ⟨hs, Except.ok.inj (hu.symm.trans hv) ▸ hleast⟩,
        fun hv => ⟨hs, Except.ok.inj (hw.symm.trans hv) ▸ hgreatest⟩⟩
  · obtain ⟨hlow, htop⟩ := h.range p hp
    exact ⟨fun hv => (nomatch hlow.symm.trans hv), fun hv => (nomatch htop.symm.trans hv)⟩

omit [IsStrictOrderedRing K] in
theorem Percentiles.unique {g' : GeneralStatistics K} (h : Percentiles g s) (h' : Percentiles g' s) (p : K) :
    (g'.percentile p).2 = (g.percentile p).2 ∧ (g'.topPercentile p).2 = (g.topPercentile p).2 := by
  by_cases hp : p ∈ Set.Ioc 0 1
  · rcases le_or_gt (s.map Prod.snd).sum 0 with hs | hs
    · exact ⟨(h'.empty hs p hp).1.trans (h.empty hs p hp).1.symm, (h'.empty hs p hp).2.trans (h.empty hs p hp).2.symm⟩
    · obtain ⟨v, hv, hleast⟩ := h.least hs p hp
      obtain ⟨v', hv', hleast'⟩ := h'.least hs p hp
      obtain ⟨w, hw, hgreatest⟩ := h.greatest hs p hp
      obtain ⟨w', hw', hgreatest'⟩ := h'.greatest hs p hp
      rw [hv, hv', hw, hw', hleast'.unique hleast, hgreatest'.unique hgreatest]
      exact ⟨rfl, rfl⟩
  · exact ⟨(h'.range p hp).1.trans (h.range p hp).1.symm, (h'.range p hp).2.trans (h.range p hp).2.symm⟩

end Itofin.GeneralStatistics
