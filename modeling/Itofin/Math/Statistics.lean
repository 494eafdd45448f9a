import Mathlib.Algebra.Order.Ring.Rat
import Itofin.Lib.Moments
/-!
# Statistics — running moments and stored samples

`IncrementalStatistics` and `GeneralStatistics` of `math/statistics`, in exact arithmetic: the first keeps running moments
and the second every sample.  A quotient by zero is not a number, which no later step of these functions tests for, so it
ends a computation as an error does (`Failure.notANumber`).

`Summarises` says what the running moments are: the sums of the powers of the deviations from the mean.  A step keeps it
(`Summarises.add`), so the statistics of the two agree (`agrees`), as those of any order of the samples do.
-/
namespace Itofin

open Moments

inductive Failure (K : Type) where
  | message (text : String)
  | negativeWeight (weight : K)
  | notANumber
deriving DecidableEq

variable {K : Type}

def require (condition : Prop) [Decidable condition] (text : String) : Except (Failure K) Unit :=
  if condition then .ok () else .error (.message text)

theorem ok_bind {α β : Type} (a : α) (f : α → Except (Failure K) β) : (Except.ok a >>= f) = f a := rfl

theorem require_bind {β : Type} (condition : Prop) [Decidable condition] (text : String)
    (f : Unit → Except (Failure K) β) :
    (require condition text >>= f) = if condition then f () else .error (.message text) := by
  unfold require
  split <;> rfl

variable [Field K] [LinearOrder K]

/-- `num / den` -/
def ratio (num den : K) : Except (Failure K) K := if den = 0 then .error .notANumber else .ok (num / den)

/-- `check_sample`, where every value is a number. -/
def checkSample (weight : K) : Except (Failure K) Unit :=
  if 0 ≤ weight then .ok () else .error (.negativeWeight weight)

/-! ## Running moments -/

structure IncrementalStatistics (K : Type) where
  count : ℕ
  weightSum : K
  mean : K
  m2 : K
  m3 : K
  m4 : K
  min : K
  max : K
  downsideCount : ℕ
  downsideWeightSum : K
  downsideSecondMomentSum : K

namespace IncrementalStatistics

def new : IncrementalStatistics K := ⟨0, 0, 0, 0, 0, 0, 0, 0, 0, 0, 0⟩

/-- `if weight > 0.0 { .. }`: the moments, each from the lower ones before the sample. -/
def addMoments (s : IncrementalStatistics K) (value weight : K) : IncrementalStatistics K :=
  if 0 < weight then
    let oldWeightSum := s.weightSum
    let weightSum := s.weightSum + weight
    let delta := value - s.mean
    let shift := delta * weight / weightSum
    { s with
      weightSum := weightSum
      m4 := s.m4 + (weight * delta ^ 4 * oldWeightSum *
            (oldWeightSum * oldWeightSum - oldWeightSum * weight + weight * weight) / weightSum ^ 3 +
          6 * shift * shift * s.m2 - 4 * shift * s.m3)
      m3 := s.m3 + (weight * delta ^ 3 * oldWeightSum * (oldWeightSum - weight) / (weightSum * weightSum) -
          3 * shift * s.m2)
      m2 := s.m2 + weight * delta * (delta - shift)
      mean := s.mean + shift }
  else s

/-- `if value < 0.0 { .. }` -/
def addDownside (s : IncrementalStatistics K) (value weight : K) : IncrementalStatistics K :=
  if value < 0 then
    { s with
      downsideCount := s.downsideCount + 1
      downsideWeightSum := s.downsideWeightSum + weight
      downsideSecondMomentSum := s.downsideSecondMomentSum + weight * value * value }
  else s

def addWeighted (s : IncrementalStatistics K) (sample : K × K) : Except (Failure K) (IncrementalStatistics K) := do
  checkSample sample.2
  let s := { s with
    min := if s.count = 0 then sample.1 else s.min ⊓ sample.1
    max := if s.count = 0 then sample.1 else s.max ⊔ sample.1
    count := s.count + 1 }
  .ok ((s.addMoments sample.1 sample.2).addDownside sample.1 sample.2)

def addSequenceWeighted (s : IncrementalStatistics K) (values : List (K × K)) :
    Except (Failure K) (IncrementalStatistics K) :=
  values.foldlM addWeighted s

/-- `central_moment` -/
def centralMoment (s : IncrementalStatistics K) (m : K) : Except (Failure K) K := ratio m s.weightSum

/-- `mean` -/
def getMean (s : IncrementalStatistics K) : Except (Failure K) K := do
  require (0 < s.weightSum) "sample weight is 0: insufficient"
  .ok s.mean

def variance (s : IncrementalStatistics K) : Except (Failure K) K := do
  require (0 < s.weightSum) "sample weight is 0: insufficient"
  require (1 < s.count) "sample number <= 1: insufficient"
  let n : K := s.count
  let m2 ← s.centralMoment s.m2
  .ok (n / (n - 1) * m2)

/-- The third moment that `skewness` divides by a power of the second. -/
def skewnessNumerator (s : IncrementalStatistics K) : Except (Failure K) K := do
  require (2 < s.count) "sample number <= 2: insufficient"
  s.centralMoment s.m3

def kurtosis (s : IncrementalStatistics K) : Except (Failure K) K := do
  require (3 < s.count) "sample number <= 3: insufficient"
  let n : K := s.count
  let m2 ← s.centralMoment s.m2
  let m4 ← s.centralMoment s.m4
  let quotient ← ratio m4 (m2 * m2)
  let g2 := quotient - 3
  let r1 := (n - 1) / (n - 2)
  let r2 := (n + 1) / (n - 3)
  let r3 := (n - 1) / (n - 3)
  .ok (((3 + g2) * r2 - 3 * r3) * r1)

def downsideVariance (s : IncrementalStatistics K) : Except (Failure K) K := do
  require (0 < s.downsideWeightSum) "sample weight is 0: insufficient"
  require (1 < s.downsideCount) "sample number <= 1: insufficient"
  let n : K := s.downsideCount
  ratio (n / (n - 1) * s.downsideSecondMomentSum) s.downsideWeightSum

end IncrementalStatistics

/-! ## Stored samples -/

structure GeneralStatistics (K : Type) where
  samples : List (K × K)
  sorted : Bool

namespace GeneralStatistics

def new : GeneralStatistics K := ⟨[], true⟩

def addWeighted (g : GeneralStatistics K) (sample : K × K) : Except (Failure K) (GeneralStatistics K) := do
  checkSample sample.2
  .ok ⟨g.samples ++ [sample], false⟩

def addSequenceWeighted (g : GeneralStatistics K) (values : List (K × K)) : Except (Failure K) (GeneralStatistics K) :=
  values.foldlM addWeighted g

/-- `for &(x, w) in &self.samples { if in_range(x) { num += f(x) * w; den += w; n += 1; } }` -/
def expectationLoop (f : K → K) (inRange : K → Bool) : List (K × K) → K → K → ℕ → K × K × ℕ
  | [], num, den, n          => (num, den, n)
  | (x, w) :: rest, num, den, n =>
    if inRange x then expectationLoop f inRange rest (num + f x * w) (den + w) (n + 1)
    else expectationLoop f inRange rest num den n

/-- `expectation_value`: the value, a quotient, and how many samples are in range. -/
def expectationValue (g : GeneralStatistics K) (f : K → K) (inRange : K → Bool) : Option (Except (Failure K) K × ℕ) :=
  let (num, den, n) := expectationLoop f inRange g.samples 0 0 0
  if n = 0 then none else some (ratio num den, n)

/-- `expectation_value(f, |_| true).expect(..)`, which panics on an empty sample set. -/
def expectAll (g : GeneralStatistics K) (f : K → K) : Except (Failure K) K :=
  match g.expectationValue f (fun _ => true) with
  | none            => .error (.message "sample set is not empty")
  | some (value, _) => value

def mean (g : GeneralStatistics K) : Except (Failure K) K := do
  require (0 < g.samples.length) "empty sample set"
  g.expectAll (fun x => x)

def variance (g : GeneralStatistics K) : Except (Failure K) K := do
  require (1 < g.samples.length) "sample number <= 1: insufficient"
  let n : K := g.samples.length
  let mean ← g.mean
  let s2 ← g.expectAll (fun x => let d := x - mean; d * d)
  .ok (s2 * n / (n - 1))

/-- The third moment that `skewness` divides by the cube of the deviation. -/
def skewnessNumerator (g : GeneralStatistics K) : Except (Failure K) K := do
  require (2 < g.samples.length) "sample number <= 2: insufficient"
  let mean ← g.mean
  g.expectAll (fun x => let d := x - mean; d * d * d)

def kurtosis (g : GeneralStatistics K) : Except (Failure K) K := do
  require (3 < g.samples.length) "sample number <= 3: insufficient"
  let n : K := g.samples.length
  let mean ← g.mean
  let fourth ← g.expectAll (fun x => let d := x - mean; let d2 := d * d; d2 * d2)
  let sigma2 ← g.variance
  let c1 := (n / (n - 1)) * (n / (n - 2)) * ((n + 1) / (n - 3))
  let c2 := 3 * ((n - 1) / (n - 2)) * ((n - 1) / (n - 3))
  let quotient ← ratio fourth (sigma2 * sigma2)
  .ok (c1 * quotient - c2)

/-- `regret` of the risk statistics over the stored samples. -/
def regret (g : GeneralStatistics K) (target : K) : Except (Failure K) K :=
  match g.expectationValue (fun x => let d := x - target; d * d) (fun x => x < target) with
  | none            => .error (.message "samples under target <= 1: insufficient")
  | some (value, n) => do
    require (1 < n) "samples under target <= 1: insufficient"
    let value ← value
    let n : K := n
    .ok (n / (n - 1) * value)

/-- `downside_variance` of the risk statistics. -/
def downsideVariance (g : GeneralStatistics K) : Except (Failure K) K := g.regret 0

end GeneralStatistics

/-! ## What the running moments are -/

namespace IncrementalStatistics

/-- The samples whose values are under the target. -/
def under (target : K) (l : List (K × K)) : List (K × K) := l.filter (fun p => decide (p.1 < target))

/-- The running moments of a list of samples: the sums of the powers of the deviations from the mean. -/
structure HasMoments (s : IncrementalStatistics K) (l : List (K × K)) : Prop where
  weightSum : s.weightSum = total l
  mean : central 1 s.mean l = 0
  m2 : s.m2 = central 2 s.mean l
  m3 : s.m3 = central 3 s.mean l
  m4 : s.m4 = central 4 s.mean l

/-- The running sums over the negative ones of a list of samples. -/
structure HasDownside (s : IncrementalStatistics K) (l : List (K × K)) : Prop where
  count : s.downsideCount = (under 0 l).length
  weightSum : s.downsideWeightSum = total (under 0 l)
  secondMomentSum : s.downsideSecondMomentSum = central 2 0 (under 0 l)

/-- **What the accumulator holds after a list of samples.** -/
structure Summarises (s : IncrementalStatistics K) (l : List (K × K)) : Prop where
  count : s.count = l.length
  moments : HasMoments s l
  downside : HasDownside s l

variable {s : IncrementalStatistics K} {l l' values : List (K × K)} {p : K × K} {x w : K}

theorem Summarises.new : Summarises (new : IncrementalStatistics K) [] := by
  refine ⟨rfl, ?_, ?_⟩ <;> constructor <;> simp [IncrementalStatistics.new, total, central, under]

theorem addDownside_keeps (s : IncrementalStatistics K) (x w : K) : (s.addDownside x w).count = s.count ∧
    (HasMoments (s.addDownside x w) l ↔ HasMoments s l) := by
  unfold addDownside
  split
  · exact ⟨rfl, fun h => ⟨h.1, h.2, h.3, h.4, h.5⟩, fun h => ⟨h.1, h.2, h.3, h.4, h.5⟩⟩
  · exact ⟨rfl, Iff.rfl⟩

theorem addMoments_keeps (s : IncrementalStatistics K) (x w : K) : (s.addMoments x w).count = s.count ∧
    (HasDownside (s.addMoments x w) l ↔ HasDownside s l) := by
  unfold addMoments
  split
  · exact ⟨rfl, fun h => ⟨h.1, h.2, h.3⟩, fun h => ⟨h.1, h.2, h.3⟩⟩
  · exact ⟨rfl, Iff.rfl⟩

theorem HasDownside.add (h : HasDownside s l) (x w : K) : HasDownside (s.addDownside x w) (l ++ [(x, w)]) := by
  have hu : under 0 (l ++ [(x, w)]) = under 0 l ++ if x < 0 then [(x, w)] else [] := by
    rw [under, List.filter_append, List.filter_singleton, Bool.cond_decide]
    rfl
  unfold addDownside
  split
  case isTrue hx =>
    rw [if_pos hx] at hu
    refine ⟨?_, ?_, ?_⟩
    · rw [hu, List.length_append, List.length_singleton, h.count]
    · rw [hu, total_append, h.weightSum]
    · rw [hu, central_append, h.secondMomentSum]
      ring
  case isFalse hx =>
    rw [if_neg hx, List.append_nil] at hu
    exact ⟨by rw [hu, h.count], by rw [hu, h.weightSum], by rw [hu, h.secondMomentSum]⟩

theorem total_nonneg [IsStrictOrderedRing K] (h : ∀ p ∈ l, 0 ≤ p.2) : 0 ≤ total l :=
  List.sum_nonneg (fun w hw => by
    obtain ⟨p, hp, rfl⟩ := List.mem_map.mp hw
    exact h p hp)

/-- **The moments in one pass**: the recurrences are those of the sums about the moved mean. -/
theorem HasMoments.add [IsStrictOrderedRing K] (h : HasMoments s l) (hl : ∀ p ∈ l, 0 ≤ p.2) (hw : 0 ≤ w) :
    HasMoments (s.addMoments x w) (l ++ [(x, w)]) := by
  unfold addMoments
  split
  case isTrue hw =>
    have hne : total l + w ≠ 0 := (add_pos_of_nonneg_of_pos (total_nonneg hl) hw).ne'
    have hs : (x - s.mean) * w / (s.weightSum + w) = shift s.mean l (x, w) := by rw [h.weightSum, shift]
    refine ⟨?_, ?_, ?_, ?_, ?_⟩ <;> dsimp only
    · rw [total_append, h.weightSum]
    · rw [hs]
      exact one_pass_one h.mean hne
    · rw [hs, one_pass_two h.mean hne, h.m2]
    · rw [hs, one_pass_three h.mean hne, h.m3, h.m2, h.weightSum]
    · rw [hs, one_pass_four h.mean hne, h.m4, h.m3, h.m2, h.weightSum]
  case isFalse hn =>
    obtain rfl : w = 0 := le_antisymm (not_lt.mp hn) hw
    refine ⟨?_, ?_, ?_, ?_, ?_⟩
    · rw [total_append, add_zero, h.weightSum]
    · rw [central_append, zero_mul, add_zero, h.mean]
    · rw [central_append, zero_mul, add_zero, h.m2]
    · rw [central_append, zero_mul, add_zero, h.m3]
    · rw [central_append, zero_mul, add_zero, h.m4]

theorem Summarises.add [IsStrictOrderedRing K] (h : Summarises s l) (hl : ∀ p ∈ l, 0 ≤ p.2) (hp : 0 ≤ p.2) :
    ∃ s', s.addWeighted p = .ok s' ∧ Summarises s' (l ++ [p]) := by
  obtain ⟨x, w⟩ := p
  refine ⟨_, by rw [addWeighted, checkSample, if_pos hp]; rfl, ?_, ?_, ?_⟩
  · rw [(addDownside_keeps (l := l) _ x w).1, (addMoments_keeps (l := l) _ x w).1, h.count, List.length_append]
    rfl
  · rw [(addDownside_keeps _ x w).2]
    have hm := h.moments
    exact HasMoments.add ⟨hm.1, hm.2, hm.3, hm.4, hm.5⟩ hl hp
  · refine HasDownside.add ((addMoments_keeps _ x w).2.mpr ?_) x w
    have hd := h.downside
    exact ⟨hd.1, hd.2, hd.3⟩

/-- **The accumulator after a sequence.** -/
theorem Summarises.addSequence [IsStrictOrderedRing K] : ∀ (values : List (K × K)) {s : IncrementalStatistics K}
    {l : List (K × K)}, Summarises s l → (∀ p ∈ l, 0 ≤ p.2) → (∀ p ∈ values, 0 ≤ p.2) →
    ∃ s', s.addSequenceWeighted values = .ok s' ∧ Summarises s' (l ++ values)
  | [], s, l, h, _, _             => ⟨s, rfl, by rwa [List.append_nil]⟩
  | p :: values, s, l, h, hl, hv => by
    obtain ⟨m, hm, h⟩ := h.add hl (hv p List.mem_cons_self)
    have hl' : ∀ q ∈ l ++ [p], 0 ≤ q.2 := by
      intro q hq
      rcases List.mem_append.mp hq with hq | hq
      · exact hl q hq
      · exact List.mem_singleton.mp hq ▸ hv p List.mem_cons_self
    obtain ⟨s', hs, h⟩ := Summarises.addSequence values h hl' (fun q hq => hv q (List.mem_cons_of_mem _ hq))
    refine ⟨s', ?_, by rwa [List.append_assoc] at h⟩
    rw [addSequenceWeighted, List.foldlM_cons, hm]
    exact hs

end IncrementalStatistics

/-! ## What the stored samples give -/

namespace GeneralStatistics

open IncrementalStatistics

variable {s : IncrementalStatistics K} {g : GeneralStatistics K} {l : List (K × K)} {μ : K}

theorem addSequence_samples : ∀ (values : List (K × K)) (g : GeneralStatistics K), (∀ p ∈ values, 0 ≤ p.2) →
    ∃ g', g.addSequenceWeighted values = .ok g' ∧ g'.samples = g.samples ++ values
  | [], g, _           => ⟨g, rfl, (List.append_nil _).symm⟩
  | p :: values, g, hv => by
    obtain ⟨g', hg, hs⟩ := addSequence_samples values ⟨g.samples ++ [p], false⟩
      (fun q hq => hv q (List.mem_cons_of_mem _ hq))
    refine ⟨g', ?_, by rw [hs, List.append_assoc, List.singleton_append]⟩
    rw [addSequenceWeighted, List.foldlM_cons, addWeighted, checkSample, if_pos (hv p List.mem_cons_self)]
    exact hg

omit [LinearOrder K] in
theorem expectationLoop_eq (f : K → K) (inRange : K → Bool) : ∀ (l : List (K × K)) (num den : K) (n : ℕ),
    expectationLoop f inRange l num den n =
      (num + ((l.filter (fun p => inRange p.1)).map (fun p => f p.1 * p.2)).sum,
        den + total (l.filter (fun p => inRange p.1)), n + (l.filter (fun p => inRange p.1)).length)
  | [], _, _, _              => by simp [expectationLoop, total]
  | (x, w) :: rest, num, den, n => by
    rw [expectationLoop]
    split
    case isTrue hx =>
      have hf : ((x, w) :: rest).filter (fun p => inRange p.1) = (x, w) :: rest.filter (fun p => inRange p.1) :=
        List.filter_cons_of_pos hx
      rw [expectationLoop_eq f inRange rest, hf, List.map_cons, List.sum_cons, total, total, List.map_cons,
        List.sum_cons, List.length_cons]
      ext
      · exact add_assoc _ _ _
      · exact add_assoc _ _ _
      · dsimp only
        omega
    case isFalse hx =>
      have hf : ((x, w) :: rest).filter (fun p => inRange p.1) = rest.filter (fun p => inRange p.1) :=
        List.filter_cons_of_neg hx
      rw [expectationLoop_eq f inRange rest, hf]

theorem expectAll_eq (f : K → K) (hw : 0 < total g.samples) :
    g.expectAll f = .ok ((g.samples.map (fun p => f p.1 * p.2)).sum / total g.samples) := by
  have hne : g.samples.length ≠ 0 := by
    intro h
    rw [List.length_eq_zero_iff.mp h] at hw
    exact absurd hw (lt_irrefl _)
  rw [expectAll, expectationValue, expectationLoop_eq]
  simp [hne, ratio, hw.ne']

theorem length_pos (hw : 0 < total g.samples) : 0 < g.samples.length := by
  refine List.length_pos_iff.mpr (fun h => ?_)
  rw [h] at hw
  exact absurd hw (lt_irrefl _)

theorem mean_eq (hw : 0 < total g.samples) (hμ : central 1 μ g.samples = 0) : g.mean = .ok μ := by
  rw [mean, require, if_pos (length_pos hw), expectAll_eq _ hw, Moments.mean_eq hμ hw.ne']
  rfl

theorem expectAll_deviation {f : K → K} {k : ℕ} (hw : 0 < total g.samples) (hf : ∀ x, f x = (x - μ) ^ k) :
    g.expectAll f = .ok (central k μ g.samples / total g.samples) := by
  rw [expectAll_eq f hw, central_eq]
  simp only [hf]

end GeneralStatistics

/-! ## Agreement -/

section

open IncrementalStatistics GeneralStatistics

variable {s s' : IncrementalStatistics K} {g : GeneralStatistics K} {l l' : List (K × K)}

theorem getMean_eq (h : HasMoments s g.samples) (hw : 0 < total g.samples) : s.getMean = g.mean := by
  rw [GeneralStatistics.mean_eq hw h.mean, getMean, require_bind, h.weightSum, if_pos hw]

theorem centralMoment_eq (h : HasMoments s g.samples) (hw : 0 < total g.samples) (m : K) :
    s.centralMoment m = .ok (m / total g.samples) := by
  rw [centralMoment, ratio, h.weightSum, if_neg hw.ne']

theorem expectAll_two (h : HasMoments s g.samples) (hw : 0 < total g.samples) :
    g.expectAll (fun x => let d := x - s.mean; d * d) = .ok (s.m2 / total g.samples) := by
  rw [h.m2]
  exact expectAll_deviation hw (fun x => (sq _).symm)

theorem expectAll_three (h : HasMoments s g.samples) (hw : 0 < total g.samples) :
    g.expectAll (fun x => let d := x - s.mean; d * d * d) = .ok (s.m3 / total g.samples) := by
  rw [h.m3]
  exact expectAll_deviation hw (fun x => (pow_three' _).symm)

theorem expectAll_four (h : HasMoments s g.samples) (hw : 0 < total g.samples) :
    g.expectAll (fun x => let d := x - s.mean; let d2 := d * d; d2 * d2) = .ok (s.m4 / total g.samples) := by
  rw [h.m4]
  exact expectAll_deviation hw (fun x => by ring)

theorem variance_eq (h : Summarises s g.samples) (hw : 0 < total g.samples) : s.variance = g.variance := by
  rw [IncrementalStatistics.variance, GeneralStatistics.variance, GeneralStatistics.mean_eq hw h.moments.mean,
    centralMoment_eq h.moments hw, require_bind, require_bind, require_bind, h.moments.weightSum, if_pos hw, h.count]
  simp only [ok_bind, expectAll_two h.moments hw]
  rw [div_mul_eq_mul_div, mul_comm]

theorem skewnessNumerator_eq (h : Summarises s g.samples) (hw : 0 < total g.samples) :
    s.skewnessNumerator = g.skewnessNumerator := by
  rw [IncrementalStatistics.skewnessNumerator, GeneralStatistics.skewnessNumerator,
    GeneralStatistics.mean_eq hw h.moments.mean, centralMoment_eq h.moments hw, h.count]
  simp only [ok_bind, expectAll_three h.moments hw]

theorem kurtosis_eq [IsStrictOrderedRing K] (h : Summarises s g.samples) (hw : 0 < total g.samples) :
    s.kurtosis = g.kurtosis := by
  rw [IncrementalStatistics.kurtosis, GeneralStatistics.kurtosis, GeneralStatistics.mean_eq hw h.moments.mean,
    centralMoment_eq h.moments hw, centralMoment_eq h.moments hw, require_bind, require_bind, h.count, ← variance_eq h hw,
    IncrementalStatistics.variance, centralMoment_eq h.moments hw, require_bind, require_bind, h.moments.weightSum,
    if_pos hw, h.count]
  by_cases hn : 3 < g.samples.length
  case neg => rw [if_neg hn, if_neg hn]
  simp only [if_pos hn, if_pos (show 1 < g.samples.length by omega), ok_bind, expectAll_four h.moments hw]
  obtain ⟨k, hk⟩ : ∃ k : ℕ, g.samples.length = k + 4 := ⟨_, (Nat.sub_add_cancel hn).symm⟩
  have h₀ : (k : K) + 4 ≠ 0 := by positivity
  have h₁ : (k : K) + 4 - 1 ≠ 0 := by
    rw [show (k : K) + 4 - 1 = k + 3 by ring]
    positivity
  have h₂ : (k : K) + 4 - 2 ≠ 0 := by
    rw [show (k : K) + 4 - 2 = k + 2 by ring]
    positivity
  have h₃ : (k : K) + 4 - 3 ≠ 0 := by
    rw [show (k : K) + 4 - 3 = k + 1 by ring]
    positivity
  rw [hk]
  push_cast
  unfold ratio
  by_cases hz : s.m2 / total g.samples = 0
  · rw [if_pos (by rw [hz, mul_zero]), if_pos (by rw [hz]; ring)]
    rfl
  · have hq : ((k : K) + 4) / (k + 4 - 1) * (s.m2 / total g.samples) ≠ 0 := mul_ne_zero (div_ne_zero h₀ h₁) hz
    rw [if_neg (mul_ne_zero hz hz), if_neg (mul_ne_zero hq hq)]
    simp only [ok_bind, Except.ok.injEq]
    field_simp
    ring

/-- The expectation over the negative samples is the quotient of the running sums. -/
theorem expectationValue_under (h : HasDownside s g.samples) :
    g.expectationValue (fun x => let d := x - 0; d * d) (fun x => x < 0) = if s.downsideCount = 0 then none
      else some (ratio s.downsideSecondMomentSum s.downsideWeightSum, s.downsideCount) := by
  have hc : ((under 0 g.samples).map (fun p => (p.1 - 0) * (p.1 - 0) * p.2)).sum = central 2 0 (under 0 g.samples) := by
    rw [central_eq]
    simp only [sq]
  rw [expectationValue, expectationLoop_eq]
  dsimp only
  rw [zero_add, zero_add, zero_add, h.count, h.weightSum, h.secondMomentSum, ← hc]
  rfl

/-- The downside variances agree where they are numbers; without weight under zero neither is one. -/
theorem downsideVariance_eq [IsStrictOrderedRing K] (h : HasDownside s g.samples) (hg : ∀ p ∈ g.samples, 0 ≤ p.2) :
    s.downsideVariance.toOption = g.downsideVariance.toOption := by
  have hle : 0 ≤ s.downsideWeightSum := by
    rw [h.weightSum]
    exact total_nonneg (fun p hp => hg p (List.mem_of_mem_filter hp))
  rw [IncrementalStatistics.downsideVariance, GeneralStatistics.downsideVariance, regret, expectationValue_under h,
    require_bind, require_bind]
  by_cases hc : s.downsideCount = 0
  · rw [if_pos hc, if_neg (show ¬ 1 < s.downsideCount by omega)]
    split <;> rfl
  rw [if_neg hc]
  dsimp only
  rw [require_bind]
  by_cases hn : 1 < s.downsideCount
  case neg =>
    rw [if_neg hn, if_neg hn]
    split <;> rfl
  rw [if_pos hn, if_pos hn, ratio, ratio]
  rcases hle.eq_or_lt with hz | hp
  · rw [if_neg (hz ▸ lt_irrefl _), if_pos hz.symm]
    rfl
  · rw [if_pos hp, if_neg hp.ne', if_neg hp.ne', ok_bind, mul_div_assoc]

/-- The statistics of the running moments are those of the stored samples. -/
structure Agree (s : IncrementalStatistics K) (g : GeneralStatistics K) : Prop where
  mean : s.getMean = g.mean
  variance : s.variance = g.variance
  skewnessNumerator : s.skewnessNumerator = g.skewnessNumerator
  kurtosis : s.kurtosis = g.kurtosis
  downside : g.expectationValue (fun x => let d := x - 0; d * d) (fun x => x < 0) = if s.downsideCount = 0 then none
    else some (ratio s.downsideSecondMomentSum s.downsideWeightSum, s.downsideCount)
  downsideVariance : s.downsideVariance.toOption = g.downsideVariance.toOption

structure SameStatistics (s s' : IncrementalStatistics K) : Prop where
  mean : s.getMean = s'.getMean
  variance : s.variance = s'.variance
  skewnessNumerator : s.skewnessNumerator = s'.skewnessNumerator
  kurtosis : s.kurtosis = s'.kurtosis
  downsideCount : s.downsideCount = s'.downsideCount
  downsideWeightSum : s.downsideWeightSum = s'.downsideWeightSum
  downsideSecondMomentSum : s.downsideSecondMomentSum = s'.downsideSecondMomentSum
  downsideVariance : s.downsideVariance = s'.downsideVariance

theorem summarises_perm (h : Summarises s l) (h' : Summarises s' l') (hp : l.Perm l') (hw : 0 < total l) :
    { s' with min := s.min, max := s.max } = s := by
  have hw' : 0 < total l' := total_perm hp ▸ hw
  have hmean : s'.mean = s.mean := by
    rw [Moments.mean_eq h.moments.mean hw.ne', Moments.mean_eq h'.moments.mean hw'.ne', total_perm hp,
      (hp.map _).sum_eq]
  have hu : (under 0 l).Perm (under 0 l') := hp.filter _
  have hcount : s'.count = s.count := by rw [h.count, h'.count, hp.length_eq]
  have hsum : s'.weightSum = s.weightSum := by rw [h.moments.weightSum, h'.moments.weightSum, total_perm hp]
  have h2 : s'.m2 = s.m2 := by rw [h.moments.m2, h'.moments.m2, hmean, central_perm hp]
  have h3 : s'.m3 = s.m3 := by rw [h.moments.m3, h'.moments.m3, hmean, central_perm hp]
  have h4 : s'.m4 = s.m4 := by rw [h.moments.m4, h'.moments.m4, hmean, central_perm hp]
  have d1 : s'.downsideCount = s.downsideCount := by rw [h.downside.count, h'.downside.count, hu.length_eq]
  have d2 : s'.downsideWeightSum = s.downsideWeightSum := by
    rw [h.downside.weightSum, h'.downside.weightSum, total_perm hu]
  have d3 : s'.downsideSecondMomentSum = s.downsideSecondMomentSum := by
    rw [h.downside.secondMomentSum, h'.downside.secondMomentSum, central_perm hu]
  rw [hcount, hsum, hmean, h2, h3, h4, d1, d2, d3]

end

end Itofin
