import Itofin.Lib.Ieee
import Itofin.Math.Statistics
/-!
# Risk — averages over a tail

The mean of `GeneralStatistics` and the measures of `math/statistics/riskstatistics.rs` that are built on
`expectation_value`, over machine numbers without rounding: samples may be infinite, and a quotient of zeros is not a
number.

An average is a finite number just when what it sums is finite and some weight is not zero (`expectationValue_isFinite`),
whereas the functions look at the number of samples only.
-/
namespace Itofin.RiskStatistics

open Ieee

variable {K : Type} [Field K] [LinearOrder K]

def checkSample (sample : Ieee K × Ieee K) : Except (Failure (Ieee K)) Unit :=
  if sample.1 = .nan then .error (.message "sample value must not be NaN")
  else if sample.2.nonneg then .ok ()
  else .error (.negativeWeight sample.2)

def addWeighted (g : GeneralStatistics (Ieee K)) (sample : Ieee K × Ieee K) :
    Except (Failure (Ieee K)) (GeneralStatistics (Ieee K)) := do
  checkSample sample
  .ok ⟨g.samples ++ [sample], false⟩

def addSequenceWeighted (g : GeneralStatistics (Ieee K)) (values : List (Ieee K × Ieee K)) :
    Except (Failure (Ieee K)) (GeneralStatistics (Ieee K)) :=
  values.foldlM addWeighted g

/-- `for &(x, w) in &self.samples { if in_range(x) { num += f(x) * w; den += w; n += 1; } }` -/
def expectationLoop (f : Ieee K → Ieee K) (inRange : Ieee K → Bool) :
    List (Ieee K × Ieee K) → Ieee K → Ieee K → ℕ → Ieee K × Ieee K × ℕ
  | [], num, den, n             => (num, den, n)
  | (x, w) :: rest, num, den, n =>
    if inRange x then expectationLoop f inRange rest (num + f x * w) (den + w) (n + 1)
    else expectationLoop f inRange rest num den n

def expectationValue (g : GeneralStatistics (Ieee K)) (f : Ieee K → Ieee K) (inRange : Ieee K → Bool) :
    Option (Ieee K × ℕ) :=
  let (num, den, n) := expectationLoop f inRange g.samples 0 0 0
  if n = 0 then none else some (num / den, n)

/-- The average over all samples, which panics where there is none. -/
def expectAll (g : GeneralStatistics (Ieee K)) (f : Ieee K → Ieee K) : Except (Failure (Ieee K)) (Ieee K) :=
  match expectationValue g f (fun _ => true) with
  | none            => .error (.message "sample set is not empty")
  | some (value, _) => .ok value

def mean (g : GeneralStatistics (Ieee K)) : Except (Failure (Ieee K)) (Ieee K) := do
  require (0 < g.samples.length) "empty sample set"
  expectAll g (fun x => x)

def regret (g : GeneralStatistics (Ieee K)) (target : Ieee K) : Except (Failure (Ieee K)) (Ieee K) :=
  match expectationValue g (fun x => let d := x - target; d * d) (fun x => x.lt target) with
  | none            => .error (.message "samples under target <= 1: insufficient")
  | some (value, n) => do
    require (1 < n) "samples under target <= 1: insufficient"
    let n : Ieee K := .finite n
    .ok (n / (n - 1) * value)

def shortfall (g : GeneralStatistics (Ieee K)) (target : Ieee K) : Except (Failure (Ieee K)) (Ieee K) := do
  require (g.samples.length ≠ 0) "empty sample set"
  expectAll g (fun x => if x.lt target then 1 else 0)

def averageShortfall (g : GeneralStatistics (Ieee K)) (target : Ieee K) : Except (Failure (Ieee K)) (Ieee K) :=
  match expectationValue g (fun x => target - x) (fun x => x.lt target) with
  | none            => .error (.message "no data below the target")
  | some (value, _) => .ok value

/-! ## Averages -/

variable {g : GeneralStatistics (Ieee K)} {l : List (Ieee K × Ieee K)} {f : Ieee K → Ieee K} {inRange : Ieee K → Bool}
  {target : Ieee K}

/-- The samples in the range. -/
def within (inRange : Ieee K → Bool) (l : List (Ieee K × Ieee K)) : List (Ieee K × Ieee K) :=
  l.filter (fun p => inRange p.1)

theorem expectationLoop_eq (f : Ieee K → Ieee K) (inRange : Ieee K → Bool) :
    ∀ (l : List (Ieee K × Ieee K)) (num den : Ieee K) (n : ℕ), expectationLoop f inRange l num den n =
      (((within inRange l).map (fun p => f p.1 * p.2)).foldl (· + ·) num,
        ((within inRange l).map Prod.snd).foldl (· + ·) den, n + (within inRange l).length)
  | [], _, _, _               => rfl
  | (x, w) :: rest, num, den, n => by
    rw [expectationLoop]
    split
    case isTrue hx =>
      have hf : within inRange ((x, w) :: rest) = (x, w) :: within inRange rest := List.filter_cons_of_pos hx
      rw [expectationLoop_eq f inRange rest, hf, List.map_cons, List.map_cons, List.foldl_cons, List.foldl_cons,
        List.length_cons, Nat.add_assoc, Nat.add_comm 1]
    case isFalse hx =>
      have hf : within inRange ((x, w) :: rest) = within inRange rest := List.filter_cons_of_neg hx
      rw [expectationLoop_eq f inRange rest, hf]

/-- **Something to average**: no samples, or finite ones of which one has a weight. -/
def Averages (f : Ieee K → Ieee K) (l : List (Ieee K × Ieee K)) : Prop :=
  l = [] ∨ (∀ p ∈ l, IsFinite (f p.1) ∧ IsFinite p.2) ∧ ∃ p ∈ l, p.2 ≠ 0

/-- What the samples of a statistics are: their weights are not negative. -/
def Accepted (l : List (Ieee K × Ieee K)) : Prop := ∀ p ∈ l, p.1 ≠ .nan ∧ p.2.nonneg = true

theorem Accepted.within (h : Accepted l) (inRange : Ieee K → Bool) : Accepted (within inRange l) :=
  fun p hp => h p (List.mem_of_mem_filter hp)

theorem addSequence_accepted : ∀ (values : List (Ieee K × Ieee K)) {g g' : GeneralStatistics (Ieee K)}, Accepted g.samples →
    addSequenceWeighted g values = .ok g' → Accepted g'.samples ∧ g'.samples = g.samples ++ values
  | [], g, g', hg, h           => by
    obtain rfl := Except.ok.inj h
    exact ⟨hg, (List.append_nil _).symm⟩
  | p :: values, g, g', hg, h => by
    rw [addSequenceWeighted, List.foldlM_cons, addWeighted, checkSample] at h
    by_cases hn : p.1 = .nan
    · rw [if_pos hn] at h
      cases h
    by_cases hw : p.2.nonneg = true
    · rw [if_neg hn, if_pos hw] at h
      have hacc : Accepted (g.samples ++ [p]) := fun q hq => by
        rcases List.mem_append.mp hq with hq | hq
        · exact hg q hq
        · exact List.mem_singleton.mp hq ▸ ⟨hn, hw⟩
      obtain ⟨h₁, h₂⟩ := addSequence_accepted values (g := ⟨g.samples ++ [p], false⟩) hacc h
      exact ⟨h₁, by rw [h₂, List.append_assoc, List.singleton_append]⟩
    · rw [if_neg hn, if_neg hw] at h
      cases h

variable [IsStrictOrderedRing K]

/-- **When an average is a finite number.** -/
theorem quotient_isFinite (hl : Accepted l) (f : Ieee K → Ieee K) :
    IsFinite ((l.map (fun p => f p.1 * p.2)).foldl (· + ·) 0 / (l.map Prod.snd).foldl (· + ·) 0) ↔
      (∀ p ∈ l, IsFinite (f p.1) ∧ IsFinite p.2) ∧ ∃ p ∈ l, p.2 ≠ 0 := by
  have hzero : IsFinite (0 : Ieee K) := ⟨0, rfl⟩
  have hnum : IsFinite ((l.map (fun p => f p.1 * p.2)).foldl (· + ·) 0) ↔ ∀ p ∈ l, IsFinite (f p.1) ∧ IsFinite p.2 := by
    rw [isFinite_foldl, List.forall_mem_map]
    simp only [hzero, true_and, isFinite_mul]
  by_cases hfin : ∀ p ∈ l, IsFinite (f p.1) ∧ IsFinite p.2
  · have hw : ∀ b ∈ l.map Prod.snd, IsFinite b := List.forall_mem_map.mpr (fun p hp => (hfin p hp).2)
    have hn : ∀ b ∈ l.map Prod.snd, b.nonneg = true := List.forall_mem_map.mpr (fun p hp => (hl p hp).2)
    have hden : IsFinite ((l.map Prod.snd).foldl (· + ·) 0) := (isFinite_foldl _).mpr ⟨hzero, hw⟩
    have hne := foldl_ne_zero (l.map Prod.snd) (le_refl (0 : K)) hw hn
    rw [isFinite_div hden, hnum]
    refine and_congr_right' (hne.trans ⟨fun h => ?_, fun ⟨p, hp, h⟩ => .inr ⟨p.2, List.mem_map_of_mem hp, h⟩⟩)
    obtain ⟨b, hb, h⟩ := h.resolve_left (fun h => h rfl)
    obtain ⟨p, hp, rfl⟩ := List.mem_map.mp hb
    exact ⟨p, hp, h⟩
  · exact iff_of_false (fun h => hfin (hnum.mp (isFinite_of_div h))) (fun h => hfin h.1)

theorem expectationValue_cases (hg : Accepted g.samples) (f : Ieee K → Ieee K) (inRange : Ieee K → Bool) :
    (within inRange g.samples = [] ∧ expectationValue g f inRange = none) ∨
      within inRange g.samples ≠ [] ∧ ∃ v, expectationValue g f inRange = some (v, (within inRange g.samples).length) ∧
        (IsFinite v ↔ Averages f (within inRange g.samples)) := by
  rw [expectationValue, expectationLoop_eq]
  dsimp only
  rw [Nat.zero_add]
  by_cases h : within inRange g.samples = []
  · exact .inl ⟨h, by rw [if_pos (by rw [h]; rfl)]⟩
  · refine .inr ⟨h, _, by rw [if_neg (fun h' => h (List.eq_nil_of_length_eq_zero h'))], ?_⟩
    rw [quotient_isFinite (hg.within inRange) f, Averages, or_iff_right h]

/-! ## The measures -/

/-- An error, or a finite number. -/
def Sound (r : Except (Failure (Ieee K)) (Ieee K)) : Prop := ∀ v, r = .ok v → IsFinite v

omit [Field K] [LinearOrder K] [IsStrictOrderedRing K] in
theorem sound_error (e : Failure (Ieee K)) : Sound (.error e) := nofun

omit [Field K] [LinearOrder K] [IsStrictOrderedRing K] in
theorem sound_ok {v : Ieee K} : Sound (.ok v) ↔ IsFinite v := ⟨fun h => h v rfl, fun h _ hw => Except.ok.inj hw ▸ h⟩

theorem expectAll_sound (hg : Accepted g.samples) (hne : g.samples ≠ []) (f : Ieee K → Ieee K) :
    Sound (expectAll g f) ↔ Averages f g.samples := by
  have hall : within (fun _ => true) g.samples = g.samples := List.filter_eq_self.mpr (fun _ _ => rfl)
  rcases expectationValue_cases hg f (fun _ => true) with ⟨hnil, -⟩ | ⟨-, v, hv, hiff⟩
  · exact absurd (hall.symm.trans hnil) hne
  · rw [expectAll, hv]
    rw [hall] at hiff
    exact sound_ok.trans hiff

theorem mean_sound (hg : Accepted g.samples) : Sound (mean g) ↔ Averages (fun x => x) g.samples := by
  rw [mean, require_bind]
  by_cases hne : g.samples = []
  · rw [hne, if_neg (by simp)]
    exact iff_of_true (sound_error _) (.inl rfl)
  · rw [if_pos (List.length_pos_of_ne_nil hne)]
    exact expectAll_sound hg hne _

theorem shortfall_sound (hg : Accepted g.samples) (target : Ieee K) :
    Sound (shortfall g target) ↔ Averages (fun x => if x.lt target then 1 else 0) g.samples := by
  rw [shortfall, require_bind]
  by_cases hne : g.samples = []
  · rw [hne, if_neg (by simp)]
    exact iff_of_true (sound_error _) (.inl rfl)
  · rw [if_pos (fun h => hne (List.eq_nil_of_length_eq_zero h))]
    exact expectAll_sound hg hne _

theorem averageShortfall_sound (hg : Accepted g.samples) (target : Ieee K) : Sound (averageShortfall g target) ↔
    Averages (fun x => target - x) (within (fun x => x.lt target) g.samples) := by
  rw [averageShortfall]
  rcases expectationValue_cases hg (fun x => target - x) (fun x => x.lt target) with ⟨hnil, hv⟩ | ⟨-, v, hv, hiff⟩
  · rw [hv, hnil]
    exact iff_of_true (sound_error _) (.inl rfl)
  · rw [hv]
    exact sound_ok.trans hiff

theorem regret_sound (hg : Accepted g.samples) (target : Ieee K) : Sound (regret g target) ↔
    (within (fun x => x.lt target) g.samples).length ≤ 1 ∨
      Averages (fun x => target - x) (within (fun x => x.lt target) g.samples) := by
  rw [regret]
  rcases expectationValue_cases hg (fun x => let d := x - target; d * d) (fun x => x.lt target) with
    ⟨hnil, hv⟩ | ⟨-, v, hv, hiff⟩
  · rw [hv, hnil]
    exact iff_of_true (sound_error _) (.inl (Nat.zero_le 1))
  · rw [hv]
    dsimp only
    rw [require_bind]
    by_cases hn : 1 < (within (fun x => x.lt target) g.samples).length
    · have hn1 : (((within (fun x => x.lt target) g.samples).length : ℕ) : K) - 1 ≠ 0 := by
        have : (1 : K) < ((within (fun x => x.lt target) g.samples).length : ℕ) := by exact_mod_cast hn
        exact (sub_pos.mpr this).ne'
      have hsame : Averages (fun x => let d := x - target; d * d) (within (fun x => x.lt target) g.samples) ↔
          Averages (fun x => target - x) (within (fun x => x.lt target) g.samples) := by
        unfold Averages
        simp only [isFinite_mul, isFinite_sub, and_self, and_comm]
      rw [if_pos hn, sound_ok, isFinite_mul, ← hsame, ← hiff, or_iff_right (by omega)]
      apply and_iff_right
      have hsub : (finite ((within (fun x => x.lt target) g.samples).length : K) : Ieee K) - 1 =
          finite (((within (fun x => x.lt target) g.samples).length : K) - 1) := congrArg finite (sub_eq_add_neg _ _).symm
      rw [hsub, finite_div hn1]
      exact isFinite_finite _
    · rw [if_neg hn]
      exact iff_of_true (sound_error _) (.inl (not_lt.mp hn))

/-- An average over a range is no answer but a finite number. -/
def ExpectationSound (g : GeneralStatistics (Ieee K)) (f : Ieee K → Ieee K) (inRange : Ieee K → Bool) : Prop :=
  ∀ v n, expectationValue g f inRange = some (v, n) → IsFinite v

theorem expectationValue_sound (hg : Accepted g.samples) (f : Ieee K → Ieee K) (inRange : Ieee K → Bool) :
    ExpectationSound g f inRange ↔ Averages f (within inRange g.samples) := by
  unfold ExpectationSound
  rcases expectationValue_cases hg f inRange with ⟨hnil, hv⟩ | ⟨-, v, hv, hiff⟩
  · rw [hv, hnil]
    exact iff_of_true nofun (.inl rfl)
  · rw [hv, ← hiff]
    exact ⟨fun h => h v _ rfl, fun h w n hw => by cases hw; exact h⟩

omit [LinearOrder K] [IsStrictOrderedRing K] in
theorem Averages.all (h : Averages (fun x => x) l) (hf : ∀ x, IsFinite (f x)) : Averages f l :=
  h.imp id (fun h => ⟨fun p hp => ⟨hf p.1, (h.1 p hp).2⟩, h.2⟩)

end Itofin.RiskStatistics
