import Mathlib.Algebra.Order.Floor.Ring
import Mathlib.Algebra.Order.Interval.Set.Instances
import Mathlib.Data.List.GetD
import Mathlib.Data.Rat.Floor
import Mathlib.Tactic.FieldSimp
import Mathlib.Tactic.Linarith
import Mathlib.Tactic.Positivity
import Mathlib.Tactic.Ring
/-!
# Histogram — the sample quantile behind the bin width

`quantile` of `math/statistics/histogram.rs`, in exact arithmetic: the eighth method of Hyndman and Fan, whose plotting
position of a probability `p` among `n` samples is `(n + 1/3) p + 1/3`.

The weight of the upper of the two samples around the position is taken from `n p + 1/3` instead, so it is short of the
fractional part by `p/3` and negative just after a sample: the quantile is the interpolation only where those two samples
are the same or the position is beyond the extreme samples (`quantile_eq_interpolated`).
-/
namespace Itofin.Histogram

variable {K : Type} [Field K] [LinearOrder K]

inductive Failure (K : Type) where
  /-- `probability ({prob}) has to be in [0, 1]` -/
  | probability (prob : K)
  /-- `the sample size has to be positive` -/
  | sampleSize
deriving DecidableEq

def a : K := 1 / ((3 : ℕ) : K)

def b (n : ℕ) : K := ((2 : ℕ) : K) * a / ((n : K) + a)

/-- `((n as Real + a) * prob + a).floor() as Size` -/
def index [FloorSemiring K] (n : ℕ) (prob : K) : ℕ := ⌊((n : K) + a) * prob + a⌋₊

def quantile [FloorSemiring K] (sorted : List K) (prob : K) : Except (Failure K) K :=
  let n := sorted.length
  if ¬ (0 ≤ prob ∧ prob ≤ 1) then .error (.probability prob)
  else if n = 0 then .error .sampleSize
  else if n = 1 then .ok (sorted.getD 0 0)
  else if prob ≤ b n then .ok (sorted.getD 0 0)
  else if 1 - b n ≤ prob then .ok (sorted.getD (n - 1) 0)
  else
    let index := index n prob
    let weight := (n : K) * prob + a - (index : K)
    .ok ((1 - weight) * sorted.getD (index - 1) 0 + weight * sorted.getD index 0)

/-! ## The interpolation -/

/-- The position of a probability among the samples, the first of which is at 1. -/
def position (n : ℕ) (prob : K) : K := ((n : K) + a) * prob + a

/-- The linear interpolation between the samples around the position, or the extreme sample beyond which it is. -/
def interpolated [FloorSemiring K] (sorted : List K) (prob : K) : K :=
  let h := position sorted.length prob
  if h ≤ 1 then sorted.getD 0 0
  else if (sorted.length : K) ≤ h then sorted.getD (sorted.length - 1) 0
  else (1 - (h - (⌊h⌋₊ : K))) * sorted.getD (⌊h⌋₊ - 1) 0 + (h - (⌊h⌋₊ : K)) * sorted.getD ⌊h⌋₊ 0

variable [IsStrictOrderedRing K] {n : ℕ} {prob : K} {sorted : List K}

theorem a_pos : (0 : K) < a := by
  unfold a
  positivity

theorem three_mul_a : ((3 : ℕ) : K) * a = 1 := mul_one_div_cancel (Nat.cast_ne_zero.mpr three_ne_zero)

theorem add_a_pos (n : ℕ) : (0 : K) < (n : K) + a := add_pos_of_nonneg_of_pos (Nat.cast_nonneg n) a_pos

theorem le_b_iff : prob ≤ b n ↔ position n prob ≤ 1 := by
  have h3 : ((3 : ℕ) : K) * a = 1 := three_mul_a
  rw [b, le_div_iff₀ (add_a_pos n), position]
  push_cast at h3 ⊢
  constructor <;> intro h <;> linarith

theorem one_sub_b_le_iff : 1 - b n ≤ prob ↔ (n : K) ≤ position n prob := by
  have h3 : ((3 : ℕ) : K) * a = 1 := three_mul_a
  have hb : b n * ((n : K) + a) = ((2 : ℕ) : K) * a := div_mul_cancel₀ _ (add_a_pos n).ne'
  rw [← mul_le_mul_iff_left₀ (add_a_pos n), sub_mul, one_mul, hb, position]
  push_cast at h3 ⊢
  constructor <;> intro h <;> linarith

theorem quantile_eq [FloorSemiring K] (hn : 2 ≤ sorted.length) (hp : 0 ≤ prob ∧ prob ≤ 1) : quantile sorted prob = .ok (
    if position sorted.length prob ≤ 1 then sorted.getD 0 0
    else if (sorted.length : K) ≤ position sorted.length prob then sorted.getD (sorted.length - 1) 0
    else
      let index := index sorted.length prob
      let weight := (sorted.length : K) * prob + a - (index : K)
      (1 - weight) * sorted.getD (index - 1) 0 + weight * sorted.getD index 0) := by
  rw [quantile]
  dsimp only
  rw [if_neg (not_not.mpr hp), if_neg (by omega), if_neg (by omega)]
  simp only [le_b_iff, one_sub_b_le_iff]
  split_ifs <;> rfl

variable [FloorSemiring K]

theorem quantile_clamped (hne : sorted ≠ []) (hp : 0 ≤ prob ∧ prob ≤ 1)
    (h : position sorted.length prob ≤ 1 ∨ (sorted.length : K) ≤ position sorted.length prob) :
    quantile sorted prob = .ok (interpolated sorted prob) := by
  have hpos : 0 < sorted.length := List.length_pos_of_ne_nil hne
  rcases Nat.lt_or_ge 1 sorted.length with hn | hn
  · rw [quantile_eq hn hp, interpolated]
    dsimp only
    by_cases h1 : position sorted.length prob ≤ 1
    · rw [if_pos h1, if_pos h1]
    · rw [if_neg h1, if_neg h1, if_pos (h.resolve_left h1), if_pos (h.resolve_left h1)]
  · have hone : sorted.length = 1 := by omega
    have hfirst : interpolated sorted prob = sorted.getD 0 0 := by
      rw [interpolated]
      by_cases h1 : position sorted.length prob ≤ 1
      · rw [if_pos h1]
      · rw [if_neg h1, if_pos (h.resolve_left h1), hone]
    rw [quantile, hfirst, if_neg (not_not.mpr hp), if_neg hpos.ne', if_pos hone]

omit [IsStrictOrderedRing K] in
theorem index_bounds (h1 : 1 < position n prob) (hn : position n prob < n) : 1 ≤ index n prob ∧ index n prob < n ∧
    (index n prob : K) ≤ position n prob ∧ position n prob < (index n prob : K) + 1 := by
  have hpos : (0 : K) ≤ position n prob := zero_le_one.trans h1.le
  refine ⟨Nat.le_floor (by rw [Nat.cast_one]; exact h1.le), (Nat.floor_lt hpos).mpr hn, Nat.floor_le hpos,
    Nat.lt_floor_add_one _⟩

omit [IsStrictOrderedRing K] in
theorem interpolated_interior (h1 : 1 < position sorted.length prob) (h2 : position sorted.length prob < sorted.length) :
    interpolated sorted prob =
      (1 - (position sorted.length prob - (index sorted.length prob : K))) * sorted.getD (index sorted.length prob - 1) 0 +
        (position sorted.length prob - (index sorted.length prob : K)) * sorted.getD (index sorted.length prob) 0 := by
  rw [interpolated, if_neg (not_le.mpr h1), if_neg (not_le.mpr h2)]
  rfl

/-- **Between the samples the quantile is short of the interpolation**, by the share of the gap that the weight misses. -/
theorem quantile_interior (hn : 2 ≤ sorted.length) (hp : 0 ≤ prob ∧ prob ≤ 1) (h1 : 1 < position sorted.length prob)
    (h2 : position sorted.length prob < sorted.length) : quantile sorted prob = .ok (interpolated sorted prob -
      a * prob * (sorted.getD (index sorted.length prob) 0 - sorted.getD (index sorted.length prob - 1) 0)) := by
  rw [quantile_eq hn hp, if_neg (not_le.mpr h1), if_neg (not_le.mpr h2), interpolated_interior h1 h2]
  refine congrArg Except.ok ?_
  rw [position]
  ring

/-- **Where the quantile is the interpolation.** -/
theorem quantile_eq_interpolated (hne : sorted ≠ []) (hp : 0 ≤ prob ∧ prob ≤ 1) :
    quantile sorted prob = .ok (interpolated sorted prob) ↔ prob ≤ b sorted.length ∨ 1 - b sorted.length ≤ prob ∨
      sorted.getD (index sorted.length prob - 1) 0 = sorted.getD (index sorted.length prob) 0 := by
  rw [le_b_iff, one_sub_b_le_iff]
  by_cases h : position sorted.length prob ≤ 1 ∨ (sorted.length : K) ≤ position sorted.length prob
  · exact iff_of_true (quantile_clamped hne hp h) (h.imp id .inl)
  · obtain ⟨h1, h2⟩ := not_or.mp h
    rw [not_le] at h1 h2
    have hn : 2 ≤ sorted.length := by
      have : (1 : K) < sorted.length := h1.trans h2
      exact_mod_cast this
    have hprob : 0 < prob := by
      have hmul : 0 < ((sorted.length : K) + a) * prob := by
        have h3 : ((3 : ℕ) : K) * a = 1 := three_mul_a
        rw [position] at h1
        push_cast at h3
        linarith
      exact pos_of_mul_pos_right hmul (add_a_pos _).le
    rw [quantile_interior hn hp h1 h2, Except.ok.injEq, sub_eq_self, mul_eq_zero, or_iff_right (mul_pos a_pos hprob).ne',
      sub_eq_zero, or_iff_right (not_le.mpr h1), or_iff_right (not_le.mpr h2)]
    exact eq_comm

/-! ## Samples in order -/

omit [IsStrictOrderedRing K] [FloorSemiring K] in
theorem getD_mono (hs : sorted.Pairwise (· ≤ ·)) {i j : ℕ} (hij : i ≤ j) (hj : j < sorted.length) :
    sorted.getD i 0 ≤ sorted.getD j 0 := by
  rcases hij.eq_or_lt with rfl | hlt
  · exact le_rfl
  · rw [List.getD_eq_getElem _ _ (hlt.trans hj), List.getD_eq_getElem _ _ hj]
    exact List.pairwise_iff_getElem.mp hs i j (hlt.trans hj) hj hlt

theorem interpolated_mem (hs : sorted.Pairwise (· ≤ ·)) (hne : sorted ≠ []) (prob : K) :
    sorted.getD 0 0 ≤ interpolated sorted prob ∧ interpolated sorted prob ≤ sorted.getD (sorted.length - 1) 0 := by
  have hpos : 0 < sorted.length := List.length_pos_of_ne_nil hne
  have hends := getD_mono hs (Nat.zero_le (sorted.length - 1)) (by omega)
  by_cases h1 : position sorted.length prob ≤ 1
  · rw [interpolated, if_pos h1]
    exact ⟨le_rfl, hends⟩
  by_cases h2 : (sorted.length : K) ≤ position sorted.length prob
  · rw [interpolated, if_neg h1, if_pos h2]
    exact ⟨hends, le_rfl⟩
  · obtain ⟨hi, hin, hle, hlt⟩ := index_bounds (not_le.mp h1) (not_le.mp h2)
    have hx := getD_mono hs (Nat.zero_le (index sorted.length prob - 1)) (by omega)
    have hxy := sub_nonneg.mpr (getD_mono hs (Nat.sub_le (index sorted.length prob) 1) hin)
    have hy := getD_mono hs (show index sorted.length prob ≤ sorted.length - 1 by omega) (by omega)
    -- both weights are shares of the gap between the two samples
    have hlow := mul_nonneg (sub_nonneg.mpr hle) hxy
    have hhigh := mul_nonneg (sub_nonneg.mpr hlt.le) hxy
    rw [interpolated_interior (not_le.mp h1) (not_le.mp h2)]
    constructor <;> linarith

/-- **A quantile below the samples around it**, where they differ: just after the lower of them. -/
theorem exists_below {i : ℕ} (hi : 1 ≤ i) (hin : i < sorted.length) (hlt : sorted.getD (i - 1) 0 < sorted.getD i 0) :
    ∃ prob : K, (0 ≤ prob ∧ prob ≤ 1) ∧ ∃ v, quantile sorted prob = .ok v ∧ v < sorted.getD (i - 1) 0 := by
  have h3 : ((3 : ℕ) : K) * a = 1 := three_mul_a
  push_cast at h3
  have ha : (0 : K) < a := a_pos
  have hna : (0 : K) < (sorted.length : K) + a := add_a_pos _
  have hi1 : (1 : K) ≤ i := by exact_mod_cast hi
  have hin1 : (i : K) + 1 ≤ sorted.length := by exact_mod_cast hin
  -- the position just after the sample, by less than the weight will miss
  obtain ⟨ε, hε⟩ : ∃ ε : K, ε = a * a / ((sorted.length : K) + a) := ⟨_, rfl⟩
  have hεpos : 0 < ε := hε ▸ div_pos (mul_pos ha ha) hna
  have hεmul : ε * ((sorted.length : K) + a) = a * a := hε ▸ div_mul_cancel₀ _ hna.ne'
  have hεlt : ε < 1 := by
    have haa : a * a ≤ (a : K) := mul_le_of_le_one_left ha.le (by linarith)
    rw [hε, div_lt_one hna]
    linarith
  obtain ⟨prob, hprob⟩ : ∃ prob : K, prob = ((i : K) + ε - a) / ((sorted.length : K) + a) := ⟨_, rfl⟩
  have hmul : prob * ((sorted.length : K) + a) = (i : K) + ε - a := hprob ▸ div_mul_cancel₀ _ hna.ne'
  have hposition : position sorted.length prob = (i : K) + ε := by
    rw [position]
    linarith
  have hp : 0 ≤ prob ∧ prob ≤ 1 := by
    rw [hprob]
    exact ⟨div_nonneg (by linarith) hna.le, (div_le_one hna).mpr (by linarith)⟩
  have h1 : 1 < position sorted.length prob := by linarith
  have h2 : position sorted.length prob < sorted.length := by linarith
  have hindex : index sorted.length prob = i := by
    have hfloor := (Nat.floor_eq_iff (zero_le_one.trans h1.le)).mpr ⟨by linarith, show _ < (i : K) + 1 by linarith⟩
    exact hfloor
  have hn : 2 ≤ sorted.length := by omega
  -- the weight is the way after the sample less the share of the probability
  have hweight : ε - a * prob < 0 := by
    have hshort : 0 < a * ((i : K) + ε - a - a) := mul_pos ha (by linarith)
    have hneg : (ε - a * prob) * ((sorted.length : K) + a) < 0 := by
      rw [sub_mul, hεmul, mul_assoc, hmul]
      linarith
    exact neg_of_mul_neg_left hneg hna.le
  refine ⟨prob, hp, _, quantile_interior hn hp h1 h2, ?_⟩
  have hinterp : interpolated sorted prob = (1 - ε) * sorted.getD (i - 1) 0 + ε * sorted.getD i 0 := by
    rw [interpolated_interior h1 h2, hindex, hposition, add_sub_cancel_left]
  have hshort := mul_neg_of_neg_of_pos hweight (sub_pos.mpr hlt)
  rw [hindex, hinterp]
  linarith

/-- **No quantile below the first sample** means that there is one value only. -/
theorem all_eq_of_le (hs : sorted.Pairwise (· ≤ ·))
    (h : ∀ prob : K, 0 ≤ prob ∧ prob ≤ 1 → ∀ v, quantile sorted prob = .ok v → sorted.getD 0 0 ≤ v) :
    ∀ i, i < sorted.length → sorted.getD i 0 = sorted.getD 0 0
  | 0, _      => rfl
  | i + 1, hi => by
    have ih := all_eq_of_le hs h i (by omega)
    rcases (getD_mono hs (Nat.le_succ i) hi).eq_or_lt with heq | hlt
    · exact heq.symm.trans ih
    · obtain ⟨prob, hp, v, hv, hbelow⟩ := exists_below (Nat.succ_pos i) hi hlt
      have hle := h prob hp v hv
      exact absurd hle (not_le.mpr (hbelow.trans_eq ih))

theorem quantile_const (hs : sorted.Pairwise (· ≤ ·)) (hne : sorted ≠ []) (hconst : ∀ x ∈ sorted, x = sorted.getD 0 0)
    (hp : 0 ≤ prob ∧ prob ≤ 1) :
    quantile sorted prob = .ok (interpolated sorted prob) ∧ interpolated sorted prob = sorted.getD 0 0 := by
  have hpos : 0 < sorted.length := List.length_pos_of_ne_nil hne
  have hget : ∀ i, i < sorted.length → sorted.getD i 0 = sorted.getD 0 0 := fun i hi => by
    have := hconst sorted[i] (List.getElem_mem hi)
    rwa [← List.getD_eq_getElem sorted 0 hi] at this
  refine ⟨(quantile_eq_interpolated hne hp).mpr ?_, ?_⟩
  · rw [le_b_iff, one_sub_b_le_iff]
    by_cases h1 : position sorted.length prob ≤ 1
    · exact .inl h1
    by_cases h2 : (sorted.length : K) ≤ position sorted.length prob
    · exact .inr (.inl h2)
    · obtain ⟨-, hin, -, -⟩ := index_bounds (not_le.mp h1) (not_le.mp h2)
      exact .inr (.inr ((hget _ (by omega)).trans (hget _ hin).symm))
  · obtain ⟨hle, hge⟩ := interpolated_mem hs hne prob
    exact (hge.trans_eq (hget _ (by omega))).antisymm hle

/-- **What the quantile of a sample in order is.**  It is the interpolation, and so between the extreme samples, just where
the position is beyond them or the samples around it are the same.  It stays between them for every probability, is
monotone, and is the interpolation for every probability, just when the sample has one value only. -/
theorem quantile_spec (hs : sorted.Pairwise (· ≤ ·)) (hne : sorted ≠ []) :
    (∀ prob : K, 0 ≤ prob ∧ prob ≤ 1 → ((∃ v, quantile sorted prob = .ok v ∧ sorted.getD 0 0 ≤ v ∧
        v ≤ sorted.getD (sorted.length - 1) 0 ∧ v = interpolated sorted prob) ↔
      prob ≤ b sorted.length ∨ 1 - b sorted.length ≤ prob ∨
        sorted.getD (index sorted.length prob - 1) 0 = sorted.getD (index sorted.length prob) 0)) ∧
      ((∀ prob : K, 0 ≤ prob ∧ prob ≤ 1 → ∃ v, quantile sorted prob = .ok v ∧ sorted.getD 0 0 ≤ v ∧
        v ≤ sorted.getD (sorted.length - 1) 0) ↔ ∀ x ∈ sorted, x = sorted.getD 0 0) ∧
      ((∀ p q : K, 0 ≤ p → p ≤ q → q ≤ 1 → ∀ v w, quantile sorted p = .ok v → quantile sorted q = .ok w → v ≤ w) ↔
        ∀ x ∈ sorted, x = sorted.getD 0 0) ∧
      ((∀ prob : K, 0 ≤ prob ∧ prob ≤ 1 → quantile sorted prob = .ok (interpolated sorted prob)) ↔
        ∀ x ∈ sorted, x = sorted.getD 0 0) := by
  have hconst (h : ∀ prob : K, 0 ≤ prob ∧ prob ≤ 1 → ∀ v, quantile sorted prob = .ok v → sorted.getD 0 0 ≤ v) :
      ∀ x ∈ sorted, x = sorted.getD 0 0 := fun x hx => by
    obtain ⟨i, hi, rfl⟩ := List.mem_iff_getElem.mp hx
    rw [← List.getD_eq_getElem sorted 0 hi]
    exact all_eq_of_le hs h i hi
  refine ⟨fun prob hp => ⟨?_, fun h => ?_⟩, ⟨fun h => hconst ?_, fun h prob hp => ?_⟩, ⟨fun h => hconst ?_, ?_⟩,
    ⟨fun h => hconst ?_, fun h prob hp => (quantile_const hs hne h hp).1⟩⟩
  · rintro ⟨v, hv, -, -, rfl⟩
    exact (quantile_eq_interpolated hne hp).mp hv
  · obtain ⟨hle, hge⟩ := interpolated_mem hs hne prob
    exact ⟨_, (quantile_eq_interpolated hne hp).mpr h, hle, hge, rfl⟩
  · intro prob hp v hv
    obtain ⟨w, hw, hle, -⟩ := h prob hp
    exact hle.trans_eq (Except.ok.inj (hw.symm.trans hv))
  · obtain ⟨hq, -⟩ := quantile_const hs hne h hp
    obtain ⟨hle, hge⟩ := interpolated_mem hs hne prob
    exact ⟨_, hq, hle, hge⟩
  · -- the quantile of probability zero is the first sample
    intro prob hp v hv
    have hzero : quantile sorted 0 = .ok (sorted.getD 0 0) := by
      have hposition : position sorted.length (0 : K) ≤ 1 := by
        rw [position, mul_zero, zero_add]
        exact (div_le_one (by positivity)).mpr (by norm_num)
      rw [quantile_clamped hne ⟨le_rfl, zero_le_one⟩ (.inl hposition), interpolated, if_pos hposition]
    exact h 0 prob le_rfl hp.1 hp.2 _ v hzero hv
  · intro h p q hp hpq hq v w hv hw
    obtain ⟨hqp, hfirst⟩ := quantile_const hs hne h ⟨hp, hpq.trans hq⟩
    obtain ⟨hqq, hfirst'⟩ := quantile_const hs hne h ⟨hp.trans hpq, hq⟩
    rw [← Except.ok.inj (hqp.symm.trans hv), ← Except.ok.inj (hqq.symm.trans hw), hfirst, hfirst']
  · intro prob hp v hv
    rw [← Except.ok.inj ((h prob hp).symm.trans hv)]
    exact (interpolated_mem hs hne prob).1

/-- One of six samples is larger: no quantile of it stays in bounds for every probability. -/
theorem quantile_spec_six : ¬ ∀ prob : ℚ, 0 ≤ prob ∧ prob ≤ 1 →
    ∃ v, quantile [(0 : ℚ), 0, 0, 0, 0, 6] prob = .ok v ∧ 0 ≤ v ∧ v ≤ 6 := by
  intro h
  have hs : [(0 : ℚ), 0, 0, 0, 0, 6].Pairwise (· ≤ ·) := by decide +kernel
  have hall := (quantile_spec hs (by decide)).2.1.mp h
  exact absurd (hall 6 (by decide +kernel)) (by decide +kernel)

/-- **The upper quartile of six samples**, which the bin width uses: it is below all of them and below the lower quartile,
and should be one half. -/
theorem quantile_below : quantile [(0 : ℚ), 0, 0, 0, 0, 6] (3 / 4) = .ok (-1) ∧
    quantile [(0 : ℚ), 0, 0, 0, 0, 6] (1 / 4) = .ok 0 ∧ interpolated [(0 : ℚ), 0, 0, 0, 0, 6] (3 / 4) = 1 / 2 := by
  decide +kernel

end Itofin.Histogram
