import Itofin.Math.Interpolations.ConvexMonotoneSections
/-!
# ConvexMonotoneCovers — the chosen section has the average of its interval

One lemma for each shape and each region (`Covers`): the section that is chosen runs from the forward at the left end to
the one at the right end, with the average of the interval; where forwards are kept positive, it is not negative.  A
section split at zero needs an average that is positive, and a quadratic that is split needs its minimum inside the
interval (`ratio_lt_one`).
-/
namespace Itofin

namespace ConvexMonotone

open Piecewise

variable {f g m e a t : ℝ} {v P : ℝ → ℝ} {h h' : SectionHelper ℝ} {p : NodeInterval ℝ} {self : ConvexMonotone ℝ}

/-! ## Curves that are not negative -/

/-- From `f` to `g`, by a share of the way. -/
theorem toward_nonneg (hf : 0 ≤ f) (hg : 0 ≤ g) {s : ℝ} (h₀ : 0 ≤ s) (h₁ : s ≤ 1) : 0 ≤ f + (g - f) * s := by
  have h₂ : 0 ≤ f * (1 - s) := mul_nonneg hf (sub_nonneg.2 h₁)
  have h₃ : 0 ≤ g * s := mul_nonneg hg h₀
  linarith

/-- The share of the way up a parabola, at `t` between its vertex and its end. -/
theorem square_share {d w : ℝ} (hd : 0 < d) (h₀ : 0 ≤ w) (h₁ : w ≤ d) : 0 ≤ w * w / (d * d) ∧ w * w / (d * d) ≤ 1 := by
  refine ⟨by positivity, ?_⟩
  rw [div_le_one (by positivity)]
  exact mul_self_le_mul_self h₀ h₁

theorem flatLeft_nonneg (hf : 0 ≤ f) (hg : 0 ≤ g) (h₁ : e < 1) (ht : t ≤ 1) : 0 ≤ flatLeft f g e t := by
  unfold flatLeft
  split
  · exact hf
  · rename_i hlt
    have hs := square_share (sub_pos.2 h₁) (sub_nonneg.2 (not_le.1 hlt).le) (sub_le_sub_right ht e)
    have heq : f + (g - f) / ((1 - e) * (1 - e)) * (t - e) * (t - e) =
        f + (g - f) * ((t - e) * (t - e) / ((1 - e) * (1 - e))) := by ring
    rw [heq]
    exact toward_nonneg hf hg hs.1 hs.2

theorem flatRight_nonneg (hf : 0 ≤ f) (hg : 0 ≤ g) (h₀ : 0 < e) (ht : 0 ≤ t) : 0 ≤ flatRight f g e t := by
  unfold flatRight
  split
  · rename_i hle
    have hs := square_share h₀ (sub_nonneg.2 hle) (sub_le_self e ht)
    have heq : g + (f - g) / (e * e) * (e - t) * (e - t) = g + (f - g) * ((e - t) * (e - t) / (e * e)) := by ring
    rw [heq]
    exact toward_nonneg hg hf hs.1 hs.2
  · exact hg

theorem valley_nonneg (hm : 0 ≤ m) (hf : 0 ≤ f) (hg : 0 ≤ g) (h₀ : 0 < e) (h₁ : e < 1) (ht₀ : 0 ≤ t) (ht₁ : t ≤ 1) :
    0 ≤ valley m f g e t := by
  unfold valley
  split
  · rename_i hle
    have hs := square_share h₀ (sub_nonneg.2 hle) (sub_le_self e ht₀)
    rw [mul_assoc, mul_div_assoc]
    exact toward_nonneg hm hf hs.1 hs.2
  · rename_i hlt
    have hs := square_share (sub_pos.2 h₁) (sub_nonneg.2 (not_le.1 hlt).le) (sub_le_sub_right ht₁ e)
    rw [mul_assoc, mul_div_assoc]
    exact toward_nonneg hm hg hs.1 hs.2

theorem stretch_nonneg {r : ℝ} (hv : ∀ t, 0 ≤ t → t ≤ 1 → 0 ≤ v t) (hr : 0 < r) (h₀ : 0 ≤ e) (h₁ : e ≤ 1) (ht₀ : 0 ≤ t)
    (ht₁ : t ≤ 1) : 0 ≤ stretch v e r t := by
  unfold stretch
  split
  · rename_i hle
    refine hv _ (div_nonneg ht₀ hr.le) (((div_le_iff₀ hr).2 ?_).trans h₁)
    rwa [mul_comm]
  · split
    · exact le_rfl
    · rename_i hge
      have hle : (1 - t) / r ≤ 1 - e := by
        rw [div_le_iff₀ hr]
        linarith
      have hpos : 0 ≤ (1 - t) / r := div_nonneg (sub_nonneg.2 ht₁) hr.le
      exact hv _ (by linarith) (by linarith)

theorem parabola_eq (f g a t : ℝ) : parabola f g a t = f * (1 - t) + g * t - quadraticA f g a * (t * (1 - t)) := by
  simp only [parabola, quadraticA, quadraticB, nsmul_eq_mul, Nat.cast_ofNat]
  ring

theorem concave_nonneg (hf : 0 ≤ f) (hg : 0 ≤ g) (ha : quadraticA f g a ≤ 0) (ht₀ : 0 ≤ t) (ht₁ : t ≤ 1) :
    0 ≤ parabola f g a t := by
  rw [parabola_eq]
  have h₁ : 0 ≤ 1 - t := sub_nonneg.2 ht₁
  have hbend := mul_nonneg (neg_nonneg.2 ha) (mul_nonneg ht₀ h₁)
  have hsides := add_nonneg (mul_nonneg hf h₁) (mul_nonneg hg ht₀)
  linarith

theorem parabola_nonneg_of_discriminant (hf : 0 ≤ f) (hg : 0 ≤ g)
    (hd : quadraticB f g a * quadraticB f g a - 4 * quadraticA f g a * f ≤ 0) (ht₀ : 0 ≤ t) (ht₁ : t ≤ 1) :
    0 ≤ parabola f g a t := by
  rcases le_or_gt (quadraticA f g a) 0 with ha | ha
  · exact concave_nonneg hf hg ha ht₀ ht₁
  · have hsquare := sq_nonneg (2 * quadraticA f g a * t + quadraticB f g a)
    have hmul : 0 ≤ 4 * quadraticA f g a * parabola f g a t := by
      rw [parabola]
      linarith
    exact nonneg_of_mul_nonneg_right hmul (by linarith)

theorem parabola_nonneg_of_monotone (hf : 0 ≤ f) (hg : 0 ≤ g) (h : 2 * f + g ≤ 3 * a ∨ f + 2 * g < 3 * a)
    (ht₀ : 0 ≤ t) (ht₁ : t ≤ 1) : 0 ≤ parabola f g a t := by
  rcases le_or_gt (quadraticA f g a) 0 with ha | ha
  · exact concave_nonneg hf hg ha ht₀ ht₁
  · have h₁ : 0 ≤ 1 - t := sub_nonneg.2 ht₁
    have hA : quadraticA f g a = 3 * f + 3 * g - 6 * a := by
      simp only [quadraticA, nsmul_eq_mul, Nat.cast_ofNat]
    rcases h with h | h
    · -- it grows from `f` on
      have heq : parabola f g a t = f + t * (2 * (3 * a - (2 * f + g))) + quadraticA f g a * (t * t) := by
        rw [parabola_eq, hA]
        ring
      rw [heq]
      have hgrow : 0 ≤ t * (2 * (3 * a - (2 * f + g))) := mul_nonneg ht₀ (by linarith)
      have hbend : 0 ≤ quadraticA f g a * (t * t) := by positivity
      linarith
    · -- it falls down to `g`
      have heq : parabola f g a t = g + (1 - t) * (2 * (3 * a - (f + 2 * g))) + quadraticA f g a * ((1 - t) * (1 - t)) := by
        rw [parabola_eq, hA]
        ring
      rw [heq]
      have hfall : 0 ≤ (1 - t) * (2 * (3 * a - (f + 2 * g))) := mul_nonneg h₁ (by linarith)
      have hbend : 0 ≤ quadraticA f g a * ((1 - t) * (1 - t)) := by positivity
      linarith

/-! ## Sections -/

/-- The section runs from forward to forward with the average of the interval, and is not negative if so asked. -/
def Covers (h : SectionHelper ℝ) (p : NodeInterval ℝ) (tolerance : ℝ) (positive : Prop) : Prop :=
  ∃ v P, HasValue h p v ∧ HasArea h p P ∧ Profile p.fPrev p.fNext p.fAverage tolerance v P ∧
    (positive → ∀ t, 0 ≤ t → t ≤ 1 → 0 ≤ v t)

/-- Forwards and average that a section can be kept positive over. -/
structure Positive (p : NodeInterval ℝ) : Prop where
  prev : 0 ≤ p.fPrev
  next : 0 ≤ p.fNext
  average : 0 < p.fAverage

theorem Covers.combo {q : ℝ} {positive : Prop} (hq : 0 ≤ q ∧ q ≤ 1) (h₁ : Covers h p 0 positive)
    (h₂ : Covers h' p 0 positive) : Covers (comboHelper h h' q) p 0 positive := by
  obtain ⟨v, P, hv, hP, hprofile, hpos⟩ := h₁
  obtain ⟨w, Q, hw, hQ, hprofile', hpos'⟩ := h₂
  refine ⟨_, _, combo_value hv hw, combo_area hP hQ, hprofile.combine hprofile' q, fun hp t ht₀ ht₁ => ?_⟩
  exact add_nonneg (mul_nonneg hq.1 (hpos hp t ht₀ ht₁)) (mul_nonneg (sub_nonneg.2 hq.2) (hpos' hp t ht₀ ht₁))

theorem constantGrad_covers (hp : 0 < p.xScaling) (hc : Constant p) :
    Covers (constantGradHelper p) p (1 / 10 ^ 14) (0 ≤ p.fPrev ∧ 0 ≤ p.fNext) := by
  obtain ⟨hv, hP⟩ := constantGrad_eq hp
  refine ⟨_, _, hv, hP, ⟨?_, by ring, ?_, by ring, by ring⟩, fun hpos t ht₀ ht₁ => ?_⟩
  · exact (isPrimitive_quadratic 0 (p.fNext - p.fPrev) p.fPrev 0).of_eq (fun t => by ring) fun t => by ring
  · have hmid : (p.fNext - p.fPrev) / 2 * 1 ^ 2 + p.fPrev * 1 - p.fAverage = (p.gPrev + p.gNext) / 2 := by
      simp only [NodeInterval.gPrev, NodeInterval.gNext]
      ring
    obtain ⟨h₁, h₂⟩ := hc
    push_cast at h₁ h₂
    rw [hmid, abs_div, abs_two, div_le_iff₀ two_pos]
    refine (abs_add_le _ _).trans ?_
    linarith
  · rw [add_comm, mul_comm]
    have := toward_nonneg hpos.1 hpos.2 ht₀ ht₁
    linarith

theorem convex4_covers (hp : 0 < p.xScaling) (h₀ : 0 < e) (h₁ : e < 1) (hpos : self.forcePositive = true → Positive p) :
    Covers (self.convex4 p e) p 0 (self.forcePositive = true) := by
  unfold convex4
  cases hforce : self.forcePositive with
  | false =>
    obtain ⟨hv, hP⟩ := convexMonotone4_eq hp h₀ h₁
    exact ⟨_, _, hv, hP, profile_meeting h₀ h₁, fun h => absurd h (by decide)⟩
  | true  =>
    obtain ⟨hprev, hnext, ha⟩ := hpos hforce
    rw [if_pos rfl]
    rcases lt_or_ge 0 (meeting p e) with hm | hm
    · obtain ⟨hv, hP⟩ := convexMonotone4Min_plain hp h₀ h₁ hm
      exact ⟨_, _, hv, hP, profile_meeting h₀ h₁, fun _ t ht₀ ht₁ => valley_nonneg hm.le hprev hnext h₀ h₁ ht₀ ht₁⟩
    · have hlevel : 3 * p.fAverage ≤ level p e := by
        rw [meeting, ← level] at hm
        linarith
      have hpos : 0 < level p e := lt_of_lt_of_le (by linarith) hlevel
      have hratio : 0 < 3 * p.fAverage / level p e := div_pos (by linarith) hpos
      have hratio' : 3 * p.fAverage / level p e ≤ 1 := (div_le_one hpos).2 hlevel
      obtain ⟨hv, hP⟩ := convexMonotone4Min_split hp h₀ h₁ hm hpos.ne' hratio
      have hprofile := (profile_valley (f := p.fPrev) (g := p.fNext) (m := 0) h₀ h₁).stretch hratio hratio' h₀.le h₁.le
        (lt_of_le_of_lt (mul_le_of_le_one_left h₀.le hratio') h₁)
      have havg : 3 * p.fAverage / level p e * (0 + (e * (p.fPrev - 0) + (1 - e) * (p.fNext - 0)) / 3) = p.fAverage := by
        have hne := hpos.ne'
        rw [zero_add, sub_zero, sub_zero, ← level]
        field_simp
      rw [havg] at hprofile
      refine ⟨_, _, hv, hP, hprofile, fun _ t ht₀ ht₁ => ?_⟩
      exact stretch_nonneg (fun t ht₀ ht₁ => valley_nonneg le_rfl hprev hnext h₀ h₁ ht₀ ht₁) hratio h₀.le h₁.le ht₀ ht₁

/-! ## Quadratics -/

theorem minRegion_iff : MinRegion p ↔ 3 * p.fAverage ≤ p.fPrev + 2 * p.fNext ∧ 3 * p.fAverage < 2 * p.fPrev + p.fNext := by
  simp only [MinRegion, NodeInterval.gPrev, NodeInterval.gNext, Nat.cast_ofNat, zsmul_eq_mul, Int.cast_neg, Int.cast_ofNat]
  constructor
  · rintro ⟨h₁, h₂⟩
    constructor <;> linarith
  · rintro ⟨h₁, h₂⟩
    constructor <;> linarith

theorem discriminant_eq (hf : 0 ≤ p.fPrev) (hg : 0 ≤ p.fNext) : discriminant p =
    4 * ((3 * p.fAverage - 3 * touching p.fPrev p.fNext) *
      (3 * p.fAverage - (p.fPrev + p.fNext + √(p.fPrev * p.fNext)))) := by
  simp only [discriminant, quadraticA, quadraticB, touching, nsmul_eq_mul, Nat.cast_ofNat]
  linear_combination 4 * Real.mul_self_sqrt (mul_nonneg hf hg)

/-- **A quadratic with its minimum in the interval is shrunk when it is split.** -/
theorem ratio_lt_one (hpos : Positive p) (hmin : MinRegion p) (hd : 0 < discriminant p) :
    0 < p.fAverage / touching p.fPrev p.fNext ∧ p.fAverage / touching p.fPrev p.fNext < 1 := by
  obtain ⟨hf, hg, ha⟩ := hpos
  obtain ⟨h₁, h₂⟩ := minRegion_iff.1 hmin
  have hfg : 0 < p.fPrev + p.fNext := by linarith
  have ht := touching_pos hf hg hfg
  -- the average is not past the larger root of the discriminant
  have hlarge : 3 * p.fAverage ≤ p.fPrev + p.fNext + √(p.fPrev * p.fNext) := by
    rcases le_total p.fPrev p.fNext with hle | hle
    · have hsqrt : p.fPrev ≤ √(p.fPrev * p.fNext) := Real.le_sqrt_of_sq_le (by nlinarith)
      linarith
    · have hsqrt : p.fNext ≤ √(p.fPrev * p.fNext) := Real.le_sqrt_of_sq_le (by nlinarith)
      linarith
  have hsmall : p.fAverage < touching p.fPrev p.fNext := by
    by_contra hge
    rw [discriminant_eq hf hg] at hd
    have := mul_nonpos_of_nonneg_of_nonpos (sub_nonneg.2 (mul_le_mul_of_nonneg_left (not_lt.1 hge) three_pos.le))
      (sub_nonpos.2 hlarge)
    linarith
  exact ⟨div_pos ha ht, (div_lt_one ht).2 hsmall⟩

theorem discriminant_le (hd : discriminant p ≤ 0) :
    quadraticB p.fPrev p.fNext p.fAverage * quadraticB p.fPrev p.fNext p.fAverage -
      4 * quadraticA p.fPrev p.fNext p.fAverage * p.fPrev ≤ 0 := by
  simpa only [discriminant, nsmul_eq_mul, Nat.cast_ofNat, mul_assoc] using hd

theorem quadraticMin_covers_plain (hp : 0 < p.xScaling) (hd : discriminant p ≤ 0) :
    Covers (quadraticMinHelper Real.sqrt p) p 0 (0 ≤ p.fPrev ∧ 0 ≤ p.fNext) := by
  obtain ⟨hv, hP⟩ := quadraticMin_plain hp hd
  exact ⟨_, _, hv, hP, profile_parabola _, fun hpos t ht₀ ht₁ =>
    parabola_nonneg_of_discriminant hpos.1 hpos.2 (discriminant_le hd) ht₀ ht₁⟩

/-- The quadratic of a section, but for the one that a quadraticity of zero asks for. -/
theorem quadratic_covers (hp : 0 < p.xScaling) (hpos : self.forcePositive = true → Positive p) :
    Covers (quadratic Real.sqrt p (MinRegion p ∧ self.forcePositive)) p 0 (self.forcePositive = true) := by
  unfold quadratic
  by_cases hmin : MinRegion p ∧ self.forcePositive = true
  · have hp₀ := hpos hmin.2
    rw [if_pos (decide_eq_true hmin)]
    rcases le_or_gt (discriminant p) 0 with hd | hd
    · obtain ⟨v, P, hv, hP, hprofile, hnonneg⟩ := quadraticMin_covers_plain hp hd
      exact ⟨v, P, hv, hP, hprofile, fun _ => hnonneg ⟨hp₀.prev, hp₀.next⟩⟩
    · obtain ⟨hr₀, hr₁⟩ := ratio_lt_one hp₀ hmin.1 hd
      have hfg : 0 < p.fPrev + p.fNext := by
        have := (minRegion_iff.1 hmin.1).1
        have := (minRegion_iff.1 hmin.1).2
        have := hp₀.average
        linarith
      have hroot₀ := root_nonneg hp₀.prev hfg
      have hroot₁ := root_le_one hp₀.prev hfg
      obtain ⟨hv, hP⟩ := quadraticMin_split hp hd hp₀.prev hp₀.next hfg hr₀
      have hprofile := (profile_parabola (f := p.fPrev) (g := p.fNext) (touching p.fPrev p.fNext)).stretch hr₀ hr₁.le hroot₀
        hroot₁ (lt_of_le_of_lt (mul_le_of_le_one_right hr₀.le hroot₁) hr₁)
      rw [div_mul_cancel₀ _ (touching_pos hp₀.prev hp₀.next hfg).ne'] at hprofile
      refine ⟨_, _, hv, hP hr₁.le, hprofile, fun _ t ht₀ ht₁ => ?_⟩
      refine stretch_nonneg (fun t _ _ => ?_) hr₀ hroot₀ hroot₁ ht₀ ht₁
      rw [parabola_touching hp₀.prev hp₀.next]
      exact sq_nonneg _
  · rw [if_neg (by simpa using hmin)]
    obtain ⟨hv, hP⟩ := quadratic_eq hp
    refine ⟨_, _, hv, hP, profile_parabola _, fun hforce t ht₀ ht₁ => ?_⟩
    refine parabola_nonneg_of_monotone (hpos hforce).prev (hpos hforce).next ?_ ht₀ ht₁
    by_contra hnot
    rw [not_or, not_le, not_lt] at hnot
    exact hmin ⟨minRegion_iff.2 ⟨hnot.2, hnot.1⟩, hforce⟩

/-! ## Regions -/

theorem flatLeft_eta (hr : FlatLeftRegion p) : p.gNext - p.gPrev ≠ 0 ∧
    0 ≤ (p.gNext + 2 * p.gPrev) / (p.gNext - p.gPrev) ∧ (p.gNext + 2 * p.gPrev) / (p.gNext - p.gPrev) < 1 := by
  simp only [FlatLeftRegion, zsmul_eq_mul, Int.cast_neg, Int.cast_ofNat] at hr
  rcases hr with ⟨h₁, h₂⟩ | ⟨h₁, h₂⟩
  · have hpos : 0 < p.gNext - p.gPrev := by linarith
    refine ⟨hpos.ne', div_nonneg (by linarith) hpos.le, ?_⟩
    rw [div_lt_one hpos]
    linarith
  · have hneg : p.gNext - p.gPrev < 0 := by linarith
    refine ⟨hneg.ne, div_nonneg_of_nonpos (by linarith) hneg.le, ?_⟩
    rw [div_lt_one_of_neg hneg]
    linarith

theorem flatRight_eta (hr : FlatRightRegion p) : p.gNext - p.gPrev ≠ 0 ∧
    0 < p.gNext / (p.gNext - p.gPrev) * 3 ∧ p.gNext / (p.gNext - p.gPrev) * 3 < 1 := by
  simp only [FlatRightRegion, Nat.cast_ofNat] at hr
  rcases hr with ⟨h₁, h₂, h₃⟩ | ⟨h₁, h₂, h₃⟩
  · have hneg : p.gNext - p.gPrev < 0 := by linarith
    refine ⟨hneg.ne, mul_pos (div_pos_of_neg_of_neg h₂ hneg) three_pos, ?_⟩
    rw [div_mul_eq_mul_div, div_lt_one_of_neg hneg]
    linarith
  · have hpos : 0 < p.gNext - p.gPrev := by linarith
    refine ⟨hpos.ne', mul_pos (div_pos h₂ hpos) three_pos, ?_⟩
    rw [div_mul_eq_mul_div, div_lt_one hpos]
    linarith

/-- Outside the other regions the forwards are on one side of the average. -/
theorem same_side (h₁ : ¬ QuadraticRegion p) (h₂ : ¬ FlatLeftRegion p) (h₃ : ¬ FlatRightRegion p) :
    (0 ≤ p.gPrev ∧ 0 ≤ p.gNext) ∨ (p.gPrev ≤ 0 ∧ p.gNext ≤ 0) := by
  simp only [QuadraticRegion, FlatLeftRegion, FlatRightRegion, zsmul_eq_mul, Int.cast_neg, Int.cast_ofNat,
    Nat.cast_ofNat, not_or, not_and, not_le, not_lt] at h₁ h₂ h₃
  rcases lt_trichotomy p.gPrev 0 with hneg | hzero | hpos
  · refine .inr ⟨hneg.le, ?_⟩
    by_contra hg
    have := h₂.1 hneg
    have := h₃.2 hneg (not_le.1 hg)
    have := h₁.2 hneg (by linarith)
    linarith
  · rcases le_total 0 p.gNext with hg | hg
    · exact .inl ⟨hzero.ge, hg⟩
    · exact .inr ⟨hzero.le, hg⟩
  · refine .inl ⟨hpos.le, ?_⟩
    by_contra hg
    have := h₂.2 hpos
    have := h₃.1 hpos (not_le.1 hg)
    have := h₁.1 hpos (by linarith)
    linarith

theorem not_both_zero (hc : ¬ Constant p) : p.gPrev ≠ 0 ∨ p.gNext ≠ 0 := by
  by_contra h
  rw [not_or, not_not, not_not] at h
  refine hc ⟨?_, ?_⟩
  · rw [h.1, abs_zero]
    positivity
  · rw [h.2, abs_zero]
    positivity

theorem eta_limits (hm : 0 ≤ self.monotonicity ∧ self.monotonicity ≤ 1) :
    0 ≤ self.lowerEta ∧ self.lowerEta < 1 ∧ 0 < self.upperEta ∧ self.upperEta ≤ 1 ∧
      (self.monotonicity < 1 → 0 < self.lowerEta ∧ self.upperEta < 1) := by
  simp only [lowerEta, upperEta, Nat.cast_ofNat]
  refine ⟨by linarith, by linarith, by linarith, by linarith, fun hlt => ⟨by linarith, by linarith⟩⟩

theorem clip_eta {x : ℝ} (hm : 0 ≤ self.monotonicity ∧ self.monotonicity ≤ 1)
    (hx : self.monotonicity = 1 → 0 < x ∧ x < 1) : 0 < max self.lowerEta (min self.upperEta x) ∧
      max self.lowerEta (min self.upperEta x) < 1 := by
  obtain ⟨-, hl₁, hu₀, -, hlimits⟩ := eta_limits hm
  rcases eq_or_lt_of_le hm.2 with hone | hlt
  · obtain ⟨hx₀, hx₁⟩ := hx hone
    exact ⟨lt_max_of_lt_right (lt_min hu₀ hx₀), max_lt hl₁ (min_lt_of_right_lt hx₁)⟩
  · obtain ⟨hl₀, hu₁⟩ := hlimits hlt
    exact ⟨lt_max_of_lt_left hl₀, max_lt hl₁ (min_lt_of_left_lt hu₁)⟩

theorem flatLeft_covers (hp : 0 < p.xScaling) (h₀ : 0 ≤ e) (h₁ : e < 1) (heq : (p.fNext - p.fPrev) * (1 - e) = -3 * p.gPrev)
    (hpos : self.forcePositive = true → Positive p) :
    Covers (convexMonotone2Helper p e) p 0 (self.forcePositive = true) := by
  obtain ⟨hv, hP⟩ := convexMonotone2_eq hp h₁
  have hprofile := profile_flatLeft (f := p.fPrev) (g := p.fNext) h₀ h₁
  have havg : p.fPrev + (p.fNext - p.fPrev) * (1 - e) / 3 = p.fAverage := by
    rw [heq, NodeInterval.gPrev]
    ring
  rw [havg] at hprofile
  exact ⟨_, _, hv, hP, hprofile, fun hforce t _ ht₁ =>
    flatLeft_nonneg (hpos hforce).prev (hpos hforce).next h₁ ht₁⟩

theorem flatRight_covers (hp : 0 < p.xScaling) (h₀ : 0 < e) (h₁ : e < 1) (heq : (p.fPrev - p.fNext) * e = -3 * p.gNext)
    (hpos : self.forcePositive = true → Positive p) :
    Covers (convexMonotone3Helper p e) p 0 (self.forcePositive = true) := by
  obtain ⟨hv, hP⟩ := convexMonotone3_eq hp h₀
  have hprofile := profile_flatRight (f := p.fPrev) (g := p.fNext) h₀ h₁
  have havg : p.fNext + (p.fPrev - p.fNext) * e / 3 = p.fAverage := by
    rw [heq, NodeInterval.gNext]
    ring
  rw [havg] at hprofile
  exact ⟨_, _, hv, hP, hprofile, fun hforce t ht₀ _ =>
    flatRight_nonneg (hpos hforce).prev (hpos hforce).next h₀ ht₀⟩

/-- **The convex-monotone section**, region by region. -/
theorem convMono_covers (hp : 0 < p.xScaling) (hm : 0 ≤ self.monotonicity ∧ self.monotonicity ≤ 1)
    (hedge : self.monotonicity = 1 → p.gPrev ≠ 0 ∧ p.gNext ≠ 0) (hq : ¬ QuadraticRegion p) (hc : ¬ Constant p)
    (hpos : self.forcePositive = true → Positive p) :
    Covers (self.convMonoHelper p) p 0 (self.forcePositive = true) := by
  have hdiff : p.fNext - p.fPrev = p.gNext - p.gPrev := (sub_sub_sub_cancel_right _ _ _).symm
  obtain ⟨hl₀, hl₁, hu₀, hu₁, hlimits⟩ := eta_limits hm
  unfold convMonoHelper
  by_cases h₂ : FlatLeftRegion p
  · obtain ⟨hne, he₀, he₁⟩ := flatLeft_eta h₂
    rw [if_pos h₂, quotient_of_ne hne, Option.map_some, SectionHelper.ofOption]
    rw [nsmul_eq_mul, Nat.cast_ofNat]
    split
    · refine flatLeft_covers hp he₀ he₁ ?_ hpos
      rw [hdiff]
      field_simp
      ring
    · rename_i hge
      exact convex4_covers hp hu₀ ((not_lt.1 hge).trans_lt he₁) hpos
  rw [if_neg h₂]
  by_cases h₃ : FlatRightRegion p
  · obtain ⟨hne, he₀, he₁⟩ := flatRight_eta h₃
    rw [if_pos h₃, quotient_of_ne hne, Option.map_some, SectionHelper.ofOption]
    simp only [Nat.cast_ofNat]
    split
    · refine flatRight_covers hp he₀ he₁ ?_ hpos
      rw [← neg_sub p.fNext, hdiff]
      field_simp
    · rename_i hge
      exact convex4_covers hp (he₀.trans_le (not_lt.1 hge)) hl₁ hpos
  rw [if_neg h₃]
  have hside := same_side hq h₂ h₃
  have hzero := not_both_zero hc
  have hne : p.gPrev + p.gNext ≠ 0 := by
    intro hsum
    rcases hside with ⟨h, h'⟩ | ⟨h, h'⟩ <;> rcases hzero with hz | hz <;> exact hz (by linarith)
  rw [quotient_of_ne hne, Option.map_some, SectionHelper.ofOption]
  have hinside : self.monotonicity = 1 → 0 < p.gNext / (p.gPrev + p.gNext) ∧ p.gNext / (p.gPrev + p.gNext) < 1 := by
    intro hone
    obtain ⟨hz, hz'⟩ := hedge hone
    rcases hside with ⟨h, h'⟩ | ⟨h, h'⟩
    · have hg := lt_of_le_of_ne h hz.symm
      have hg' := lt_of_le_of_ne h' hz'.symm
      exact ⟨div_pos hg' (by linarith), (div_lt_one (by linarith)).2 (by linarith)⟩
    · have hg := lt_of_le_of_ne h hz
      have hg' := lt_of_le_of_ne h' hz'
      exact ⟨div_pos_of_neg_of_neg hg' (by linarith), (div_lt_one_of_neg (by linarith)).2 (by linarith)⟩
  obtain ⟨he₀, he₁⟩ := clip_eta hm hinside
  simp only [← min_def_lt]
  rw [← max_def_lt']
  exact convex4_covers hp he₀ he₁ hpos

/-! ## The chosen section -/

/-- What a section that is not constant needs: a positive average to be kept positive over, no end on the average where
monotonicity is one, and a quadratic of quadraticity zero that is not split. -/
structure Regular (settings : ConvexMonotone ℝ) (p : NodeInterval ℝ) : Prop where
  positive : settings.forcePositive = true → Positive p
  edge : settings.monotonicity = 1 → settings.quadraticity < 1 → p.gPrev ≠ 0 ∧ p.gNext ≠ 0
  dip : settings.forcePositive = true → settings.quadraticity = 0 → QuadraticRegion p → discriminant p ≤ 0

/-- **The chosen section has the average of its interval**, and is not negative where it is kept positive. -/
theorem chooseSection_covers (hp : 0 < p.xScaling) (hm : 0 ≤ self.monotonicity ∧ self.monotonicity ≤ 1)
    (hq : 0 ≤ self.quadraticity ∧ self.quadraticity ≤ 1) (hc : ¬ Constant p) (hr : Regular self p) :
    Covers (self.chooseSection Real.sqrt p) p 0 (self.forcePositive = true) := by
  have hquadratic := quadratic_covers hp hr.positive
  rcases chooseSection_cases Real.sqrt p hq with
    ⟨hconst, -⟩ | ⟨-, hzero, hregion, h⟩ | ⟨-, -, -, h⟩ | ⟨-, hzero, hregion, h⟩ | ⟨-, hpos, hlt, hregion, h⟩
  · exact absurd hconst hc
  · rw [h, quadratic]
    cases hforce : self.forcePositive with
    | false =>
      obtain ⟨hv, hP⟩ := quadratic_eq hp
      exact ⟨_, _, hv, hP, profile_parabola _, fun h => absurd h (by decide)⟩
    | true  =>
      obtain ⟨v, P, hv, hP, hprofile, hnonneg⟩ := quadraticMin_covers_plain hp (hr.dip hforce hzero hregion)
      have hpositive := hr.positive hforce
      exact ⟨v, P, hv, hP, hprofile, fun _ => hnonneg ⟨hpositive.prev, hpositive.next⟩⟩
  · rw [h]
    exact hquadratic
  · rw [h]
    exact convMono_covers hp hm (fun hone => hr.edge hone (hzero ▸ zero_lt_one)) hregion hc hr.positive
  · rw [h]
    exact hquadratic.combo hq (convMono_covers hp hm (fun hone => hr.edge hone hlt) hregion hc hr.positive)

/-- A section that is kept positive has a value at every point of its interval, and is not negative. -/
def NonNegative (h : SectionHelper ℝ) (p : NodeInterval ℝ) : Prop :=
  ∀ x, p.xPrev ≤ x → x ≤ p.xNext → ∃ v, h.value x = some v ∧ 0 ≤ v

theorem HasValue.nonNegative (hp : 0 < p.xScaling) (hv : HasValue h p v) (hpos : ∀ t, 0 ≤ t → t ≤ 1 → 0 ≤ v t) :
    NonNegative h p := fun x h₀ h₁ => by
  refine ⟨_, hv x h₀ h₁, hpos _ (div_nonneg (sub_nonneg.2 h₀) hp.le) ((div_le_one hp).2 ?_)⟩
  exact sub_le_sub_right h₁ _

/-- **Kept positive, the chosen section is not negative**, over a positive average; a quadratic that is split is a square
whatever it is stretched by. -/
theorem chooseSection_nonNegative (hp : 0 < p.xScaling) (hm : 0 < self.monotonicity ∧ self.monotonicity < 1)
    (hq : 0 ≤ self.quadraticity ∧ self.quadraticity ≤ 1) (hforce : self.forcePositive = true)
    (hpos : Constant p ∧ 0 ≤ p.fPrev ∧ 0 ≤ p.fNext ∨ Positive p) :
    NonNegative (self.chooseSection Real.sqrt p) p := by
  have hedge : self.monotonicity = 1 → self.quadraticity < 1 → p.gPrev ≠ 0 ∧ p.gNext ≠ 0 :=
    fun hone => absurd hone hm.2.ne
  by_cases hc : Constant p
  · obtain ⟨v, P, hv, -, -, hnonneg⟩ := constantGrad_covers hp hc
    rw [chooseSection, if_pos hc]
    refine hv.nonNegative hp (hnonneg ?_)
    rcases hpos with h | h
    · exact h.2
    · exact ⟨h.prev, h.next⟩
  · have hpositive : Positive p := hpos.resolve_left fun h => hc h.1
    by_cases hdip : self.quadraticity = 0 ∧ QuadraticRegion p ∧ 0 < discriminant p
    · obtain ⟨hzero, hregion, hd⟩ := hdip
      have hchoose : self.chooseSection Real.sqrt p = quadraticMinHelper Real.sqrt p := by
        simp [chooseSection, hc, hzero, hregion, hforce, quadratic, SectionHelper.ofOption]
      have hfg : 0 < p.fPrev + p.fNext := by
        refine lt_of_le_of_ne (add_nonneg hpositive.prev hpositive.next) fun hsum => ?_
        have hprev : p.fPrev = 0 := by linarith [hpositive.prev, hpositive.next]
        have hnext : p.fNext = 0 := by linarith [hpositive.prev, hpositive.next]
        have ha := hpositive.average
        simp only [QuadraticRegion, NodeInterval.gPrev, NodeInterval.gNext, hprev, hnext, zsmul_eq_mul, Int.cast_neg,
          Int.cast_ofNat, Nat.cast_ofNat] at hregion
        rcases hregion with ⟨h, -, -⟩ | ⟨-, h, -⟩ <;> linarith
      have hr := div_pos hpositive.average (touching_pos hpositive.prev hpositive.next hfg)
      rw [hchoose]
      refine (quadraticMin_split hp hd hpositive.prev hpositive.next hfg hr).1.nonNegative hp fun t ht₀ ht₁ => ?_
      refine stretch_nonneg (fun t _ _ => ?_) hr (root_nonneg hpositive.prev hfg) (root_le_one hpositive.prev hfg) ht₀ ht₁
      rw [parabola_touching hpositive.prev hpositive.next]
      exact sq_nonneg _
    · have hregular : Regular self p := ⟨fun _ => hpositive, hedge, fun _ hzero hregion =>
        not_lt.1 fun hd => hdip ⟨hzero, hregion, hd⟩⟩
      obtain ⟨v, P, hv, -, -, hnonneg⟩ := chooseSection_covers hp ⟨hm.1.le, hm.2.le⟩ hq hc hregular
      exact hv.nonNegative hp (hnonneg hforce)

theorem level_pos (hf : 0 ≤ p.fPrev) (hg : 0 ≤ p.fNext) (hfg : 0 < p.fPrev + p.fNext) (h₀ : 0 < e) (h₁ : e < 1) :
    0 < level p e := by
  have hnext := mul_nonneg (sub_pos.2 h₁).le hg
  rw [level]
  rcases eq_or_lt_of_le hf with hzero | hpos
  · rw [← hzero, zero_add] at hfg
    rw [← hzero, mul_zero, zero_add]
    exact mul_pos (sub_pos.2 h₁) hfg
  · exact add_pos_of_pos_of_nonneg (mul_pos h₀ hpos) hnext

/-- **Over an average of zero, with forwards that are not, the chosen section has no value at its left end.** -/
theorem chooseSection_zero (hp : 0 < p.xScaling) (hm : 0 < self.monotonicity ∧ self.monotonicity < 1)
    (hq : 0 ≤ self.quadraticity ∧ self.quadraticity ≤ 1) (hforce : self.forcePositive = true) (hc : ¬ Constant p)
    (hf : 0 ≤ p.fPrev) (hg : 0 ≤ p.fNext) (ha : p.fAverage = 0) :
    (self.chooseSection Real.sqrt p).value p.xPrev = none := by
  have hprev : p.gPrev = p.fPrev := by rw [NodeInterval.gPrev, ha, sub_zero]
  have hnext : p.gNext = p.fNext := by rw [NodeInterval.gNext, ha, sub_zero]
  have hfg : 0 < p.fPrev + p.fNext := by
    refine lt_of_le_of_ne (add_nonneg hf hg) fun hsum => ?_
    rcases not_both_zero hc with h | h
    · exact h (by rw [hprev]; linarith)
    · exact h (by rw [hnext]; linarith)
  have hquadratic : quadratic Real.sqrt p (MinRegion p ∧ self.forcePositive) = quadraticMinHelper Real.sqrt p := by
    have hmin : MinRegion p := minRegion_iff.2 ⟨by linarith, by linarith⟩
    simp [quadratic, hmin, hforce]
  have hregion : ¬ QuadraticRegion p := by
    simp only [QuadraticRegion, hprev, hnext, zsmul_eq_mul, Int.cast_neg, Int.cast_ofNat, Nat.cast_ofNat]
    rintro (⟨h, h', -⟩ | ⟨h, -, -⟩) <;> linarith
  have hconv : (self.convMonoHelper p).value p.xPrev = none := by
    have h₂ : ¬ FlatLeftRegion p := by
      simp only [FlatLeftRegion, hprev, hnext, zsmul_eq_mul, Int.cast_neg, Int.cast_ofNat]
      rintro (⟨h, -⟩ | ⟨h, h'⟩) <;> linarith
    have h₃ : ¬ FlatRightRegion p := by
      simp only [FlatRightRegion, hprev, hnext]
      rintro (⟨-, h, -⟩ | ⟨h, -, -⟩) <;> linarith
    have hne : p.gPrev + p.gNext ≠ 0 := by
      rw [hprev, hnext]
      exact hfg.ne'
    obtain ⟨he₀, he₁⟩ := clip_eta (x := p.gNext / (p.gPrev + p.gNext)) ⟨hm.1.le, hm.2.le⟩ fun hone => absurd hone hm.2.ne
    rw [convMonoHelper, if_neg h₂, if_neg h₃, quotient_of_ne hne, Option.map_some, SectionHelper.ofOption]
    simp only [← min_def_lt]
    rw [← max_def_lt', convex4, if_pos hforce]
    exact convexMonotone4Min_zero hp ha (level_pos hf hg hfg he₀ he₁)
  rcases chooseSection_cases Real.sqrt p hq with
    ⟨hconst, -⟩ | ⟨-, -, hregion', -⟩ | ⟨-, -, -, h⟩ | ⟨-, -, -, h⟩ | ⟨-, -, -, -, h⟩
  · exact absurd hconst hc
  · exact absurd hregion' hregion
  · rw [h, hquadratic, quadraticMin_zero hp ha hf hg hfg]
  · rw [h, hconv]
  · rw [h, comboHelper]
    simp only [hquadratic, quadraticMin_zero hp ha hf hg hfg, Option.bind_none]

end ConvexMonotone

end Itofin
