import Itofin.Math.Interpolations.ConvexMonotone
/-!
# ConvexMonotoneSections — the curves of the sections

Every section is a curve over `[0, 1]`, evaluated at the share of its interval before a point (`HasValue`), with the area
under it (`HasArea`).  A curve runs from one forward to another and has the average of the interval (`Profile`).
-/
namespace Itofin

namespace ConvexMonotone

open Piecewise

variable {f g m e t fAverage tolerance : ℝ} {v w P Q : ℝ → ℝ}

/-! ## Profiles -/

/-- A curve over `[0, 1]` from `f` to `g` whose average is `fAverage`, up to a tolerance. -/
structure Profile (f g fAverage tolerance : ℝ) (v P : ℝ → ℝ) : Prop where
  isPrimitive : IsPrimitive v P
  start : P 0 = 0
  finish : |P 1 - fAverage| ≤ tolerance
  left : v 0 = f
  right : v 1 = g

namespace Profile

theorem of_eq (h : IsPrimitive v P) (h₀ : P 0 = 0) (h₁ : P 1 = fAverage) (hl : v 0 = f) (hr : v 1 = g) :
    Profile f g fAverage 0 v P :=
  ⟨h, h₀, by rw [h₁, sub_self, abs_zero], hl, hr⟩

theorem area (h : Profile f g fAverage 0 v P) : P 1 = fAverage := sub_eq_zero.1 (abs_nonpos_iff.1 h.finish)

theorem mono (h : Profile f g fAverage 0 v P) (ht : 0 ≤ tolerance) : Profile f g fAverage tolerance v P :=
  ⟨h.isPrimitive, h.start, h.finish.trans ht, h.left, h.right⟩

theorem combine (h : Profile f g fAverage 0 v P) (h' : Profile f g fAverage 0 w Q) (q : ℝ) :
    Profile f g fAverage 0 (fun t => q * v t + (1 - q) * w t) (fun t => q * P t + (1 - q) * Q t) := by
  refine of_eq (h.isPrimitive.combine h'.isPrimitive q (1 - q)) ?_ ?_ ?_ ?_
  · simp only [h.start, h'.start, mul_zero, add_zero]
  · rw [h.area, h'.area]
    ring
  · rw [h.left, h'.left]
    ring
  · rw [h.right, h'.right]
    ring

theorem stretch {r : ℝ} (h : Profile f g fAverage 0 v P) (hr₀ : 0 < r) (hr₁ : r ≤ 1) (he₀ : 0 ≤ e) (he₁ : e ≤ 1)
    (hre : r * e < 1) : Profile f g (r * fAverage) 0 (Piecewise.stretch v e r) (stretchArea P e r) := by
  have hend : ¬ 1 ≤ r * e := not_le.2 hre
  have hmid : ¬ (1 : ℝ) < 1 - r * (1 - e) := by
    have := mul_nonneg hr₀.le (sub_nonneg.2 he₁)
    linarith
  have hzero : (0 : ℝ) ≤ r * e := mul_nonneg hr₀.le he₀
  refine of_eq (isPrimitive_stretch h.isPrimitive hr₀ hr₁) ?_ ?_ ?_ ?_
  · rw [stretchArea, if_pos hzero, zero_div, h.start, mul_zero]
  · rw [stretchArea, if_neg hend, if_neg hmid, sub_self, zero_div, sub_zero, h.area]
  · rw [Piecewise.stretch, if_pos hzero, zero_div, h.left]
  · rw [Piecewise.stretch, if_neg hend, if_neg hmid, sub_self, zero_div, sub_zero, h.right]

end Profile

/-! ## The curves -/

/-- Constant up to `e`, then a parabola. -/
noncomputable def flatLeft (f g e t : ℝ) : ℝ :=
  if t ≤ e then f else f + (g - f) / ((1 - e) * (1 - e)) * (t - e) * (t - e)

noncomputable def flatLeftArea (f g e t : ℝ) : ℝ :=
  if t ≤ e then f * t
  else f * t + (g - f) / ((1 - e) * (1 - e)) * (1 / ((3 : ℕ) : ℝ) * (t * t * t - e * e * e) - e * t * t + e * e * t)

/-- A parabola up to `e`, then constant. -/
noncomputable def flatRight (f g e t : ℝ) : ℝ := if t ≤ e then g + (f - g) / (e * e) * (e - t) * (e - t) else g

noncomputable def flatRightArea (f g e t : ℝ) : ℝ :=
  if t ≤ e then g * t + (f - g) / (e * e) * (1 / ((3 : ℕ) : ℝ) * t * t * t - e * t * t + e * e * t)
  else g * t + (f - g) / (e * e) * (1 / ((3 : ℕ) : ℝ) * e * e * e)

/-- Two parabolas that meet in their vertex, at `e` with the value `m`. -/
noncomputable def valley (m f g e t : ℝ) : ℝ :=
  if t ≤ e then m + (f - m) * (e - t) * (e - t) / (e * e)
  else m + (g - m) * (t - e) * (t - e) / ((1 - e) * (1 - e))

noncomputable def valleyArea (m f g e t : ℝ) : ℝ :=
  if t ≤ e then (m + (f - m) / (e * e) * (e * e - e * t + 1 / ((3 : ℕ) : ℝ) * t * t)) * t
  else m * t + (f - m) * (1 / ((3 : ℕ) : ℝ) * e) +
    (g - m) / ((1 - e) * (1 - e)) * (1 / ((3 : ℕ) : ℝ) * t * t * t - e * t * t + e * e * t - 1 / ((3 : ℕ) : ℝ) * e * e * e)

/-- The parabola from `f` to `g` with a given average. -/
noncomputable def parabola (f g a t : ℝ) : ℝ := quadraticA f g a * t * t + quadraticB f g a * t + f

noncomputable def parabolaArea (f g a t : ℝ) : ℝ :=
  (quadraticA f g a / ((3 : ℕ) : ℝ) * t * t + quadraticB f g a / ((2 : ℕ) : ℝ) * t + f) * t

theorem isPrimitive_const (a d : ℝ) : IsPrimitive (fun _ => a) fun t => a * t + d :=
  (isPrimitive_quadratic 0 0 a d).of_eq (fun t => by ring) fun t => by ring

theorem profile_flatLeft (h₀ : 0 ≤ e) (h₁ : e < 1) :
    Profile f g (f + (g - f) * (1 - e) / 3) 0 (flatLeft f g e) (flatLeftArea f g e) := by
  have hne : 1 - e ≠ 0 := (sub_pos.2 h₁).ne'
  have hend : ¬ 1 ≤ e := not_le.2 h₁
  refine Profile.of_eq ?_ ?_ ?_ ?_ ?_
  · have hleft : IsPrimitive (fun _ => f) fun t => f * t :=
      (isPrimitive_const f 0).of_eq (fun _ => rfl) fun t => (add_zero _).symm
    have hright : IsPrimitive (fun t => f + (g - f) / ((1 - e) * (1 - e)) * (t - e) * (t - e)) fun t =>
        f * t + (g - f) / ((1 - e) * (1 - e)) * (1 / 3 * (t * t * t - e * e * e) - e * t * t + e * e * t) := by
      generalize (g - f) / ((1 - e) * (1 - e)) = k
      exact (isPrimitive_quadratic k (-2 * k * e) (f + k * e ^ 2) (-k * e ^ 3 / 3)).of_eq (fun t => by ring)
        fun t => by ring
    exact hleft.ite hright (by ring)
  · rw [flatLeftArea, if_pos h₀, mul_zero]
  · rw [flatLeftArea, if_neg hend]
    field_simp
    ring
  · rw [flatLeft, if_pos h₀]
  · rw [flatLeft, if_neg hend]
    field_simp
    ring

theorem profile_flatRight (h₀ : 0 < e) (h₁ : e < 1) :
    Profile f g (g + (f - g) * e / 3) 0 (flatRight f g e) (flatRightArea f g e) := by
  have hne : e ≠ 0 := h₀.ne'
  have hend : ¬ 1 ≤ e := not_le.2 h₁
  refine Profile.of_eq ?_ ?_ ?_ ?_ ?_
  · have hleft : IsPrimitive (fun t => g + (f - g) / (e * e) * (e - t) * (e - t)) fun t =>
        g * t + (f - g) / (e * e) * (1 / 3 * t * t * t - e * t * t + e * e * t) := by
      generalize (f - g) / (e * e) = k
      exact (isPrimitive_quadratic k (-2 * k * e) (g + k * e ^ 2) 0).of_eq (fun t => by ring) fun t => by ring
    exact hleft.ite (isPrimitive_const g _) (by ring)
  · rw [flatRightArea, if_pos h₀.le]
    ring
  · rw [flatRightArea, if_neg hend, Nat.cast_ofNat]
    field_simp
  · rw [flatRight, if_pos h₀.le]
    field_simp
    ring
  · rw [flatRight, if_neg hend]

theorem profile_valley (h₀ : 0 < e) (h₁ : e < 1) :
    Profile f g (m + (e * (f - m) + (1 - e) * (g - m)) / 3) 0 (valley m f g e) (valleyArea m f g e) := by
  have hne : e ≠ 0 := h₀.ne'
  have hne' : 1 - e ≠ 0 := (sub_pos.2 h₁).ne'
  have hend : ¬ 1 ≤ e := not_le.2 h₁
  refine Profile.of_eq ?_ ?_ ?_ ?_ ?_
  · have hleft : IsPrimitive (fun t => m + (f - m) * (e - t) * (e - t) / (e * e)) fun t =>
        (m + (f - m) / (e * e) * (e * e - e * t + 1 / 3 * t * t)) * t := by
      have hk : ∀ t, (f - m) * (e - t) * (e - t) / (e * e) = (f - m) / (e * e) * (e - t) ^ 2 := fun t => by ring
      simp only [hk]
      generalize (f - m) / (e * e) = k
      exact (isPrimitive_quadratic k (-2 * k * e) (m + k * e ^ 2) 0).of_eq (fun t => by ring) fun t => by ring
    have hright : IsPrimitive (fun t => m + (g - m) * (t - e) * (t - e) / ((1 - e) * (1 - e))) fun t =>
        m * t + (f - m) * (1 / 3 * e) +
          (g - m) / ((1 - e) * (1 - e)) * (1 / 3 * t * t * t - e * t * t + e * e * t - 1 / 3 * e * e * e) := by
      have hk : ∀ t, (g - m) * (t - e) * (t - e) / ((1 - e) * (1 - e)) =
        (g - m) / ((1 - e) * (1 - e)) * (t - e) ^ 2 := fun t => by ring
      simp only [hk]
      generalize (g - m) / ((1 - e) * (1 - e)) = k
      exact (isPrimitive_quadratic k (-2 * k * e) (m + k * e ^ 2) ((f - m) * (1 / 3 * e) - k * e ^ 3 / 3)).of_eq
        (fun t => by ring) fun t => by ring
    apply hleft.ite hright
    field_simp
    ring
  · rw [valleyArea, if_pos h₀.le, mul_zero]
  · rw [valleyArea, if_neg hend]
    field_simp
    ring
  · rw [valley, if_pos h₀.le]
    field_simp
    ring
  · rw [valley, if_neg hend]
    field_simp
    ring

theorem profile_parabola (a : ℝ) : Profile f g a 0 (parabola f g a) (parabolaArea f g a) := by
  refine Profile.of_eq ?_ ?_ ?_ ?_ ?_
  · exact (isPrimitive_quadratic (quadraticA f g a) (quadraticB f g a) f 0).of_eq (fun t => by rw [parabola]; ring)
      fun t => by rw [parabolaArea]; ring
  · rw [parabolaArea, mul_zero]
  · simp only [parabolaArea, quadraticA, quadraticB, nsmul_eq_mul, Nat.cast_ofNat]
    ring
  · rw [parabola]
    ring
  · simp only [parabola, quadraticA, quadraticB, nsmul_eq_mul, Nat.cast_ofNat]
    ring

/-! ## The evaluations -/

variable {h : SectionHelper ℝ} {p : NodeInterval ℝ} {x : ℝ}

/-- The section evaluates the curve `v` at the share of the interval before a point. -/
def HasValue (h : SectionHelper ℝ) (p : NodeInterval ℝ) (v : ℝ → ℝ) : Prop :=
  ∀ x, p.xPrev ≤ x → x ≤ p.xNext → h.value x = some (v ((x - p.xPrev) / p.xScaling))

def HasArea (h : SectionHelper ℝ) (p : NodeInterval ℝ) (P : ℝ → ℝ) : Prop :=
  ∀ x, p.xPrev ≤ x → x ≤ p.xNext →
    h.primitive x = some (p.prevPrimitive + p.xScaling * P ((x - p.xPrev) / p.xScaling))

theorem quotient_of_ne {a b : ℝ} (hb : b ≠ 0) : quotient a b = some (a / b) := if_neg hb

theorem quotient_zero (a : ℝ) : quotient a 0 = none := if_pos rfl

theorem xVal_eq (hp : 0 < p.xScaling) (x : ℝ) : p.xVal x = some ((x - p.xPrev) / p.xScaling) := quotient_of_ne hp.ne'

theorem le_share (hp : 0 < p.xScaling) (c : ℝ) : x ≤ p.xPrev + p.xScaling * c ↔ (x - p.xPrev) / p.xScaling ≤ c := by
  rw [div_le_iff₀ hp, sub_le_iff_le_add', mul_comm c]

theorem lt_share (hp : 0 < p.xScaling) (c : ℝ) : x < p.xPrev + p.xScaling * c ↔ (x - p.xPrev) / p.xScaling < c := by
  rw [div_lt_iff₀ hp, sub_lt_iff_lt_add', mul_comm c]

theorem combo_value {q : ℝ} {h' : SectionHelper ℝ} (hv : HasValue h p v) (hw : HasValue h' p w) :
    HasValue (comboHelper h h' q) p fun t => q * v t + (1 - q) * w t := fun x h₀ h₁ => by
  simp only [comboHelper, hv x h₀ h₁, hw x h₀ h₁, Option.bind_some, Option.map_some]

theorem combo_area {q : ℝ} {h' : SectionHelper ℝ} (hP : HasArea h p P) (hQ : HasArea h' p Q) :
    HasArea (comboHelper h h' q) p fun t => q * P t + (1 - q) * Q t := fun x h₀ h₁ => by
  simp only [comboHelper, hP x h₀ h₁, hQ x h₀ h₁, Option.bind_some, Option.map_some, Option.some.injEq]
  ring

theorem constantGrad_eq (hp : 0 < p.xScaling) :
    HasValue (constantGradHelper p) p (fun t => (p.fNext - p.fPrev) * t + p.fPrev) ∧
    HasArea (constantGradHelper p) p (fun t => (p.fNext - p.fPrev) / 2 * t ^ 2 + p.fPrev * t) := by
  have hne := hp.ne'
  constructor <;> intro x _ _ <;>
    simp only [constantGradHelper, quotient_of_ne hne, Option.map_some, SectionHelper.ofOption, Option.some.injEq]
  · ring
  · field_simp
    ring

theorem convexMonotone2_eq (hp : 0 < p.xScaling) (he : e < 1) :
    HasValue (convexMonotone2Helper p e) p (flatLeft p.fPrev p.fNext e) ∧
    HasArea (convexMonotone2Helper p e) p (flatLeftArea p.fPrev p.fNext e) := by
  have hne : 1 - e ≠ 0 := (sub_pos.2 he).ne'
  have hg : p.gNext - p.gPrev = p.fNext - p.fPrev := sub_sub_sub_cancel_right _ _ _
  constructor <;> intro x _ _ <;>
    simp only [convexMonotone2Helper, xVal_eq hp, Option.bind_some, quotient_of_ne (mul_ne_zero hne hne), Option.map_some,
      hg, p.fAverage_add_gPrev]
  · rw [flatLeft]
    split <;> rfl
  · have hprev : ∀ t, p.fAverage * t + p.gPrev * t = p.fPrev * t := fun t => by rw [← add_mul, p.fAverage_add_gPrev]
    rw [flatLeftArea]
    simp only [hprev, Nat.cast_ofNat]
    split <;> rfl

theorem convexMonotone3_eq (hp : 0 < p.xScaling) (he : 0 < e) :
    HasValue (convexMonotone3Helper p e) p (flatRight p.fPrev p.fNext e) ∧
    HasArea (convexMonotone3Helper p e) p (flatRightArea p.fPrev p.fNext e) := by
  have hg : p.gPrev - p.gNext = p.fPrev - p.fNext := sub_sub_sub_cancel_right _ _ _
  constructor <;> intro x _ _ <;>
    simp only [convexMonotone3Helper, xVal_eq hp, Option.bind_some, quotient_of_ne (mul_ne_zero he.ne' he.ne'),
      Option.map_some, hg, p.fAverage_add_gNext]
  · rw [flatRight]
    split <;> rfl
  · have hnext : ∀ t, p.fAverage * t + p.gNext * t = p.fNext * t := fun t => by rw [← add_mul, p.fAverage_add_gNext]
    rw [flatRightArea]
    simp only [hnext, Nat.cast_ofNat]
    split <;> rfl

theorem quadratic_eq (hp : 0 < p.xScaling) : HasValue (quadraticHelper p) p (parabola p.fPrev p.fNext p.fAverage) ∧
    HasArea (quadraticHelper p) p (parabolaArea p.fPrev p.fNext p.fAverage) := by
  constructor <;> intro x _ _ <;>
    simp only [quadraticHelper, xVal_eq hp, Option.map_some, parabola, parabolaArea, Nat.cast_ofNat, Option.some.injEq]
  ring

/-! ## Two parabolas that meet -/

/-- The value where the two parabolas meet, which makes the average that of the interval. -/
noncomputable def meeting (p : NodeInterval ℝ) (e : ℝ) : ℝ :=
  (((3 : ℕ) : ℝ) * p.fAverage - (e * p.fPrev + (1 - e) * p.fNext)) / ((2 : ℕ) : ℝ)

theorem profile_meeting (h₀ : 0 < e) (h₁ : e < 1) : Profile p.fPrev p.fNext p.fAverage 0
    (valley (meeting p e) p.fPrev p.fNext e) (valleyArea (meeting p e) p.fPrev p.fNext e) := by
  have h := profile_valley (f := p.fPrev) (g := p.fNext) (m := meeting p e) h₀ h₁
  have havg : meeting p e + (e * (p.fPrev - meeting p e) + (1 - e) * (p.fNext - meeting p e)) / 3 = p.fAverage := by
    rw [meeting]
    ring
  rwa [havg] at h

/-- What the two parabolas of a section are: where they meet, and where they end. -/
structure Meets (base : ConvexMonotone4Helper ℝ) (p : NodeInterval ℝ) (m e : ℝ) : Prop where
  eta : base.eta4 = e
  bottom : base.fAverage + base.a = m
  prev : base.gPrev - base.a = p.fPrev - m
  next : base.gNext - base.a = p.fNext - m
  share : ∀ x, base.xVal x = p.xVal x
  scaling : base.xScaling = p.xScaling
  primitive : base.prevPrimitive = p.prevPrimitive

variable {base : ConvexMonotone4Helper ℝ}

theorem meets_new : Meets (ConvexMonotone4Helper.new p e) p (meeting p e) e where
  eta := rfl
  bottom := by
    simp only [ConvexMonotone4Helper.new, NodeInterval.gPrev, NodeInterval.gNext, meeting, Nat.cast_ofNat]
    ring
  prev := by
    simp only [ConvexMonotone4Helper.new, NodeInterval.gPrev, NodeInterval.gNext, meeting, Nat.cast_ofNat]
    ring
  next := by
    simp only [ConvexMonotone4Helper.new, NodeInterval.gPrev, NodeInterval.gNext, meeting, Nat.cast_ofNat]
    ring
  share _ := rfl
  scaling := rfl
  primitive := rfl

namespace Meets

variable (hb : Meets base p m e)
include hb

theorem leftValue_eq (h₀ : 0 < e) (ht : t ≤ e) : base.leftValue t = some (valley m p.fPrev p.fNext e t) := by
  rw [ConvexMonotone4Helper.leftValue, hb.eta, quotient_of_ne (mul_ne_zero h₀.ne' h₀.ne'), hb.prev, hb.bottom, valley,
    if_pos ht]
  rfl

theorem rightValue_eq (h₁ : e < 1) (ht : e ≤ t) :
    base.rightValue t = some (valley m p.fPrev p.fNext e t) := by
  have hne : 1 - e ≠ 0 := (sub_pos.2 h₁).ne'
  rw [ConvexMonotone4Helper.rightValue, hb.eta, quotient_of_ne (mul_ne_zero hne hne), hb.next, hb.bottom, valley]
  rcases eq_or_lt_of_le ht with rfl | hlt
  · simp
  · rw [if_neg (not_le.2 hlt)]
    rfl

theorem leftArea_eq (h₀ : 0 < e) (ht : t ≤ e) : base.leftArea t = some (valleyArea m p.fPrev p.fNext e t) := by
  rw [ConvexMonotone4Helper.leftArea, hb.eta, quotient_of_ne (mul_ne_zero h₀.ne' h₀.ne'), hb.prev, hb.bottom,
    valleyArea, if_pos ht]
  simp

theorem rightArea_eq (h₀ : 0 < e) (h₁ : e < 1) (ht : e ≤ t) :
    base.rightArea t = some (valleyArea m p.fPrev p.fNext e t) := by
  have hne : 1 - e ≠ 0 := (sub_pos.2 h₁).ne'
  have hmt : base.fAverage * t + base.a * t = m * t := by rw [← add_mul, hb.bottom]
  rw [ConvexMonotone4Helper.rightArea, hb.eta, quotient_of_ne (mul_ne_zero hne hne), hb.next, hb.prev, hmt, valleyArea]
  rcases eq_or_lt_of_le ht with rfl | hlt
  · have he := h₀.ne'
    simp only [Option.map_some, Option.some.injEq, le_refl, if_true, Nat.cast_ofNat]
    field_simp
    ring
  · rw [if_neg (not_le.2 hlt)]
    simp

/-- The middle of a split section: the area up to the meeting point. -/
theorem middleArea_eq (h₀ : 0 < e) : base.fAverage * e + base.a * e +
    (base.gPrev - base.a) / (e * e) * (1 / (3 : ℕ) * e * e * e) = valleyArea m p.fPrev p.fNext e e := by
  have he := h₀.ne'
  rw [← add_mul, hb.bottom, hb.prev, valleyArea, if_pos le_rfl, Nat.cast_ofNat]
  field_simp
  ring

end Meets

theorem base_eq (hb : Meets base p m e) (hp : 0 < p.xScaling) (h₀ : 0 < e) (h₁ : e < 1) (x : ℝ) :
    base.value x = some (valley m p.fPrev p.fNext e ((x - p.xPrev) / p.xScaling)) ∧
    base.primitive x =
      some (p.prevPrimitive + p.xScaling * valleyArea m p.fPrev p.fNext e ((x - p.xPrev) / p.xScaling)) := by
  simp only [ConvexMonotone4Helper.value, ConvexMonotone4Helper.primitive, hb.share, xVal_eq hp, Option.bind_some, hb.eta,
    hb.scaling, hb.primitive]
  by_cases ht : (x - p.xPrev) / p.xScaling ≤ e
  · rw [if_pos ht, if_pos ht, hb.leftValue_eq h₀ ht, hb.leftArea_eq h₀ ht]
    exact ⟨rfl, rfl⟩
  · rw [if_neg ht, if_neg ht, hb.rightValue_eq h₁ (not_le.1 ht).le, hb.rightArea_eq h₀ h₁ (not_le.1 ht).le]
    exact ⟨rfl, rfl⟩

theorem convexMonotone4_eq (hp : 0 < p.xScaling) (h₀ : 0 < e) (h₁ : e < 1) :
    HasValue (convexMonotone4Helper p e) p (valley (meeting p e) p.fPrev p.fNext e) ∧
    HasArea (convexMonotone4Helper p e) p (valleyArea (meeting p e) p.fPrev p.fNext e) :=
  ⟨fun x _ _ => (base_eq meets_new hp h₀ h₁ x).1, fun x _ _ => (base_eq meets_new hp h₀ h₁ x).2⟩

theorem convexMonotone4Min_plain (hp : 0 < p.xScaling) (h₀ : 0 < e) (h₁ : e < 1) (hm : 0 < meeting p e) :
    HasValue (convexMonotone4MinHelper p e) p (valley (meeting p e) p.fPrev p.fNext e) ∧
    HasArea (convexMonotone4MinHelper p e) p (valleyArea (meeting p e) p.fPrev p.fNext e) := by
  have hbottom : ¬ (ConvexMonotone4Helper.new p e).a + (ConvexMonotone4Helper.new p e).fAverage ≤ 0 := by
    rw [add_comm, meets_new.bottom]
    exact not_le.2 hm
  have hnew : ConvexMonotone4MinHelper.new p e = some ⟨ConvexMonotone4Helper.new p e, false, 0, 0, 0⟩ := by
    rw [ConvexMonotone4MinHelper.new]
    exact if_neg hbottom
  simp only [convexMonotone4MinHelper, hnew, Option.map_some, SectionHelper.ofOption]
  exact ⟨fun x _ _ => (base_eq meets_new hp h₀ h₁ x).1, fun x _ _ => (base_eq meets_new hp h₀ h₁ x).2⟩

/-- The two forwards, weighted. -/
noncomputable def level (p : NodeInterval ℝ) (e : ℝ) : ℝ := e * p.fPrev + (1 - e) * p.fNext

/-- A split section: two parabolas that meet in zero, shrunk by `r`. -/
structure Split (s : ConvexMonotone4MinHelper ℝ) (p : NodeInterval ℝ) (e r : ℝ) : Prop where
  meets : Meets s.base p 0 e
  split : s.splitRegion = true
  ratio : s.xRatio = r
  left : s.x2 = p.xPrev + p.xScaling * (r * e)
  right : s.x3 = p.xPrev + p.xScaling * (1 - r * (1 - e))

theorem split_new (hp : 0 < p.xScaling) (hm : meeting p e ≤ 0) (hlevel : level p e ≠ 0) :
    ∃ s, ConvexMonotone4MinHelper.new p e = some s ∧ Split s p e (3 * p.fAverage / level p e) := by
  have hne := hp.ne'
  have hbottom : (ConvexMonotone4Helper.new p e).a + (ConvexMonotone4Helper.new p e).fAverage ≤ 0 := by
    rw [add_comm, meets_new.bottom]
    exact hm
  have hgap : ∀ a : ℝ, a + (level p e / (3 : ℕ) - a) = level p e / 3 := fun a => by
    rw [Nat.cast_ofNat]
    ring
  have hlevel' : e * (p.gPrev + p.fAverage) + (1 - e) * (p.gNext + p.fAverage) = level p e := by
    rw [add_comm p.gPrev, add_comm p.gNext, p.fAverage_add_gPrev, p.fAverage_add_gNext, level]
  have hratio : (p.xScaling - (level p e / (3 : ℕ) - p.fAverage) * p.xScaling / (level p e / 3)) / p.xScaling =
      3 * p.fAverage / level p e := by
    rw [Nat.cast_ofNat]
    field_simp
    ring
  have hadjust : p.xScaling - (level p e / (3 : ℕ) - p.fAverage) * p.xScaling / (level p e / 3) =
      p.xScaling * (3 * p.fAverage / level p e) := by
    rw [← hratio, mul_div_cancel₀ _ hne]
  rw [ConvexMonotone4MinHelper.new]
  dsimp only
  rw [if_pos hbottom]
  simp only [ConvexMonotone4Helper.new, hlevel', hgap]
  rw [quotient_of_ne (div_ne_zero hlevel three_ne_zero), Option.bind_some, quotient_of_ne hne, Option.map_some, hratio,
    hadjust]
  refine ⟨_, rfl, ⟨rfl, ?_, ?_, ?_, fun _ => rfl, rfl, rfl⟩, rfl, rfl, ?_, ?_⟩
  · simp only [NodeInterval.gPrev, NodeInterval.gNext, level, Nat.cast_ofNat]
    ring
  · simp only [NodeInterval.gPrev, NodeInterval.gNext, level, Nat.cast_ofNat]
    ring
  · simp only [NodeInterval.gPrev, NodeInterval.gNext, level, Nat.cast_ofNat]
    ring
  · ring
  · ring

/-- The sides of a split section are shrunk, and it is zero between. -/
theorem convexMonotone4Min_split (hp : 0 < p.xScaling) (h₀ : 0 < e) (h₁ : e < 1) (hm : meeting p e ≤ 0)
    (hlevel : level p e ≠ 0) (ha : 0 < 3 * p.fAverage / level p e) :
    HasValue (convexMonotone4MinHelper p e) p
      (stretch (valley 0 p.fPrev p.fNext e) e (3 * p.fAverage / level p e)) ∧
    HasArea (convexMonotone4MinHelper p e) p
      (stretchArea (valleyArea 0 p.fPrev p.fNext e) e (3 * p.fAverage / level p e)) := by
  obtain ⟨s, hnew, hs⟩ := split_new hp hm hlevel
  generalize 3 * p.fAverage / level p e = r at hs ha ⊢
  have hne := ha.ne'
  have hsplit : ¬ s.splitRegion = false := by simp [hs.split]
  simp only [convexMonotone4MinHelper, hnew, Option.map_some, SectionHelper.ofOption]
  refine ⟨fun x _ _ => ?_, fun x _ _ => ?_⟩
  · simp only [ConvexMonotone4MinHelper.value, if_neg hsplit, hs.meets.share, xVal_eq hp, Option.bind_some, hs.left,
      hs.right, le_share hp, lt_share hp, hs.ratio, quotient_of_ne hne]
    generalize (x - p.xPrev) / p.xScaling = t
    unfold stretch
    split
    · rename_i ht
      exact hs.meets.leftValue_eq h₀ ((div_le_iff₀ ha).2 (by rwa [mul_comm]))
    · split
      · rfl
      · rename_i ht
        exact hs.meets.rightValue_eq h₁ (by
          rw [le_sub_iff_add_le, ← le_sub_iff_add_le', div_le_iff₀ ha]
          linarith)
  · simp only [ConvexMonotone4MinHelper.primitive, if_neg hsplit, hs.meets.share, xVal_eq hp, Option.bind_some, hs.left,
      hs.right, le_share hp, hs.ratio, quotient_of_ne hne, hs.meets.eta, hs.meets.scaling, hs.meets.primitive,
      quotient_of_ne (mul_ne_zero h₀.ne' h₀.ne'), Option.map_some]
    generalize (x - p.xPrev) / p.xScaling = t
    unfold stretchArea
    split
    · rename_i ht
      rw [hs.meets.leftArea_eq h₀ ((div_le_iff₀ ha).2 (by rwa [mul_comm]))]
      simp [mul_assoc]
    · rename_i ht
      have hright : 1 - r * (1 - e) ≤ t → e ≤ 1 - (1 - t) / r := fun hle => by
        rw [le_sub_iff_add_le, ← le_sub_iff_add_le', div_le_iff₀ ha]
        linarith
      rcases lt_trichotomy t (1 - r * (1 - e)) with hlt | heq | hgt
      · rw [if_pos hlt.le, if_pos hlt]
        simp only [Option.map_some, hs.meets.middleArea_eq h₀]
        rw [mul_assoc]
      · have hmid : 1 - (1 - t) / r = e := by
          rw [heq]
          field_simp
          ring
        rw [if_pos heq.le, if_neg heq.not_lt, hmid]
        simp only [Option.map_some, hs.meets.middleArea_eq h₀]
        rw [mul_assoc]
      · rw [if_neg (not_le.2 hgt), if_neg (not_lt.2 hgt.le), hs.meets.rightArea_eq h₀ h₁ (hright hgt.le)]
        simp only [Option.map_some, mul_assoc]

/-- Over an average of zero a split section has no width, and no value at its left end. -/
theorem convexMonotone4Min_zero (hp : 0 < p.xScaling) (ha : p.fAverage = 0) (hlevel : 0 < level p e) :
    (convexMonotone4MinHelper p e).value p.xPrev = none := by
  have hm : meeting p e ≤ 0 := by
    rw [meeting, ← level, ha]
    linarith
  obtain ⟨s, hnew, hs⟩ := split_new hp hm hlevel.ne'
  rw [ha, mul_zero, zero_div] at hs
  have hsplit : ¬ s.splitRegion = false := by simp [hs.split]
  have hleft : p.xPrev ≤ s.x2 := by rw [hs.left, zero_mul, mul_zero, add_zero]
  simp only [convexMonotone4MinHelper, hnew, Option.map_some, SectionHelper.ofOption, ConvexMonotone4MinHelper.value,
    if_neg hsplit, hs.meets.share, xVal_eq hp, Option.bind_some, if_pos hleft, hs.ratio, quotient_zero, Option.bind_none]

/-! ## Quadratics that are kept positive -/

/-- The discriminant of the quadratic. -/
noncomputable def discriminant (p : NodeInterval ℝ) : ℝ :=
  quadraticB p.fPrev p.fNext p.fAverage * quadraticB p.fPrev p.fNext p.fAverage -
    4 • quadraticA p.fPrev p.fNext p.fAverage * p.fPrev

/-- The average of the quadratic between two forwards that touches zero. -/
noncomputable def touching (f g : ℝ) : ℝ := (f + g - √(f * g)) / ((3 : ℕ) : ℝ)

/-- Where it touches zero. -/
noncomputable def root (f g : ℝ) : ℝ := √f / (√f + √g)

section Roots

variable (hf : 0 ≤ f) (hg : 0 ≤ g)
include hf hg

theorem touching_sqrt : touching f g = (√f * √f + √g * √g - √f * √g) / 3 := by
  rw [touching, Real.sqrt_mul hf, Real.mul_self_sqrt hf, Real.mul_self_sqrt hg, Nat.cast_ofNat]

theorem quadraticA_touching : quadraticA f g (touching f g) = (√f + √g) * (√f + √g) := by
  rw [quadraticA, touching_sqrt hf hg]
  simp only [nsmul_eq_mul, Nat.cast_ofNat]
  linear_combination (-3) * Real.mul_self_sqrt hf - 3 * Real.mul_self_sqrt hg

theorem quadraticB_touching : quadraticB f g (touching f g) = -(2 * √f * (√f + √g)) := by
  rw [quadraticB, touching_sqrt hf hg]
  simp only [nsmul_eq_mul, Nat.cast_ofNat]
  linear_combination 4 * Real.mul_self_sqrt hf + 2 * Real.mul_self_sqrt hg

theorem parabola_touching (t : ℝ) : parabola f g (touching f g) t = (√f - (√f + √g) * t) ^ 2 := by
  rw [parabola, quadraticA_touching hf hg, quadraticB_touching hf hg]
  linear_combination -Real.mul_self_sqrt hf

variable (hfg : 0 < f + g)
include hfg

omit hg in
theorem sqrt_add_pos : 0 < √f + √g := by
  rcases eq_or_lt_of_le hf with rfl | hpos
  · rw [zero_add] at hfg
    exact add_pos_of_nonneg_of_pos (Real.sqrt_nonneg _) (Real.sqrt_pos.2 hfg)
  · exact add_pos_of_pos_of_nonneg (Real.sqrt_pos.2 hpos) (Real.sqrt_nonneg _)

theorem touching_pos : 0 < touching f g := by
  have hs := sqrt_add_pos hf hfg
  have hs₀ := Real.sqrt_nonneg f
  have hg₀ := Real.sqrt_nonneg g
  rw [touching_sqrt hf hg]
  have hsquare : 0 < √f * √f + √g * √g - √f * √g := by nlinarith [sq_nonneg (√f - √g), mul_pos hs hs]
  positivity

omit hg in
theorem root_nonneg : 0 ≤ root f g := div_nonneg (Real.sqrt_nonneg _) (sqrt_add_pos hf hfg).le

omit hg in
theorem root_le_one : root f g ≤ 1 :=
  (div_le_one (sqrt_add_pos hf hfg)).2 (le_add_of_nonneg_right (Real.sqrt_nonneg _))

end Roots

theorem quadraticMin_plain (hp : 0 < p.xScaling) (hd : discriminant p ≤ 0) :
    HasValue (quadraticMinHelper Real.sqrt p) p (parabola p.fPrev p.fNext p.fAverage) ∧
    HasArea (quadraticMinHelper Real.sqrt p) p (parabolaArea p.fPrev p.fNext p.fAverage) := by
  have hne : p.xNext - p.xPrev ≠ 0 := hp.ne'
  have hnew : QuadraticMinHelper.new Real.sqrt p = some ⟨false, p.xPrev, 0, 0, p.xNext,
      quadraticA p.fPrev p.fNext p.fAverage, quadraticB p.fPrev p.fNext p.fAverage, p.fPrev, p.prevPrimitive, 0, p.fNext,
      p.xScaling, 1⟩ := if_neg fun h => absurd h.1 (not_lt.2 hd)
  simp only [quadraticMinHelper, hnew, Option.map_some, SectionHelper.ofOption]
  constructor <;> intro x _ _ <;>
    simp only [QuadraticMinHelper.value, QuadraticMinHelper.primitive, quotient_of_ne hne, Option.bind_some, if_true,
      QuadraticMinHelper.curve, QuadraticMinHelper.area, Option.some.injEq, Nat.cast_ofNat]
  · rw [parabola, NodeInterval.xScaling]
    ring
  · rw [parabolaArea, NodeInterval.xScaling]
    ring

/-- A split quadratic: the one that touches zero, shrunk by `r`. -/
structure SplitQuadratic (s : QuadraticMinHelper ℝ) (p : NodeInterval ℝ) (r : ℝ) : Prop where
  split : s.splitRegion = true
  ratio : s.xRatio = r
  share : ∀ x, quotient (x - s.x1) (s.x4 - s.x1) = p.xVal x
  left : s.x2 = p.xPrev + p.xScaling * (r * root p.fPrev p.fNext)
  right : s.x3 = p.xPrev + p.xScaling * (1 - r * (1 - root p.fPrev p.fNext))
  curve : ∀ t, s.curve t = parabola p.fPrev p.fNext (touching p.fPrev p.fNext) t
  area : ∀ t, s.area t = p.prevPrimitive +
    p.xScaling * (r * parabolaArea p.fPrev p.fNext (touching p.fPrev p.fNext) t)
  middle : s.primitive2 = s.area (root p.fPrev p.fNext)

theorem splitQuadratic_new (hd : 0 < discriminant p) (hf : 0 ≤ p.fPrev) (hg : 0 ≤ p.fNext)
    (hfg : 0 < p.fPrev + p.fNext) : ∃ s, QuadraticMinHelper.new Real.sqrt p = some s ∧
      SplitQuadratic s p (p.fAverage / touching p.fPrev p.fNext) := by
  have hs := sqrt_add_pos hf hfg
  have hA := quadraticA_touching hf hg
  have hB := quadraticB_touching hf hg
  -- the discriminant of the discriminant, as a quadratic in the average
  have hav : -(24 • (p.fPrev + p.fNext)) * -(24 • (p.fPrev + p.fNext)) - 4 • (((36 : ℕ) : ℝ)) *
      (4 • (p.fPrev * p.fPrev + p.fPrev * p.fNext + p.fNext * p.fNext)) = 24 ^ 2 * (p.fPrev * p.fNext) := by
    simp only [nsmul_eq_mul, Nat.cast_ofNat]
    ring
  have hnonneg : 0 ≤ p.fPrev * p.fNext := mul_nonneg hf hg
  have hsqrt : √(24 ^ 2 * (p.fPrev * p.fNext)) = 24 * √(p.fPrev * p.fNext) := by
    rw [Real.sqrt_mul (by positivity), Real.sqrt_sq (by norm_num)]
  have hroot : (-(-(24 • (p.fPrev + p.fNext))) - 24 * √(p.fPrev * p.fNext)) / (2 • (((36 : ℕ) : ℝ))) =
      touching p.fPrev p.fNext := by
    simp only [touching, nsmul_eq_mul, Nat.cast_ofNat]
    ring
  have htwoA : 2 • quadraticA p.fPrev p.fNext (touching p.fPrev p.fNext) ≠ 0 := by
    rw [hA, two_nsmul]
    have := mul_pos hs hs
    positivity
  have hxRoot : -quadraticB p.fPrev p.fNext (touching p.fPrev p.fNext) /
      (2 • quadraticA p.fPrev p.fNext (touching p.fPrev p.fNext)) = root p.fPrev p.fNext := by
    have hne := hs.ne'
    rw [hA, hB, root, nsmul_eq_mul, Nat.cast_ofNat]
    field_simp
  rw [QuadraticMinHelper.new]
  dsimp only
  rw [hav, if_pos ⟨hd, by positivity⟩, hsqrt, hroot, quotient_of_ne (touching_pos hf hg hfg).ne', Option.bind_some,
    quotient_of_ne htwoA, Option.map_some, hxRoot]
  refine ⟨_, rfl, rfl, rfl, fun _ => rfl, ?_, ?_, fun t => ?_, fun t => ?_, rfl⟩
  · ring
  · simp only [NodeInterval.xScaling]
    ring
  · rw [QuadraticMinHelper.curve, parabola]
    ring
  · simp only [QuadraticMinHelper.area, parabolaArea, Nat.cast_ofNat]
    ring

theorem quadraticMin_split (hp : 0 < p.xScaling) (hd : 0 < discriminant p) (hf : 0 ≤ p.fPrev) (hg : 0 ≤ p.fNext)
    (hfg : 0 < p.fPrev + p.fNext) (ha : 0 < p.fAverage / touching p.fPrev p.fNext) :
    HasValue (quadraticMinHelper Real.sqrt p) p
      (stretch (parabola p.fPrev p.fNext (touching p.fPrev p.fNext)) (root p.fPrev p.fNext)
        (p.fAverage / touching p.fPrev p.fNext)) ∧
    (p.fAverage / touching p.fPrev p.fNext ≤ 1 → HasArea (quadraticMinHelper Real.sqrt p) p
      (stretchArea (parabolaArea p.fPrev p.fNext (touching p.fPrev p.fNext)) (root p.fPrev p.fNext)
        (p.fAverage / touching p.fPrev p.fNext))) := by
  obtain ⟨s, hnew, hs⟩ := splitQuadratic_new hd hf hg hfg
  generalize p.fAverage / touching p.fPrev p.fNext = r at hs ha ⊢
  have hne := ha.ne'
  have hsplit : ¬ s.splitRegion = false := by simp [hs.split]
  simp only [quadraticMinHelper, hnew, Option.map_some, SectionHelper.ofOption]
  refine ⟨fun x _ _ => ?_, fun hr x _ _ => ?_⟩
  · simp only [QuadraticMinHelper.value, if_neg hsplit, hs.share, xVal_eq hp, Option.bind_some, hs.left, hs.right,
      le_share hp, lt_share hp, hs.ratio, quotient_of_ne hne, Option.map_some, hs.curve]
    unfold stretch
    split
    · rfl
    · split <;> rfl
  · simp only [QuadraticMinHelper.primitive, if_neg hsplit, hs.share, xVal_eq hp, Option.bind_some, hs.left, hs.right,
      lt_share hp, hs.ratio, quotient_of_ne hne, Option.map_some, hs.middle, hs.area]
    generalize (x - p.xPrev) / p.xScaling = t
    generalize root p.fPrev p.fNext = e
    have hle : r * e ≤ 1 - r * (1 - e) := by linarith
    have hend : r * e / r = e := mul_div_cancel_left₀ e hne
    unfold stretchArea
    rcases lt_trichotomy t (r * e) with hlt | rfl | hgt
    · rw [if_pos hlt, if_pos hlt.le]
    · rw [if_neg (lt_irrefl _), if_pos le_rfl, hend]
      rcases lt_or_eq_of_le hle with hlt | heq
      · rw [if_pos hlt]
      · have hstart : 1 - (1 - r * e) / r = e := by
          rw [heq]
          field_simp
          ring
        rw [if_neg (not_lt.2 heq.ge), hstart]
    · rw [if_neg (not_lt.2 hgt.le), if_neg (not_le.2 hgt)]
      split <;> rfl

/-- Over an average of zero a split quadratic has no width, and no value at its left end. -/
theorem quadraticMin_zero (hp : 0 < p.xScaling) (ha : p.fAverage = 0) (hf : 0 ≤ p.fPrev) (hg : 0 ≤ p.fNext)
    (hfg : 0 < p.fPrev + p.fNext) : (quadraticMinHelper Real.sqrt p).value p.xPrev = none := by
  have hd : 0 < discriminant p := by
    have hsquare : 0 < p.fPrev * p.fPrev + p.fPrev * p.fNext + p.fNext * p.fNext := by
      nlinarith [mul_nonneg hf hg, mul_pos hfg hfg]
    simp only [discriminant, quadraticA, quadraticB, ha, nsmul_eq_mul, Nat.cast_ofNat]
    linarith
  obtain ⟨s, hnew, hs⟩ := splitQuadratic_new hd hf hg hfg
  rw [ha, zero_div] at hs
  have hsplit : ¬ s.splitRegion = false := by simp [hs.split]
  have hleft : p.xPrev ≤ s.x2 := by rw [hs.left, zero_mul, mul_zero, add_zero]
  simp only [quadraticMinHelper, hnew, Option.map_some, SectionHelper.ofOption, QuadraticMinHelper.value, if_neg hsplit,
    hs.share, xVal_eq hp, Option.bind_some, if_pos hleft, hs.ratio, quotient_zero, Option.map_none]

end ConvexMonotone

end Itofin
