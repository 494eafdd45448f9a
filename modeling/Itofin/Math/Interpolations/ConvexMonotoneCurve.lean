import Itofin.Math.Interpolations.ConvexMonotoneCovers
/-!
# ConvexMonotoneCurve — what the sections make together

The sections of an interpolation cover its intervals one by one (`sectionIndex_spec`), so what holds of the chosen section
over every interval holds of the interpolation.  Kept positive over forwards that are not negative, it is defined and not
negative everywhere but over an average of zero with a forward beside that is not (`keptPositive_iff`); where every
section has the average of its interval, the primitive at a node is the sum over the intervals before it
(`conserves_of_admissible`).
-/
namespace Itofin

open Piecewise

/-- Over an interval the section evaluates, the differences of its primitive are the integrals of its value, and at the
right end the primitive is a given sum, up to a tolerance. -/
def SectionHelper.Conserves (h : SectionHelper ℝ) (a b sum tolerance : ℝ) : Prop :=
  ∃ v P : ℝ → ℝ, (∀ t, a ≤ t → t ≤ b → h.value t = some (v t) ∧ h.primitive t = some (P t)) ∧
    (∀ s t, a ≤ s → s ≤ b → a ≤ t → t ≤ b → IsPrimitiveOn v P s t) ∧ |P b - sum| ≤ tolerance

namespace ConvexMonotoneInterpolation

/-! ## The sections over the intervals -/

section Index

variable {K : Type} [LinearOrder K] (self : ConvexMonotoneInterpolation K) {i : ℕ} {t : K}

theorem sectionIndex_spec (h₀ : self.nodes.x 0 ≤ t) (h₁ : t < self.nodes.x (self.nodes.size - 1)) :
    self.sectionIndex t + 1 < self.nodes.size ∧ self.nodes.x (self.sectionIndex t) ≤ t ∧
      t < self.nodes.x (self.sectionIndex t + 1) := by
  have henough := self.nodes.enough
  have hle : self.sectionIndex t ≤ self.nodes.size - 2 := partitionPoint_le _ _
  refine ⟨by omega, ?_, ?_⟩
  · rcases Nat.eq_zero_or_pos (self.sectionIndex t) with hzero | hpos
    · rwa [hzero]
    · have hlt : self.sectionIndex t - 1 < self.sectionIndex t := by omega
      have htrue := of_decide_eq_true (lt_partitionPoint (p := fun i => decide (self.nodes.x (i + 1) ≤ t)) hlt)
      rwa [Nat.sub_add_cancel hpos] at htrue
  · rcases Nat.lt_or_eq_of_le hle with hlt | heq
    · exact not_le.1 (of_decide_eq_false (partitionPoint_false hlt))
    · rwa [heq, show self.nodes.size - 2 + 1 = self.nodes.size - 1 by omega]

theorem sectionIndex_node (hi : i + 1 < self.nodes.size) : self.sectionIndex (self.nodes.x i) = i := by
  obtain ⟨hlt, hlo, hhi⟩ := self.sectionIndex_spec (t := self.nodes.x i) (self.nodes.x_le (Nat.zero_le i) (by omega))
    (self.nodes.x_lt (by omega) (by omega))
  refine le_antisymm (not_lt.1 fun h => ?_) (not_lt.1 fun h => ?_)
  · exact absurd hlo (not_le.2 (self.nodes.x_lt h (by omega)))
  · exact absurd hhi (not_lt.2 (self.nodes.x_le h (by omega)))

theorem helper_node (hi : i + 1 < self.nodes.size) : self.helper (self.nodes.x i) = self.sectionHelpers i := by
  rw [helper, if_neg (not_le.2 (self.nodes.x_lt (by omega) (by omega))), self.sectionIndex_node hi]

theorem helper_inside (ht : t < self.nodes.xMax) : self.helper t = self.sectionHelpers (self.sectionIndex t) :=
  if_neg (not_le.2 ht)

theorem helper_last (ht : self.nodes.x (self.nodes.size - 1) ≤ t) : self.helper t = self.extrapolationHelper := if_pos ht

theorem checkRange_ok (h : self.allowExtrapolation = true ∨ self.nodes.xMin ≤ t ∧ t ≤ self.nodes.xMax) :
    self.checkRange t = .ok () := by
  refine if_neg fun hnot => ?_
  rcases h with h | h
  · rw [h] at hnot
    exact absurd hnot.1 (by decide)
  · exact hnot.2 h

theorem value_of_helper {v : K} (h : self.allowExtrapolation = true ∨ self.nodes.xMin ≤ t ∧ t ≤ self.nodes.xMax)
    (hv : (self.helper t).value t = some v) : self.value t = .ok v := by
  rw [value, self.checkRange_ok h, hv]
  rfl

theorem primitive_of_helper {v : K} (h : self.allowExtrapolation = true ∨ self.nodes.xMin ≤ t ∧ t ≤ self.nodes.xMax)
    (hv : (self.helper t).primitive t = some v) : self.primitive t = .ok v := by
  rw [primitive, self.checkRange_ok h, hv]
  rfl

end Index

/-- The value is a number and not negative over the range, and past the last node. -/
def KeptPositive (f : ConvexMonotoneInterpolation ℝ) : Prop :=
  (∀ t, f.nodes.xMin ≤ t → t ≤ f.nodes.xMax → ∃ v, f.value t = .ok v ∧ 0 ≤ v) ∧
  ∀ t, f.nodes.xMax < t → ∃ v, (f.withExtrapolation true).value t = .ok v ∧ 0 ≤ v

/-- The averages times the widths of the intervals before a node. -/
noncomputable def areaBefore (nodes : Nodes ℝ 2) (i : ℕ) : ℝ :=
  ∑ j ∈ Finset.range i, nodes.y (j + 1) * (nodes.x (j + 1) - nodes.x j)

/-- Nothing is divided by zero, every section has the area of its interval, and the sections meet at the nodes. -/
structure Conserves (f : ConvexMonotoneInterpolation ℝ) : Prop where
  /-- The weights of the averages in the forwards divide by two widths. -/
  weights : ∀ i, 0 < i → i + 1 < f.nodes.size →
    f.nodes.x (i + 1) - f.nodes.x i + (f.nodes.x i - f.nodes.x (i - 1)) ≠ 0
  evaluates : ∀ t, f.nodes.xMin ≤ t → t ≤ f.nodes.xMax → ∃ v P, f.value t = .ok v ∧ f.primitive t = .ok P
  node : ∀ i < f.nodes.size, f.primitive (f.nodes.x i) = .ok (areaBefore f.nodes i)
  sections : ∀ i, i + 1 < f.nodes.size → (f.sectionHelpers i).Conserves (f.nodes.x i) (f.nodes.x (i + 1))
    (areaBefore f.nodes (i + 1)) (1 / 10 ^ 14 * (f.nodes.x (i + 1) - f.nodes.x i))
  sides : ∀ i, 0 < i → i + 1 < f.nodes.size → ∃ v, (f.sectionHelpers (i - 1)).value (f.nodes.x i) = some v ∧
    (f.sectionHelpers i).value (f.nodes.x i) = some v
  last : ∃ v, (f.sectionHelpers (f.nodes.size - 2)).value f.nodes.xMax = some v ∧ f.value f.nodes.xMax = .ok v

end ConvexMonotoneInterpolation

namespace ConvexMonotone

open ConvexMonotoneInterpolation

variable {self : ConvexMonotone ℝ} {nodes : Nodes ℝ 2} {i : ℕ}

section Built

variable (self nodes) (hn : nodes.size ≠ 2)
include hn

theorem assemble_section (i : ℕ) : (self.assemble Real.sqrt nodes false none).sectionHelpers i =
    self.chooseSection Real.sqrt (self.interval nodes none i) := by
  simp [assemble, buildSections, hn]

theorem assemble_extrapolation {v : ℝ} (hv : (self.chooseSection Real.sqrt (self.interval nodes none (nodes.size - 2))).value
    (nodes.x (nodes.size - 1)) = some v) : (self.assemble Real.sqrt nodes false none).extrapolationHelper =
      everywhereConstantHelper v (accumulated nodes (nodes.size - 1)) (nodes.x (nodes.size - 1)) := by
  simp [assemble, buildSections, hn, hv, SectionHelper.ofOption]

end Built

theorem assemble_two (hn : nodes.size = 2) (t : ℝ) : (self.assemble Real.sqrt nodes false none).helper t =
    everywhereConstantHelper (nodes.y 1) 0 (nodes.x 0) := by
  simp [helper, assemble, buildSections, hn]

theorem interval_scaling (hi : i + 1 < nodes.size) : 0 < (self.interval nodes none i).xScaling :=
  sub_pos.2 (nodes.increasing i (by omega))

/-! ## Forwards at the nodes -/

variable (nodes) in
theorem weights_pos (h₀ : 0 < i) (hi : i + 1 < nodes.size) : 0 < nodes.x (i + 1) - nodes.x i ∧
    0 < nodes.x i - nodes.x (i - 1) :=
  ⟨sub_pos.2 (nodes.x_lt (Nat.lt_succ_self i) hi), sub_pos.2 (nodes.x_lt (by omega) (by omega))⟩

theorem innerForward_nonneg (hy : ∀ i, 0 < i → i < nodes.size → 0 ≤ nodes.y i) (h₀ : 0 < i) (hi : i + 1 < nodes.size) :
    0 ≤ innerForward nodes i := by
  obtain ⟨hnext, hprev⟩ := weights_pos nodes h₀ hi
  have h₁ := hy i h₀ (by omega)
  have h₂ := hy (i + 1) (Nat.succ_pos i) hi
  simp only [innerForward]
  positivity

theorem clamp_nonneg (hforce : self.forcePositive = true) (f : ℝ) : 0 ≤ self.clamp f := by
  rw [clamp]
  split
  · exact le_rfl
  · rename_i h
    exact not_lt.1 fun hlt => h ⟨hforce, hlt⟩

theorem clamp_of_nonpos (hforce : self.forcePositive = true) {f : ℝ} (hf : f ≤ 0) : self.clamp f = 0 := by
  rw [clamp]
  split
  · rfl
  · rename_i h
    exact le_antisymm hf (not_lt.1 fun hlt => h ⟨hforce, hlt⟩)

theorem boundaryForward_nonneg (hforce : self.forcePositive = true) (hy : ∀ i, 0 < i → i < nodes.size → 0 ≤ nodes.y i)
    (hi : i < nodes.size) : 0 ≤ self.boundaryForward nodes none i := by
  rw [boundaryForward]
  split
  · exact clamp_nonneg hforce _
  · split
    · exact clamp_nonneg hforce _
    · exact innerForward_nonneg hy (by omega) (by omega)

/-! ## Positivity -/

theorem ite_zero_lt {c : Prop} [Decidable c] {u w : ℝ} (h : 0 < w) : (if c then u else 0) < w ↔ (c → u < w) := by
  by_cases hc : c <;> simp [hc, h]

section Zero

variable (hforce : self.forcePositive = true) (hy : ∀ i, 0 < i → i < nodes.size → 0 ≤ nodes.y i) (hn : nodes.size ≠ 2)
  (hi : i + 1 < nodes.size) (hzero : nodes.y (i + 1) = 0)
include hforce hy hn hi hzero

theorem forward_before : self.boundaryForward nodes none i = if 0 < i then
    nodes.y i * ((nodes.x (i + 1) - nodes.x i) / (nodes.x (i + 1) - nodes.x (i - 1))) else 0 := by
  have henough := nodes.enough
  rcases Nat.eq_zero_or_pos i with rfl | hpos
  · rw [boundaryForward, if_pos rfl, if_neg (lt_irrefl 0), hzero, mul_zero, zero_sub]
    refine clamp_of_nonpos hforce (neg_nonpos.2 (mul_nonneg (by positivity) ?_))
    exact innerForward_nonneg hy one_pos (by omega)
  · rw [boundaryForward, if_neg hpos.ne', if_neg (by omega), if_pos hpos]
    simp only [seededForward, innerForward, hzero, mul_zero, add_zero, sub_add_sub_cancel]
    ring

theorem forward_after : self.boundaryForward nodes none (i + 1) = if i + 2 < nodes.size then
    nodes.y (i + 2) * ((nodes.x (i + 1) - nodes.x i) / (nodes.x (i + 2) - nodes.x i)) else 0 := by
  have henough := nodes.enough
  rw [boundaryForward, if_neg (Nat.succ_ne_zero i)]
  by_cases hlast : i + 2 < nodes.size
  · rw [if_neg (by omega), if_pos hlast]
    simp only [seededForward, innerForward, hzero, mul_zero, zero_add, sub_add_sub_cancel, Nat.add_sub_cancel]
    ring
  · have hend : i + 1 = nodes.size - 1 := by omega
    rw [if_pos hend, if_neg hlast, ← hend, hzero, mul_zero, zero_sub]
    refine clamp_of_nonpos hforce (neg_nonpos.2 (mul_nonneg (by positivity) ?_))
    exact innerForward_nonneg hy (by omega) (by omega)

theorem constant_iff_zero : Constant (self.interval nodes none i) ↔
    (0 < i → nodes.y i * ((nodes.x (i + 1) - nodes.x i) / (nodes.x (i + 1) - nodes.x (i - 1))) < 1 / 10 ^ 14) ∧
    (i + 2 < nodes.size →
      nodes.y (i + 2) * ((nodes.x (i + 1) - nodes.x i) / (nodes.x (i + 2) - nodes.x i)) < 1 / 10 ^ 14) := by
  have hprev : 0 ≤ self.boundaryForward nodes none i := boundaryForward_nonneg hforce hy (Nat.lt_of_succ_lt hi)
  have hnext : 0 ≤ self.boundaryForward nodes none (i + 1) := boundaryForward_nonneg hforce hy hi
  have hsmall : (0 : ℝ) < 1 / 10 ^ 14 := by positivity
  have hgPrev : (self.interval nodes none i).gPrev = self.boundaryForward nodes none i := by
    rw [NodeInterval.gPrev, interval, hzero, sub_zero]
  have hgNext : (self.interval nodes none i).gNext = self.boundaryForward nodes none (i + 1) := by
    rw [NodeInterval.gNext, interval, hzero, sub_zero]
  rw [Constant, hgPrev, hgNext, abs_of_nonneg hprev, abs_of_nonneg hnext, forward_before hforce hy hn hi hzero,
    forward_after hforce hy hn hi hzero]
  have hcast : (((10 ^ 14 : ℕ)) : ℝ) = 10 ^ 14 := by norm_num
  rw [hcast]
  exact and_congr (ite_zero_lt hsmall) (ite_zero_lt hsmall)

end Zero

section Kept

variable (hforce : self.forcePositive = true) (hm : 0 < self.monotonicity ∧ self.monotonicity < 1)
  (hq : 0 ≤ self.quadraticity ∧ self.quadraticity ≤ 1) (hy : ∀ i, 0 < i → i < nodes.size → 0 ≤ nodes.y i)
include hforce hm hq hy

/-- Each section is positive unless its average is zero and a forward beside is not. -/
theorem section_nonNegative (hi : i + 1 < nodes.size)
    (h : nodes.y (i + 1) = 0 → Constant (self.interval nodes none i)) :
    NonNegative (self.chooseSection Real.sqrt (self.interval nodes none i)) (self.interval nodes none i) := by
  have hprev : 0 ≤ self.boundaryForward nodes none i := boundaryForward_nonneg hforce hy (Nat.lt_of_succ_lt hi)
  have hnext : 0 ≤ self.boundaryForward nodes none (i + 1) := boundaryForward_nonneg hforce hy hi
  refine chooseSection_nonNegative (interval_scaling hi) hm hq hforce ?_
  rcases eq_or_lt_of_le (hy (i + 1) (Nat.succ_pos i) hi) with hzero | hpos
  · exact .inl ⟨h hzero.symm, hprev, hnext⟩
  · exact .inr ⟨hprev, hnext, hpos⟩

/-- **Kept positive**, when every average of zero is beside forwards that are zero too. -/
theorem keptPositive_of_constant (hn : nodes.size ≠ 2)
    (h : ∀ i, i + 1 < nodes.size → nodes.y (i + 1) = 0 → Constant (self.interval nodes none i)) :
    (self.assemble Real.sqrt nodes false none).KeptPositive := by
  have henough := nodes.enough
  have hsection := fun i (hi : i + 1 < nodes.size) => section_nonNegative hforce hm hq hy hi (h i hi)
  have hlast : nodes.size - 2 + 1 = nodes.size - 1 := by omega
  obtain ⟨v, hv, hpos⟩ := hsection (nodes.size - 2) (by omega) (nodes.x (nodes.size - 1))
    (nodes.x_le (by omega) (by omega)) (by rw [interval, hlast])
  have hextra := assemble_extrapolation self nodes hn hv
  constructor
  · intro t hlo hhi
    rcases lt_or_eq_of_le hhi with hlt | heq
    · obtain ⟨hi, h₀, h₁⟩ := (self.assemble Real.sqrt nodes false none).sectionIndex_spec hlo hlt
      obtain ⟨w, hw, hnonneg⟩ := hsection _ hi t h₀ h₁.le
      refine ⟨w, value_of_helper _ (.inr ⟨hlo, hhi⟩) ?_, hnonneg⟩
      rw [helper_inside _ hlt, assemble_section self nodes hn]
      exact hw
    · refine ⟨v, value_of_helper _ (.inr ⟨hlo, hhi⟩) ?_, hpos⟩
      rw [helper_last _ heq.ge, hextra]
      rfl
  · intro t ht
    refine ⟨v, value_of_helper _ (.inl rfl) ?_, hpos⟩
    have heq : ((self.assemble Real.sqrt nodes false none).withExtrapolation true).helper t =
        everywhereConstantHelper v (accumulated nodes (nodes.size - 1)) (nodes.x (nodes.size - 1)) :=
      (helper_last _ ht.le).trans hextra
    rw [heq]
    rfl

omit hforce hm hq hy in
theorem keptPositive_two (hn : nodes.size = 2) (hpos : 0 ≤ nodes.y 1) :
    (self.assemble Real.sqrt nodes false none).KeptPositive := by
  refine ⟨fun t hlo hhi => ⟨nodes.y 1, value_of_helper _ (.inr ⟨hlo, hhi⟩) ?_, hpos⟩,
    fun t _ => ⟨nodes.y 1, value_of_helper _ (.inl rfl) ?_, hpos⟩⟩
  · rw [assemble_two hn]
    rfl
  · have heq : ((self.assemble Real.sqrt nodes false none).withExtrapolation true).helper t =
        everywhereConstantHelper (nodes.y 1) 0 (nodes.x 0) := assemble_two hn t
    rw [heq]
    rfl

/-- Over an average of zero with a forward beside that is not, there is no number at the left node. -/
theorem value_undefined (hn : nodes.size ≠ 2) (hi : i + 1 < nodes.size) (hzero : nodes.y (i + 1) = 0)
    (hc : ¬ Constant (self.interval nodes none i)) :
    (self.assemble Real.sqrt nodes false none).value (nodes.x i) = .error .undefined := by
  have hnone := chooseSection_zero (interval_scaling hi) hm hq hforce hc
    (boundaryForward_nonneg hforce hy (by omega)) (boundaryForward_nonneg hforce hy hi) hzero
  have hlo : nodes.x 0 ≤ nodes.x i := nodes.x_le (Nat.zero_le i) (by omega)
  have hhi : nodes.x i ≤ nodes.x (nodes.size - 1) := nodes.x_le (by omega) (by omega)
  have hhelper : (self.assemble Real.sqrt nodes false none).helper (nodes.x i) =
      self.chooseSection Real.sqrt (self.interval nodes none i) :=
    ((self.assemble Real.sqrt nodes false none).helper_node hi).trans (assemble_section self nodes hn i)
  rw [ConvexMonotoneInterpolation.value, checkRange_ok _ (.inr ⟨hlo, hhi⟩), hhelper]
  exact congrArg number hnone

end Kept

/-- **Forwards that are not negative are kept so**, wherever an average of zero has forwards beside it that are zero up to
`1.0e-14`: the averages of its neighbours, weighted by its share of the two widths. -/
theorem keptPositive_iff (self : ConvexMonotone ℝ) (x y : List ℝ) (f : ConvexMonotoneInterpolation ℝ)
    (hf : self.interpolate Real.sqrt x y = .ok f) (hforce : self.forcePositive = true)
    (hm : 0 < self.monotonicity ∧ self.monotonicity < 1) (hy : ∀ i, 0 < i → i < x.length → 0 ≤ y.getD i 0) :
    f.KeptPositive ↔ ∀ i, i + 1 < x.length → y.getD (i + 1) 0 = 0 →
      (0 < i → y.getD i 0 *
        ((x.getD (i + 1) 0 - x.getD i 0) / (x.getD (i + 1) 0 - x.getD (i - 1) 0)) < 1 / 10 ^ 14) ∧
      (i + 2 < x.length → y.getD (i + 2) 0 *
        ((x.getD (i + 1) 0 - x.getD i 0) / (x.getD (i + 2) 0 - x.getD i 0)) < 1 / 10 ^ 14) := by
  have h := accepts_of_ok hf
  have hq := h.quadraticity
  obtain rfl : self.assemble Real.sqrt h.nodes false none = f := Except.ok.inj ((interpolate_ok Real.sqrt h).symm.trans hf)
  by_cases hn : h.nodes.size = 2
  · have hlen : x.length = 2 := hn
    refine iff_of_true (keptPositive_two hn (hy 1 one_pos (by omega))) fun i hi _ => ⟨fun hpos => ?_, fun hlast => ?_⟩
    · omega
    · omega
  · constructor
    · intro hkept i hi hzero
      have hiff : Constant (self.interval h.nodes none i) ↔ _ := constant_iff_zero hforce hy hn hi hzero
      refine hiff.1 (by_contra fun hc => ?_)
      have hbad := value_undefined hforce hm hq hy hn hi hzero hc
      obtain ⟨v, hv, -⟩ := hkept.1 (h.nodes.x i) (h.nodes.x_le (Nat.zero_le i) (Nat.lt_of_succ_lt hi))
        (h.nodes.x_le (Nat.le_sub_one_of_lt (Nat.lt_of_succ_lt hi)) (Nat.sub_lt (Nat.lt_of_lt_of_le two_pos h.enough) one_pos))
      rw [hbad] at hv
      cases hv
    · exact fun hzero => keptPositive_of_constant hforce hm hq hy hn fun i hi hz =>
        (constant_iff_zero hforce hy hn hi hz).2 (hzero i hi hz)

theorem accepts_four {m : ℝ} (hm : 0 ≤ m ∧ m ≤ 1) (a b c d : ℝ) :
    (⟨3 / 10, m, true⟩ : ConvexMonotone ℝ).Accepts [0, 1, 2, 3] [a, b, c, d] where
  lengths := rfl
  monotonicity := hm
  quadraticity := by norm_num
  enough := by norm_num
  increasing i hi := by
    have hlt : i < 3 := hi
    interval_cases i <;> norm_num

theorem keptPositive_ones : ∃ f, (⟨3 / 10, 7 / 10, true⟩ : ConvexMonotone ℝ).interpolate Real.sqrt [0, 1, 2, 3] [1, 1, 2, 1] =
    .ok f ∧ f.KeptPositive := by
  have h := interpolate_ok Real.sqrt (accepts_four (m := 7 / 10) (by norm_num) 1 1 2 1)
  refine ⟨_, h, (keptPositive_iff _ _ _ _ h rfl (by norm_num) fun i h₀ hi => ?_).2 fun i hi hzero => ?_⟩
  · have hlt : i < 4 := hi
    interval_cases i <;> norm_num
  · have hlt : i + 1 < 4 := hi
    have hle : i < 3 := by omega
    interval_cases i <;> norm_num at hzero

/-- A zero between ones: there is no number at the second node. -/
theorem keptPositive_fails : ∃ f, (⟨3 / 10, 7 / 10, true⟩ : ConvexMonotone ℝ).interpolate Real.sqrt [0, 1, 2, 3]
    [0, 1, 0, 1] = .ok f ∧ f.value 1 = .error .undefined ∧ ¬ f.KeptPositive := by
  have haccepts := accepts_four (m := 7 / 10) (by norm_num) 0 1 0 1
  have hy : ∀ i, 0 < i → i < haccepts.nodes.size → 0 ≤ haccepts.nodes.y i := by
    intro i h₀ hi
    have hlt : i < 4 := hi
    interval_cases i <;> norm_num [Accepts.nodes]
  have hsize : haccepts.nodes.size ≠ 2 := show (4 : ℕ) ≠ 2 by decide
  have hinner : 1 + 1 < haccepts.nodes.size := show 1 + 1 < 4 by decide
  have hc : ¬ Constant ((⟨3 / 10, 7 / 10, true⟩ : ConvexMonotone ℝ).interval haccepts.nodes none 1) := by
    rw [constant_iff_zero rfl hy hsize hinner rfl]
    rintro ⟨h, -⟩
    have hsmall := h one_pos
    norm_num [Accepts.nodes] at hsmall
  have hundefined := value_undefined rfl (by norm_num) haccepts.quadraticity hy hsize hinner rfl hc
  refine ⟨_, interpolate_ok Real.sqrt haccepts, hundefined, fun hkept => ?_⟩
  obtain ⟨v, hv, -⟩ := hkept.1 1 (by norm_num [Nodes.xMin, assemble, Accepts.nodes])
    (by norm_num [Nodes.xMax, assemble, Accepts.nodes])
  cases hundefined.symm.trans hv

/-! ## Conservation -/

theorem accumulated_eq (nodes : Nodes ℝ 2) (i : ℕ) : accumulated nodes i = areaBefore nodes i := by
  induction i with
  | zero      => rfl
  | succ i ih => rw [accumulated, ih, areaBefore, areaBefore, Finset.sum_range_succ]

section Covered

variable {p : NodeInterval ℝ} {h : SectionHelper ℝ} {tolerance : ℝ} {positive : Prop}

theorem Covers.mono (hc : Covers h p 0 positive) (ht : 0 ≤ tolerance) : Covers h p tolerance positive := by
  obtain ⟨v, P, hv, hP, hprofile, hpos⟩ := hc
  exact ⟨v, P, hv, hP, hprofile.mono ht, hpos⟩

theorem Covers.conserves (hc : Covers h p tolerance positive) (hp : 0 < p.xScaling) :
    h.Conserves p.xPrev p.xNext (p.prevPrimitive + p.fAverage * p.xScaling) (tolerance * p.xScaling) := by
  obtain ⟨v, P, hv, hP, hprofile, -⟩ := hc
  refine ⟨fun t => v ((t - p.xPrev) / p.xScaling), fun t => p.prevPrimitive + p.xScaling * P ((t - p.xPrev) / p.xScaling),
    fun t h₀ h₁ => ⟨hv t h₀ h₁, hP t h₀ h₁⟩, fun s t _ _ _ _ => hprofile.isPrimitive.scale hp.ne' _ _ s t, ?_⟩
  have hend : p.prevPrimitive + p.xScaling * P ((p.xNext - p.xPrev) / p.xScaling) -
      (p.prevPrimitive + p.fAverage * p.xScaling) = (P 1 - p.fAverage) * p.xScaling := by
    rw [← NodeInterval.xScaling, div_self hp.ne']
    ring
  rw [hend, abs_mul, abs_of_pos hp]
  exact mul_le_mul_of_nonneg_right hprofile.finish hp.le

theorem Covers.start (hc : Covers h p tolerance positive) (hp : 0 < p.xScaling) :
    h.value p.xPrev = some p.fPrev ∧ h.primitive p.xPrev = some p.prevPrimitive := by
  obtain ⟨v, P, hv, hP, hprofile, -⟩ := hc
  have hle : p.xPrev ≤ p.xNext := (sub_pos.1 hp).le
  constructor
  · rw [hv _ le_rfl hle, sub_self, zero_div, hprofile.left]
  · rw [hP _ le_rfl hle, sub_self, zero_div, hprofile.start, mul_zero, add_zero]

theorem Covers.finish (hc : Covers h p tolerance positive) (hp : 0 < p.xScaling) : h.value p.xNext = some p.fNext := by
  obtain ⟨v, P, hv, -, hprofile, -⟩ := hc
  rw [hv _ (sub_pos.1 hp).le le_rfl, ← NodeInterval.xScaling, div_self hp.ne', hprofile.right]

end Covered

/-- What conservation needs over three nodes or more.  Kept positive, forwards are not negative, a section over an average
of zero is constant, and a quadratic that quadraticity zero asks for has no two roots; with monotonicity one, no section
but a quadratic or a constant ends on its average. -/
structure Admissible (settings : ConvexMonotone ℝ) (nodes : Nodes ℝ 2) : Prop where
  positive : settings.forcePositive = true → ∀ i, 0 < i → i < nodes.size → 0 ≤ nodes.y i
  zero : settings.forcePositive = true → ∀ i, i + 1 < nodes.size → ¬ Constant (settings.interval nodes none i) →
    nodes.y (i + 1) ≠ 0
  edge : settings.monotonicity = 1 → settings.quadraticity < 1 → ∀ i, i + 1 < nodes.size →
    ¬ Constant (settings.interval nodes none i) →
      (settings.interval nodes none i).gPrev ≠ 0 ∧ (settings.interval nodes none i).gNext ≠ 0
  dip : settings.forcePositive = true → settings.quadraticity = 0 → ∀ i, i + 1 < nodes.size →
    ¬ Constant (settings.interval nodes none i) → QuadraticRegion (settings.interval nodes none i) →
      discriminant (settings.interval nodes none i) ≤ 0

section Assembled

variable (hadm : self.Admissible nodes) (hm : 0 ≤ self.monotonicity ∧ self.monotonicity ≤ 1)
  (hq : 0 ≤ self.quadraticity ∧ self.quadraticity ≤ 1)
include hadm

theorem Admissible.regular (hi : i + 1 < nodes.size) (hc : ¬ Constant (self.interval nodes none i)) :
    Regular self (self.interval nodes none i) where
  positive hforce :=
    { prev    := boundaryForward_nonneg hforce (hadm.positive hforce) (by omega)
      next    := boundaryForward_nonneg hforce (hadm.positive hforce) hi
      average := lt_of_le_of_ne (hadm.positive hforce (i + 1) (Nat.succ_pos i) hi) (hadm.zero hforce i hi hc).symm }
  edge hone hlt := hadm.edge hone hlt i hi hc
  dip hforce hzero hregion := hadm.dip hforce hzero i hi hc hregion

include hm hq

theorem section_covers (hn : nodes.size ≠ 2) (hi : i + 1 < nodes.size) : ∃ positive, Covers
    ((self.assemble Real.sqrt nodes false none).sectionHelpers i) (self.interval nodes none i) (1 / 10 ^ 14) positive := by
  rw [assemble_section self nodes hn]
  by_cases hc : Constant (self.interval nodes none i)
  · rw [chooseSection, if_pos hc]
    exact ⟨_, constantGrad_covers (interval_scaling hi) hc⟩
  · exact ⟨_, (chooseSection_covers (interval_scaling hi) hm hq hc (hadm.regular hi hc)).mono (by positivity)⟩

theorem section_start (hn : nodes.size ≠ 2) (hi : i + 1 < nodes.size) :
    ((self.assemble Real.sqrt nodes false none).sectionHelpers i).value (nodes.x i) =
      some (self.boundaryForward nodes none i) ∧
    ((self.assemble Real.sqrt nodes false none).sectionHelpers i).primitive (nodes.x i) = some (accumulated nodes i) := by
  obtain ⟨_, hc⟩ := section_covers hadm hm hq hn hi
  exact hc.start (interval_scaling hi)

theorem section_finish (hn : nodes.size ≠ 2) (hi : i + 1 < nodes.size) :
    ((self.assemble Real.sqrt nodes false none).sectionHelpers i).value (nodes.x (i + 1)) =
      some (self.boundaryForward nodes none (i + 1)) := by
  obtain ⟨_, hc⟩ := section_covers hadm hm hq hn hi
  exact hc.finish (interval_scaling hi)

theorem section_conserves (hn : nodes.size ≠ 2) (hi : i + 1 < nodes.size) :
    ((self.assemble Real.sqrt nodes false none).sectionHelpers i).Conserves (nodes.x i) (nodes.x (i + 1))
      (areaBefore nodes (i + 1)) (1 / 10 ^ 14 * (nodes.x (i + 1) - nodes.x i)) := by
  obtain ⟨_, hc⟩ := section_covers hadm hm hq hn hi
  rw [← accumulated_eq]
  exact hc.conserves (interval_scaling hi)

/-- At the last node the constant past it has the forward and the whole area. -/
theorem helper_end (hn : nodes.size ≠ 2) :
    ((self.assemble Real.sqrt nodes false none).helper (nodes.x (nodes.size - 1))).value (nodes.x (nodes.size - 1)) =
      some (self.boundaryForward nodes none (nodes.size - 1)) ∧
    ((self.assemble Real.sqrt nodes false none).helper (nodes.x (nodes.size - 1))).primitive (nodes.x (nodes.size - 1)) =
      some (accumulated nodes (nodes.size - 1)) := by
  have henough := nodes.enough
  have hlast : nodes.size - 2 + 1 = nodes.size - 1 := by omega
  have hfinish := section_finish hadm hm hq hn (show nodes.size - 2 + 1 < nodes.size by omega)
  rw [hlast, assemble_section self nodes hn] at hfinish
  have hextra : (self.assemble Real.sqrt nodes false none).helper (nodes.x (nodes.size - 1)) =
      everywhereConstantHelper (self.boundaryForward nodes none (nodes.size - 1)) (accumulated nodes (nodes.size - 1))
        (nodes.x (nodes.size - 1)) := (helper_last _ le_rfl).trans (assemble_extrapolation self nodes hn hfinish)
  rw [hextra]
  refine ⟨rfl, congrArg some ?_⟩
  rw [sub_self, zero_mul, add_zero]

theorem primitive_node (hn : nodes.size ≠ 2) (hi : i < nodes.size) :
    ((self.assemble Real.sqrt nodes false none).helper (nodes.x i)).primitive (nodes.x i) = some (areaBefore nodes i) := by
  rw [← accumulated_eq]
  rcases Nat.lt_or_ge (i + 1) nodes.size with hlt | hge
  · exact (congrArg (fun h => h.primitive (nodes.x i)) (helper_node _ hlt)).trans (section_start hadm hm hq hn hlt).2
  · obtain rfl : i = nodes.size - 1 := by omega
    exact (helper_end hadm hm hq hn).2

/-- **Conservation**, of what is built over three nodes or more. -/
theorem assemble_conserves (hn : nodes.size ≠ 2) : (self.assemble Real.sqrt nodes false none).Conserves := by
  have henough := nodes.enough
  have hlast : nodes.size - 2 + 1 = nodes.size - 1 := by omega
  have hmin : ∀ i < nodes.size, nodes.x 0 ≤ nodes.x i := fun i hi => nodes.x_le (Nat.zero_le i) hi
  have hmax : ∀ i < nodes.size, nodes.x i ≤ nodes.x (nodes.size - 1) := fun i hi => nodes.x_le (by omega) (by omega)
  have hend := helper_end hadm hm hq hn
  refine ⟨fun i h₀ hi => ?_, fun t hlo hhi => ?_, fun i hi => ?_, fun i hi => section_conserves hadm hm hq hn hi,
    fun i h₀ hi => ?_, ?_⟩
  · obtain ⟨hnext, hprev⟩ := weights_pos nodes h₀ hi
    exact (add_pos hnext hprev).ne'
  · rcases lt_or_eq_of_le (show t ≤ nodes.x (nodes.size - 1) from hhi) with hlt | rfl
    · obtain ⟨hi, h₀, h₁⟩ := (self.assemble Real.sqrt nodes false none).sectionIndex_spec hlo hlt
      obtain ⟨v, P, heval, -, -⟩ := section_conserves hadm hm hq hn hi
      obtain ⟨hv, hP⟩ := heval t h₀ h₁.le
      rw [← helper_inside _ hlt] at hv hP
      exact ⟨_, _, value_of_helper _ (.inr ⟨hlo, hhi⟩) hv, primitive_of_helper _ (.inr ⟨hlo, hhi⟩) hP⟩
    · exact ⟨_, _, value_of_helper _ (.inr ⟨hlo, hhi⟩) hend.1, primitive_of_helper _ (.inr ⟨hlo, hhi⟩) hend.2⟩
  · exact primitive_of_helper _ (.inr ⟨hmin i hi, hmax i hi⟩) (primitive_node hadm hm hq hn hi)
  · have hprev : i - 1 + 1 < nodes.size := (Nat.sub_add_cancel h₀).trans_lt (Nat.lt_of_succ_lt hi)
    have hfinish := section_finish hadm hm hq hn hprev
    rw [Nat.sub_add_cancel h₀] at hfinish
    exact ⟨_, hfinish, (section_start hadm hm hq hn hi).1⟩
  · have hfinish := section_finish hadm hm hq hn (show nodes.size - 2 + 1 < nodes.size by omega)
    rw [hlast] at hfinish
    exact ⟨_, hfinish, value_of_helper _ (.inr ⟨hmin (nodes.size - 1) (by omega), le_rfl⟩) hend.1⟩

end Assembled

theorem conserves_two (hn : nodes.size = 2) : (self.assemble Real.sqrt nodes false none).Conserves := by
  have hhelper : ∀ t, (self.assemble Real.sqrt nodes false none).helper t = _ := assemble_two hn
  have hsection : ∀ i, (self.assemble Real.sqrt nodes false none).sectionHelpers i =
      everywhereConstantHelper (nodes.y 1) 0 (nodes.x 0) := fun i => by simp [assemble, buildSections, hn]
  have hvalue : ∀ t, ((self.assemble Real.sqrt nodes false none).helper t).value t = some (nodes.y 1) := fun t => by
    rw [hhelper]
    rfl
  have hprimitive : ∀ t, ((self.assemble Real.sqrt nodes false none).helper t).primitive t =
      some (0 + (t - nodes.x 0) * nodes.y 1) := fun t => by
    rw [hhelper]
    rfl
  have hmin : nodes.x 0 ≤ nodes.x (nodes.size - 1) := nodes.x_le (Nat.zero_le _) (by omega)
  refine ⟨fun i h₀ hi => ?_, fun t hlo hhi => ?_, fun i hi => ?_, fun i hi => ?_, fun i h₀ hi => ?_, ?_⟩
  · have hlt : i + 1 < 2 := hn ▸ hi
    omega
  · exact ⟨_, _, value_of_helper _ (.inr ⟨hlo, hhi⟩) (hvalue t), primitive_of_helper _ (.inr ⟨hlo, hhi⟩) (hprimitive t)⟩
  · have hlt : i < nodes.size := hi
    have hhi : nodes.x i ≤ nodes.x (nodes.size - 1) := nodes.x_le (by omega) (by omega)
    refine primitive_of_helper _ (.inr ⟨nodes.x_le (Nat.zero_le i) hlt, hhi⟩) ?_
    refine (hprimitive _).trans (congrArg some ?_)
    change 0 + (nodes.x i - nodes.x 0) * nodes.y 1 = areaBefore nodes i
    rw [hn] at hlt
    interval_cases i
    · simp [areaBefore]
    · simp [areaBefore, mul_comm]
  · have hlt : i + 1 < 2 := hn ▸ hi
    obtain rfl : i = 0 := by omega
    rw [hsection]
    refine ⟨fun _ => nodes.y 1, fun t => 0 + (t - nodes.x 0) * nodes.y 1, fun t _ _ => ⟨rfl, rfl⟩, fun s t _ _ _ _ => ?_, ?_⟩
    · exact (isPrimitive_const (nodes.y 1) (-nodes.x 0 * nodes.y 1)).of_eq (fun _ => rfl) (fun t => by ring) s t
    · have harea : 0 + (nodes.x 1 - nodes.x 0) * nodes.y 1 - areaBefore nodes 1 = 0 := by
        simp only [areaBefore, Finset.sum_range_one]
        ring
      have hwidth : 0 ≤ nodes.x 1 - nodes.x 0 := sub_nonneg.2 (nodes.x_le (Nat.zero_le 1) (by omega))
      change |0 + (nodes.x 1 - nodes.x 0) * nodes.y 1 - areaBefore nodes 1| ≤ 1 / 10 ^ 14 * (nodes.x 1 - nodes.x 0)
      rw [harea, abs_zero]
      positivity
  · have hlt : i + 1 < 2 := hn ▸ hi
    omega
  · exact ⟨nodes.y 1, by rw [hsection]; rfl, value_of_helper _ (.inr ⟨hmin, le_rfl⟩) (hvalue _)⟩

/-- **Conservation.** -/
theorem conserves_of_admissible (self : ConvexMonotone ℝ) (x y : List ℝ) (f : ConvexMonotoneInterpolation ℝ)
    (hf : self.interpolate Real.sqrt x y = .ok f) (hadm : 2 < x.length → self.Admissible f.nodes) :
    f.nodes = (accepts_of_ok hf).nodes ∧ f.Conserves := by
  have h := accepts_of_ok hf
  obtain rfl : self.assemble Real.sqrt h.nodes false none = f := Except.ok.inj ((interpolate_ok Real.sqrt h).symm.trans hf)
  refine ⟨rfl, ?_⟩
  by_cases hn : h.nodes.size = 2
  · exact conserves_two hn
  · have henough := h.enough
    have hlen : x.length ≠ 2 := hn
    exact assemble_conserves (hadm (by omega)) h.monotonicity h.quadraticity hn

theorem conserves_ones : ∃ f, (⟨3 / 10, 7 / 10, true⟩ : ConvexMonotone ℝ).interpolate Real.sqrt [0, 1, 2, 3] [1, 1, 2, 1] =
    .ok f ∧ f.Conserves := by
  have haccepts := accepts_four (m := 7 / 10) (by norm_num) 1 1 2 1
  have hpos : ∀ i, 0 < i → i < haccepts.nodes.size → 0 < haccepts.nodes.y i := by
    intro i h₀ hi
    have hlt : i < 4 := hi
    interval_cases i <;> norm_num [Accepts.nodes]
  have hone : (7 / 10 : ℝ) ≠ 1 := by norm_num
  have hzero : (3 / 10 : ℝ) ≠ 0 := by norm_num
  have hf := interpolate_ok Real.sqrt haccepts
  refine ⟨_, hf, (conserves_of_admissible _ _ _ _ hf fun _ => ?_).2⟩
  exact ⟨fun _ i h₀ hi => (hpos i h₀ hi).le, fun _ i hi _ => (hpos (i + 1) (Nat.succ_pos i) hi).ne',
    fun h => absurd h hone, fun _ h => absurd h hzero⟩

/-- Kept positive over negative forwards, the first section has no area: the primitive does not start at zero. -/
theorem conserves_fails : ∃ f, (⟨1, 7 / 10, true⟩ : ConvexMonotone ℝ).interpolate Real.sqrt [0, 1, 2] [0, -1, -1] = .ok f ∧
    f.primitive 0 = .ok (-8 / 27) ∧ ¬ f.Conserves := by
  have haccepts : (⟨1, 7 / 10, true⟩ : ConvexMonotone ℝ).Accepts [0, 1, 2] [0, -1, -1] := by
    refine ⟨rfl, by norm_num, by norm_num, by norm_num, fun i hi => ?_⟩
    have hlt : i < 2 := hi
    interval_cases i <;> norm_num
  have hsize : haccepts.nodes.size ≠ 2 := show (3 : ℕ) ≠ 2 by decide
  have hinterval : (⟨1, 7 / 10, true⟩ : ConvexMonotone ℝ).interval haccepts.nodes none 0 = ⟨0, 1, 0, -1, -1, 0⟩ := by
    norm_num [interval, boundaryForward, clamp, seededForward, innerForward, accumulated, Accepts.nodes]
  have hchoose : (⟨1, 7 / 10, true⟩ : ConvexMonotone ℝ).chooseSection Real.sqrt ⟨0, 1, 0, -1, -1, 0⟩ =
      quadraticMinHelper Real.sqrt ⟨0, 1, 0, -1, -1, 0⟩ := by
    norm_num [chooseSection, Constant, MinRegion, NodeInterval.gPrev, NodeInterval.gNext, quadratic, SectionHelper.ofOption]
  have hprimitive : (quadraticMinHelper Real.sqrt ⟨0, 1, 0, -1, -1, 0⟩).primitive 0 = some (-8 / 27) := by
    norm_num [quadraticMinHelper, QuadraticMinHelper.new, QuadraticMinHelper.primitive, QuadraticMinHelper.area,
      quadraticA, quadraticB, quotient, NodeInterval.xScaling, SectionHelper.ofOption]
  have hat : ((⟨1, 7 / 10, true⟩ : ConvexMonotone ℝ).assemble Real.sqrt haccepts.nodes false none).primitive 0 =
      .ok (-8 / 27) := by
    have hhelper := (helper_node ((⟨1, 7 / 10, true⟩ : ConvexMonotone ℝ).assemble Real.sqrt haccepts.nodes false none)
      (show 0 + 1 < 3 by decide)).trans (assemble_section _ _ hsize 0)
    rw [hinterval, hchoose] at hhelper
    have hlast : (0 : ℝ) ≤ haccepts.nodes.x (haccepts.nodes.size - 1) := haccepts.nodes.x_le (Nat.zero_le _) (show 2 < 3 by decide)
    refine primitive_of_helper _ (.inr ⟨le_refl (0 : ℝ), hlast⟩) ?_
    exact (congrArg (fun h => h.primitive 0) hhelper).trans hprimitive
  refine ⟨_, interpolate_ok Real.sqrt haccepts, hat, fun hconserves => ?_⟩
  have hnode := Except.ok.inj (hat.symm.trans (hconserves.node 0 (show 0 < 3 by decide)))
  norm_num [areaBefore] at hnode

end ConvexMonotone

end Itofin
