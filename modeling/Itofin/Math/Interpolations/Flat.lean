import Itofin.Math.Interpolation
/-!
# Flat — piecewise-constant interpolations

`math/interpolations/flat.rs`.  The value counts the nodes before a point, or up to it, and the primitive searches for the
segment: past an end that the one takes from the end node and the other from the end segment (`value_below`,
`value_above`), the two are of different functions.
-/
namespace Itofin

open Set Piecewise Piecewise.Locates

/-- Backward-flat interpolation: each segment takes the value of the node to the right. -/
structure BackwardFlatInterpolation (K : Type) [LT K] where
  nodes : Nodes K 1
  allowExtrapolation : Bool

/-- Forward-flat interpolation: each segment takes the value of the node to the left. -/
structure ForwardFlatInterpolation (K : Type) [LT K] where
  nodes : Nodes K 2
  allowExtrapolation : Bool

namespace BackwardFlatInterpolation

section Evaluation

variable {K : Type} [Field K] [LinearOrder K]

def new (x y : List K) : Except (InterpolationError K) (BackwardFlatInterpolation K) :=
  (Nodes.validate 1 x y).map fun nodes => ⟨nodes, false⟩

def withExtrapolation (self : BackwardFlatInterpolation K) (allow : Bool) : BackwardFlatInterpolation K :=
  { self with allowExtrapolation := allow }

variable (self : BackwardFlatInterpolation K)

/-- The node at or to the right of a point, clamped into the range. -/
def node (t : K) : ℕ := min (partitionPoint (fun i => self.nodes.x i < t) self.nodes.size) (self.nodes.size - 1)

def cumulative : ℕ → K
  | 0     => 0
  | i + 1 => cumulative i + (self.nodes.x (i + 1) - self.nodes.x i) * self.nodes.y (i + 1)

def segmentPrimitive (i : ℕ) (t : K) : K := self.cumulative i + (t - self.nodes.x i) * self.nodes.y (i + 1)

def primitive (t : K) : K :=
  if self.nodes.size = 1 then (t - self.nodes.x 0) * self.nodes.y 0
  else self.segmentPrimitive (self.nodes.locate t) t

def interpolation : Interpolation K :=
  self.nodes.interpolation self.allowExtrapolation (fun t => self.nodes.y (self.node t)) (fun _ => 0) self.primitive

end Evaluation

end BackwardFlatInterpolation

namespace ForwardFlatInterpolation

section Evaluation

variable {K : Type} [Field K] [LinearOrder K]

def new (x y : List K) : Except (InterpolationError K) (ForwardFlatInterpolation K) :=
  (Nodes.validate 2 x y).map fun nodes => ⟨nodes, false⟩

def withExtrapolation (self : ForwardFlatInterpolation K) (allow : Bool) : ForwardFlatInterpolation K :=
  { self with allowExtrapolation := allow }

variable (self : ForwardFlatInterpolation K)

/-- The node at or to the left of a point, clamped into the range. -/
def node (t : K) : ℕ := partitionPoint (fun i => self.nodes.x i ≤ t) self.nodes.size - 1

def cumulative : ℕ → K
  | 0     => 0
  | i + 1 => cumulative i + (self.nodes.x (i + 1) - self.nodes.x i) * self.nodes.y i

def segmentPrimitive (i : ℕ) (t : K) : K := self.cumulative i + (t - self.nodes.x i) * self.nodes.y i

def primitive (t : K) : K :=
  if self.nodes.size = 1 then (t - self.nodes.x 0) * self.nodes.y 0
  else self.segmentPrimitive (self.nodes.locate t) t

def interpolation : Interpolation K :=
  self.nodes.interpolation self.allowExtrapolation (fun t => self.nodes.y (self.node t)) (fun _ => 0) self.primitive

end Evaluation

end ForwardFlatInterpolation

theorem primitive_const (a b c : ℝ) : IsPrimitive (fun _ => c) (fun t => a + (t - b) * c) := by
  refine isPrimitive_of_hasDerivAt (fun t => ?_) continuous_const
  simpa using (((hasDerivAt_id t).sub_const b).mul_const c).const_add a

namespace BackwardFlatInterpolation

variable (self : BackwardFlatInterpolation ℝ) {t : ℝ}

theorem node_le (t : ℝ) : self.node t ≤ self.nodes.size - 1 := min_le_right _ _

theorem node_lower (h : 0 < self.node t) : self.nodes.x (self.node t - 1) < t := by
  have hle : self.node t ≤ partitionPoint (fun i => self.nodes.x i < t) self.nodes.size := min_le_left _ _
  have hlt : self.node t - 1 < partitionPoint (fun i => self.nodes.x i < t) self.nodes.size := by omega
  exact of_decide_eq_true (lt_partitionPoint hlt)

theorem node_upper (h : self.node t < self.nodes.size - 1) : t ≤ self.nodes.x (self.node t) := by
  have heq : self.node t = partitionPoint (fun i => self.nodes.x i < t) self.nodes.size := by
    unfold node at h ⊢
    omega
  have hlt : partitionPoint (fun i => self.nodes.x i < t) self.nodes.size < self.nodes.size := by omega
  have hfalse := partitionPoint_false hlt
  rw [← heq] at hfalse
  exact not_lt.1 (of_decide_eq_false hfalse)

theorem node_locates : Locates (fun i => self.nodes.x (i - 1)) (self.nodes.size - 1) self.node where
  le := self.node_le
  lower _ ht := (self.node_lower ht).le
  upper _ ht := self.node_upper ht
  increasing _ _ hi hij hj := self.nodes.x_lt (by omega) (by omega)

theorem node_node {i : ℕ} (hi : i < self.nodes.size) : self.node (self.nodes.x i) = i := by
  have hle := self.node_le (self.nodes.x i)
  refine le_antisymm ?_ ?_
  · by_contra h
    exact absurd (self.node_lower (t := self.nodes.x i) (by omega)) (not_lt.2 (self.nodes.x_le (by omega) (by omega)))
  · by_contra h
    exact absurd (self.node_upper (t := self.nodes.x i) (by omega)) (not_le.2 (self.nodes.x_lt (not_le.1 h) hi))

/-- Past the first node the value is that of the segment to the left, whose index is one less. -/
theorem segment_locates (h : 2 ≤ self.nodes.size) :
    Locates self.nodes.x (self.nodes.size - 2) (fun t => self.node t - 1) where
  le t := by
    have := self.node_le t
    omega
  lower t ht := (self.node_lower (by omega)).le
  upper t ht := by
    rcases Nat.eq_zero_or_pos (self.node t) with h₀ | h₀
    · rw [h₀]
      have := self.node_upper (t := t) (by omega)
      rw [h₀] at this
      exact this.trans (self.nodes.x_le (by omega) (by omega))
    · rw [Nat.sub_add_cancel h₀]
      exact self.node_upper (by omega)
  increasing _ _ _ hij hj := self.nodes.x_lt hij (by omega)

theorem segmentPrimitive_meet (m : ℕ) : Meet self.nodes.x m self.segmentPrimitive := fun i _ => by
  simp [segmentPrimitive, cumulative]

theorem primitive_segments (h : 2 ≤ self.nodes.size) :
    IsPrimitive (fun t => self.nodes.y (self.node t - 1 + 1)) self.primitive := by
  have hseg := isPrimitive_piecewise (self.segment_locates h) (p := fun i _ => self.nodes.y (i + 1))
    (fun i _ => primitive_const _ _ _) (self.segmentPrimitive_meet _)
  have heq : self.primitive = fun t => self.segmentPrimitive (self.node t - 1) t := by
    funext t
    rw [primitive, if_neg (by omega)]
    exact eq_of_meet (self.nodes.locates h) (self.segment_locates h) (self.segmentPrimitive_meet _) t
  rw [heq]
  exact hseg

theorem node_of_gt (ht : self.nodes.x 0 < t) (h : 2 ≤ self.nodes.size) : 0 < self.node t := by
  by_contra h₀
  have := self.node_upper (t := t) (by omega)
  rw [Nat.eq_zero_of_not_pos h₀] at this
  exact absurd this (not_le.2 ht)

/-- Below the first node the value is that of the node, not of the segment. -/
theorem node_below (ht : t ≤ self.nodes.x 0) : self.node t = 0 := by
  by_contra h
  have hlo := self.node_lower (Nat.pos_of_ne_zero h)
  have hle := self.node_le t
  exact absurd (hlo.trans_le ht) (not_lt.2 (self.nodes.x_le (Nat.zero_le _) (by omega)))

/-- The first two data agree, as far as there are two. -/
def Levelled : Prop := 2 ≤ self.nodes.size → self.nodes.y 0 = self.nodes.y 1

theorem primitive_levelled (h : self.Levelled) : IsPrimitive (fun t => self.nodes.y (self.node t)) self.primitive := by
  have henough := self.nodes.enough
  rcases Nat.lt_or_ge 1 self.nodes.size with h₂ | h₁
  · have heq : (fun t => self.nodes.y (self.node t)) = fun t => self.nodes.y (self.node t - 1 + 1) := by
      funext t
      rcases Nat.eq_zero_or_pos (self.node t) with h₀ | h₀
      · rw [h₀]
        exact h h₂
      · rw [Nat.sub_add_cancel h₀]
    rw [heq]
    exact self.primitive_segments h₂
  · have hone : self.nodes.size = 1 := by omega
    have hnode : ∀ t, self.node t = 0 := fun t => by
      have := self.node_le t
      omega
    have heq : self.primitive = fun t => 0 + (t - self.nodes.x 0) * self.nodes.y 0 := by
      funext t
      rw [primitive, if_pos hone, zero_add]
    simp only [hnode, heq]
    exact primitive_const _ _ _

theorem primitive_above (h : 2 ≤ self.nodes.size) {a b : ℝ} (ha : self.nodes.x 0 ≤ a) (hb : self.nodes.x 0 ≤ b) :
    IsPrimitiveOn (fun t => self.nodes.y (self.node t)) self.primitive a b := by
  refine (self.primitive_segments h a b).congr (fun t ht => ?_) rfl rfl
  have hpos := self.node_of_gt (lt_of_le_of_lt (le_min ha hb) ht.1) h
  simp only [Nat.sub_add_cancel hpos]

theorem primitive_of_le (h : 2 ≤ self.nodes.size) (ht : t ≤ self.nodes.x 0) :
    self.primitive t = (t - self.nodes.x 0) * self.nodes.y 1 := by
  rw [primitive, if_neg (by omega), self.nodes.locate_below h ht]
  simp [segmentPrimitive, cumulative]

/-- Over the unit below the first node the value integrates to one datum and the primitive changes by the other. -/
theorem levelled_of_primitive (h : IsPrimitiveOn (fun t => self.nodes.y (self.node t)) self.primitive
    (self.nodes.x 0 - 1) (self.nodes.x 0)) : self.Levelled := by
  intro h₂
  have hconst : IsPrimitiveOn (fun t => self.nodes.y (self.node t))
      (fun t => 0 + (t - self.nodes.x 0) * self.nodes.y 0) (self.nodes.x 0 - 1) (self.nodes.x 0) := by
    refine (primitive_const 0 _ _ _ _).congr (fun t ht => ?_) rfl rfl
    rw [uIoo_of_le (sub_le_self _ zero_le_one)] at ht
    simp only [self.node_below ht.2.le]
  have hval := h.2.symm.trans hconst.2
  rw [self.primitive_of_le h₂ le_rfl, self.primitive_of_le h₂ (sub_le_self _ zero_le_one)] at hval
  linarith

/-- **Backward-flat interpolation keeps the contract exactly when the extrapolation below the first node has nothing to
get wrong.** -/
theorem fulfils_iff : self.interpolation.Agrees self.allowExtrapolation self.nodes.size self.nodes.x self.nodes.y ↔
    (self.allowExtrapolation = true → self.Levelled) := by
  have henough := self.nodes.enough
  refine (Nodes.fulfils_iff (by omega)).trans ⟨fun h hallow => ?_, fun h => ⟨fun i hi => ?_, ?_, ?_, ?_⟩⟩
  · exact self.levelled_of_primitive (h.2.2.1 _ _ (.inl hallow) (.inl hallow))
  · rw [self.node_node hi]
  · rcases Nat.lt_or_ge 1 self.nodes.size with h₂ | h₁
    · rw [self.primitive_of_le h₂ le_rfl, sub_self, zero_mul]
    · rw [primitive, if_pos (by omega), sub_self, zero_mul]
  · intro a b ha hb
    by_cases hlevel : self.Levelled
    · exact self.primitive_levelled hlevel a b
    · have hrange : ∀ {t}, self.nodes.Admits self.allowExtrapolation t → self.nodes.x 0 ≤ t := fun ht =>
        (ht.resolve_left fun hallow => hlevel (h hallow)).1
      refine self.primitive_above ?_ (hrange ha) (hrange hb)
      by_contra hsmall
      exact hlevel fun h₂ => absurd h₂ hsmall
  · intro t _ hne
    exact hasDerivAt_of_ne self.node_locates (q := fun i _ => self.nodes.y i) (fun i hi hle => hne (i - 1) (by omega))
      (hasDerivAt_const t _)

end BackwardFlatInterpolation

namespace ForwardFlatInterpolation

variable (self : ForwardFlatInterpolation ℝ) {t : ℝ}

theorem two_le : 2 ≤ self.nodes.size := self.nodes.enough

theorem node_le (t : ℝ) : self.node t ≤ self.nodes.size - 1 := by
  have := partitionPoint_le (fun i => decide (self.nodes.x i ≤ t)) self.nodes.size
  unfold node
  omega

theorem node_lower (h : 0 < self.node t) : self.nodes.x (self.node t) ≤ t := by
  unfold node at h ⊢
  have hlt : partitionPoint (fun i => self.nodes.x i ≤ t) self.nodes.size - 1 <
      partitionPoint (fun i => self.nodes.x i ≤ t) self.nodes.size := by omega
  exact of_decide_eq_true (lt_partitionPoint hlt)

theorem node_upper (h : self.node t < self.nodes.size - 1) : t < self.nodes.x (self.node t + 1) := by
  unfold node at h ⊢
  have hlt : partitionPoint (fun i => self.nodes.x i ≤ t) self.nodes.size < self.nodes.size := by omega
  have hstop := not_le.1 (of_decide_eq_false (partitionPoint_false hlt))
  exact hstop.trans_le (self.nodes.x_le (by omega) (by omega))

theorem node_locates : Locates self.nodes.x (self.nodes.size - 1) self.node where
  le := self.node_le
  lower _ := self.node_lower
  upper _ ht := (self.node_upper ht).le
  increasing _ _ _ hij hj := self.nodes.x_lt hij (by omega)

theorem node_node {i : ℕ} (hi : i < self.nodes.size) : self.node (self.nodes.x i) = i := by
  have hle := self.node_le (self.nodes.x i)
  refine le_antisymm ?_ ?_
  · by_contra h
    exact absurd (self.node_lower (t := self.nodes.x i) (by omega)) (not_le.2 (self.nodes.x_lt (not_le.1 h) (by omega)))
  · by_contra h
    exact absurd (self.node_upper (t := self.nodes.x i) (by omega)) (not_lt.2 (self.nodes.x_le (by omega) hi))

theorem segmentPrimitive_meet (m : ℕ) : Meet self.nodes.x m self.segmentPrimitive := fun i _ => by
  simp [segmentPrimitive, cumulative]

theorem primitive_segments : IsPrimitive (fun t => self.nodes.y (self.nodes.locate t)) self.primitive := by
  have heq : self.primitive = fun t => self.segmentPrimitive (self.nodes.locate t) t := by
    funext t
    rw [primitive, if_neg (by have := self.two_le; omega)]
  rw [heq]
  exact isPrimitive_piecewise (self.nodes.locates self.two_le) (p := fun i _ => self.nodes.y i)
    (fun i _ => primitive_const _ _ _) (self.segmentPrimitive_meet _)

theorem node_of_lt (ht : t < self.nodes.x (self.nodes.size - 1)) : self.node t = self.nodes.locate t := by
  have h₂ := self.two_le
  have hlast : self.node t ≤ self.nodes.size - 2 := by
    by_contra h
    have heq : self.node t = self.nodes.size - 1 := le_antisymm (self.node_le t) (by omega)
    have hlo := self.node_lower (t := t) (by omega)
    rw [heq] at hlo
    exact absurd ht (not_lt.2 hlo)
  refine le_antisymm ?_ ?_
  · by_contra h
    have hup := self.nodes.locate_upper (t := t) (by omega)
    exact absurd (hup.trans_le (self.nodes.x_le (not_le.1 h) (by omega))) (not_lt.2 (self.node_lower (by omega)))
  · by_contra h
    have hle := self.nodes.locate_le h₂ t
    have hup := self.node_upper (t := t) (by omega)
    exact absurd (hup.trans_le (self.nodes.x_le (not_le.1 h) (by omega))) (not_lt.2 (self.nodes.locate_lower (by omega)))

/-- From the last node on the value is that of the node, not of the segment. -/
theorem node_above (ht : self.nodes.x (self.nodes.size - 1) ≤ t) : self.node t = self.nodes.size - 1 := by
  by_contra h
  have hlt : self.node t < self.nodes.size - 1 := lt_of_le_of_ne (self.node_le t) h
  exact absurd (self.node_upper hlt) (not_lt.2 ((self.nodes.x_le (by omega) (by omega)).trans ht))

/-- The last two data agree. -/
def Levelled : Prop := self.nodes.y (self.nodes.size - 2) = self.nodes.y (self.nodes.size - 1)

theorem primitive_levelled (h : self.Levelled) : IsPrimitive (fun t => self.nodes.y (self.node t)) self.primitive := by
  have heq : (fun t => self.nodes.y (self.node t)) = fun t => self.nodes.y (self.nodes.locate t) := by
    funext t
    rcases lt_or_ge t (self.nodes.x (self.nodes.size - 1)) with ht | ht
    · rw [self.node_of_lt ht]
    · rw [self.node_above ht, self.nodes.locate_above self.two_le ht]
      exact h.symm
  rw [heq]
  exact self.primitive_segments

theorem primitive_below {a b : ℝ} (ha : a ≤ self.nodes.x (self.nodes.size - 1))
    (hb : b ≤ self.nodes.x (self.nodes.size - 1)) :
    IsPrimitiveOn (fun t => self.nodes.y (self.node t)) self.primitive a b := by
  refine (self.primitive_segments a b).congr (fun t ht => ?_) rfl rfl
  simp only [self.node_of_lt (ht.2.trans_le (max_le ha hb))]

/-- Over the unit past the last node the value integrates to one datum and the primitive changes by the other. -/
theorem levelled_of_primitive (h : IsPrimitiveOn (fun t => self.nodes.y (self.node t)) self.primitive
    (self.nodes.x (self.nodes.size - 1)) (self.nodes.x (self.nodes.size - 1) + 1)) : self.Levelled := by
  have hconst : IsPrimitiveOn (fun t => self.nodes.y (self.node t))
      (fun t => 0 + (t - self.nodes.x 0) * self.nodes.y (self.nodes.size - 1)) (self.nodes.x (self.nodes.size - 1))
      (self.nodes.x (self.nodes.size - 1) + 1) := by
    refine (primitive_const 0 _ _ _ _).congr (fun t ht => ?_) rfl rfl
    rw [uIoo_of_le (le_add_of_nonneg_right zero_le_one)] at ht
    simp only [self.node_above ht.1.le]
  have hprim : ∀ t, self.nodes.x (self.nodes.size - 1) ≤ t →
      self.primitive t = self.segmentPrimitive (self.nodes.size - 2) t := fun t ht => by
    rw [primitive, if_neg (by have := self.two_le; omega), self.nodes.locate_above self.two_le ht]
  have hval := h.2.symm.trans hconst.2
  rw [hprim _ le_rfl, hprim _ (le_add_of_nonneg_right zero_le_one)] at hval
  simp only [segmentPrimitive] at hval
  unfold Levelled
  linarith

/-- **Forward-flat interpolation keeps the contract exactly when the extrapolation past the last node has nothing to
get wrong.** -/
theorem fulfils_iff : self.interpolation.Agrees self.allowExtrapolation self.nodes.size self.nodes.x self.nodes.y ↔
    (self.allowExtrapolation = true → self.Levelled) := by
  have h₂ := self.two_le
  refine (Nodes.fulfils_iff (by omega)).trans ⟨fun h hallow => ?_, fun h => ⟨fun i hi => ?_, ?_, ?_, ?_⟩⟩
  · exact self.levelled_of_primitive (h.2.2.1 _ _ (.inl hallow) (.inl hallow))
  · rw [self.node_node hi]
  · rw [primitive, if_neg (by omega), self.nodes.locate_below h₂ le_rfl]
    simp [segmentPrimitive, cumulative]
  · intro a b ha hb
    by_cases hlevel : self.Levelled
    · exact self.primitive_levelled hlevel a b
    · have hrange : ∀ {t}, self.nodes.Admits self.allowExtrapolation t → t ≤ self.nodes.x (self.nodes.size - 1) :=
        fun ht => (ht.resolve_left fun hallow => hlevel (h hallow)).2
      exact self.primitive_below (hrange ha) (hrange hb)
  · intro t _ hne
    exact hasDerivAt_of_ne self.node_locates (q := fun i _ => self.nodes.y i) (fun i _ hle => hne i (by omega))
      (hasDerivAt_const t _)

end ForwardFlatInterpolation

end Itofin
