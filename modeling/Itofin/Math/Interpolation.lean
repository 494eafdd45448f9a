import Itofin.Lib.Piecewise
/-!
# Interpolation — nodes, segments, and what value, derivative and primitive owe each other

The frame that the interpolations of `math/interpolations` share: the checks of the nodes, the range check before an
evaluation, and the search for a segment.  Exact numbers are all finite, so the checks for infinities and `NaN` are left
out.  `Agrees` is the contract of the trait `Interpolation` over the reals; `fulfils_iff` reduces it to the functions
evaluated after the range check.
-/
namespace Itofin

open MeasureTheory Piecewise

inductive InterpolationError (K : Type) where
  /-- "x and y must have equal length ({} vs {})" -/
  | lengths (x y : ℕ)
  /-- "... interpolation needs at least {min_points} point(s), got {}" -/
  | points (minPoints got : ℕ)
  /-- "x values must be strictly increasing" -/
  | notIncreasing
  /-- "interpolation range is [{lo}, {hi}]: extrapolation at {at} not allowed" -/
  | outOfRange (lo hi t : K)
  /-- "Akima approximation requires at least 4 points, got {}" -/
  | akima (got : ℕ)
  /-- "the not-a-knot spline boundary condition requires at least 3 points, got {n}" -/
  | notAKnot (got : ℕ)
  /-- "two not-a-knot spline boundary conditions require at least 4 points, got {n}" -/
  | twoNotAKnots (got : ℕ)
  /-- "the Lagrange spline boundary condition requires at least 4 points, got {n}" -/
  | lagrange (got : ℕ)
  /-- "tridiagonal system is singular (zero pivot at row {i})" -/
  | singular (row : ℕ)

/-- The trait `Interpolation`. -/
structure Interpolation (K : Type) where
  value : K → Except (InterpolationError K) K
  derivative : K → Except (InterpolationError K) K
  primitive : K → Except (InterpolationError K) K
  xMin : K
  xMax : K

/-- `partition_point` of a slice of some length, partitioned by the predicate: the first index where it fails. -/
def partitionPoint (p : ℕ → Bool) : ℕ → ℕ
  | 0       => 0
  | len + 1 => if p 0 then partitionPoint (fun i => p (i + 1)) len + 1 else 0

theorem partitionPoint_le (p : ℕ → Bool) (len : ℕ) : partitionPoint p len ≤ len := by
  induction len generalizing p with
  | zero       => exact le_rfl
  | succ n ih =>
    rw [partitionPoint]
    split
    · exact Nat.succ_le_succ (ih _)
    · exact Nat.zero_le _

theorem lt_partitionPoint {p : ℕ → Bool} {len i : ℕ} (h : i < partitionPoint p len) : p i = true := by
  induction len generalizing p i with
  | zero       => exact absurd h (Nat.not_lt_zero i)
  | succ n ih =>
    rw [partitionPoint] at h
    split at h
    · rename_i h₀
      cases i with
      | zero   => exact h₀
      | succ i => exact ih (p := fun i => p (i + 1)) (Nat.lt_of_succ_lt_succ h)
    · exact absurd h (Nat.not_lt_zero i)

theorem partitionPoint_false {p : ℕ → Bool} {len : ℕ} (h : partitionPoint p len < len) :
    p (partitionPoint p len) = false := by
  induction len generalizing p with
  | zero       => exact absurd h (Nat.not_lt_zero _)
  | succ n ih =>
    rw [partitionPoint] at h ⊢
    split at h
    · rename_i h₀
      rw [if_pos h₀]
      exact ih (Nat.lt_of_succ_lt_succ h)
    · rename_i h₀
      rw [if_neg h₀]
      exact Bool.eq_false_iff.2 h₀

/-! ## Nodes -/

/-- Nodes that passed the checks. -/
structure Nodes (K : Type) [LT K] (minPoints : ℕ) where
  size : ℕ
  x : ℕ → K
  y : ℕ → K
  enough : minPoints ≤ size
  increasing : ∀ i < size - 1, x i < x (i + 1)

namespace Nodes

section Order

variable {K : Type} [LinearOrder K] {minPoints : ℕ} (nodes : Nodes K minPoints) {i j : ℕ} {t : K}

/-- The checks of the constructors. -/
def validate [Zero K] (minPoints : ℕ) (x y : List K) : Except (InterpolationError K) (Nodes K minPoints) :=
  if x.length ≠ y.length then .error (.lengths x.length y.length)
  else if h : minPoints ≤ x.length then
    if h' : ∀ i < x.length - 1, x.getD i 0 < x.getD (i + 1) 0 then
      .ok ⟨x.length, fun i => x.getD i 0, fun i => y.getD i 0, h, h'⟩
    else .error .notIncreasing
  else .error (.points minPoints x.length)

def xMin : K := nodes.x 0

def xMax : K := nodes.x (nodes.size - 1)

def checkRange (allowExtrapolation : Bool) (t : K) : Except (InterpolationError K) Unit :=
  if allowExtrapolation = false ∧ ¬ (nodes.xMin ≤ t ∧ t ≤ nodes.xMax) then
    .error (.outOfRange nodes.xMin nodes.xMax t)
  else .ok ()

/-- `locate`: the segment that contains a point, or the one at the end it lies beyond. -/
def locate (t : K) : ℕ :=
  if t < nodes.x 0 then 0
  else if nodes.x (nodes.size - 1) < t then nodes.size - 2
  else partitionPoint (fun i => nodes.x i ≤ t) (nodes.size - 1) - 1

/-- The evaluations of an interpolation, after its range check. -/
def interpolation (allowExtrapolation : Bool) (value derivative primitive : K → K) : Interpolation K where
  value t := (nodes.checkRange allowExtrapolation t).map fun _ => value t
  derivative t := (nodes.checkRange allowExtrapolation t).map fun _ => derivative t
  primitive t := (nodes.checkRange allowExtrapolation t).map fun _ => primitive t
  xMin := nodes.xMin
  xMax := nodes.xMax

theorem validate_ok [Zero K] {x y : List K} {nodes : Nodes K minPoints} (h : validate minPoints x y = .ok nodes) :
    nodes.size = x.length ∧ x.length = y.length ∧ nodes.x = (fun i => x.getD i 0) ∧ nodes.y = fun i => y.getD i 0 := by
  unfold validate at h
  split_ifs at h with h₁ h₂ h₃
  obtain rfl := Except.ok.inj h
  exact ⟨rfl, not_not.1 h₁, rfl, rfl⟩

theorem x_lt (hij : i < j) (hj : j < nodes.size) : nodes.x i < nodes.x j := by
  induction j with
  | zero      => exact absurd hij (Nat.not_lt_zero i)
  | succ j ih =>
    have hstep := nodes.increasing j (by omega)
    rcases Nat.lt_succ_iff_lt_or_eq.1 hij with h | rfl
    · exact (ih h (by omega)).trans hstep
    · exact hstep

theorem x_le (hij : i ≤ j) (hj : j < nodes.size) : nodes.x i ≤ nodes.x j := by
  rcases lt_or_eq_of_le hij with h | rfl
  · exact (nodes.x_lt h hj).le
  · exact le_rfl

/-- The points where evaluation is admitted. -/
def Admits (allowExtrapolation : Bool) (t : K) : Prop := allowExtrapolation = true ∨ nodes.xMin ≤ t ∧ t ≤ nodes.xMax

theorem map_checkRange {allow : Bool} {g : K → K} {v : K} :
    (nodes.checkRange allow t).map (fun _ => g t) = .ok v ↔ nodes.Admits allow t ∧ g t = v := by
  unfold checkRange Admits
  cases allow with
  | true  => simp [Except.map]
  | false => by_cases h : nodes.xMin ≤ t ∧ t ≤ nodes.xMax <;> simp [Except.map, h]

theorem admits_node (allow : Bool) (hi : i < nodes.size) : nodes.Admits allow (nodes.x i) :=
  .inr ⟨nodes.x_le (Nat.zero_le i) hi, nodes.x_le (by omega) (by omega)⟩

theorem admits_between {allow : Bool} {a b : K} (ha : nodes.Admits allow a) (hb : nodes.Admits allow b)
    (hat : a ≤ t) (htb : t ≤ b) : nodes.Admits allow t := by
  rcases ha with h | ha
  · exact .inl h
  · rcases hb with h | hb
    · exact .inl h
    · exact .inr ⟨ha.1.trans hat, htb.trans hb.2⟩

/-! ## The segment -/

theorem locate_le (h : 2 ≤ nodes.size) (t : K) : nodes.locate t ≤ nodes.size - 2 := by
  unfold locate
  have hp := partitionPoint_le (fun i => decide (nodes.x i ≤ t)) (nodes.size - 1)
  split_ifs <;> omega

theorem locate_lower (h : 0 < nodes.locate t) : nodes.x (nodes.locate t) ≤ t := by
  unfold locate at h ⊢
  by_cases h₁ : t < nodes.x 0
  · rw [if_pos h₁] at h
    exact absurd h (lt_irrefl 0)
  · rw [if_neg h₁] at h ⊢
    by_cases h₂ : nodes.x (nodes.size - 1) < t
    · rw [if_pos h₂] at h ⊢
      exact (nodes.x_le (by omega) (by omega)).trans h₂.le
    · rw [if_neg h₂] at h ⊢
      exact of_decide_eq_true (lt_partitionPoint (p := fun i => decide (nodes.x i ≤ t))
        (Nat.sub_lt (Nat.lt_of_lt_of_le h (Nat.sub_le _ _)) one_pos))

theorem locate_upper (h : nodes.locate t < nodes.size - 2) : t < nodes.x (nodes.locate t + 1) := by
  unfold locate at h ⊢
  by_cases h₁ : t < nodes.x 0
  · rw [if_pos h₁]
    exact h₁.trans_le (nodes.x_le (Nat.zero_le _) (by omega))
  · rw [if_neg h₁] at h ⊢
    by_cases h₂ : nodes.x (nodes.size - 1) < t
    · rw [if_pos h₂] at h
      exact absurd h (lt_irrefl _)
    · rw [if_neg h₂] at h ⊢
      have hstop : partitionPoint (fun i => decide (nodes.x i ≤ t)) (nodes.size - 1) < nodes.size - 1 := by omega
      have hfalse := of_decide_eq_false (partitionPoint_false hstop)
      have hpos : partitionPoint (fun i => decide (nodes.x i ≤ t)) (nodes.size - 1) ≠ 0 := fun hzero => by
        rw [hzero] at hfalse
        exact hfalse (not_lt.1 h₁)
      rw [Nat.sub_add_cancel (Nat.pos_of_ne_zero hpos)]
      exact not_le.1 hfalse

theorem locate_below (h : 2 ≤ nodes.size) (ht : t ≤ nodes.x 0) : nodes.locate t = 0 := by
  by_contra hne
  have hle := nodes.locate_le h t
  have hlt := nodes.x_lt (Nat.pos_of_ne_zero hne) (by omega)
  exact absurd (hlt.trans_le (nodes.locate_lower (Nat.pos_of_ne_zero hne))) (not_lt.2 ht)

theorem locate_above (h : 2 ≤ nodes.size) (ht : nodes.x (nodes.size - 1) ≤ t) : nodes.locate t = nodes.size - 2 := by
  by_contra hne
  have hlt := lt_of_le_of_ne (nodes.locate_le h t) hne
  exact absurd (ht.trans_lt (nodes.locate_upper hlt)) (not_lt.2 (nodes.x_le (by omega) (by omega)))

theorem locate_inside (hi : i < nodes.size - 1) (hlo : nodes.x i ≤ t) (hhi : t < nodes.x (i + 1)) :
    nodes.locate t = i := by
  have hle := nodes.locate_le (by omega) t
  refine le_antisymm ?_ ?_
  · by_contra h
    have hlt := nodes.locate_lower (t := t) (by omega)
    exact absurd (hhi.trans_le ((nodes.x_le (not_le.1 h) (by omega)).trans hlt)) (lt_irrefl t)
  · by_contra h
    have hup := nodes.locate_upper (t := t) (by omega)
    exact absurd (hup.trans_le ((nodes.x_le (not_le.1 h) (by omega)).trans hlo)) (lt_irrefl t)

theorem locate_node (hi : i < nodes.size - 1) : nodes.locate (nodes.x i) = i :=
  nodes.locate_inside hi le_rfl (nodes.increasing i hi)

theorem locate_last (h : 2 ≤ nodes.size) : nodes.locate (nodes.x (nodes.size - 1)) = nodes.size - 2 :=
  nodes.locate_above h le_rfl

theorem piece_node (h : 2 ≤ nodes.size) {p : ℕ → K → K} (hstart : ∀ i < nodes.size - 1, p i (nodes.x i) = nodes.y i)
    (hend : p (nodes.size - 2) (nodes.x (nodes.size - 1)) = nodes.y (nodes.size - 1)) (hi : i < nodes.size) :
    p (nodes.locate (nodes.x i)) (nodes.x i) = nodes.y i := by
  rcases Nat.lt_or_ge i (nodes.size - 1) with hlt | hge
  · rw [nodes.locate_node hlt]
    exact hstart i hlt
  · obtain rfl : i = nodes.size - 1 := by omega
    rw [nodes.locate_last h]
    exact hend

end Order

/-! ## The contract of the trait -/

section Contract

open Set

variable {minPoints : ℕ} (nodes : Nodes ℝ minPoints)

theorem locates (h : 2 ≤ nodes.size) : Locates nodes.x (nodes.size - 2) nodes.locate where
  le := nodes.locate_le h
  lower _ := nodes.locate_lower
  upper _ ht := (nodes.locate_upper ht).le
  increasing _ _ _ hij hj := nodes.x_lt hij (by omega)

end Contract

end Nodes

/-- The value where evaluation is admitted. -/
def Interpolation.valueAt (f : Interpolation ℝ) (t : ℝ) : ℝ := match f.value t with
  | .ok v    => v
  | .error _ => 0

/-- **What an interpolation owes its nodes**: it evaluates everywhere or in its range, it passes through them, its primitive starts at the first, the differences
of the primitive are the integrals of the value wherever evaluation is admitted, and away from the nodes the derivative
is the slope of the value. -/
structure Interpolation.Agrees (f : Interpolation ℝ) (allowExtrapolation : Bool) (size : ℕ) (x y : ℕ → ℝ) : Prop where
  admitted : ∀ t, allowExtrapolation = true ∨ f.xMin ≤ t ∧ t ≤ f.xMax →
    (∃ v, f.value t = .ok v) ∧ (∃ d, f.derivative t = .ok d) ∧ ∃ P, f.primitive t = .ok P
  node : ∀ i < size, f.value (x i) = .ok (y i)
  start : f.primitive (x 0) = .ok 0
  integral : ∀ a b A B, f.primitive a = .ok A → f.primitive b = .ok B →
    IntervalIntegrable f.valueAt volume a b ∧ ∫ t in a..b, f.valueAt t = B - A
  slope : ∀ t d, f.derivative t = .ok d → (∀ i < size, t ≠ x i) → HasDerivAt f.valueAt d t

namespace Nodes

open Set Filter Topology

variable {minPoints : ℕ} {nodes : Nodes ℝ minPoints} {allow : Bool} {value derivative primitive : ℝ → ℝ} {t : ℝ}

theorem valueAt_eq (h : nodes.Admits allow t) :
    (nodes.interpolation allow value derivative primitive).valueAt t = value t := by
  have hv : (nodes.interpolation allow value derivative primitive).value t = .ok (value t) :=
    nodes.map_checkRange.2 ⟨h, rfl⟩
  simp only [Interpolation.valueAt, hv]

theorem admits_nhds (h : nodes.Admits allow t) (hne : ∀ i < nodes.size, t ≠ nodes.x i) (hpos : 0 < nodes.size) :
    ∀ᶠ u in 𝓝 t, nodes.Admits allow u := by
  rcases h with h | ⟨hlo, hhi⟩
  · exact Eventually.of_forall fun u => .inl h
  · have hlo' := lt_of_le_of_ne hlo (hne 0 hpos).symm
    have hhi' := lt_of_le_of_ne hhi (hne (nodes.size - 1) (by omega))
    filter_upwards [Ioi_mem_nhds hlo', Iio_mem_nhds hhi'] with u h₁ h₂
    exact .inr ⟨le_of_lt h₁, le_of_lt h₂⟩

/-- The contract, of the functions that are evaluated after the range check. -/
theorem fulfils_iff (hpos : 0 < nodes.size) :
    (nodes.interpolation allow value derivative primitive).Agrees allow nodes.size nodes.x nodes.y ↔
      (∀ i < nodes.size, value (nodes.x i) = nodes.y i) ∧ primitive (nodes.x 0) = 0 ∧
      (∀ a b, nodes.Admits allow a → nodes.Admits allow b → IsPrimitiveOn value primitive a b) ∧
      ∀ t, nodes.Admits allow t → (∀ i < nodes.size, t ≠ nodes.x i) → HasDerivAt value (derivative t) t := by
  have hon : ∀ a b, nodes.Admits allow a → nodes.Admits allow b →
      EqOn (nodes.interpolation allow value derivative primitive).valueAt value (uIoo a b) := by
    intro a b ha hb t ht
    apply valueAt_eq
    rcases le_total a b with hab | hab
    · rw [uIoo_of_le hab] at ht
      exact nodes.admits_between ha hb ht.1.le ht.2.le
    · rw [uIoo_of_ge hab] at ht
      exact nodes.admits_between hb ha ht.1.le ht.2.le
  constructor
  · rintro ⟨-, hnode, hstart, hint, hslope⟩
    refine ⟨fun i hi => (nodes.map_checkRange.1 (hnode i hi)).2, (nodes.map_checkRange.1 hstart).2,
      fun a b ha hb => ?_, fun t ht hne => ?_⟩
    · have h : IsPrimitiveOn _ primitive a b :=
        hint a b _ _ (nodes.map_checkRange.2 ⟨ha, rfl⟩) (nodes.map_checkRange.2 ⟨hb, rfl⟩)
      exact h.congr (hon a b ha hb).symm rfl rfl
    · refine (hslope t _ (nodes.map_checkRange.2 ⟨ht, rfl⟩) hne).congr_of_eventuallyEq ?_
      exact (admits_nhds ht hne hpos).mono fun u hu => (valueAt_eq hu).symm
  · rintro ⟨hnode, hstart, hint, hslope⟩
    refine ⟨fun t ht => ⟨⟨_, nodes.map_checkRange.2 ⟨ht, rfl⟩⟩, ⟨_, nodes.map_checkRange.2 ⟨ht, rfl⟩⟩,
        ⟨_, nodes.map_checkRange.2 ⟨ht, rfl⟩⟩⟩,
      fun i hi => nodes.map_checkRange.2 ⟨nodes.admits_node allow hi, hnode i hi⟩,
      nodes.map_checkRange.2 ⟨nodes.admits_node allow hpos, hstart⟩, fun a b A B hA hB => ?_, fun t d hd hne => ?_⟩
    · obtain ⟨ha, rfl⟩ := nodes.map_checkRange.1 hA
      obtain ⟨hb, rfl⟩ := nodes.map_checkRange.1 hB
      exact (hint a b ha hb).congr (hon a b ha hb) rfl rfl
    · obtain ⟨ht, rfl⟩ := nodes.map_checkRange.1 hd
      exact (hslope t ht hne).congr_of_eventuallyEq ((admits_nhds ht hne hpos).mono fun u hu => valueAt_eq hu)

end Nodes

end Itofin
