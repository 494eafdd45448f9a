import Mathlib.Analysis.Calculus.Deriv.Mul
import Mathlib.Analysis.Calculus.Deriv.Pow
import Mathlib.MeasureTheory.Integral.IntervalIntegral.FundThmCalculus
/-!
# Piecewise — functions given by pieces between knots

A piecewise function evaluates at `t` the piece that an index function picks there (`Locates`): the piece is one whose
closed interval contains `t`, so at a knot it may be either of the two that meet.  What holds of every piece holds of the
whole when the pieces agree at the knots: a primitive (`isPrimitive_piecewise`), a derivative (`hasDerivAt_piecewise`)
and continuity (`continuous_piecewise`).  Each is the gluing of two functions at a point, by induction on the number of
knots.
-/
namespace Itofin.Piecewise

open MeasureTheory intervalIntegral Set Filter Topology

variable {f F f₁ f₂ F₁ F₂ : ℝ → ℝ} {a b c : ℝ}

/-- The differences of `F` are the integrals of `f`, from `a` to `b`. -/
def IsPrimitiveOn (f F : ℝ → ℝ) (a b : ℝ) : Prop := IntervalIntegrable f volume a b ∧ ∫ t in a..b, f t = F b - F a

def IsPrimitive (f F : ℝ → ℝ) : Prop := ∀ a b, IsPrimitiveOn f F a b

namespace IsPrimitiveOn

theorem symm (h : IsPrimitiveOn f F a b) : IsPrimitiveOn f F b a :=
  ⟨h.1.symm, by rw [integral_symm, h.2, neg_sub]⟩

theorem trans (h : IsPrimitiveOn f F a b) (h' : IsPrimitiveOn f F b c) : IsPrimitiveOn f F a c :=
  ⟨h.1.trans h'.1, by rw [← integral_add_adjacent_intervals h.1 h'.1, h.2, h'.2, add_comm, sub_add_sub_cancel]⟩

/-- Only the values between the ends and the primitive at them matter. -/
theorem congr (h : IsPrimitiveOn f₁ F₁ a b) (hf : EqOn f f₁ (uIoo a b)) (ha : F a = F₁ a) (hb : F b = F₁ b) :
    IsPrimitiveOn f F a b := by
  refine ⟨h.1.congr_uIoo hf.symm, ?_⟩
  rw [integral_congr_uIoo hf, h.2, ha, hb]

end IsPrimitiveOn

theorem isPrimitive_of_hasDerivAt (h : ∀ t, HasDerivAt F (f t) t) (hf : Continuous f) : IsPrimitive f F := fun a b =>
  ⟨hf.intervalIntegrable a b, integral_eq_sub_of_hasDerivAt (fun t _ => h t) (hf.intervalIntegrable a b)⟩

/-! ## Gluing at a point -/

theorem isPrimitive_glue (h₁ : IsPrimitive f₁ F₁) (h₂ : IsPrimitive f₂ F₂) (hf₁ : EqOn f f₁ (Iio c))
    (hf₂ : EqOn f f₂ (Ioi c)) (hF₁ : EqOn F F₁ (Iic c)) (hF₂ : EqOn F F₂ (Ici c)) : IsPrimitive f F := by
  have key : ∀ a, IsPrimitiveOn f F a c := by
    intro a
    rcases le_total a c with h | h
    · exact (h₁ a c).congr (hf₁.mono fun t ht => (uIoo_of_le h ▸ ht).2) (hF₁ h) (hF₁ self_mem_Iic)
    · exact (h₂ a c).congr (hf₂.mono fun t ht => (uIoo_of_ge h ▸ ht).1) (hF₂ h) (hF₂ self_mem_Ici)
  exact fun a b => (key a).trans (key b).symm

theorem hasDerivAt_glue (h₁ : ∀ t, HasDerivAt F₁ (f₁ t) t) (h₂ : ∀ t, HasDerivAt F₂ (f₂ t) t) (hf₁ : EqOn f f₁ (Iic c))
    (hf₂ : EqOn f f₂ (Ici c)) (hF₁ : EqOn F F₁ (Iic c)) (hF₂ : EqOn F F₂ (Ici c)) (t : ℝ) : HasDerivAt F (f t) t := by
  rcases lt_trichotomy t c with h | rfl | h
  · rw [hf₁ h.le]
    exact (h₁ t).congr_of_eventuallyEq (eventually_of_mem (Iio_mem_nhds h) fun u hu => hF₁ (Iio_subset_Iic_self hu))
  · have hl : HasDerivWithinAt F (f t) (Iic t) t := by
      rw [hf₁ self_mem_Iic]
      exact (h₁ t).hasDerivWithinAt.congr hF₁ (hF₁ self_mem_Iic)
    have hr : HasDerivWithinAt F (f t) (Ici t) t := by
      rw [hf₂ self_mem_Ici]
      exact (h₂ t).hasDerivWithinAt.congr hF₂ (hF₂ self_mem_Ici)
    have hu := hl.union hr
    rwa [Iic_union_Ici, hasDerivWithinAt_univ] at hu
  · rw [hf₂ h.le]
    exact (h₂ t).congr_of_eventuallyEq (eventually_of_mem (Ioi_mem_nhds h) fun u hu => hF₂ (Ioi_subset_Ici_self hu))

theorem continuous_glue (h₁ : Continuous F₁) (h₂ : Continuous F₂) (hF₁ : EqOn F F₁ (Iic c)) (hF₂ : EqOn F F₂ (Ici c)) :
    Continuous F := by
  have hl : ContinuousOn F (Iic c) := h₁.continuousOn.congr hF₁
  have hr : ContinuousOn F (Ici c) := h₂.continuousOn.congr hF₂
  have hu := hl.union_of_isClosed hr isClosed_Iic isClosed_Ici
  rwa [Iic_union_Ici, continuousOn_univ] at hu

/-! ## Locating the piece -/

/-- `loc` picks one of `m + 1` pieces: the `i`-th lies between the knots `k i` and `k (i + 1)`. -/
structure Locates (k : ℕ → ℝ) (m : ℕ) (loc : ℝ → ℕ) : Prop where
  le : ∀ t, loc t ≤ m
  lower : ∀ t, 0 < loc t → k (loc t) ≤ t
  upper : ∀ t, loc t < m → t ≤ k (loc t + 1)
  increasing : ∀ i j, 0 < i → i < j → j ≤ m → k i < k j

namespace Locates

variable {k : ℕ → ℝ} {m : ℕ} {loc : ℝ → ℕ} {t : ℝ}

theorem lt_last (h : Locates k (m + 1) loc) (ht : t < k (m + 1)) : loc t ≤ m := by
  by_contra hlt
  have heq : loc t = m + 1 := le_antisymm (h.le t) (not_le.1 hlt)
  have := h.lower t (by omega)
  rw [heq] at this
  exact absurd this (not_le.2 ht)

theorem last_lt (h : Locates k (m + 1) loc) (ht : k (m + 1) < t) : loc t = m + 1 := by
  by_contra hne
  have hlt : loc t < m + 1 := lt_of_le_of_ne (h.le t) hne
  have hle := h.upper t hlt
  rcases Nat.lt_or_ge (loc t + 1) (m + 1) with hk | hk
  · exact absurd ((hle.trans_lt (h.increasing _ _ (Nat.succ_pos _) hk le_rfl)).trans ht) (lt_irrefl t)
  · rw [le_antisymm hlt hk] at hle
    exact absurd ht (not_lt.2 hle)

/-- At the last knot one of the two pieces that meet there is picked. -/
theorem at_last (h : Locates k (m + 1) loc) : m ≤ loc (k (m + 1)) := by
  by_contra hlt
  have hle := h.upper (k (m + 1)) (by omega)
  exact absurd (h.increasing (loc (k (m + 1)) + 1) (m + 1) (Nat.succ_pos _) (by omega) le_rfl) (not_lt.2 hle)

theorem init (h : Locates k (m + 1) loc) : Locates k m (fun t => min (loc t) m) where
  le t := min_le_right _ _
  lower t ht := by
    rcases le_total (loc t) m with hle | hle
    · rw [min_eq_left hle] at ht ⊢
      exact h.lower t ht
    · rw [min_eq_right hle] at ht ⊢
      rcases lt_or_eq_of_le hle with hlt | heq
      · have := h.lower t (by omega)
        rw [le_antisymm (h.le t) hlt] at this
        exact (h.increasing m (m + 1) ht (Nat.lt_succ_self m) le_rfl).le.trans this
      · rw [heq]
        exact h.lower t (heq ▸ ht)
  upper t ht := by
    rw [min_lt_iff] at ht
    have hlt : loc t < m := ht.resolve_right (lt_irrefl m)
    rw [min_eq_left hlt.le]
    exact h.upper t (by omega)
  increasing i j hi hij hj := h.increasing i j hi hij (by omega)

theorem unique (h : Locates k m loc) {i : ℕ} (hi : i ≤ m) (hlo : 0 < i → k i < t) (hhi : i < m → t < k (i + 1)) :
    loc t = i := by
  rcases lt_trichotomy (loc t) i with hlt | heq | hgt
  · have hle := h.upper t (by omega)
    have hk : k (loc t + 1) ≤ k i := by
      rcases Nat.lt_or_ge (loc t + 1) i with hi' | hi'
      · exact (h.increasing _ _ (Nat.succ_pos _) hi' hi).le
      · rw [le_antisymm hlt hi']
    exact absurd (hle.trans hk) (not_le.2 (hlo (by omega)))
  · exact heq
  · have hle := h.lower t (by omega)
    have hk : k (i + 1) ≤ k (loc t) := by
      rcases Nat.lt_or_ge (i + 1) (loc t) with hi' | hi'
      · exact (h.increasing _ _ (Nat.succ_pos _) hi' (h.le t)).le
      · rw [le_antisymm hgt hi']
    exact absurd (hk.trans hle) (not_le.2 (hhi (lt_of_lt_of_le hgt (h.le t))))

theorem eventually_eq (h : Locates k m loc) (ht : ∀ i, 0 < i → i ≤ m → t ≠ k i) : ∀ᶠ u in 𝓝 t, loc u = loc t := by
  have hlo : ∀ᶠ u in 𝓝 t, 0 < loc t → k (loc t) < u := by
    rcases Nat.eq_zero_or_pos (loc t) with h₀ | h₀
    · exact Eventually.of_forall fun u hu => absurd hu (by omega)
    · filter_upwards [Ioi_mem_nhds (lt_of_le_of_ne (h.lower t h₀) (ht _ h₀ (h.le t)).symm)] with u hu _ using hu
  have hhi : ∀ᶠ u in 𝓝 t, loc t < m → u < k (loc t + 1) := by
    rcases Nat.lt_or_ge (loc t) m with hm | hm
    · filter_upwards [Iio_mem_nhds (lt_of_le_of_ne (h.upper t hm) (ht _ (Nat.succ_pos _) hm))] with u hu _ using hu
    · exact Eventually.of_forall fun u hu => absurd hu (by omega)
  filter_upwards [hlo, hhi] with u h₁ h₂ using h.unique (h.le t) h₁ h₂

/-- The pieces agree at the knots. -/
def Meet (k : ℕ → ℝ) (m : ℕ) (p : ℕ → ℝ → ℝ) : Prop := ∀ i < m, p i (k (i + 1)) = p (i + 1) (k (i + 1))

variable {p q : ℕ → ℝ → ℝ}

theorem eqOn_init (h : Locates k (m + 1) loc) :
    EqOn (fun t => p (loc t) t) (fun t => p (min (loc t) m) t) (Iio (k (m + 1))) := fun t ht => by
  simp only [min_eq_left (h.lt_last ht)]

theorem eqOn_last (h : Locates k (m + 1) loc) : EqOn (fun t => p (loc t) t) (p (m + 1)) (Ioi (k (m + 1))) := fun t ht => by
  simp only [h.last_lt ht]

theorem eqOn_init' (h : Locates k (m + 1) loc) (hp : Meet k (m + 1) p) :
    EqOn (fun t => p (loc t) t) (fun t => p (min (loc t) m) t) (Iic (k (m + 1))) := fun t ht => by
  rcases lt_or_eq_of_le (show t ≤ k (m + 1) from ht) with hlt | rfl
  · exact h.eqOn_init hlt
  · rcases Nat.lt_or_ge m (loc (k (m + 1))) with hm | hm
    · have heq : loc (k (m + 1)) = m + 1 := le_antisymm (h.le _) hm
      simp only [heq, min_eq_right (Nat.le_succ m)]
      exact (hp m (Nat.lt_succ_self m)).symm
    · simp only [min_eq_left hm]

theorem eqOn_last' (h : Locates k (m + 1) loc) (hp : Meet k (m + 1) p) :
    EqOn (fun t => p (loc t) t) (p (m + 1)) (Ici (k (m + 1))) := fun t ht => by
  rcases lt_or_eq_of_le (show k (m + 1) ≤ t from ht) with hlt | rfl
  · exact h.eqOn_last hlt
  · rcases Nat.lt_or_ge m (loc (k (m + 1))) with hm | hm
    · simp only [le_antisymm (h.le _) hm]
    · simp only [le_antisymm hm h.at_last]
      exact hp m (Nat.lt_succ_self m)

/-- Pieces that agree at the knots have one value there, whichever is picked. -/
theorem eq_of_meet (h : Locates k m loc) {loc' : ℝ → ℕ} (h' : Locates k m loc') (hp : Meet k m p) (t : ℝ) :
    p (loc t) t = p (loc' t) t := by
  have key : ∀ {l l' : ℝ → ℕ}, Locates k m l → Locates k m l' → l t < l' t → p (l t) t = p (l' t) t := by
    intro l l' hl hl' hlt
    have hup := hl.upper t (hlt.trans_le (hl'.le t))
    have hlo := hl'.lower t (by omega)
    rcases Nat.lt_or_ge (l t + 1) (l' t) with hfar | hnear
    · exact absurd (hup.trans_lt (hl.increasing _ _ (Nat.succ_pos _) hfar (hl'.le t))) (not_lt.2 hlo)
    · have heq : l' t = l t + 1 := le_antisymm hnear hlt
      have ht : t = k (l t + 1) := le_antisymm hup (heq ▸ hlo)
      have := hp (l t) (hlt.trans_le (hl'.le t))
      rw [← ht] at this
      rw [heq]
      exact this
  rcases lt_trichotomy (loc t) (loc' t) with hlt | heq | hgt
  · exact key h h' hlt
  · rw [heq]
  · exact (key h' h hgt).symm

theorem meet_init (hp : Meet k (m + 1) p) : Meet k m p := fun i hi => hp i (by omega)

theorem zero (h : Locates k 0 loc) (p : ℕ → ℝ → ℝ) : (fun t => p (loc t) t) = p 0 :=
  funext fun t => by rw [Nat.le_zero.1 (h.le t)]

end Locates

section

open Locates

variable {k : ℕ → ℝ} {p q : ℕ → ℝ → ℝ}

/-- **Primitives of the pieces that agree at the knots are one primitive.** -/
theorem isPrimitive_piecewise : ∀ {m : ℕ} {loc : ℝ → ℕ}, Locates k m loc → (∀ i ≤ m, IsPrimitive (p i) (q i)) →
    Meet k m q → IsPrimitive (fun t => p (loc t) t) (fun t => q (loc t) t)
  | 0, loc, h, hpq, _      => by
    rw [h.zero p, h.zero q]
    exact hpq 0 le_rfl
  | m + 1, loc, h, hpq, hq =>
    isPrimitive_glue (isPrimitive_piecewise h.init (fun i hi => hpq i (by omega)) (meet_init hq)) (hpq (m + 1) le_rfl)
      h.eqOn_init h.eqOn_last (h.eqOn_init' hq) (h.eqOn_last' hq)

/-- Away from the knots a piecewise function has the derivative of its piece. -/
theorem hasDerivAt_of_ne {m : ℕ} {loc : ℝ → ℕ} {t : ℝ} (h : Locates k m loc) (ht : ∀ i, 0 < i → i ≤ m → t ≠ k i)
    (hq : HasDerivAt (q (loc t)) a t) : HasDerivAt (fun t => q (loc t) t) a t :=
  hq.congr_of_eventuallyEq ((h.eventually_eq ht).mono fun u hu => by simp only [hu])

theorem hasDerivAt_piecewise : ∀ {m : ℕ} {loc : ℝ → ℕ}, Locates k m loc →
    (∀ i ≤ m, ∀ t, HasDerivAt (q i) (p i t) t) → Meet k m q → Meet k m p →
    ∀ t, HasDerivAt (fun t => q (loc t) t) (p (loc t) t) t
  | 0, loc, h, hpq, _, _       => by
    intro t
    have h₀ : loc t = 0 := Nat.le_zero.1 (h.le t)
    rw [h.zero q, h₀]
    exact hpq 0 le_rfl t
  | m + 1, loc, h, hpq, hq, hp =>
    hasDerivAt_glue (f := fun t => p (loc t) t)
      (hasDerivAt_piecewise h.init (fun i hi => hpq i (by omega)) (meet_init hq) (meet_init hp)) (hpq (m + 1) le_rfl)
      (h.eqOn_init' hp) (h.eqOn_last' hp) (h.eqOn_init' hq) (h.eqOn_last' hq)

theorem continuous_piecewise : ∀ {m : ℕ} {loc : ℝ → ℕ}, Locates k m loc → (∀ i ≤ m, Continuous (q i)) →
    Meet k m q → Continuous (fun t => q (loc t) t)
  | 0, loc, h, hq, _      => by
    rw [h.zero q]
    exact hq 0 le_rfl
  | m + 1, loc, h, hq, hm =>
    continuous_glue (continuous_piecewise h.init (fun i hi => hq i (by omega)) (meet_init hm)) (hq (m + 1) le_rfl)
      (h.eqOn_init' hm) (h.eqOn_last' hm)

end

/-! ## Primitives of given functions -/

variable {r : ℝ}

theorem isPrimitive_quadratic (a b c d : ℝ) :
    IsPrimitive (fun t => a * t ^ 2 + b * t + c) (fun t => a / 3 * t ^ 3 + b / 2 * t ^ 2 + c * t + d) := by
  refine isPrimitive_of_hasDerivAt (fun t => ?_) (by fun_prop)
  have h₃ := (hasDerivAt_pow 3 t).const_mul (a / 3)
  have h₂ := (hasDerivAt_pow 2 t).const_mul (b / 2)
  have h₁ := (hasDerivAt_id t).const_mul c
  refine (((h₃.add h₂).add h₁).add_const d).congr_deriv ?_
  push_cast
  ring

namespace IsPrimitive

theorem of_eq (h : IsPrimitive f₁ F₁) (hf : ∀ t, f t = f₁ t) (hF : ∀ t, F t = F₁ t) : IsPrimitive f F := by
  rw [show f = f₁ from funext hf, show F = F₁ from funext hF]
  exact h

theorem combine (h₁ : IsPrimitive f₁ F₁) (h₂ : IsPrimitive f₂ F₂) (q r : ℝ) :
    IsPrimitive (fun t => q * f₁ t + r * f₂ t) (fun t => q * F₁ t + r * F₂ t) := fun a b => by
  refine ⟨((h₁ a b).1.const_mul q).add ((h₂ a b).1.const_mul r), ?_⟩
  rw [integral_add ((h₁ a b).1.const_mul q) ((h₂ a b).1.const_mul r), intervalIntegral.integral_const_mul,
    intervalIntegral.integral_const_mul, (h₁ a b).2, (h₂ a b).2]
  ring

/-- Stretched by `r`, from `a` on. -/
theorem scale (h : IsPrimitive f F) (hr : r ≠ 0) (a d : ℝ) :
    IsPrimitive (fun t => f ((t - a) / r)) (fun t => d + r * F ((t - a) / r)) := fun p q => by
  have hint : IntervalIntegrable (fun t => f ((t - a) / r)) volume p q := by
    have hmul := (h ((p - a) / r) ((q - a) / r)).1.comp_mul_right (c := r⁻¹)
    rw [div_inv_eq_mul, div_inv_eq_mul, div_mul_cancel₀ _ hr, div_mul_cancel₀ _ hr] at hmul
    simpa [div_eq_mul_inv] using hmul.comp_sub_right a
  refine ⟨hint, ?_⟩
  have hcomp := integral_comp_div_sub (a := p) (b := q) f hr (a / r)
  simp only [← sub_div, (h _ _).2, smul_eq_mul] at hcomp
  rw [hcomp]
  ring

theorem ite (h₁ : IsPrimitive f₁ F₁) (h₂ : IsPrimitive f₂ F₂) (hc : F₁ c = F₂ c) :
    IsPrimitive (fun t => if t ≤ c then f₁ t else f₂ t) (fun t => if t ≤ c then F₁ t else F₂ t) := by
  refine isPrimitive_glue h₁ h₂ (fun t ht => if_pos (le_of_lt ht)) (fun t ht => if_neg (not_le.2 ht))
    (fun t ht => if_pos ht) fun t ht => ?_
  rcases eq_or_lt_of_le (show c ≤ t from ht) with rfl | hlt
  · exact (if_pos le_rfl).trans hc
  · exact if_neg (not_le.2 hlt)

end IsPrimitive

/-! ## Stretching the two sides of a point -/

/-- The two sides of a point `e` of `[0, 1]`, each shrunk by `r` towards its end, and zero between. -/
noncomputable def stretch (f : ℝ → ℝ) (e r t : ℝ) : ℝ :=
  if t ≤ r * e then f (t / r) else if t < 1 - r * (1 - e) then 0 else f (1 - (1 - t) / r)

noncomputable def stretchArea (F : ℝ → ℝ) (e r t : ℝ) : ℝ :=
  if t ≤ r * e then r * F (t / r) else if t < 1 - r * (1 - e) then r * F e else r * F (1 - (1 - t) / r)

theorem isPrimitive_stretch {e : ℝ} (h : IsPrimitive f F) (h₀ : 0 < r) (h₁ : r ≤ 1) :
    IsPrimitive (stretch f e r) (stretchArea F e r) := by
  have hle : r * e ≤ 1 - r * (1 - e) := by linarith
  have hleft : IsPrimitive (fun t => f (t / r)) fun t => r * F (t / r) :=
    (h.scale h₀.ne' 0 0).of_eq (fun t => by rw [sub_zero]) fun t => by rw [sub_zero, zero_add]
  have hright : IsPrimitive (fun t => f (1 - (1 - t) / r)) fun t => r * F (1 - (1 - t) / r) := by
    have hshift : ∀ t, (t - (1 - r)) / r = 1 - (1 - t) / r := fun t => by
      field_simp
      ring
    refine (h.scale h₀.ne' (1 - r) 0).of_eq (fun t => ?_) fun t => ?_ <;> rw [hshift]
    rw [zero_add]
  have hflat : IsPrimitive (fun _ => (0 : ℝ)) fun _ => r * F e :=
    (isPrimitive_quadratic 0 0 0 (r * F e)).of_eq (fun t => by ring) fun t => by ring
  have hstart : 1 - (1 - (1 - r * (1 - e))) / r = e := by
    field_simp
    ring
  have houter : IsPrimitive (fun t => if t < 1 - r * (1 - e) then 0 else f (1 - (1 - t) / r))
      fun t => if t < 1 - r * (1 - e) then r * F e else r * F (1 - (1 - t) / r) := by
    refine isPrimitive_glue hflat hright (c := 1 - r * (1 - e)) (fun t ht => if_pos ht)
      (fun t ht => if_neg (not_lt.2 (le_of_lt ht))) (fun t ht => ?_) fun t ht => if_neg (not_lt.2 ht)
    rcases lt_or_eq_of_le (show t ≤ 1 - r * (1 - e) from ht) with hlt | rfl
    · exact if_pos hlt
    · simp only [lt_irrefl, if_false, hstart]
  apply hleft.ite houter
  have hend : r * e / r = e := mul_div_cancel_left₀ e h₀.ne'
  rcases lt_or_eq_of_le hle with hlt | heq
  · rw [if_pos hlt, hend]
  · rw [if_neg (not_lt.2 heq.ge), hend, heq, hstart]

end Itofin.Piecewise
