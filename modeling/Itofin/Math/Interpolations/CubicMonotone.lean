import Itofin.Math.Interpolations.Cubic
import Mathlib.Data.List.GetD
/-!
# CubicMonotone — slopes that keep a cubic interpolation monotone

A cubic is monotone on its segment when both slopes are between zero and three times the secant slope (`Within`,
`segment_sub`).  For monotone data Hyman's filter keeps them there whatever the scheme: its relaxed bounds never exceed
three times the smaller secant slope (`hymanBound_le`).  Kruger's slopes are there without a filter, and so are the
harmonic ones but at an end where the secant slope is zero and the next one is not.
-/
namespace Itofin

variable {K : Type} [Field K] [LinearOrder K]

/-- The value does not decrease over the range. -/
def Interpolation.NonDecreasing (f : Interpolation K) : Prop :=
  ∀ t u v w, f.xMin ≤ t → t ≤ u → u ≤ f.xMax → f.value t = .ok v → f.value u = .ok w → v ≤ w

def Interpolation.NonIncreasing (f : Interpolation K) : Prop :=
  ∀ t u v w, f.xMin ≤ t → t ≤ u → u ≤ f.xMax → f.value t = .ok v → f.value u = .ok w → w ≤ v

theorem getD_rel {K : Type} [Zero K] {r : K → K → Prop} {y : List K} {i : ℕ} (h : y.Pairwise r)
    (hi : i + 1 < y.length) : r (y.getD i 0) (y.getD (i + 1) 0) := by
  rw [List.getD_eq_getElem _ _ (by omega), List.getD_eq_getElem _ _ hi]
  exact List.pairwise_iff_getElem.1 h i (i + 1) (by omega) hi (Nat.lt_succ_self i)

namespace CubicSlopes

variable {n i j : ℕ} {dx s : ℕ → K} {c d e m p q w : K}

/-! ## Slopes within a multiple of a secant slope -/

/-- The slope `d` is between zero and `c` times the secant slope `e`. -/
def Within (c d e : K) : Prop := ∃ r, 0 ≤ r ∧ r ≤ c ∧ d = r * e

theorem Within.zero (hc : 0 ≤ c) (e : K) : Within c 0 e := ⟨0, le_rfl, hc, (zero_mul e).symm⟩

theorem Within.mono (h : Within c d e) (hc : c ≤ m) : Within m d e := by
  obtain ⟨r, h₀, h₁, rfl⟩ := h
  exact ⟨r, h₀, h₁.trans hc, rfl⟩

/-- Slopes at the nodes, each between zero and three times the secant slopes beside it. -/
def Bounded (n : ℕ) (s d : ℕ → K) : Prop :=
  ∀ i < n, (i < n - 1 → Within ((3 : ℕ) : K) (d i) (s i)) ∧ (0 < i → Within ((3 : ℕ) : K) (d i) (s (i - 1)))

theorem bounded_iff {n : ℕ} {s d : ℕ → K} : Bounded n s d ↔
    ∀ i < n, (i < n - 1 → Within 3 (d i) (s i)) ∧ (0 < i → Within 3 (d i) (s (i - 1))) := by
  simp only [Bounded, Nat.cast_ofNat]

/-- Of one sign, all of them not negative or all of them not positive. -/
def OneSigned (n : ℕ) (s : ℕ → K) : Prop := (∀ i < n - 1, 0 ≤ s i) ∨ ∀ i < n - 1, s i ≤ 0

theorem clip_zero (d m : K) : clip d 0 m = 0 := by simp [clip]

variable [IsStrictOrderedRing K]

theorem within_of_abs (hsign : 0 ≤ d * e) (habs : |d| ≤ c * |e|) (hc : 0 ≤ c) : Within c d e := by
  by_cases he : e = 0
  · rw [he, abs_zero, mul_zero] at habs
    rw [abs_nonpos_iff.1 habs]
    exact Within.zero hc e
  · refine ⟨d / e, ?_, ?_, (div_mul_cancel₀ d he).symm⟩
    · rw [← mul_div_mul_right d e he]
      exact div_nonneg hsign (mul_self_nonneg e)
    · refine (le_abs_self _).trans ?_
      rw [abs_div, div_le_iff₀ (abs_pos.2 he)]
      exact habs

theorem OneSigned.product (h : OneSigned n s) (hi : i < n - 1) (hj : j < n - 1) : 0 ≤ s i * s j := by
  rcases h with h | h
  · exact mul_nonneg (h i hi) (h j hj)
  · exact mul_nonneg_of_nonpos_of_nonpos (h i hi) (h j hj)

/-! ## The filter -/

theorem clip_spec (hm : 0 ≤ m) : 0 ≤ clip d e m * e ∧ |clip d e m| ≤ m := by
  unfold clip signum
  by_cases h : 0 < d * e
  · have hmin : 0 ≤ min |d| m := le_min (abs_nonneg d) hm
    rw [if_pos h]
    by_cases hd : d < 0
    · have he : e ≤ 0 := by
        by_contra he
        exact absurd h (not_lt.2 (mul_nonpos_of_nonpos_of_nonneg hd.le (not_le.1 he).le))
      rw [if_pos hd, neg_one_mul, abs_neg, abs_of_nonneg hmin]
      exact ⟨mul_nonneg_of_nonpos_of_nonpos (neg_nonpos.2 hmin) he, min_le_right _ _⟩
    · have he : 0 ≤ e := by
        by_contra he
        exact absurd h (not_lt.2 (mul_nonpos_of_nonneg_of_nonpos (not_lt.1 hd) (not_le.1 he).le))
      rw [if_neg hd, one_mul, abs_of_nonneg hmin]
      exact ⟨mul_nonneg hmin he, min_le_right _ _⟩
  · rw [if_neg h, zero_mul, abs_zero]
    exact ⟨le_rfl, hm⟩

theorem clip_nonneg (hm : 0 ≤ m) (he : 0 ≤ e) : 0 ≤ clip d e m := by
  rcases eq_or_lt_of_le he with rfl | hpos
  · rw [clip_zero]
  · exact nonneg_of_mul_nonneg_left (clip_spec hm).1 hpos

theorem clip_nonpos (hm : 0 ≤ m) (he : e ≤ 0) : clip d e m ≤ 0 := by
  rcases eq_or_lt_of_le he with rfl | hneg
  · rw [clip_zero]
  · by_contra h
    exact absurd (clip_spec hm).1 (not_le.2 (mul_neg_of_pos_of_neg (not_le.1 h) hneg))

/-- The slope of the parabola through three nodes, at an outer one, is at most twice the secant slope beside it when
this is the larger of the two: `w` is the share of its width. -/
theorem parabola_le (hsign : 0 ≤ p * q) (hsize : |p| ≤ |q|) (h₀ : 0 ≤ w) (h₁ : w ≤ 1) : |q + (q - p) * w| ≤ 2 * |q| := by
  have hdiff : |q - p| ≤ |q| := by
    rcases le_total 0 q with hq | hq
    · rw [abs_of_nonneg hq] at hsize ⊢
      rcases eq_or_lt_of_le hq with rfl | hpos
      · rw [abs_nonpos_iff.1 hsize, sub_self, abs_zero]
      · have hp : 0 ≤ p := nonneg_of_mul_nonneg_left hsign hpos
        rw [abs_of_nonneg hp] at hsize
        rw [abs_of_nonneg (sub_nonneg.2 hsize)]
        linarith
    · rw [abs_of_nonpos hq] at hsize ⊢
      rcases eq_or_lt_of_le hq with rfl | hneg
      · rw [neg_zero] at hsize
        rw [abs_nonpos_iff.1 hsize, sub_self, abs_zero, neg_zero]
      · have hp : p ≤ 0 := by
          by_contra hp
          exact absurd hsign (not_le.2 (mul_neg_of_pos_of_neg (not_le.1 hp) hneg))
        rw [abs_of_nonpos hp] at hsize
        rw [abs_of_nonpos (by linarith)]
        linarith
  calc |q + (q - p) * w| ≤ |q| + |q - p| * w := by
        rw [← abs_of_nonneg h₀, ← abs_mul, abs_of_nonneg h₀]
        exact abs_add_le _ _
    _ ≤ |q| + |q| * 1 := by gcongr
    _ = 2 * |q| := by ring

/-- Where three secant slopes of one sign turn away from the axis, they grow. -/
theorem grows (hsign : (0 ≤ p ∧ 0 ≤ q ∧ 0 ≤ e ∧ 0 ≤ m) ∨ (p ≤ 0 ∧ q ≤ 0 ∧ e ≤ 0 ∧ m ≤ 0))
    (hturn : 0 < (q - p) * (e - q)) (hm : 0 < m * (q - p) ∨ 0 < m * (e - q)) : |p| ≤ |q| ∧ |q| ≤ |e| := by
  have hboth : (0 < q - p ∧ 0 < e - q) ∨ (q - p < 0 ∧ e - q < 0) := mul_pos_iff.1 hturn
  rcases hsign with ⟨hp, hq, he, hm₀⟩ | ⟨hp, hq, he, hm₀⟩
  · have hup : 0 < q - p ∧ 0 < e - q := by
      refine hboth.resolve_right fun h => ?_
      rcases hm with hm | hm
      · exact absurd hm (not_lt.2 (mul_nonpos_of_nonneg_of_nonpos hm₀ h.1.le))
      · exact absurd hm (not_lt.2 (mul_nonpos_of_nonneg_of_nonpos hm₀ h.2.le))
    rw [abs_of_nonneg hp, abs_of_nonneg hq, abs_of_nonneg he]
    exact ⟨(sub_pos.1 hup.1).le, (sub_pos.1 hup.2).le⟩
  · have hdown : q - p < 0 ∧ e - q < 0 := by
      refine hboth.resolve_left fun h => ?_
      rcases hm with hm | hm
      · exact absurd hm (not_lt.2 (mul_nonpos_of_nonpos_of_nonneg hm₀ h.1.le))
      · exact absurd hm (not_lt.2 (mul_nonpos_of_nonpos_of_nonneg hm₀ h.2.le))
    rw [abs_of_nonpos hp, abs_of_nonpos hq, abs_of_nonpos he]
    exact ⟨neg_le_neg (sub_neg.1 hdown.1).le, neg_le_neg (sub_neg.1 hdown.2).le⟩

/-- The relaxed bound of one side: the slope of the parabola there is at most twice the smaller secant slope. -/
theorem relaxed_le (hsign : (0 ≤ p ∧ 0 ≤ q ∧ 0 ≤ e ∧ 0 ≤ m) ∨ (p ≤ 0 ∧ q ≤ 0 ∧ e ≤ 0 ∧ m ≤ 0))
    (hturn : 0 < (q - p) * (e - q)) (hm : 0 < m * (q - p) ∨ 0 < m * (e - q)) {a b : K} (ha : 0 < a) (hb : 0 < b) :
    (3 : ℕ) / (2 : ℕ) * min |m| |(q * (2 • b + a) - p * b) / (a + b)| ≤ 3 * min |q| |e| := by
  obtain ⟨hpq, hqe⟩ := grows hsign hturn hm
  have hsum : 0 < a + b := add_pos ha hb
  have hform : (q * (2 • b + a) - p * b) / (a + b) = q + (q - p) * (b / (a + b)) := by
    rw [nsmul_eq_mul, Nat.cast_ofNat]
    field_simp
    ring
  have hprod : 0 ≤ p * q := by
    rcases hsign with ⟨hp, hq, -, -⟩ | ⟨hp, hq, -, -⟩
    · exact mul_nonneg hp hq
    · exact mul_nonneg_of_nonpos_of_nonpos hp hq
  have hpar := parabola_le hprod hpq (div_nonneg hb.le hsum.le)
    ((div_le_one hsum).2 (le_add_of_nonneg_left ha.le))
  rw [min_eq_left hqe, hform]
  calc ((3 : ℕ) : K) / (2 : ℕ) * min |m| |q + (q - p) * (b / (a + b))|
      ≤ (3 : ℕ) / (2 : ℕ) * (2 * |q|) := by
        refine mul_le_mul_of_nonneg_left ((min_le_right _ _).trans hpar) ?_
        positivity
    _ = 3 * |q| := by
        push_cast
        ring

omit [IsStrictOrderedRing K] in
theorem relax_spec {A B : Prop} [Decidable A] [Decidable B] (h : 0 ≤ m ∧ m ≤ c) (hd : A → B → d ≤ c) :
    0 ≤ (if A then if B then max m d else m else m) ∧ (if A then if B then max m d else m else m) ≤ c := by
  split_ifs with hA hB
  · exact ⟨le_max_of_le_left h.1, max_le h.2 (hd hA hB)⟩
  · exact h
  · exact h

/-- The slope of the parabola through a node and its neighbours has the sign of the secant slopes. -/
theorem average_signed (hdx : ∀ i < n - 1, 0 < dx i) (hs : OneSigned n s) (hi : 0 < i) (hi' : i < n - 1) :
    (∀ i < n - 1, 0 ≤ s i) ∧ 0 ≤ (s (i - 1) * dx i + s i * dx (i - 1)) / (dx (i - 1) + dx i) ∨
      (∀ i < n - 1, s i ≤ 0) ∧ (s (i - 1) * dx i + s i * dx (i - 1)) / (dx (i - 1) + dx i) ≤ 0 := by
  have h₀ := hdx (i - 1) (by omega)
  have h₁ := hdx i hi'
  refine hs.imp (fun h => ⟨h, ?_⟩) (fun h => ⟨h, ?_⟩)
  · exact div_nonneg (add_nonneg (mul_nonneg (h _ (by omega)) h₁.le) (mul_nonneg (h _ hi') h₀.le)) (add_pos h₀ h₁).le
  · exact div_nonpos_of_nonpos_of_nonneg (add_nonpos (mul_nonpos_of_nonpos_of_nonneg (h _ (by omega)) h₁.le)
      (mul_nonpos_of_nonpos_of_nonneg (h _ hi') h₀.le)) (add_pos h₀ h₁).le

/-- **The bound of the filter**, for secant slopes of one sign: the relaxed bounds do not exceed three times the smaller
secant slope. -/
theorem hymanBound_le (hdx : ∀ i < n - 1, 0 < dx i) (hs : OneSigned n s) (hi : 0 < i) (hi' : i < n - 1) :
    0 ≤ hymanBound n dx s i ∧ hymanBound n dx s i ≤ 3 * min |s (i - 1)| |s i| := by
  have hsigned := average_signed hdx hs hi hi'
  simp only [hymanBound]
  generalize (s (i - 1) * dx i + s i * dx (i - 1)) / (dx (i - 1) + dx i) = pm at hsigned ⊢
  have hbase : 0 ≤ 3 • min (min |s (i - 1)| |s i|) |pm| ∧
      3 • min (min |s (i - 1)| |s i|) |pm| ≤ 3 * min |s (i - 1)| |s i| := by
    rw [nsmul_eq_mul, Nat.cast_ofNat]
    constructor
    · positivity
    · exact mul_le_mul_of_nonneg_left (min_le_left _ _) (by norm_num)
  refine relax_spec (relax_spec hbase fun hA hB => ?_) fun hA hB => ?_
  · refine relaxed_le ?_ hA.2 (.inl hB.2) (hdx _ (by omega)) (hdx _ (by omega))
    exact hsigned.imp (fun h => ⟨h.1 _ (by omega), h.1 _ (by omega), h.1 _ hi', h.2⟩)
      (fun h => ⟨h.1 _ (by omega), h.1 _ (by omega), h.1 _ hi', h.2⟩)
  · have hX := relaxed_le (p := s (i + 1)) (q := s i) (e := s (i - 1)) (m := pm) (a := dx (i + 1)) (b := dx i) ?_ ?_ ?_
      (hdx _ (by omega)) (hdx _ hi')
    · rw [min_comm |s (i - 1)|, add_comm (dx i)]
      exact hX
    · exact hsigned.imp (fun h => ⟨h.1 _ (by omega), h.1 _ hi', h.1 _ (by omega), h.2⟩)
        (fun h => ⟨h.1 _ (by omega), h.1 _ hi', h.1 _ (by omega), h.2⟩)
    · linarith [hA.2, show (s i - s (i - 1)) * (s (i + 1) - s i) = (s i - s (i + 1)) * (s (i - 1) - s i) by ring]
    · refine .inr ?_
      linarith [hB.2, show -pm * (s i - s (i - 1)) = pm * (s (i - 1) - s i) by ring]

/-- **The filter keeps every slope between zero and three times the secant slopes beside it.** -/
theorem filter_bounded (hdx : ∀ i < n - 1, 0 < dx i) (hs : OneSigned n s) (d : ℕ → K) :
    Bounded n s (applyHymanFilter n dx s d) := by
  refine bounded_iff.2 fun i hi => ?_
  have hthree : ∀ e : K, |3 • e| = 3 * |e| := fun e => by
    rw [nsmul_eq_mul, Nat.cast_ofNat, abs_mul, abs_of_pos (by norm_num)]
  have hend : ∀ d e : K, Within 3 (clip d e |3 • e|) e := fun d e => by
    obtain ⟨h₁, h₂⟩ := clip_spec (d := d) (e := e) (abs_nonneg (3 • e))
    exact within_of_abs h₁ (h₂.trans_eq (hthree e)) (by norm_num)
  unfold applyHymanFilter
  by_cases h₀ : i = 0
  · subst h₀
    exact ⟨fun _ => by simpa using hend (d 0) (s 0), fun h => absurd h (lt_irrefl 0)⟩
  · by_cases hn : i = n - 1
    · rw [if_neg h₀, if_pos hn]
      refine ⟨fun h => absurd hn h.ne, fun _ => ?_⟩
      rw [hn, show n - 1 - 1 = n - 2 by omega]
      exact hend _ _
    · rw [if_neg h₀, if_neg hn]
      obtain ⟨hpos, hle⟩ := hymanBound_le hdx hs (Nat.pos_of_ne_zero h₀) (by omega)
      have hsigned := average_signed hdx hs (Nat.pos_of_ne_zero h₀) (by omega)
      generalize (s (i - 1) * dx i + s i * dx (i - 1)) / (dx (i - 1) + dx i) = pm at hsigned ⊢
      have habs := (clip_spec (d := d i) (e := pm) hpos).2.trans hle
      have hside : ∀ j < n - 1, 0 ≤ clip (d i) pm (hymanBound n dx s i) * s j := fun j hj => by
        rcases hsigned with ⟨h, hpm⟩ | ⟨h, hpm⟩
        · exact mul_nonneg (clip_nonneg hpos hpm) (h j hj)
        · exact mul_nonneg_of_nonpos_of_nonpos (clip_nonpos hpos hpm) (h j hj)
      refine ⟨fun hi' => within_of_abs (hside i hi') (habs.trans ?_) (by norm_num),
        fun _ => within_of_abs (hside (i - 1) (by omega)) (habs.trans ?_) (by norm_num)⟩
      · exact mul_le_mul_of_nonneg_left (min_le_right _ _) (by norm_num)
      · exact mul_le_mul_of_nonneg_left (min_le_left _ _) (by norm_num)

/-! ## Kruger's and the harmonic slopes -/

/-- A weighted harmonic mean of two slopes of one sign, as a multiple of the first. -/
theorem mean_within {a b : K} (ha : 0 < a) (hb : 0 < b) (hsign : 0 < p * q) :
    Within ((a + b) / a) ((a + b) / (a / p + b / q)) p := by
  have hp : p ≠ 0 := left_ne_zero_of_mul hsign.ne'
  have hq : q ≠ 0 := right_ne_zero_of_mul hsign.ne'
  have hratio : 0 < p / q := by
    rw [← mul_div_mul_right p q hq]
    exact div_pos hsign (mul_self_pos.2 hq)
  have hden : 0 < a + b * (p / q) := add_pos ha (mul_pos hb hratio)
  refine ⟨(a + b) / (a + b * (p / q)), div_nonneg (add_pos ha hb).le hden.le, ?_, ?_⟩
  · exact div_le_div_of_nonneg_left (add_pos ha hb).le ha (le_add_of_nonneg_right (mul_pos hb hratio).le)
  · have hform : a / p + b / q = (a + b * (p / q)) / p := by field_simp
    rw [hform, div_div_eq_mul_div, div_mul_eq_mul_div]

theorem krugerInner_within (s : ℕ → K) (i : ℕ) :
    Within 2 (krugerInner s i) (s (i - 1)) ∧ Within 2 (krugerInner s i) (s i) := by
  unfold krugerInner
  by_cases h : s (i - 1) * s i < 0 ∨ s (i - 1) = 0 ∨ s i = 0
  · rw [if_pos h]
    exact ⟨Within.zero zero_le_two _, Within.zero zero_le_two _⟩
  · rw [if_neg h]
    push Not at h
    have hsign : 0 < s (i - 1) * s i := lt_of_le_of_ne h.1 (mul_ne_zero h.2.1 h.2.2).symm
    have htwo : ((2 : ℕ) : K) = 1 + 1 := by norm_num
    have hc : ((1 : K) + 1) / 1 = 2 := by norm_num
    have h₁ := mean_within (zero_lt_one' K) (zero_lt_one' K) hsign
    have h₂ := mean_within (zero_lt_one' K) (zero_lt_one' K) (mul_comm (s (i - 1)) (s i) ▸ hsign)
    rw [hc] at h₁ h₂
    rw [htwo]
    exact ⟨h₁, add_comm (1 / s i) (1 / s (i - 1)) ▸ h₂⟩

theorem krugerEnd_within (h : Within 2 d e) : Within 3 ((3 • e - d) / (2 : ℕ)) e := by
  obtain ⟨r, h₀, h₂, rfl⟩ := h
  refine ⟨(3 - r) / 2, by linarith, by linarith, ?_⟩
  rw [nsmul_eq_mul]
  push_cast
  ring

theorem kruger_bounded (hn : 3 ≤ n) (s : ℕ → K) : Bounded n s (kruger n s) := by
  refine bounded_iff.2 fun i hi => ?_
  unfold kruger
  by_cases h₀ : i = 0
  · subst h₀
    exact ⟨fun _ => by simpa using krugerEnd_within (krugerInner_within s 1).1, fun h => absurd h (lt_irrefl 0)⟩
  · by_cases hend : i = n - 1
    · rw [if_neg h₀, if_pos hend]
      refine ⟨fun h => absurd hend h.ne, fun _ => ?_⟩
      rw [hend, show n - 1 - 1 = n - 2 by omega]
      exact krugerEnd_within (krugerInner_within s (n - 2)).2
    · rw [if_neg h₀, if_neg hend]
      have h := krugerInner_within s i
      exact ⟨fun _ => h.2.mono (by norm_num), fun _ => h.1.mono (by norm_num)⟩

theorem harmonicInner_within (h₀ : 0 < dx (i - 1)) (h₁ : 0 < dx i) :
    Within 3 (harmonicInner dx s i) (s (i - 1)) ∧ Within 3 (harmonicInner dx s i) (s i) := by
  simp only [harmonicInner, nsmul_eq_mul, Nat.cast_ofNat]
  by_cases h : s (i - 1) * s i ≤ 0
  · rw [if_pos h]
    exact ⟨Within.zero (by norm_num) _, Within.zero (by norm_num) _⟩
  · rw [if_neg h]
    have hsign := not_le.1 h
    have hw₁ : 0 < 2 * dx i + dx (i - 1) := by linarith
    have hw₂ : 0 < dx i + 2 * dx (i - 1) := by linarith
    have hleft := mean_within hw₁ hw₂ hsign
    have hright := mean_within hw₂ hw₁ (mul_comm (s (i - 1)) (s i) ▸ hsign)
    rw [add_comm (dx i + 2 * dx (i - 1)), add_comm ((dx i + 2 * dx (i - 1)) / s i)] at hright
    constructor
    · apply hleft.mono
      rw [div_le_iff₀ hw₁]
      linarith
    · apply hright.mono
      rw [div_le_iff₀ hw₂]
      linarith

/-- The clamped parabolic slope, unless the secant slope is zero and the next one is not. -/
theorem harmonicClamp_within {a b : K} (ha : 0 < a) (hb : 0 < b) (hsign : 0 ≤ p * q) (hzero : p = 0 → q = 0) :
    Within 3 (harmonicClamp (((2 • a + b) * p - a * q) / (a + b)) p q) p := by
  unfold harmonicClamp
  by_cases hneg : ((2 • a + b) * p - a * q) / (a + b) * p < 0
  · rw [if_pos hneg]
    exact Within.zero (by norm_num) _
  · rw [if_neg hneg, if_neg fun h => absurd h.1 (not_lt.2 hsign)]
    by_cases hp : p = 0
    · rw [hzero hp, hp, mul_zero, mul_zero, sub_zero, zero_div]
      exact Within.zero (by norm_num) _
    · have hsum := add_pos ha hb
      have hratio : 0 ≤ q / p := by
        rw [← mul_div_mul_right q p hp, mul_comm q]
        exact div_nonneg hsign (mul_self_nonneg p)
      have hform : ((2 • a + b) * p - a * q) / (a + b) = (2 * a + b - a * (q / p)) / (a + b) * p := by
        rw [nsmul_eq_mul, Nat.cast_ofNat]
        field_simp
      refine ⟨(2 * a + b - a * (q / p)) / (a + b), ?_, ?_, hform⟩
      · rw [hform, mul_assoc] at hneg
        exact nonneg_of_mul_nonneg_left (not_lt.1 hneg) (mul_self_pos.2 hp)
      · rw [div_le_iff₀ hsum]
        nlinarith [mul_nonneg ha.le hratio]

theorem harmonic_bounded (hn : 3 ≤ n) (hdx : ∀ i < n - 1, 0 < dx i) (hs : OneSigned n s) (hstart : s 0 = 0 → s 1 = 0)
    (hend : s (n - 2) = 0 → s (n - 3) = 0) : Bounded n s (harmonic n dx s) := by
  refine bounded_iff.2 fun i hi => ?_
  unfold harmonic
  by_cases h₀ : i = 0
  · subst h₀
    refine ⟨fun _ => ?_, fun h => absurd h (lt_irrefl 0)⟩
    rw [if_pos rfl]
    exact harmonicClamp_within (hdx 0 (by omega)) (hdx 1 (by omega)) (hs.product (by omega) (by omega)) hstart
  · by_cases hlast : i = n - 1
    · rw [if_neg h₀, if_pos hlast]
      refine ⟨fun h => absurd hlast h.ne, fun _ => ?_⟩
      rw [hlast, show n - 1 - 1 = n - 2 by omega]
      exact harmonicClamp_within (hdx (n - 2) (by omega)) (hdx (n - 3) (by omega)) (hs.product (by omega) (by omega)) hend
    · rw [if_neg h₀, if_neg hlast]
      have h := harmonicInner_within (s := s) (hdx (i - 1) (by omega)) (hdx i (by omega))
      exact ⟨fun _ => h.2, fun _ => h.1⟩

theorem harmonicClamp_flat {a b : K} (ha : 0 < a) (hb : 0 < b) (hp : p = 0) (hq : q ≠ 0) :
    harmonicClamp (((2 • a + b) * p - a * q) / (a + b)) p q ≠ 0 := by
  have hne : ((2 • a + b) * p - a * q) / (a + b) ≠ 0 := by
    rw [hp, mul_zero, zero_sub]
    exact div_ne_zero (neg_ne_zero.2 (mul_ne_zero ha.ne' hq)) (add_pos ha hb).ne'
  unfold harmonicClamp
  rw [if_neg (by rw [hp, mul_zero]; exact lt_irrefl 0), if_neg fun h => absurd h.1 (by rw [hp, zero_mul]; exact lt_irrefl 0)]
  exact hne

theorem harmonic_flat (hn : 3 ≤ n) (hdx : ∀ i < n - 1, 0 < dx i) :
    (s 0 = 0 → s 1 ≠ 0 → harmonic n dx s 0 ≠ harmonic n dx s 1) ∧
      (s (n - 2) = 0 → s (n - 3) ≠ 0 → harmonic n dx s (n - 2) ≠ harmonic n dx s (n - 1)) := by
  constructor
  · intro h₀ h₁
    have hinner : harmonic n dx s 1 = 0 := by
      rw [harmonic, if_neg one_ne_zero, if_neg (by omega), harmonicInner]
      simp [h₀]
    rw [hinner, harmonic, if_pos rfl]
    exact harmonicClamp_flat (hdx 0 (by omega)) (hdx 1 (by omega)) h₀ h₁
  · intro h₀ h₁
    have hinner : harmonic n dx s (n - 2) = 0 := by
      rw [harmonic, if_neg (by omega), if_neg (by omega), harmonicInner]
      simp [h₀]
    rw [hinner, harmonic, if_neg (by omega), if_pos rfl]
    exact (harmonicClamp_flat (hdx (n - 2) (by omega)) (hdx (n - 3) (by omega)) h₀ h₁).symm

/-- The derivative of a cubic on the unit segment with slopes `l` and `m` times its secant slope, over that slope. -/
def rise (l m τ : K) : K := l * (1 - 4 • τ + 3 • τ ^ 2) + m * (3 • τ ^ 2 - 2 • τ) + 6 • τ * (1 - τ)

/-- It is affine in each of the two, and a square at the corners of the region. -/
theorem rise_nonneg {l m τ : K} (hl : 0 ≤ l ∧ l ≤ 3) (hm : 0 ≤ m ∧ m ≤ 3) (hτ : 0 ≤ τ ∧ τ ≤ 1) : 0 ≤ rise l m τ := by
  have hform : rise l m τ = ((3 - l) * (3 - m) * (6 * (τ * (1 - τ))) + l * (3 - m) * (3 * (1 - τ) ^ 2) +
      (3 - l) * m * (3 * τ ^ 2) + l * m * (3 * (1 - 2 * τ) ^ 2)) / 9 := by
    unfold rise
    ring
  have hl' := sub_nonneg.2 hl.2
  have hm' := sub_nonneg.2 hm.2
  have hτ' := sub_nonneg.2 hτ.2
  rw [hform]
  refine div_nonneg (add_nonneg (add_nonneg (add_nonneg ?_ ?_) ?_) ?_) (by norm_num)
  · exact mul_nonneg (mul_nonneg hl' hm') (mul_nonneg (by norm_num) (mul_nonneg hτ.1 hτ'))
  · exact mul_nonneg (mul_nonneg hl.1 hm') (mul_nonneg (by norm_num) (sq_nonneg _))
  · exact mul_nonneg (mul_nonneg hl' hm.1) (mul_nonneg (by norm_num) (sq_nonneg _))
  · exact mul_nonneg (mul_nonneg hl.1 hm.1) (mul_nonneg (by norm_num) (sq_nonneg _))

end CubicSlopes

namespace CubicInterpolation

open CubicSlopes

variable [IsStrictOrderedRing K] (self : CubicInterpolation K) {i j : ℕ} {t u σ : K}

/-- Simpson's rule, which is exact for the derivative of a cubic. -/
theorem segment_simpson (i : ℕ) (t u : K) : self.segment i u - self.segment i t = (u - t) / 6 *
    (self.segmentDerivative i t + 4 * self.segmentDerivative i ((t + u) / 2) + self.segmentDerivative i u) := by
  simp only [segment, segmentDerivative, nsmul_eq_mul, Nat.cast_ofNat]
  ring

theorem segmentDerivative_eq {l m : K} (h : i < self.nodes.size - 1) (hl : self.d i = l * self.s i)
    (hm : self.d (i + 1) = m * self.s i) (z : K) :
    self.segmentDerivative i z = self.s i * rise l m ((z - self.nodes.x i) / self.dx i) := by
  have hne := (self.dx_pos h).ne'
  simp only [segmentDerivative, a, b, c, rise, hl, hm, nsmul_eq_mul, Nat.cast_ofNat]
  field_simp
  ring

/-- **Between bounded slopes a segment goes where its secant goes.** -/
theorem segment_sub (hd : Bounded self.nodes.size self.s self.d) (h : i < self.nodes.size - 1) (hσ : 0 ≤ σ * self.s i)
    (hlo : self.nodes.x i ≤ t) (htu : t ≤ u) (hhi : u ≤ self.nodes.x (i + 1)) :
    0 ≤ σ * (self.segment i u - self.segment i t) := by
  obtain ⟨l, hl₀, hl₃, hl⟩ := (bounded_iff.1 hd i (by omega)).1 h
  obtain ⟨m, hm₀, hm₃, hm⟩ := (bounded_iff.1 hd (i + 1) (by omega)).2 (Nat.succ_pos i)
  rw [Nat.add_sub_cancel] at hm
  have hdx := self.dx_pos h
  have hrise : ∀ z, t ≤ z → z ≤ u → 0 ≤ rise l m ((z - self.nodes.x i) / self.dx i) := fun z h₁ h₂ =>
    rise_nonneg ⟨hl₀, hl₃⟩ ⟨hm₀, hm₃⟩ ⟨div_nonneg (by linarith) hdx.le, (div_le_one hdx).2 (by
      unfold dx width
      linarith)⟩
  rw [self.segment_simpson, self.segmentDerivative_eq h hl hm, self.segmentDerivative_eq h hl hm,
    self.segmentDerivative_eq h hl hm]
  have h₁ := hrise t le_rfl htu
  have h₂ := hrise ((t + u) / 2) (by linarith) (by linarith)
  have h₃ := hrise u htu le_rfl
  calc 0 ≤ σ * self.s i * ((u - t) / 6 * (rise l m ((t - self.nodes.x i) / self.dx i) +
        4 * rise l m (((t + u) / 2 - self.nodes.x i) / self.dx i) + rise l m ((u - self.nodes.x i) / self.dx i))) :=
        mul_nonneg hσ (mul_nonneg (div_nonneg (by linarith) (by norm_num)) (by linarith))
    _ = _ := by ring

theorem y_sub (hσ : ∀ i < self.nodes.size - 1, 0 ≤ σ * self.s i) (hij : i ≤ j) (hj : j < self.nodes.size) :
    0 ≤ σ * (self.nodes.y j - self.nodes.y i) := by
  induction j, hij using Nat.le_induction with
  | base           => rw [sub_self, mul_zero]
  | succ j hij ih =>
    have hstep := mul_nonneg (hσ j (by omega)) (self.dx_pos (i := j) (by omega)).le
    rw [mul_assoc, self.s_mul_dx (by omega)] at hstep
    linarith [ih (by omega)]

/-- The whole goes where all secants go: through the nodes between two points. -/
theorem value_sub (σ : K) (hd : Bounded self.nodes.size self.s self.d) (hσ : ∀ i < self.nodes.size - 1, 0 ≤ σ * self.s i)
    (hlo : self.nodes.xMin ≤ t) (htu : t ≤ u) (hhi : u ≤ self.nodes.xMax) :
    0 ≤ σ * (self.segment (self.nodes.locate u) u - self.segment (self.nodes.locate t) t) := by
  have h₂ : 2 ≤ self.nodes.size := self.nodes.enough
  have hle := self.nodes.locate_le h₂
  have hlower : ∀ z, self.nodes.xMin ≤ z → self.nodes.x (self.nodes.locate z) ≤ z := fun z hz => by
    rcases Nat.eq_zero_or_pos (self.nodes.locate z) with h | h
    · rw [h]
      exact hz
    · exact self.nodes.locate_lower h
  have hupper : ∀ z, z ≤ self.nodes.xMax → z ≤ self.nodes.x (self.nodes.locate z + 1) := fun z hz => by
    rcases Nat.lt_or_ge (self.nodes.locate z) (self.nodes.size - 2) with h | h
    · exact (self.nodes.locate_upper h).le
    · rw [le_antisymm (hle z) h, show self.nodes.size - 2 + 1 = self.nodes.size - 1 by omega]
      exact hz
  have hhu := hle u
  rcases lt_trichotomy (self.nodes.locate t) (self.nodes.locate u) with hlt | heq | hgt
  · have hfirst := self.segment_sub hd (by omega) (hσ _ (by omega)) (hlower t hlo)
      (hupper t (htu.trans hhi)) le_rfl
    rw [self.segment_end (by omega)] at hfirst
    have hdata := self.y_sub hσ (i := self.nodes.locate t + 1) (j := self.nodes.locate u) hlt (by omega)
    have hlast := self.segment_sub hd (by omega) (hσ _ (by omega)) le_rfl (hlower u (hlo.trans htu)) (hupper u hhi)
    rw [self.segment_start] at hlast
    linarith
  · rw [heq]
    exact self.segment_sub hd (by omega) (hσ _ (by omega)) (heq ▸ hlower t hlo) htu (hupper u hhi)
  · have hht := hle t
    exact absurd ((self.nodes.locate_upper (by omega)).trans_le (self.nodes.x_le hgt (by omega)))
      (not_lt.2 ((hlower t hlo).trans htu))

/-! ## Monotone data -/

theorem nonDecreasing (hd : Bounded self.nodes.size self.s self.d) (hs : ∀ i < self.nodes.size - 1, 0 ≤ self.s i) :
    self.interpolation.NonDecreasing := by
  intro t u v w hlo htu hhi hv hw
  obtain ⟨-, rfl⟩ := self.nodes.map_checkRange.1 hv
  obtain ⟨-, rfl⟩ := self.nodes.map_checkRange.1 hw
  have h := self.value_sub 1 hd (fun i hi => by rw [one_mul]; exact hs i hi) hlo htu hhi
  rw [one_mul] at h
  exact sub_nonneg.1 h

theorem nonIncreasing (hd : Bounded self.nodes.size self.s self.d) (hs : ∀ i < self.nodes.size - 1, self.s i ≤ 0) :
    self.interpolation.NonIncreasing := by
  intro t u v w hlo htu hhi hv hw
  obtain ⟨-, rfl⟩ := self.nodes.map_checkRange.1 hv
  obtain ⟨-, rfl⟩ := self.nodes.map_checkRange.1 hw
  have h := self.value_sub (-1) hd (fun i hi => by linarith [hs i hi]) hlo htu hhi
  linarith

/-- The interpolation goes with the data. -/
def FollowsData (f : CubicInterpolation K) (y : List K) : Prop :=
  (y.Pairwise (· ≤ ·) → f.interpolation.NonDecreasing) ∧ (y.Pairwise (· ≥ ·) → f.interpolation.NonIncreasing)

/-- The data start level and then rise or fall, or end so. -/
def FlatEnd (y : List K) : Prop :=
  3 ≤ y.length ∧ (y.getD 0 0 = y.getD 1 0 ∧ y.getD 1 0 ≠ y.getD 2 0 ∨
    y.getD (y.length - 1) 0 = y.getD (y.length - 2) 0 ∧ y.getD (y.length - 2) 0 ≠ y.getD (y.length - 3) 0)

theorem s_nonneg_iff (h : i < self.nodes.size - 1) : 0 ≤ self.s i ↔ self.nodes.y i ≤ self.nodes.y (i + 1) := by
  have hdx := self.dx_pos h
  rw [← sub_nonneg (b := self.nodes.y i), ← self.s_mul_dx h]
  exact ⟨fun hs => mul_nonneg hs hdx.le, fun hs => nonneg_of_mul_nonneg_left hs hdx⟩

theorem s_nonpos_iff (h : i < self.nodes.size - 1) : self.s i ≤ 0 ↔ self.nodes.y (i + 1) ≤ self.nodes.y i := by
  have hdx := self.dx_pos h
  rw [← sub_nonpos (b := self.nodes.y i), ← self.s_mul_dx h]
  exact ⟨fun hs => mul_nonpos_of_nonpos_of_nonneg hs hdx.le, fun hs => by
    by_contra hpos
    exact absurd hs (not_le.2 (mul_pos (not_le.1 hpos) hdx))⟩

theorem s_zero_iff (h : i < self.nodes.size - 1) : self.s i = 0 ↔ self.nodes.y i = self.nodes.y (i + 1) := by
  rw [le_antisymm_iff, le_antisymm_iff, self.s_nonpos_iff h, self.s_nonneg_iff h, and_comm]

theorem segment_middle (hi : i < self.nodes.size - 1) (hs : self.s i = 0) :
    self.segment i (self.nodes.x i + self.dx i / 2) = self.nodes.y i + self.dx i * (self.d i - self.d (i + 1)) / 8 := by
  have hne := (self.dx_pos hi).ne'
  simp only [segment, a, b, c, hs, nsmul_eq_mul, Nat.cast_ofNat, add_sub_cancel_left]
  field_simp
  ring

/-- Over a level segment with slopes that differ the value leaves the data and comes back. -/
theorem not_monotone (hi : i < self.nodes.size - 1) (hs : self.s i = 0) (hd : self.d i ≠ self.d (i + 1)) :
    ¬ self.interpolation.NonDecreasing ∧ ¬ self.interpolation.NonIncreasing := by
  have hdx := self.dx_pos hi
  have hend : self.nodes.x i + self.dx i = self.nodes.x (i + 1) := add_sub_cancel _ _
  have hlo : self.nodes.x i ≤ self.nodes.x i + self.dx i / 2 := by linarith
  have hhi : self.nodes.x i + self.dx i / 2 < self.nodes.x (i + 1) := by linarith
  have hmin : self.nodes.xMin ≤ self.nodes.x i := self.nodes.x_le (Nat.zero_le i) (by omega)
  have hmax : self.nodes.x (i + 1) ≤ self.nodes.xMax := self.nodes.x_le (by omega) (by omega)
  have hv : ∀ t, self.nodes.xMin ≤ t → t ≤ self.nodes.xMax →
      self.interpolation.value t = .ok (self.segment (self.nodes.locate t) t) := fun t h₁ h₂ =>
    self.nodes.map_checkRange.2 ⟨.inr ⟨h₁, h₂⟩, rfl⟩
  have hleft := hv _ hmin ((hlo.trans hhi.le).trans hmax)
  have hmid := hv _ (hmin.trans hlo) (hhi.le.trans hmax)
  have hright := hv _ (hmin.trans (hlo.trans hhi.le)) hmax
  rw [self.segment_node (by omega)] at hleft
  rw [self.nodes.locate_inside hi hlo hhi, self.segment_middle hi hs] at hmid
  rw [self.segment_node (by omega), ← (self.s_zero_iff hi).1 hs] at hright
  have hbump : self.dx i * (self.d i - self.d (i + 1)) / 8 ≠ 0 :=
    div_ne_zero (mul_ne_zero hdx.ne' (sub_ne_zero.2 hd)) (by norm_num)
  refine ⟨fun h => hbump ?_, fun h => hbump ?_⟩
  · have h₁ := h _ _ _ _ hmin hlo (hhi.le.trans hmax) hleft hmid
    have h₂ := h _ _ _ _ (hmin.trans hlo) hhi.le hmax hmid hright
    linarith
  · have h₁ := h _ _ _ _ hmin hlo (hhi.le.trans hmax) hleft hmid
    have h₂ := h _ _ _ _ (hmin.trans hlo) hhi.le hmax hmid hright
    linarith

theorem oneSigned {y : List K} (hsize : self.nodes.size = y.length) (hy : ∀ i, self.nodes.y i = y.getD i 0)
    (hdata : y.Pairwise (· ≤ ·) ∨ y.Pairwise (· ≥ ·)) :
    (y.Pairwise (· ≤ ·) → ∀ i < self.nodes.size - 1, 0 ≤ self.s i) ∧
      (y.Pairwise (· ≥ ·) → ∀ i < self.nodes.size - 1, self.s i ≤ 0) ∧ OneSigned self.nodes.size self.s := by
  have hup : y.Pairwise (· ≤ ·) → ∀ i < self.nodes.size - 1, 0 ≤ self.s i := fun h i hi => by
    rw [self.s_nonneg_iff hi, hy, hy]
    exact getD_rel h (by omega)
  have hdown : y.Pairwise (· ≥ ·) → ∀ i < self.nodes.size - 1, self.s i ≤ 0 := fun h i hi => by
    rw [self.s_nonpos_iff hi, hy, hy]
    exact getD_rel h (by omega)
  exact ⟨hup, hdown, hdata.imp hup hdown⟩

theorem scheme_bounded {da : CubicDerivativeApprox} (hda : da = .kruger ∨ da = .harmonic)
    (hs : OneSigned self.nodes.size self.s) (hflat : da = .harmonic → 3 ≤ self.nodes.size →
      (self.s 0 = 0 → self.s 1 = 0) ∧ (self.s (self.nodes.size - 2) = 0 → self.s (self.nodes.size - 3) = 0)) :
    Bounded self.nodes.size self.s (nodeDerivatives self.nodes.size self.dx self.s da) := by
  have henough := self.nodes.enough
  by_cases h₂ : self.nodes.size = 2
  · refine bounded_iff.2 fun i hi => ?_
    have hone : Within 3 (self.s 0) (self.s 0) := ⟨1, zero_le_one, by norm_num, (one_mul _).symm⟩
    unfold nodeDerivatives
    rw [if_pos h₂]
    refine ⟨fun h => ?_, fun h => ?_⟩
    · rwa [show i = 0 by omega]
    · rwa [show i - 1 = 0 by omega]
  · have h₃ : 3 ≤ self.nodes.size := by omega
    have hform : nodeDerivatives self.nodes.size self.dx self.s da =
        if da = .kruger then kruger self.nodes.size self.s else CubicSlopes.harmonic self.nodes.size self.dx self.s := by
      funext i
      unfold nodeDerivatives
      rw [if_neg h₂]
      rcases hda with rfl | rfl <;> rfl
    rw [hform]
    rcases hda with rfl | rfl
    · exact kruger_bounded h₃ _
    · obtain ⟨hstart, hend⟩ := hflat rfl h₃
      exact harmonic_bounded h₃ (fun i hi => self.dx_pos hi) hs hstart hend

theorem flatEnd_iff {y : List K} (hsize : self.nodes.size = y.length) (hy : ∀ i, self.nodes.y i = y.getD i 0) :
    FlatEnd y ↔ 3 ≤ self.nodes.size ∧ (self.s 0 = 0 ∧ self.s 1 ≠ 0 ∨
      self.s (self.nodes.size - 2) = 0 ∧ self.s (self.nodes.size - 3) ≠ 0) := by
  unfold FlatEnd
  rw [← hsize]
  refine and_congr_right fun h₃ => ?_
  simp only [ne_eq]
  rw [self.s_zero_iff (by omega), self.s_zero_iff (by omega), self.s_zero_iff (by omega),
    self.s_zero_iff (by omega), show self.nodes.size - 2 + 1 = self.nodes.size - 1 by omega,
    show self.nodes.size - 3 + 1 = self.nodes.size - 2 by omega]
  simp only [hy, Nat.zero_add]
  rw [eq_comm (a := y.getD (self.nodes.size - 1) 0), eq_comm (a := y.getD (self.nodes.size - 2) 0)
    (b := y.getD (self.nodes.size - 3) 0)]

omit [IsStrictOrderedRing K] in
theorem harmonic_slopes {x y : List K} {config : CubicConfig K} {f : CubicInterpolation K} (h : build x y config = .ok f)
    (hm : config.monotonic = false) (hda : config.da = .harmonic) (h₃ : 3 ≤ f.nodes.size) :
    f.d = CubicSlopes.harmonic f.nodes.size f.dx f.s := by
  obtain ⟨d, hd, -, -, hfd⟩ := build_ok h
  rw [hm, local_slopes hd (by rw [hda]; decide), hda] at hfd
  rw [hfd]
  funext i
  simp only [Bool.false_eq_true, if_false]
  unfold nodeDerivatives
  rw [if_neg (by omega)]
  rfl

/-- **Monotone data are interpolated monotonely** with the filter, and without it by Kruger's scheme and by the harmonic
one, whose clamp of an end slope misses a level end segment beside one that is not. -/
theorem followsData_iff {x y : List K} {config : CubicConfig K} {f : CubicInterpolation K}
    (h : build x y config = .ok f) (hscheme : config.monotonic = true ∨ config.da = .kruger ∨ config.da = .harmonic)
    (hdata : y.Pairwise (· ≤ ·) ∨ y.Pairwise (· ≥ ·)) :
    f.FollowsData y ↔ ¬ (config.monotonic = false ∧ config.da = .harmonic ∧ FlatEnd y) := by
  obtain ⟨d, hd, hsize, hy, hfd⟩ := build_ok h
  obtain ⟨hup, hdown, hs⟩ := f.oneSigned hsize hy hdata
  rw [f.flatEnd_iff hsize hy]
  constructor
  · rintro hf ⟨hm, hda, h₃, hflat⟩
    have hharm := harmonic_slopes h hm hda h₃
    obtain ⟨hstart, hend⟩ := harmonic_flat (s := f.s) h₃ fun i hi => f.dx_pos hi
    obtain ⟨hnd, hni⟩ : ¬ f.interpolation.NonDecreasing ∧ ¬ f.interpolation.NonIncreasing := by
      rcases hflat with ⟨h₀, h₁⟩ | ⟨h₀, h₁⟩
      · exact f.not_monotone (by omega) h₀ (hharm ▸ hstart h₀ h₁)
      · refine f.not_monotone (by omega) h₀ ?_
        rw [show f.nodes.size - 2 + 1 = f.nodes.size - 1 by omega, hharm]
        exact hend h₀ h₁
    exact hdata.elim (fun h => hnd (hf.1 h)) (fun h => hni (hf.2 h))
  · intro hne
    have hbounded : Bounded f.nodes.size f.s f.d := by
      rw [hfd]
      by_cases hm : config.monotonic = true
      · rw [if_pos hm]
        exact filter_bounded (fun i hi => f.dx_pos hi) hs d
      · have hda := hscheme.resolve_left hm
        rw [if_neg hm, local_slopes hd (by rcases hda with h | h <;> rw [h] <;> decide)]
        refine f.scheme_bounded hda hs fun hh h₃ => ⟨fun h₀ => ?_, fun h₀ => ?_⟩
        · by_contra h₁
          exact hne ⟨Bool.eq_false_iff.2 hm, hh, h₃, .inl ⟨h₀, h₁⟩⟩
        · by_contra h₁
          exact hne ⟨Bool.eq_false_iff.2 hm, hh, h₃, .inr ⟨h₀, h₁⟩⟩
    exact ⟨fun h => f.nonDecreasing hbounded (hup h), fun h => f.nonIncreasing hbounded (hdown h)⟩

/-- Kruger's scheme on a line. -/
theorem followsData_iff_line : ∃ f : CubicInterpolation ℚ,
    build [0, 1, 2] [0, 1, 2] (.defaults .kruger) = .ok f ∧ f.FollowsData [0, 1, 2] := by
  obtain ⟨f, hf⟩ : ∃ f : CubicInterpolation ℚ, build [0, 1, 2] [0, 1, 2] (.defaults .kruger) = .ok f := ⟨_, rfl⟩
  exact ⟨f, hf, (followsData_iff hf (.inr (.inl rfl)) (.inl (by decide))).2 fun h => nomatch h.2.1⟩

/-- **The harmonic scheme leaves data that start level.** -/
theorem harmonic_dips : ∃ f : CubicInterpolation ℚ, build [0, 1, 2] [0, 0, 1] (.defaults .harmonic) = .ok f ∧
    ([0, 0, 1] : List ℚ).Pairwise (· ≤ ·) ∧ ¬ f.interpolation.NonDecreasing := by
  obtain ⟨f, hf⟩ : ∃ f : CubicInterpolation ℚ, build [0, 1, 2] [0, 0, 1] (.defaults .harmonic) = .ok f := ⟨_, rfl⟩
  obtain ⟨-, -, hsize, hy, -⟩ := build_ok hf
  have h₃ : f.nodes.size = 3 := hsize
  have h₀ : f.s 0 = 0 := (f.s_zero_iff (by omega)).2 (by rw [hy, hy]; rfl)
  have h₁ : f.s 1 ≠ 0 := fun h => by
    have heq := (f.s_zero_iff (by omega)).1 h
    rw [hy, hy] at heq
    exact absurd heq (by decide)
  have hne := (harmonic_flat (s := f.s) h₃.ge fun i hi => f.dx_pos hi).1 h₀ h₁
  refine ⟨f, hf, by decide, (f.not_monotone (by omega) h₀ ?_).1⟩
  rw [harmonic_slopes hf rfl rfl h₃.ge]
  exact hne

end CubicInterpolation

end Itofin
