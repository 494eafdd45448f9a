import Itofin.Time.Period
/-!
# Order — which comparisons of periods are transitive

The order of `time/period.rs`.  Months and years are measured in months and compared exactly, days and weeks in days;
across the two a comparison is decided when the numbers of days that the periods can span do not overlap (`Before`).
The bounds are not monotone in the measure: a year spans 365 days at least and 13 months 364, so 364 days are before a
year, a year is before 13 months, and 364 days and 13 months are undecidable.

`lawful_iff` says for which three periods the laws of a partial order hold: a `Crossing` of that kind breaks them, and
so does a product that overflows in the third comparison only.
-/
namespace Itofin

def isI32 (n : ℤ) : Prop := -2147483648 ≤ n ∧ n ≤ 2147483647

instance : DecidablePred isI32 := fun _ => inferInstanceAs (Decidable (_ ∧ _))

namespace Period

/-- The products that `days_min_max` forms. -/
def products (p : Period) : List ℤ :=
  match p.units with
  | .weeks  => [7 * p.length]
  | .months => [28 * p.length, 31 * p.length]
  | .years  => [365 * p.length, 366 * p.length]
  | _       => []

/-- The products that `less` forms. -/
def compared (p1 p2 : Period) : List ℤ :=
  if p1.length = 0 ∨ p2.length = 0 ∨ p1.units = p2.units then []
  else match p1.units, p2.units with
    | .months, .years => [12 * p2.length]
    | .years, .months => [12 * p1.length]
    | .days, .weeks   => [7 * p2.length]
    | .weeks, .days   => [7 * p1.length]
    | _, _            => p1.products ++ p2.products

/-- No product of the comparison overflows. -/
def Fits (p1 p2 : Period) : Prop := ∀ n ∈ compared p1 p2, isI32 n

instance (p1 p2 : Period) : Decidable (Fits p1 p2) := inferInstanceAs (Decidable (∀ n ∈ _, _))

/-- `partial_cmp` on `i32` lengths: a product that overflows panics. -/
def partialCmp32 (p q : Period) : Option (Option Ordering) := if Fits p q then p.partialCmp q else none

def lt (p q : Period) : Prop := p.partialCmp32 q = some (some .lt)

def gt (p q : Period) : Prop := p.partialCmp32 q = some (some .gt)

def eq (p q : Period) : Prop := p.partialCmp32 q = some (some .eq)

instance : DecidableRel lt := fun _ _ => inferInstanceAs (Decidable (_ = _))

instance : DecidableRel eq := fun _ _ => inferInstanceAs (Decidable (_ = _))

/-- **The laws of `PartialOrd`** for three periods. -/
structure Lawful (a b c : Period) : Prop where
  lt_trans : a.lt b → b.lt c → a.lt c
  eq_lt : a.eq b → b.lt c → a.lt c
  swap : a.lt b ↔ b.gt a

/-! ## Measures -/

def isCalendarUnit : TimeUnit → Bool
  | .days | .weeks | .months | .years => true
  | _                                 => false

def monthly (p : Period) : Bool := p.units = .months || p.units = .years

/-- The number of months, or else of days. -/
def measure (p : Period) : ℤ :=
  match p.units with
  | .years => 12 * p.length
  | .weeks => 7 * p.length
  | _      => p.length

def minDays (p : Period) : ℤ :=
  match p.units with
  | .months => min (28 * p.length) (31 * p.length)
  | .years  => min (365 * p.length) (366 * p.length)
  | _       => p.measure

def maxDays (p : Period) : ℤ :=
  match p.units with
  | .months => max (28 * p.length) (31 * p.length)
  | .years  => max (365 * p.length) (366 * p.length)
  | _       => p.measure

def Before (p q : Period) : Prop :=
  if p.monthly = q.monthly then p.measure < q.measure else p.maxDays < q.minDays

def Same (p q : Period) : Prop :=
  if p.monthly = q.monthly then p.measure = q.measure else p.length = 0 ∧ q.length = 0

instance (p q : Period) : Decidable (Before p q) :=
  inferInstanceAs (Decidable (if p.monthly = q.monthly then p.measure < q.measure else p.maxDays < q.minDays))

instance (p q : Period) : Decidable (Same p q) :=
  inferInstanceAs (Decidable (if p.monthly = q.monthly then p.measure = q.measure else p.length = 0 ∧ q.length = 0))

variable {a b c p q : Period}

theorem calendarUnit_cases {u : TimeUnit} (h : isCalendarUnit u = true) :
    u = .days ∨ u = .weeks ∨ u = .months ∨ u = .years := by
  cases u <;> first | decide | cases h

theorem sign_spec (hp : isCalendarUnit p.units = true) :
    (0 < p.measure ↔ 0 < p.length) ∧ (p.measure < 0 ↔ p.length < 0) ∧
      (0 < p.minDays ↔ 0 < p.length) ∧ (p.minDays < 0 ↔ p.length < 0) ∧
      (0 < p.maxDays ↔ 0 < p.length) ∧ (p.maxDays < 0 ↔ p.length < 0) ∧ p.minDays ≤ p.maxDays := by
  obtain ⟨n, u⟩ := p
  rcases calendarUnit_cases hp with h | h | h | h <;> simp only at h <;> subst h <;>
    simp only [measure, minDays, maxDays] <;> grind

theorem daysMinMax_eq (hp : isCalendarUnit p.units = true) : p.daysMinMax = some (p.minDays, p.maxDays) := by
  obtain ⟨n, u⟩ := p
  rcases calendarUnit_cases hp with h | h | h | h <;> simp only at h <;> subst h <;> rfl

theorem less_zero_left (h : p.length = 0) : less p q = some (some (decide (0 < q.length))) := by
  rw [less, if_pos h]

theorem less_zero_right (h : q.length = 0) : less p q = some (some (decide (p.length < 0))) := by
  rw [less]
  by_cases hp : p.length = 0
  · rw [if_pos hp, hp, h]
  · rw [if_neg hp, if_pos h]

theorem less_same (hp : isCalendarUnit p.units = true) (hq : isCalendarUnit q.units = true)
    (h : p.monthly = q.monthly) : less p q = some (some (decide (p.measure < q.measure))) := by
  have sp := sign_spec hp
  have sq := sign_spec hq
  by_cases hn : p.length = 0
  · rw [less_zero_left hn, Option.some.injEq, Option.some.injEq, decide_eq_decide]
    omega
  by_cases hm : q.length = 0
  · rw [less_zero_right hm, Option.some.injEq, Option.some.injEq, decide_eq_decide]
    omega
  clear sp sq
  by_cases hu : p.units = q.units
  · rw [less, if_neg hn, if_neg hm, if_pos hu, Option.some.injEq, Option.some.injEq, decide_eq_decide, measure,
      measure, hu]
    split <;> omega
  obtain ⟨n, u⟩ := p
  obtain ⟨m, v⟩ := q
  rw [less, if_neg hn, if_neg hm, if_neg hu]
  rcases calendarUnit_cases hp with e | e | e | e <;> simp only at e <;> subst e <;>
    rcases calendarUnit_cases hq with e | e | e | e <;> simp only at e <;> subst e <;>
    first | rfl | exact absurd rfl hu | simp [monthly] at h

/-- Periods of different measures are compared by the days they can span. -/
theorem less_mixed (hp : isCalendarUnit p.units = true) (hq : isCalendarUnit q.units = true)
    (h : p.monthly ≠ q.monthly) : less p q = some (if p.maxDays < q.minDays then some true
      else if q.maxDays < p.minDays ∨ p.length = 0 ∨ q.length = 0 then some false else none) := by
  have sp := sign_spec hp
  have sq := sign_spec hq
  by_cases hn : p.length = 0
  · rw [less_zero_left hn, Option.some.injEq, if_pos (Or.inr (Or.inl hn))]
    by_cases hl : 0 < q.length
    · rw [if_pos (by omega), decide_eq_true hl]
    · rw [if_neg (by omega), decide_eq_false hl]
  by_cases hm : q.length = 0
  · rw [less_zero_right hm, Option.some.injEq, if_pos (Or.inr (Or.inr hm))]
    by_cases hl : p.length < 0
    · rw [if_pos (by omega), decide_eq_true hl]
    · rw [if_neg (by omega), decide_eq_false hl]
  clear sp sq
  have dp := daysMinMax_eq hp
  have dq := daysMinMax_eq hq
  simp only [hn, hm, or_false]
  have hu : p.units ≠ q.units := fun he => h (by rw [monthly, monthly, he])
  rw [less, if_neg hn, if_neg hm, if_neg hu]
  obtain ⟨n, u⟩ := p
  obtain ⟨m, v⟩ := q
  rcases calendarUnit_cases hp with e | e | e | e <;> simp only at e <;> subst e <;>
    rcases calendarUnit_cases hq with e | e | e | e <;> simp only at e <;> subst e <;>
    first | exact absurd rfl h | simp only [dp, dq, Option.bind_eq_bind, Option.bind_some]

theorem partialCmp_eq_lt (hp : isCalendarUnit p.units = true) (hq : isCalendarUnit q.units = true) :
    p.partialCmp q = some (some .lt) ↔ Before p q := by
  unfold partialCmp Before
  by_cases h : p.monthly = q.monthly
  · rw [less_same hp hq h, less_same hq hp h.symm, if_pos h]
    by_cases h₁ : p.measure < q.measure <;> by_cases h₂ : q.measure < p.measure <;> simp [h₁, h₂, ordering]
  · rw [less_mixed hp hq h, less_mixed hq hp (Ne.symm h), if_neg h]
    split
    case isTrue h₁ => simp [h₁, ordering]
    case isFalse h₁ =>
      simp only [h₁, iff_false]
      split <;> split <;> first | (split <;> simp [ordering]) | simp [ordering]

theorem partialCmp_eq_gt (hp : isCalendarUnit p.units = true) (hq : isCalendarUnit q.units = true) :
    p.partialCmp q = some (some .gt) ↔ Before q p := by
  unfold partialCmp Before
  by_cases h : p.monthly = q.monthly
  · rw [less_same hp hq h, less_same hq hp h.symm, if_pos h.symm]
    by_cases h₁ : p.measure < q.measure
    · simp [h₁, h₁.le, ordering]
    · by_cases h₂ : q.measure < p.measure <;> simp [h₁, h₂, ordering]
  · rw [less_mixed hp hq h, less_mixed hq hp (Ne.symm h), if_neg (Ne.symm h)]
    have sp := sign_spec hp
    have sq := sign_spec hq
    by_cases h₁ : q.maxDays < p.minDays
    · simp [h₁, show ¬ p.maxDays < q.minDays by omega, ordering]
    · simp only [h₁, if_false, iff_false]
      split <;> split <;> first | (split <;> simp [ordering]) | simp [ordering]

theorem partialCmp_eq_eq (hp : isCalendarUnit p.units = true) (hq : isCalendarUnit q.units = true) :
    p.partialCmp q = some (some .eq) ↔ Same p q := by
  unfold partialCmp Same
  by_cases h : p.monthly = q.monthly
  · rw [less_same hp hq h, less_same hq hp h.symm, if_pos h]
    by_cases h₁ : p.measure < q.measure
    · simp [h₁, h₁.ne, ordering]
    · by_cases h₂ : q.measure < p.measure
      · simp [h₁, h₂, h₂.ne', ordering]
      · simp [ordering, le_antisymm (not_lt.mp h₂) (not_lt.mp h₁)]
  · rw [less_mixed hp hq h, less_mixed hq hp (Ne.symm h), if_neg h]
    have sp := sign_spec hp
    have sq := sign_spec hq
    by_cases h₁ : p.maxDays < q.minDays
    · simp only [h₁, if_true, ordering]
      refine ⟨fun h => absurd h (by simp), fun h => by omega⟩
    by_cases h₂ : q.maxDays < p.minDays
    · simp only [h₁, h₂, if_true, if_false, ordering]
      refine ⟨fun h => absurd h (by simp), fun h => by omega⟩
    by_cases hz : p.length = 0 ∨ q.length = 0
    · have hz' : p.length = 0 ∧ q.length = 0 := by omega
      simp [hz', h₁, h₂, ordering]
    · simp [not_or.mp hz, h₁, h₂, ordering]

theorem compared_perm (p q : Period) : (compared p q).Perm (compared q p) := by
  unfold compared
  by_cases h : p.length = 0 ∨ q.length = 0 ∨ p.units = q.units
  · rw [if_pos h, if_pos (by tauto)]
  rw [if_neg h, if_neg (by tauto)]
  obtain ⟨n, u⟩ := p
  obtain ⟨m, v⟩ := q
  cases u <;> cases v <;> first | exact List.Perm.refl _ | exact List.perm_append_comm

theorem fits_comm : Fits p q ↔ Fits q p :=
  ⟨fun h n hn => h n ((compared_perm p q).mem_iff.mpr hn), fun h n hn => h n ((compared_perm p q).mem_iff.mp hn)⟩

theorem lt_iff (hp : isCalendarUnit p.units = true) (hq : isCalendarUnit q.units = true) :
    p.lt q ↔ Fits p q ∧ Before p q := by
  rw [lt, partialCmp32, ← partialCmp_eq_lt hp hq]
  split <;> simp_all

theorem gt_iff (hp : isCalendarUnit p.units = true) (hq : isCalendarUnit q.units = true) :
    p.gt q ↔ Fits p q ∧ Before q p := by
  rw [gt, partialCmp32, ← partialCmp_eq_gt hp hq]
  split <;> simp_all

theorem eq_iff (hp : isCalendarUnit p.units = true) (hq : isCalendarUnit q.units = true) :
    p.eq q ↔ Fits p q ∧ Same p q := by
  rw [eq, partialCmp32, ← partialCmp_eq_eq hp hq]
  split <;> simp_all

/-! ## Transitivity -/

/-- **What breaks transitivity**: months and years that are ordered by their months, with bounds the other way round and
a number of days between the bounds. -/
def Crossing (a b c : Period) : Prop :=
  (a.monthly = false ∧ b.units = .years ∧ c.units = .months ∧
    12 * b.length < c.length ∧ c.minDays ≤ a.measure ∧ a.measure < b.minDays) ∨
  (a.units = .months ∧ b.units = .years ∧ c.monthly = false ∧
    a.length ≤ 12 * b.length ∧ b.maxDays < c.measure ∧ c.measure ≤ a.maxDays)

theorem monthly_iff : p.monthly = true ↔ p.units = .months ∨ p.units = .years := by
  rw [monthly, Bool.or_eq_true, decide_eq_true_eq, decide_eq_true_eq]

instance : Decidable (Crossing a b c) := inferInstanceAs (Decidable (_ ∨ _))

/-- A month is 365 days in twelve, between the bounds. -/
theorem measure_between (h : p.monthly = true) :
    12 * p.minDays ≤ 365 * p.measure ∧ 365 * p.measure ≤ 12 * p.maxDays := by
  obtain ⟨n, u⟩ := p
  rcases monthly_iff.mp h with h | h <;> simp only at h <;> subst h <;> simp only [minDays, maxDays, measure] <;> omega

theorem maxDays_mono (hp : p.monthly = true) (hq : q.monthly = true) (h : p.measure ≤ q.measure)
    (hc : ¬ (p.units = .months ∧ q.units = .years)) : p.maxDays ≤ q.maxDays := by
  obtain ⟨n, u⟩ := p
  obtain ⟨m, v⟩ := q
  rcases monthly_iff.mp hp with e | e <;> simp only at e <;> subst e <;>
    rcases monthly_iff.mp hq with e | e <;> simp only at e <;> subst e <;>
    first | exact absurd ⟨rfl, rfl⟩ hc | (simp only [measure, maxDays] at h ⊢; omega)

theorem minDays_mono (hp : p.monthly = true) (hq : q.monthly = true) (h : p.measure ≤ q.measure)
    (hc : ¬ (p.units = .years ∧ q.units = .months)) : p.minDays ≤ q.minDays := by
  obtain ⟨n, u⟩ := p
  obtain ⟨m, v⟩ := q
  rcases monthly_iff.mp hp with e | e <;> simp only at e <;> subst e <;>
    rcases monthly_iff.mp hq with e | e <;> simp only at e <;> subst e <;>
    first | exact absurd ⟨rfl, rfl⟩ hc | (simp only [measure, minDays] at h ⊢; omega)

theorem days_eq (h : p.monthly = false) : p.minDays = p.measure ∧ p.maxDays = p.measure := by
  obtain ⟨n, u⟩ := p
  cases u <;> first | exact ⟨rfl, rfl⟩ | simp [monthly] at h

theorem measure_years (h : p.units = .years) : p.measure = 12 * p.length := by rw [measure, h]

theorem measure_months (h : p.units = .months) : p.measure = p.length := by rw [measure, h]

theorem before_trans (ha : isCalendarUnit a.units = true) (hb : isCalendarUnit b.units = true)
    (hc : isCalendarUnit c.units = true) (hab : Before a b ∨ Same a b) (hbc : Before b c) (hx : ¬ Crossing a b c) :
    Before a c := by
  have sa := sign_spec ha
  have sb := sign_spec hb
  have sc := sign_spec hc
  unfold Before Same at *
  cases ma : a.monthly <;> cases mb : b.monthly <;> cases mc : c.monthly <;>
    simp only [ma, mb, mc, if_true, if_false, Bool.true_eq_false, Bool.false_eq_true] at hab hbc ⊢
  -- days throughout
  case false.false.false => omega
  case false.false.true =>
    have := days_eq ma
    have := days_eq mb
    omega
  -- months or years in between
  case false.true.false =>
    have := days_eq ma
    have := days_eq mc
    omega
  case false.true.true =>
    have da := days_eq ma
    by_cases hu : b.units = .years ∧ c.units = .months
    · by_contra hn
      refine hx (.inl ⟨ma, hu.1, hu.2, ?_, by omega, by omega⟩)
      rwa [measure_years hu.1, measure_months hu.2] at hbc
    · have := minDays_mono mb mc hbc.le hu
      omega
  case true.false.false =>
    have := days_eq mb
    have := days_eq mc
    omega
  case true.false.true =>
    have := measure_between ma
    have := measure_between mc
    omega
  case true.true.false =>
    have dc := days_eq mc
    by_cases hu : a.units = .months ∧ b.units = .years
    · by_contra hn
      rw [measure_months hu.1, measure_years hu.2] at hab
      exact hx (.inr ⟨hu.1, hu.2, mc, by omega, by omega, by omega⟩)
    · have := maxDays_mono ma mb (by omega) hu
      omega
  case true.true.true => omega

/-- A crossing is ordered in its two steps and undecided across them. -/
theorem crossing_spec (hx : Crossing a b c) : (Before a b ∨ Same a b) ∧ Before b c ∧ ¬ Before a c := by
  unfold Before Same
  rcases hx with ⟨ma, hb, hc, h₁, h₂, h₃⟩ | ⟨ha, hb, mc, h₁, h₂, h₃⟩
  · have mb : b.monthly = true := monthly_iff.mpr (.inr hb)
    have mc : c.monthly = true := monthly_iff.mpr (.inl hc)
    have da := days_eq ma
    simp only [ma, mb, mc, if_true, if_false, Bool.false_eq_true, measure_years hb, measure_months hc]
    exact ⟨.inl (by omega), h₁, by omega⟩
  · have ma : a.monthly = true := monthly_iff.mpr (.inl ha)
    have mb : b.monthly = true := monthly_iff.mpr (.inr hb)
    have dc := days_eq mc
    simp only [ma, mb, mc, if_true, if_false, Bool.true_eq_false, measure_years hb, measure_months ha]
    exact ⟨by omega, by omega, by omega⟩

/-- **Which three periods the laws hold for**: those that do not cross in comparisons that fit, and whose third
comparison fits when the first two do and are ordered. -/
theorem lawful_iff (ha : isCalendarUnit a.units = true) (hb : isCalendarUnit b.units = true)
    (hc : isCalendarUnit c.units = true) : Lawful a b c ↔
      ¬ (Fits a b ∧ Fits b c ∧ (Crossing a b c ∨ ((Before a b ∨ Same a b) ∧ Before b c ∧ ¬ Fits a c))) := by
  constructor
  · rintro ⟨ht, he, -⟩ ⟨fab, fbc, hx⟩
    have hord : (Before a b ∨ Same a b) ∧ Before b c := by
      rcases hx with hx | hx
      · exact ⟨(crossing_spec hx).1, (crossing_spec hx).2.1⟩
      · exact ⟨hx.1, hx.2.1⟩
    have hlt : a.lt c := by
      rcases hord.1 with h | h
      · exact ht ((lt_iff ha hb).mpr ⟨fab, h⟩) ((lt_iff hb hc).mpr ⟨fbc, hord.2⟩)
      · exact he ((eq_iff ha hb).mpr ⟨fab, h⟩) ((lt_iff hb hc).mpr ⟨fbc, hord.2⟩)
    obtain ⟨fac, hac⟩ := (lt_iff ha hc).mp hlt
    rcases hx with hx | hx
    · exact (crossing_spec hx).2.2 hac
    · exact hx.2.2 fac
  · intro hn
    have key : Fits a b → Before a b ∨ Same a b → b.lt c → a.lt c := by
      intro fab hab hbc
      obtain ⟨fbc, hbc⟩ := (lt_iff hb hc).mp hbc
      have hx : ¬ Crossing a b c := fun hx => hn ⟨fab, fbc, .inl hx⟩
      have fac : Fits a c := by
        by_contra hf
        exact hn ⟨fab, fbc, .inr ⟨hab, hbc, hf⟩⟩
      exact (lt_iff ha hc).mpr ⟨fac, before_trans ha hb hc hab hbc hx⟩
    refine ⟨fun hab => ?_, fun hab => ?_, ?_⟩
    · obtain ⟨fab, hab⟩ := (lt_iff ha hb).mp hab
      exact key fab (.inl hab)
    · obtain ⟨fab, hab⟩ := (eq_iff ha hb).mp hab
      exact key fab (.inr hab)
    · rw [lt_iff ha hb, gt_iff hb ha, fits_comm]

/-- Three weeks, a month and a year are in order. -/
theorem lawful_year : Lawful ⟨3, .weeks⟩ ⟨1, .months⟩ ⟨1, .years⟩ :=
  (lawful_iff rfl rfl rfl).mpr (by decide)

/-- **Undecidable comparisons break transitivity**: 364 days are before a year, a year is before 13 months, and 364 days
and 13 months are undecidable; and 12 months are a year, a year is before 367 days, and 12 months and 367 days are
undecidable. -/
theorem not_transitive :
    (lt ⟨364, .days⟩ ⟨1, .years⟩ ∧ lt ⟨1, .years⟩ ⟨13, .months⟩ ∧ partialCmp32 ⟨364, .days⟩ ⟨13, .months⟩ = some none) ∧
    (eq ⟨12, .months⟩ ⟨1, .years⟩ ∧ lt ⟨1, .years⟩ ⟨367, .days⟩ ∧
      partialCmp32 ⟨12, .months⟩ ⟨367, .days⟩ = some none) ∧
    ¬ Lawful ⟨364, .days⟩ ⟨1, .years⟩ ⟨13, .months⟩ ∧ ¬ Lawful ⟨12, .months⟩ ⟨1, .years⟩ ⟨367, .days⟩ := by
  refine ⟨by decide, by decide, fun h => ?_, fun h => ?_⟩
  · exact absurd (h.lt_trans (by decide) (by decide)) (by decide)
  · exact absurd (h.eq_lt (by decide) (by decide)) (by decide)

end Period
end Itofin
