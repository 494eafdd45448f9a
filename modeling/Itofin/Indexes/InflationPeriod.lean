import Itofin.InterestRate
import Itofin.Math.Optimization
import Itofin.Time.Advance
/-!
# InflationPeriod — the blocks of months that one figure is for

`inflation_period` of `indexes/inflationindex.rs`.  The periods of a frequency are numbered through the years
(`periodIndex`), and a date lies between the ends of a period exactly when it has the same number
(`inflationPeriod_spec`), so that the periods tile the calendar.
-/
namespace Itofin

/-- `Display` -/
def Frequency.display : Frequency → String
  | noFrequency      => "No-Frequency"
  | once             => "Once"
  | annual           => "Annual"
  | semiannual       => "Semiannual"
  | everyFourthMonth => "Every-Fourth-Month"
  | quarterly        => "Quarterly"
  | bimonthly        => "Bimonthly"
  | monthly          => "Monthly"
  | everyFourthWeek  => "Every-fourth-week"
  | biweekly         => "Biweekly"
  | weekly           => "Weekly"
  | daily            => "Daily"
  | otherFrequency   => "Unknown frequency"

/-- `Month::from_ordinal`, `Date::new`, `Date::end_of_month`: a panic where there is no such date. -/
def firstOf (month year : ℤ) : Option Date := (Month.fromOrdinal month).bind (fun m => Date.new 1 m year)

/-- The first and the last month of the block of a month. -/
def periodMonths (month : ℤ) (frequency : Frequency) : Except Stop (ℤ × ℤ) :=
  match frequency with
  | .annual | .semiannual | .everyFourthMonth | .quarterly | .bimonthly =>
    let nMonths := 12 / frequency.toInt
    let start := month - (month - 1) % nMonths
    .ok (start, start + nMonths - 1)
  | .monthly => .ok (month, month)
  | _        => .error (.error ("frequency not handled: " ++ frequency.display))

/-- `inflation_period`; the null date has no month. -/
def inflationPeriod (date : Date) (frequency : Frequency) : Except Stop (Date × Date) :=
  if date = Date.null then .error .panic
  else (periodMonths date.month.ordinal frequency).bind fun (startMonth, endMonth) =>
    match firstOf startMonth date.year, (firstOf endMonth date.year).bind Date.endOfMonth with
    | some first, some last => .ok (first, last)
    | _, _                  => .error .panic

namespace Inflation

open Date

/-- The frequencies that have inflation periods. -/
def Handled (frequency : Frequency) : Prop :=
  frequency ∈ [.annual, .semiannual, .everyFourthMonth, .quarterly, .bimonthly, .monthly]

instance (frequency : Frequency) : Decidable (Handled frequency) := inferInstanceAs (Decidable (_ ∈ _))

/-- The months of a period. -/
def monthsOf (frequency : Frequency) : ℤ := 12 / frequency.toInt

/-- The number of a date's period. -/
def periodIndex (frequency : Frequency) (date : Date) : ℤ := (date.monthIndex - 1) / monthsOf frequency

variable {f : Frequency} {d d' go : Date} {i p : ℤ} {bounds bounds' : Date × Date}

theorem monthsOf_cases (h : Handled f) : monthsOf f = 12 ∨ monthsOf f = 6 ∨ monthsOf f = 4 ∨ monthsOf f = 3 ∨
    monthsOf f = 2 ∨ monthsOf f = 1 := by
  cases f <;> revert h <;> decide

theorem periodMonths_eq (h : Handled f) (month : ℤ) : periodMonths month f =
    .ok (month - (month - 1) % monthsOf f, month - (month - 1) % monthsOf f + monthsOf f - 1) := by
  cases f <;> first
    | rfl
    | exact absurd h (by decide)
    | simp [periodMonths, monthsOf, Frequency.toInt]

/-- The first and the last month of a period are in the calendar. -/
theorem period_inRange (h : Handled f) (hd : d ≠ null) :
    MonthInRange (monthsOf f * periodIndex f d + 1) ∧ MonthInRange (monthsOf f * periodIndex f d + monthsOf f) := by
  have hrange := monthIndex_inRange hd
  unfold MonthInRange at *
  unfold periodIndex
  rcases monthsOf_cases h with h | h | h | h | h | h <;> rw [h] <;> omega

/-- The ends of a period, as dates of their months. -/
structure Bounds (f : Frequency) (p : ℤ) (bounds : Date × Date) : Prop where
  first : onMonth (monthsOf f * p + 1) 1 = some bounds.1
  last : onMonth (monthsOf f * p + monthsOf f) 31 = some bounds.2

theorem firstOf_eq (h₁ : 1 ≤ i) (h₂ : i ≤ 12) (year : ℤ) : firstOf i year = onMonth (12 * year + i) 1 := by
  obtain ⟨m, hm, rfl⟩ := exists_month h₁ h₂
  have hlength := monthLength_bounds m (isLeap year)
  rw [firstOf, hm, Option.bind_some, onMonth_eq rfl, min_eq_left (by omega)]

theorem endOfMonth_onMonth (h : onMonth i 1 = some d) : d.endOfMonth = onMonth i 31 := by
  obtain ⟨hd, rfl, -⟩ := onMonth_eq_some.1 h
  have hlength := monthLength_bounds d.month (isLeap d.year)
  have hindex : 12 * d.year + d.month.ordinal = d.monthIndex := rfl
  rw [endOfMonth, onMonth_eq hindex, min_eq_right (by omega)]

/-- **A period** has its ends in the calendar, and contains the dates of its number. -/
theorem inflationPeriod_spec (h : Handled f) (hd : d ≠ null) : ∃ bounds, inflationPeriod d f = .ok bounds ∧
    Bounds f (periodIndex f d) bounds := by
  obtain ⟨hfirst, hlast⟩ := period_inRange h hd
  obtain ⟨first, hf⟩ := (onMonth_isSome (show (1 : ℤ) ≤ 1 from le_rfl)).2 hfirst
  obtain ⟨last, hl⟩ := (onMonth_isSome (show (1 : ℤ) ≤ 31 by decide)).2 hlast
  obtain ⟨last₁, hl₁⟩ := (onMonth_isSome (show (1 : ℤ) ≤ 1 from le_rfl)).2 hlast
  refine ⟨(first, last), ?_, hf, hl⟩
  have hend := endOfMonth_onMonth hl₁
  have hm := d.month.ordinal_bounds
  have hindex : d.monthIndex = 12 * d.year + d.month.ordinal := rfl
  -- the blocks are aligned to January
  have hblock : d.month.ordinal - (d.month.ordinal - 1) % monthsOf f = monthsOf f * periodIndex f d + 1 - 12 * d.year := by
    unfold periodIndex
    rcases monthsOf_cases h with hn | hn | hn | hn | hn | hn <;> rw [hn, hindex] <;> omega
  have hbounds : 1 ≤ monthsOf f * periodIndex f d + 1 - 12 * d.year ∧
      monthsOf f * periodIndex f d + monthsOf f - 12 * d.year ≤ 12 ∧ 1 ≤ monthsOf f := by
    unfold periodIndex
    rcases monthsOf_cases h with hn | hn | hn | hn | hn | hn <;> rw [hn, hindex] <;> omega
  unfold inflationPeriod
  rw [if_neg hd, periodMonths_eq h, hblock]
  change (match firstOf _ d.year, (firstOf _ d.year).bind Date.endOfMonth with
    | some first, some last => Except.ok (first, last)
    | _, _                  => .error Stop.panic) = _
  rw [firstOf_eq hbounds.1 (by omega), firstOf_eq (by omega) (by omega),
    show 12 * d.year + (monthsOf f * periodIndex f d + 1 - 12 * d.year) = monthsOf f * periodIndex f d + 1 by omega,
    show 12 * d.year + (monthsOf f * periodIndex f d + 1 - 12 * d.year + monthsOf f - 1) =
      monthsOf f * periodIndex f d + monthsOf f by omega, hf, hl₁, Option.bind_some, hend, hl]

/-- A date is between the ends exactly when it has the number of the period. -/
theorem Bounds.mem_iff (h : Handled f) (hb : Bounds f p bounds) (hgo : go ≠ null) :
    bounds.1 ≤ go ∧ go ≤ bounds.2 ↔ periodIndex f go = p := by
  have hfirst := onMonth_eq_some.1 hb.first
  have hlast := onMonth_eq_some.1 hb.last
  have hself : onMonth go.monthIndex go.dayOfMonth = some go :=
    onMonth_eq_some.2 ⟨hgo, rfl, (min_eq_left (day_spec hgo).2).symm⟩
  have hday := day_spec hgo
  have hlength := monthLength_bounds go.month (isLeap go.year)
  constructor
  · rintro ⟨hle, hge⟩
    have hmono := monthIndex_mono hle
    have hmono' := monthIndex_mono hge
    rw [hfirst.2.1] at hmono
    rw [hlast.2.1] at hmono'
    unfold periodIndex
    rcases monthsOf_cases h with hm | hm | hm | hm | hm | hm <;> rw [hm] at hmono hmono' ⊢ <;> omega
  · intro hp
    have hindex : monthsOf f * p + 1 ≤ go.monthIndex ∧ go.monthIndex ≤ monthsOf f * p + monthsOf f := by
      subst hp
      unfold periodIndex
      rcases monthsOf_cases h with hm | hm | hm | hm | hm | hm <;> rw [hm] <;> omega
    exact ⟨onMonth_mono (by omega) hb.first hself, onMonth_mono (by omega) hself hb.last⟩

/-! ### The order of the periods -/

theorem periodIndex_mono (h : Handled f) (hle : d ≤ d') : periodIndex f d ≤ periodIndex f d' := by
  have hmono := monthIndex_mono hle
  unfold periodIndex
  rcases monthsOf_cases h with hm | hm | hm | hm | hm | hm <;> rw [hm] <;> omega

theorem Bounds.first_ne (hb : Bounds f p bounds) : bounds.1 ≠ null := (onMonth_eq_some.1 hb.first).1

theorem Bounds.first_le_iff (h : Handled f) (hb : Bounds f p bounds) (hd : d ≠ null) :
    bounds.1 ≤ d ↔ p ≤ periodIndex f d := by
  obtain ⟨own, -, hown⟩ := inflationPeriod_spec h hd
  have hmem := (hown.mem_iff h hd).2 rfl
  have hfirst := onMonth_eq_some.1 hb.first
  constructor
  · intro hle
    have hmono := monthIndex_mono hle
    rw [hfirst.2.1] at hmono
    unfold periodIndex
    rcases monthsOf_cases h with hm | hm | hm | hm | hm | hm <;> rw [hm] at hmono ⊢ <;> omega
  · intro hp
    have hstart : monthsOf f * p + 1 < monthsOf f * periodIndex f d + 1 ∨
        monthsOf f * p + 1 = monthsOf f * periodIndex f d + 1 ∧ (1 : ℤ) ≤ 1 := by
      rcases monthsOf_cases h with hm | hm | hm | hm | hm | hm <;> rw [hm] <;> omega
    exact (onMonth_mono hstart hb.first hown.first).trans hmem.1

theorem Bounds.periodIndex_first (h : Handled f) (hb : Bounds f p bounds) : periodIndex f bounds.1 = p := by
  have hfirst := (onMonth_eq_some.1 hb.first).2.1
  unfold periodIndex
  rcases monthsOf_cases h with hm | hm | hm | hm | hm | hm <;> rw [hm] at hfirst ⊢ <;> omega

theorem Bounds.first_le_last (h : Handled f) (hb : Bounds f p bounds) : bounds.1 ≤ bounds.2 :=
  ((hb.mem_iff h hb.first_ne).2 (hb.periodIndex_first h)).2

theorem Bounds.last_lt_iff (h : Handled f) (hb : Bounds f p bounds) (hd : d ≠ null) :
    bounds.2 < d ↔ p < periodIndex f d := by
  have hmem := hb.mem_iff h hd
  have hfirst := hb.first_le_iff h hd
  have hle := hb.first_le_last h
  constructor
  · intro hlt
    have hp := hfirst.1 (hle.trans hlt.le)
    exact lt_of_le_of_ne hp fun heq => absurd (hmem.2 heq.symm).2 (not_le.2 hlt)
  · intro hlt
    by_contra hnot
    exact absurd (hmem.1 ⟨hfirst.2 hlt.le, not_lt.1 hnot⟩) hlt.ne'

theorem Bounds.unique (hb : Bounds f p bounds) (hb' : Bounds f p bounds') : bounds = bounds' :=
  Prod.ext (Option.some.inj (hb.first.symm.trans hb'.first)) (Option.some.inj (hb.last.symm.trans hb'.last))

theorem bounds_of_ok (h : Handled f) (hok : inflationPeriod d f = .ok bounds) :
    d ≠ null ∧ Bounds f (periodIndex f d) bounds := by
  have hd : d ≠ null := by
    rintro rfl
    exact absurd hok nofun
  obtain ⟨own, hown, hb⟩ := inflationPeriod_spec h hd
  rw [hown, Except.ok.injEq] at hok
  exact ⟨hd, hok ▸ hb⟩

/-- **Two dates have one period** exactly when they have one number. -/
theorem inflationPeriod_eq_iff (h : Handled f) (hd : d ≠ null) (hd' : d' ≠ null) :
    inflationPeriod d f = inflationPeriod d' f ↔ periodIndex f d = periodIndex f d' := by
  obtain ⟨bounds, hbounds, hb⟩ := inflationPeriod_spec h hd
  obtain ⟨bounds', hbounds', hb'⟩ := inflationPeriod_spec h hd'
  rw [hbounds, hbounds', Except.ok.injEq]
  constructor
  · rintro rfl
    rw [← hb.periodIndex_first h, hb'.periodIndex_first h]
  · intro hp
    rw [hp] at hb
    exact hb.unique hb'

end Inflation
end Itofin
