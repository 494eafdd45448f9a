import Mathlib.Algebra.BigOperators.Field
import Mathlib.Algebra.BigOperators.Intervals
import Mathlib.Algebra.Field.Rat
import Mathlib.Tactic.FieldSimp
import Mathlib.Tactic.Ring
import Itofin.Lib.Effect
import Itofin.Time.Adjustment
import Itofin.Time.Holidays
/-!
# OvernightIndexedCouponPricer — compounding overnight fixings

The schedule of an overnight coupon and the pricer that compounds its fixings, in exact arithmetic.  The index is given by
what it reads: its calendar and day counter, the evaluation date, the fixings stored, its forecasts and its curve.

The four parts of `compute` (past fixings, today's, a discount ratio, forecasts one by one) multiply the daily growth
factors of consecutive ranges of periods.  The ratio is the product of the daily factors of its range (`prod_forward`), but
for a last period that accrues to less than its value date (`compute_compounds_iff`).
-/
namespace Itofin

open Rolling Effect

inductive OvernightError where
  /-- "degenerate schedule" -/
  | degenerateSchedule
  /-- "no evaluation date set: an overnight coupon needs a reference date" -/
  | noEvaluationDate
  /-- "no evaluation date set: an index fixing needs a reference date" -/
  | noFixingReference
  /-- "{fixing_date:?} is not a valid fixing date" -/
  | notFixingDate (fixingDate : Date)
  /-- "Fixing date {fixing_date:?} is not valid" -/
  | invalidFixingDate (fixingDate : Date)
  /-- "Missing {} fixing for {:?}" -/
  | missingFixing (name : String) (fixingDate : Date)
  /-- "null term structure set to this instance of {}" -/
  | nullTermStructure (name : String)
  /-- What the curve or a forecast reports. -/
  | other (text : String)
deriving DecidableEq

/-- What the pricer asks of the forwarding curve. -/
structure ForwardingCurve (K : Type) where
  checkRangeDate : Date → Except OvernightError Unit
  discountDate   : Date → Except OvernightError K

structure OvernightIndex (K : Type) where
  name                          : String
  fixingCalendar                : Calendar
  yearFraction                  : Date → Date → K
  evaluationDate                : Option Date
  enforcesTodaysHistoricFixings : Bool
  storedFixing                  : Date → Option K
  forecastFixing                : Date → Except OvernightError K
  forwardingTermStructure       : Option (ForwardingCurve K)

namespace OvernightIndex

variable {K : Type} (self : OvernightIndex K)

def isValidFixingDate (fixingDate : Date) : Bool := self.fixingCalendar.isBusinessDay fixingDate

def pastFixing (fixingDate : Date) : Except OvernightError (Option K) :=
  if self.isValidFixingDate fixingDate then .ok (self.storedFixing fixingDate) else .error (.notFixingDate fixingDate)

def fixing (fixingDate : Date) (forecastTodaysFixing : Bool) : Except OvernightError K :=
  if self.isValidFixingDate fixingDate then
    match self.evaluationDate with
    | none       => .error .noFixingReference
    | some today =>
      if today < fixingDate ∨ (fixingDate = today ∧ forecastTodaysFixing) then self.forecastFixing fixingDate
      else if fixingDate < today ∨ self.enforcesTodaysHistoricFixings then
        match self.storedFixing fixingDate with
        | some rate => .ok rate
        | none      => .error (.missingFixing self.name fixingDate)
      else match self.storedFixing fixingDate with
        | some rate => .ok rate
        | none      => self.forecastFixing fixingDate
  else .error (.invalidFixingDate fixingDate)

/-- The fixing that the evaluation date and the store settle. -/
def known (today fixingDate : Date) : Option K := if fixingDate ≤ today then self.storedFixing fixingDate else none

end OvernightIndex

/-! ## The schedule -/

structure OvernightSchedule (K : Type) where
  valueDates    : List Date
  interestDates : List Date
  fixingDates   : List Date
  dt            : List K
deriving DecidableEq

namespace OvernightSchedule

variable {K : Type}

/-- A panic of the calendar is `none`. -/
def new (index : OvernightIndex K) (startDate endDate : Date) : Option (Except OvernightError (OvernightSchedule K)) :=
  (index.fixingCalendar.adjust startDate .preceding).bind fun first =>
  (index.fixingCalendar.adjust endDate .following).bind fun last =>
  (index.fixingCalendar.businessDayList first last).map fun valueDates =>
    if valueDates.length < 2 then .error .degenerateSchedule
    else
      let n := valueDates.length - 1
      let interestDates := (valueDates.set 0 startDate).set n endDate
      let dt := (List.range n).map fun i =>
        index.yearFraction (interestDates.getD i Date.null) (interestDates.getD (i + 1) Date.null)
      .ok ⟨valueDates, interestDates, valueDates.take n, dt⟩

/-- `schedule.value_dates[i]`; every index below is in range. -/
def valueDate (self : OvernightSchedule K) (i : ℕ) : Date := self.valueDates.getD i Date.null

def interestDate (self : OvernightSchedule K) (i : ℕ) : Date := self.interestDates.getD i Date.null

def fixingDate (self : OvernightSchedule K) (i : ℕ) : Date := self.fixingDates.getD i Date.null

/-- The number of periods. -/
def periods (self : OvernightSchedule K) : ℕ := self.interestDates.length - 1

/-- `accrual_end`, the last interest date. -/
def accrualEnd (self : OvernightSchedule K) : Date := self.interestDate self.periods

/-- **A schedule that was built**: the value dates go up and enclose the accrual, whose ends lie in the first and the last
period. -/
structure Built (index : OvernightIndex K) (startDate endDate : Date) (s : OvernightSchedule K) : Prop where
  pos        : 0 < s.periods
  value_lt   : ∀ i j, i < j → j ≤ s.periods → s.valueDate i < s.valueDate j
  start_ge   : s.valueDate 0 ≤ startDate
  start_lt   : startDate < s.valueDate 1
  end_gt     : s.valueDate (s.periods - 1) < endDate
  end_le     : endDate ≤ s.valueDate s.periods
  first      : s.interestDate 0 = startDate
  last       : s.interestDate s.periods = endDate
  interest   : ∀ i, 0 < i → i < s.periods → s.interestDate i = s.valueDate i
  fixing     : ∀ i, i < s.periods → s.fixingDate i = s.valueDate i
  dt_eq      : ∀ i, i < s.periods → s.dt[i]? = some (index.yearFraction (s.interestDate i) (s.interestDate (i + 1)))

variable {index : OvernightIndex K} {startDate endDate first last : Date} {valueDates : List Date}

theorem adjusted {cal : Calendar} {d r : Date} {c : BusinessDayConvention} (hc : c ≠ .unadjusted)
    (h : cal.adjust d c = some r) : d ≠ Date.null ∧ cal.isEmpty = false := by
  unfold Calendar.adjust Calendar.tryAdjust at h
  split_ifs at h with hd hempty
  · cases h
  · cases h
  · exact ⟨hd, by simpa using hempty⟩

theorem valueDates_spec (hfirst : index.fixingCalendar.adjust startDate .preceding = some first)
    (hlast : index.fixingCalendar.adjust endDate .following = some last)
    (hlist : index.fixingCalendar.businessDayList first last = some valueDates) (hlen : 2 ≤ valueDates.length) :
    (∀ i j, i < j → (hj : j < valueDates.length) → valueDates.getD i Date.null < valueDates.getD j Date.null) ∧
      valueDates.getD 0 Date.null ≤ startDate ∧ startDate < valueDates.getD 1 Date.null ∧
      valueDates.getD (valueDates.length - 2) Date.null < endDate ∧
      endDate ≤ valueDates.getD (valueDates.length - 1) Date.null := by
  obtain ⟨hstart, hempty⟩ := adjusted (by decide) hfirst
  obtain ⟨hend, -⟩ := adjusted (by decide) hlast
  rw [Calendar.adjust_preceding hstart hempty, Calendar.rollBackward_eq_some hstart] at hfirst
  rw [Calendar.adjust_following hend hempty, Calendar.rollForward_eq_some hend] at hlast
  obtain ⟨l, hl, hsorted, hmem⟩ := Calendar.listLoop_lists index.fixingCalendar.isBusinessDay last hfirst.holds.1
  obtain rfl : l = valueDates := Option.some.inj (hl.symm.trans hlist)
  have hget : ∀ i, (hi : i < l.length) → l.getD i Date.null = l[i] := fun i hi => by simp [hi]
  have hbusiness : ∀ i, (hi : i < l.length) → index.fixingCalendar.Business l[i] ∧ first ≤ l[i] ∧ l[i] ≤ last := by
    intro i hi
    obtain ⟨hb, hk⟩ := (hmem l[i]).1 (List.getElem_mem hi)
    refine ⟨(Calendar.business_iff ?_).1 hk, hb⟩
    rintro hnull
    have hle := hb.1
    rw [hnull, Date.le_iff] at hle
    have := (Date.serial_bounds hfirst.holds.1).1
    have : Date.null.serialNumber = 0 := rfl
    omega
  have hlt : ∀ i j, i < j → (hj : j < l.length) → l.getD i Date.null < l.getD j Date.null := by
    intro i j hij hj
    rw [hget i (hij.trans hj), hget j hj]
    exact List.pairwise_iff_getElem.1 hsorted i j (hij.trans hj) hj hij
  have hle : ∀ i j, i ≤ j → (hj : j < l.length) → l.getD i Date.null ≤ l.getD j Date.null := by
    intro i j hij hj
    rcases hij.eq_or_lt with rfl | hij
    · exact le_rfl
    · exact (hlt i j hij hj).le
  have hends : first ≤ last := (hbusiness 0 (by omega)).2.1.trans (hbusiness 0 (by omega)).2.2
  have hin : ∀ d, index.fixingCalendar.Business d → first ≤ d → d ≤ last → ∃ k, k < l.length ∧ l.getD k Date.null = d := by
    intro d hd hfd hdl
    obtain ⟨k, hk, hdk⟩ := List.mem_iff_getElem.1 ((hmem d).2 ⟨⟨hfd, hdl⟩, hd.2⟩)
    exact ⟨k, hk, (hget k hk).trans hdk⟩
  refine ⟨hlt, ?_, ?_, ?_, ?_⟩
  · obtain ⟨k, hk, hfk⟩ := hin first hfirst.holds le_rfl hends
    exact (hle 0 k (Nat.zero_le k) hk).trans (hfk.le.trans hfirst.le)
  · by_contra hge
    have h1 := hbusiness 1 (by omega)
    have h01 := hlt 0 1 Nat.zero_lt_one (by omega)
    rw [hget 1 (by omega)] at hge h01
    rw [hget 0 (by omega)] at h01
    exact absurd ((hfirst.le_of h1.1 (not_lt.1 hge)).trans (hbusiness 0 (by omega)).2.1) h01.not_ge
  · by_contra hge
    have hn := hbusiness (l.length - 1) (by omega)
    have hm := hbusiness (l.length - 2) (by omega)
    have hmn := hlt (l.length - 2) (l.length - 1) (by omega) (by omega)
    rw [hget (l.length - 2) (by omega)] at hge hmn
    rw [hget (l.length - 1) (by omega)] at hmn
    exact absurd (hn.2.2.trans (hlast.le_of hm.1 (not_lt.1 hge))) hmn.not_ge
  · obtain ⟨k, hk, hlk⟩ := hin last hlast.holds hends le_rfl
    exact hlast.le.trans (hlk.ge.trans (hle k (l.length - 1) (by omega) (by omega)))

/-- **What `new` builds.** -/
theorem new_built {s : OvernightSchedule K} (h : new index startDate endDate = some (.ok s)) :
    Built index startDate endDate s := by
  unfold new at h
  obtain ⟨first, hfirst, h⟩ := Option.bind_eq_some_iff.1 h
  obtain ⟨last, hlast, h⟩ := Option.bind_eq_some_iff.1 h
  obtain ⟨l, hlist, h⟩ := Option.map_eq_some_iff.1 h
  split_ifs at h with hlen
  obtain rfl := Except.ok.inj h
  obtain ⟨hlt, hstart, hstart', hend, hend'⟩ := valueDates_spec hfirst hlast hlist (not_lt.1 hlen)
  have hcount : ((l.set 0 startDate).set (l.length - 1) endDate).length - 1 = l.length - 1 := by simp
  have hpos : 0 < l.length - 1 := by omega
  have hpin : ∀ i, i < l.length → ((l.set 0 startDate).set (l.length - 1) endDate).getD i Date.null =
      if i = l.length - 1 then endDate else if i = 0 then startDate else l.getD i Date.null := by
    intro i hi
    simp only [List.getD_eq_getElem?_getD, List.getElem?_set, List.length_set, eq_comm (a := i)]
    split_ifs <;> first | rfl | omega
  refine ⟨?_, fun i j hij hj => hlt i j hij ?_, hstart, hstart', ?_, ?_, ?_, ?_, fun i hi hin => ?_, fun i hi => ?_,
    fun i hi => ?_⟩
  · rwa [periods, hcount]
  · rw [periods, hcount] at hj
    omega
  · rw [periods, hcount]
    exact hend
  · rw [periods, hcount]
    exact hend'
  · rw [interestDate, hpin 0 (by omega), if_neg hpos.ne, if_pos rfl]
  · rw [interestDate, periods, hcount, hpin _ (by omega), if_pos rfl]
  · rw [periods, hcount] at hin
    rw [interestDate, hpin i (by omega), if_neg hin.ne, if_neg hi.ne']
    rfl
  · rw [periods, hcount] at hi
    simp only [fixingDate, valueDate, List.getD_eq_getElem?_getD, List.getElem?_take_of_lt hi]
  · rw [periods, hcount] at hi
    dsimp only
    rw [List.getElem?_map, List.getElem?_range hi]
    rfl

end OvernightSchedule

/-- `determine_number_of_fixings`: the interest dates, without the last, up to the first that is not before `date`. -/
def determineNumberOfFixings (interestDates : List Date) (date : Date) : ℕ :=
  (interestDates.dropLast.takeWhile (· < date)).length

/-! ## The pricer -/

structure CompoundingOvernightIndexedCouponPricer (K : Type) where
  index               : OvernightIndex K
  schedule            : OvernightSchedule K
  gearing             : K
  spread              : K
  compoundSpreadDaily : Bool

/-- `compound_factor` and `compound_factor_without_spread`. -/
structure CompoundFactors (K : Type) where
  compoundFactor              : K
  compoundFactorWithoutSpread : K

namespace CompoundingOvernightIndexedCouponPricer

variable {K : Type} [Field K] (self : CompoundingOvernightIndexedCouponPricer K) (date : Date)

/-- The part of the period `idx` that has accrued at `date`. -/
def span (idx : ℕ) : K :=
  if self.schedule.interestDate (idx + 1) ≤ date then self.schedule.dt.getD idx 0
  else self.index.yearFraction (self.schedule.interestDate idx) date

/-- `growth_factor`, multiplied into both factors. -/
def grow (factors : CompoundFactors K) (fixing : K) (idx : ℕ) : CompoundFactors K :=
  let gf := 1 + fixing * self.span date idx
  let gfSpread := if self.compoundSpreadDaily then gf + self.spread * self.span date idx else gf
  ⟨factors.compoundFactor * gfSpread, factors.compoundFactorWithoutSpread * gf⟩

/-- `while i < n && schedule.fixing_dates[i] < today { .. }`, with `n - i` turns left. -/
def pastFixings (today : Date) : ℕ → ℕ → CompoundFactors K → Except OvernightError (ℕ × CompoundFactors K)
  | 0, i, factors        => .ok (i, factors)
  | turns + 1, i, factors =>
    if self.schedule.fixingDate i < today then
      (self.index.pastFixing (self.schedule.fixingDate i)).bind fun stored => match stored with
        | some fixing => pastFixings today turns (i + 1) (self.grow date factors fixing i)
        | none        => .error (.missingFixing self.index.name (self.schedule.fixingDate i))
    else .ok (i, factors)

/-- `if i < n && schedule.fixing_dates[i] == today && let Some(fixing) = index.past_fixing(..)? { .. }` -/
def todaysFixing (today : Date) (n i : ℕ) (factors : CompoundFactors K) : Except OvernightError (ℕ × CompoundFactors K) :=
  if i < n ∧ self.schedule.fixingDate i = today then
    (self.index.pastFixing (self.schedule.fixingDate i)).map fun stored => match stored with
      | some fixing => (i + 1, self.grow date factors fixing i)
      | none        => (i, factors)
  else .ok (i, factors)

/-- `while i < stop { let fixing = index.fixing(schedule.fixing_dates[i], false)?; .. }`, with `stop - i` turns left. -/
def forecasts : ℕ → ℕ → CompoundFactors K → Except OvernightError (CompoundFactors K)
  | 0, _, factors         => .ok factors
  | turns + 1, i, factors =>
    (self.index.fixing (self.schedule.fixingDate i) false).bind fun fixing =>
      forecasts turns (i + 1) (self.grow date factors fixing i)

/-- The discount ratio, from one value date to another. -/
def forwardGrowth (curve : ForwardingCurve K) (first last : ℕ) : Except OvernightError K :=
  (curve.discountDate (self.schedule.valueDate first)).bind fun discount =>
  (curve.discountDate (self.schedule.valueDate last)).map fun discountLast => discount / discountLast

def telescopicStart (i : ℕ) : ℕ :=
  if i = 0 ∧ self.schedule.valueDate 0 < self.schedule.interestDate 0 then 1 else i

def telescopicEnd (n : ℕ) : ℕ := n - if date < self.schedule.valueDate n then 1 else 0

/-- The periods from `i` on, whose fixings are not known. -/
def forward (n i : ℕ) (factors : CompoundFactors K) : Except OvernightError (CompoundFactors K) :=
  match self.index.forwardingTermStructure with
  | none       => .error (.nullTermStructure self.index.name)
  | some curve =>
    (curve.checkRangeDate (self.schedule.valueDate i)).bind fun _ =>
    (curve.checkRangeDate (self.schedule.valueDate n)).bind fun _ =>
      let start := self.telescopicStart i
      let stop := self.telescopicEnd date n
      if start < stop then
        (self.forecasts date (start - i) i factors).bind fun factors =>
        (self.forwardGrowth curve start stop).bind fun growth =>
          self.forecasts date (n - stop) stop
            ⟨factors.compoundFactor * growth, factors.compoundFactorWithoutSpread * growth⟩
      else self.forecasts date (n - i) i factors

/-- The two factors after the last loop of `compute`. -/
def compoundFactors (today : Date) : Except OvernightError (CompoundFactors K) :=
  let n := determineNumberOfFixings self.schedule.interestDates date
  (self.pastFixings date today n 0 ⟨1, 1⟩).bind fun (i, factors) =>
  (self.todaysFixing date today n i factors).bind fun (i, factors) =>
    if i < n then self.forward date n i factors else .ok factors

/-- The time from the accrual start to `date`, or to the interest date of the last fixing. -/
def tau : K :=
  let n := determineNumberOfFixings self.schedule.interestDates date
  self.index.yearFraction (self.schedule.interestDate 0) (min date (self.schedule.interestDate n))

/-- `swaplet_rate`, `effective_spread` and `effective_index_fixing`. -/
def compute : Except OvernightError (K × K × K) :=
  match self.index.evaluationDate with
  | none       => .error .noEvaluationDate
  | some today =>
    (self.compoundFactors date today).map fun factors =>
      let rate := (factors.compoundFactor - 1) / self.tau date
      if self.compoundSpreadDaily then
        let effectiveSpread := rate - (factors.compoundFactorWithoutSpread - 1) / self.tau date
        (self.gearing * rate, effectiveSpread, rate - effectiveSpread)
      else (self.gearing * rate + self.spread, self.spread, rate)

def averageRate : Except OvernightError K := (self.compute date).map fun rates => rates.1

def effectiveSpread : Except OvernightError K :=
  if self.compoundSpreadDaily then (self.compute self.schedule.accrualEnd).map fun rates => rates.2.1 else .ok self.spread

def effectiveIndexFixing : Except OvernightError K := (self.compute self.schedule.accrualEnd).map fun rates => rates.2.2

def swapletRate : Except OvernightError K := (self.compute self.schedule.accrualEnd).map fun rates => rates.1

/-! ## The daily growth factors -/

/-- The simple forward rate of a period, from value date to value date. -/
def forwardRate (P : Date → K) (i : ℕ) : K :=
  (P (self.schedule.valueDate i) / P (self.schedule.valueDate (i + 1)) - 1) /
    self.index.yearFraction (self.schedule.valueDate i) (self.schedule.valueDate (i + 1))

/-- The fixing of a period as the evaluation date settles it: one that is stored, or else the forward rate. -/
def dailyFixing (P : Date → K) (today : Date) (i : ℕ) : K :=
  (self.index.known today (self.schedule.valueDate i)).getD (self.forwardRate P i)

/-- The part of a period before `date`, from and to the true accrual dates. -/
def accrued (i : ℕ) : K :=
  self.index.yearFraction (self.schedule.interestDate i) (min (self.schedule.interestDate (i + 1)) date)

def dailyFactor (P : Date → K) (today : Date) (i : ℕ) : K := 1 + self.dailyFixing P today i * self.accrued date i

/-- The number of periods that begin before `date`. -/
def begun : ℕ := determineNumberOfFixings self.schedule.interestDates date

section Compounding

open Finset

variable {self date} {today startDate endDate : Date} {P : Date → K} {i j n turns : ℕ} {factors factors' : CompoundFactors K}

theorem grow_compound (hspread : self.compoundSpreadDaily = false) (fixing : K) :
    (self.grow date factors fixing i).compoundFactor = factors.compoundFactor * (1 + fixing * self.span date i) := by
  simp [grow, hspread]

theorem span_eq (hs : OvernightSchedule.Built self.index startDate endDate self.schedule) (hi : i < self.schedule.periods) :
    self.span date i = self.accrued date i := by
  unfold span accrued
  split_ifs with hle
  · rw [min_eq_left hle, List.getD_eq_getElem?_getD, hs.dt_eq i hi, Option.getD_some]
  · rw [min_eq_right (le_of_not_ge hle)]

/-- A fixing that is known goes into the daily factor of its period. -/
theorem grow_known (hs : OvernightSchedule.Built self.index startDate endDate self.schedule) (hspread : self.compoundSpreadDaily = false)
    (hi : i < self.schedule.periods) {fixing : K} (hfixing : fixing = self.dailyFixing P today i) :
    (self.grow date factors fixing i).compoundFactor = factors.compoundFactor * self.dailyFactor date P today i := by
  rw [grow_compound hspread, span_eq hs hi, hfixing, dailyFactor]

omit [Field K] in
theorem pastFixing_eq_ok {d : Date} {stored : Option K} (h : self.index.pastFixing d = .ok stored) :
    stored = self.index.storedFixing d := by
  unfold OvernightIndex.pastFixing at h
  split_ifs at h
  exact (Except.ok.inj h).symm

/-- **The past fixings** compound the daily factors of the periods before today. -/
theorem pastFixings_spec (hs : OvernightSchedule.Built self.index startDate endDate self.schedule)
    (hspread : self.compoundSpreadDaily = false) : ∀ (turns i : ℕ) {factors : CompoundFactors K}, i + turns ≤ self.schedule.periods →
    self.pastFixings date today turns i factors = .ok (j, factors') →
    i ≤ j ∧ j ≤ i + turns ∧ (j < i + turns → today ≤ self.schedule.valueDate j) ∧
      (∀ k, i ≤ k → k < j → (self.index.known today (self.schedule.valueDate k)).isSome) ∧
      factors'.compoundFactor = factors.compoundFactor * ∏ k ∈ Ico i j, self.dailyFactor date P today k
  | 0, i, factors, _, h          => by
    obtain ⟨rfl, rfl⟩ := Prod.mk.inj (Except.ok.inj h)
    exact ⟨le_rfl, le_rfl, fun h => absurd h (lt_irrefl _), fun k h₁ h₂ => absurd h₂ h₁.not_gt, by simp⟩
  | turns + 1, i, factors, hle, h => by
    rw [pastFixings, hs.fixing i (by omega)] at h
    split_ifs at h with hpast
    swap
    · obtain ⟨rfl, rfl⟩ := Prod.mk.inj (Except.ok.inj h)
      exact ⟨le_rfl, Nat.le_add_right _ _, fun _ => not_lt.1 hpast, fun k h₁ h₂ => absurd h₂ h₁.not_gt, by simp⟩
    obtain ⟨stored, hread, h⟩ := bind_eq_ok.1 h
    have hknown : self.index.known today (self.schedule.valueDate i) = stored := by
      rw [OvernightIndex.known, if_pos hpast.le, pastFixing_eq_ok hread]
    cases stored with
    | none => cases h
    | some fixing =>
      obtain ⟨h₁, h₂, h₃, h₄, h₅⟩ := pastFixings_spec hs hspread turns (i + 1) (by omega) h
      refine ⟨by omega, by omega, fun hj => h₃ (by omega), fun k hik hkj => ?_, ?_⟩
      · rcases hik.eq_or_lt with rfl | hik
        · rw [hknown]
          rfl
        · exact h₄ k hik hkj
      · have hdaily : fixing = self.dailyFixing P today i := by rw [dailyFixing, hknown, Option.getD_some]
        rw [h₅, prod_eq_prod_Ico_succ_bot (show i < j by omega), grow_known hs hspread (by omega) hdaily, mul_assoc]

/-- **Today's fixing**, when it is stored, compounds one factor more. -/
theorem todaysFixing_spec (hs : OvernightSchedule.Built self.index startDate endDate self.schedule)
    (hspread : self.compoundSpreadDaily = false) (hn : n ≤ self.schedule.periods) (hi : i ≤ n)
    (hpast : ∀ k, k < i → (self.index.known today (self.schedule.valueDate k)).isSome)
    (hrest : i < n → today ≤ self.schedule.valueDate i)
    (h : self.todaysFixing date today n i factors = .ok (j, factors')) :
    i ≤ j ∧ j ≤ n ∧ (∀ k, j ≤ k → k < n → self.index.known today (self.schedule.valueDate k) = none) ∧
      (∀ k, k < j → (self.index.known today (self.schedule.valueDate k)).isSome) ∧
      factors'.compoundFactor = factors.compoundFactor * ∏ k ∈ Ico i j, self.dailyFactor date P today k := by
  have hlater : ∀ k, i < k → k < n → self.index.known today (self.schedule.valueDate k) = none := fun k hik hkn => by
    rw [OvernightIndex.known, if_neg]
    exact not_le.2 ((hrest (hik.trans hkn)).trans_lt (hs.value_lt i k hik (hkn.le.trans hn)))
  unfold todaysFixing at h
  split_ifs at h with htoday
  · obtain ⟨hin, heq⟩ := htoday
    rw [hs.fixing i (hin.trans_le hn)] at heq h
    obtain ⟨stored, hread, h⟩ := map_eq_ok.1 h
    have hknown : self.index.known today (self.schedule.valueDate i) = stored := by
      rw [OvernightIndex.known, if_pos heq.le, pastFixing_eq_ok hread]
    cases stored with
    | none =>
      obtain ⟨rfl, rfl⟩ := Prod.mk.inj h
      refine ⟨le_rfl, hi, fun k hik hkn => ?_, hpast, by simp⟩
      rcases hik.eq_or_lt with rfl | hik
      · exact hknown
      · exact hlater k hik hkn
    | some fixing =>
      obtain ⟨rfl, rfl⟩ := Prod.mk.inj h
      refine ⟨Nat.le_succ i, hin, fun k hik hkn => hlater k hik hkn, fun k hk => ?_, ?_⟩
      · rcases (Nat.lt_succ_iff.1 hk).eq_or_lt with rfl | hk
        · rw [hknown]
          rfl
        · exact hpast k hk
      · have hdaily : fixing = self.dailyFixing P today i := by rw [dailyFixing, hknown, Option.getD_some]
        rw [grow_known hs hspread (hin.trans_le hn) hdaily, Nat.Ico_succ_singleton, prod_singleton]
  · obtain ⟨rfl, rfl⟩ := Prod.mk.inj (Except.ok.inj h)
    refine ⟨le_rfl, hi, fun k hik hkn => ?_, hpast, by simp⟩
    rcases hik.eq_or_lt with rfl | hik
    · rw [hs.fixing i (hkn.trans_le hn)] at htoday
      rw [OvernightIndex.known, if_neg]
      exact not_le.2 (lt_of_le_of_ne (hrest hkn) fun heq => htoday ⟨hkn, heq.symm⟩)
    · exact hlater k hik hkn

theorem prod_ratio (f : ℕ → K) {a b : ℕ} (hab : a ≤ b) (hf : ∀ k, a ≤ k → k ≤ b → f k ≠ 0) :
    ∏ k ∈ Ico a b, f k / f (k + 1) = f a / f b := by
  induction b, hab using Nat.le_induction with
  | base => rw [Ico_self, prod_empty, div_self (hf a le_rfl le_rfl)]
  | succ b hab ih =>
    rw [prod_Ico_succ_top hab, ih fun k h₁ h₂ => hf k h₁ (h₂.trans b.le_succ)]
    exact div_mul_div_cancel₀ (hf b hab b.le_succ)

/-- The assumptions on the curve: future fixings are its simple forward rates. -/
structure Forwards (pricer : CompoundingOvernightIndexedCouponPricer K) (P : Date → K) : Prop where
  discount_ne : ∀ i, i ≤ pricer.schedule.periods → P (pricer.schedule.valueDate i) ≠ 0
  fraction_ne : ∀ i, i < pricer.schedule.periods →
    pricer.index.yearFraction (pricer.schedule.valueDate i) (pricer.schedule.valueDate (i + 1)) ≠ 0
  discount    : ∀ curve, pricer.index.forwardingTermStructure = some curve → ∀ i, i ≤ pricer.schedule.periods →
    ∀ discount, curve.discountDate (pricer.schedule.valueDate i) = .ok discount → discount = P (pricer.schedule.valueDate i)
  forecast    : ∀ i, i < pricer.schedule.periods →
    ∀ rate, pricer.index.forecastFixing (pricer.schedule.valueDate i) = .ok rate → rate = pricer.forwardRate P i

/-- The growth from a value date to the next. -/
def ratio (self : CompoundingOvernightIndexedCouponPricer K) (P : Date → K) (i : ℕ) : K :=
  P (self.schedule.valueDate i) / P (self.schedule.valueDate (i + 1))

/-- A period that accrues from value date to value date grows by the discount ratio. -/
theorem dailyFactor_eq_ratio (hP : Forwards self P) (hi : i < self.schedule.periods)
    (hknown : self.index.known today (self.schedule.valueDate i) = none)
    (hfirst : self.schedule.interestDate i = self.schedule.valueDate i)
    (hlast : self.schedule.interestDate (i + 1) = self.schedule.valueDate (i + 1))
    (hdate : self.schedule.valueDate (i + 1) ≤ date) : self.dailyFactor date P today i = self.ratio P i := by
  rw [dailyFactor, dailyFixing, hknown, Option.getD_none, accrued, hlast, min_eq_left hdate, hfirst, forwardRate,
    div_mul_cancel₀ _ (hP.fraction_ne i hi), add_sub_cancel, ratio]

theorem fixing_eq_ok (hP : Forwards self P) (htoday : self.index.evaluationDate = some today)
    (hi : i < self.schedule.periods) (hknown : self.index.known today (self.schedule.valueDate i) = none) {rate : K}
    (h : self.index.fixing (self.schedule.valueDate i) false = .ok rate) : rate = self.dailyFixing P today i := by
  rw [dailyFixing, hknown, Option.getD_none]
  have hforecast := hP.forecast i hi rate
  unfold OvernightIndex.known at hknown
  unfold OvernightIndex.fixing at h
  simp only [htoday] at h
  split_ifs at h with hvalid hlater hpast
  · exact hforecast h
  · rw [if_pos (not_lt.1 fun hlt => hlater (.inl hlt))] at hknown
    rw [hknown] at h
    cases h
  · rw [if_pos (not_lt.1 fun hlt => hlater (.inl hlt))] at hknown
    rw [hknown] at h
    exact hforecast h

/-- **The forecasts** compound the daily factors of their periods. -/
theorem forecasts_spec (hs : OvernightSchedule.Built self.index startDate endDate self.schedule) (hspread : self.compoundSpreadDaily = false)
    (hP : Forwards self P) (htoday : self.index.evaluationDate = some today) :
    ∀ (turns i : ℕ) {factors : CompoundFactors K}, i + turns ≤ self.schedule.periods →
    (∀ k, i ≤ k → k < i + turns → self.index.known today (self.schedule.valueDate k) = none) →
    self.forecasts date turns i factors = .ok factors' →
    factors'.compoundFactor = factors.compoundFactor * ∏ k ∈ Ico i (i + turns), self.dailyFactor date P today k
  | 0, i, factors, _, _, h               => by
    obtain rfl := Except.ok.inj h
    simp
  | turns + 1, i, factors, hle, hknown, h => by
    rw [forecasts, hs.fixing i (by omega)] at h
    obtain ⟨rate, hread, h⟩ := bind_eq_ok.1 h
    have hrate := fixing_eq_ok hP htoday (by omega) (hknown i le_rfl (by omega)) hread
    have hrest := forecasts_spec hs hspread hP htoday turns (i + 1) (by omega)
      (fun k h₁ h₂ => hknown k (by omega) (by omega)) h
    rw [hrest, grow_known hs hspread (by omega) hrate, prod_eq_prod_Ico_succ_bot (show i < i + (turns + 1) by omega),
      mul_assoc, Nat.add_right_comm i 1 turns, Nat.add_assoc]

theorem forwardGrowth_eq_ok (hP : Forwards self P) {curve : ForwardingCurve K}
    (hcurve : self.index.forwardingTermStructure = some curve) {first last : ℕ} (hfirst : first ≤ self.schedule.periods)
    (hlast : last ≤ self.schedule.periods) {growth : K} (h : self.forwardGrowth curve first last = .ok growth) :
    growth = P (self.schedule.valueDate first) / P (self.schedule.valueDate last) := by
  unfold forwardGrowth at h
  obtain ⟨discount, h₁, h⟩ := bind_eq_ok.1 h
  obtain ⟨discountLast, h₂, rfl⟩ := map_eq_ok.1 h
  rw [hP.discount curve hcurve first hfirst discount h₁, hP.discount curve hcurve last hlast discountLast h₂]

/-- The interest dates before `date` are the first ones. -/
theorem takeWhile_spec (date : Date) : ∀ l : List Date,
    (∀ k, k < (l.takeWhile (· < date)).length → l.getD k Date.null < date) ∧
      ((l.takeWhile (· < date)).length < l.length → date ≤ l.getD (l.takeWhile (· < date)).length Date.null)
  | []     => ⟨nofun, nofun⟩
  | d :: l => by
    obtain ⟨h₁, h₂⟩ := takeWhile_spec date l
    by_cases hd : d < date
    · rw [List.takeWhile_cons_of_pos (by simpa using hd)]
      refine ⟨fun k hk => ?_, fun hlen => h₂ (Nat.lt_of_succ_lt_succ hlen)⟩
      cases k with
      | zero   => exact hd
      | succ k => exact h₁ k (Nat.lt_of_succ_lt_succ hk)
    · rw [List.takeWhile_cons_of_neg (by simpa using hd)]
      exact ⟨nofun, fun _ => not_lt.1 hd⟩

omit [Field K] in
/-- **The number of fixings** counts the periods that begin before `date`. -/
theorem begun_spec : self.begun date ≤ self.schedule.periods ∧
    (∀ k, k < self.begun date → self.schedule.interestDate k < date) ∧
      (self.begun date < self.schedule.periods → date ≤ self.schedule.interestDate (self.begun date)) := by
  obtain ⟨h₁, h₂⟩ := takeWhile_spec date self.schedule.interestDates.dropLast
  have hlen : self.schedule.interestDates.dropLast.length = self.schedule.periods := List.length_dropLast
  have hle : self.begun date ≤ self.schedule.periods := hlen ▸ (List.takeWhile_prefix _).length_le
  have hget : ∀ k, k < self.schedule.periods →
      self.schedule.interestDates.dropLast.getD k Date.null = self.schedule.interestDate k := by
    intro k hk
    unfold OvernightSchedule.periods at hk
    rw [OvernightSchedule.interestDate, List.getD_eq_getElem?_getD, List.getD_eq_getElem?_getD, List.getElem?_dropLast, if_pos hk]
  refine ⟨hle, fun k hk => ?_, fun hlt => ?_⟩
  · rw [← hget k (hk.trans_le hle)]
    exact h₁ k hk
  · rw [← hget _ hlt]
    exact h₂ (hlen ▸ hlt)

/-- The discount ratio takes the last period past the accrual end. -/
def Overshoots (self : CompoundingOvernightIndexedCouponPricer K) (date : Date) (start : ℕ) : Prop :=
  self.schedule.valueDate self.schedule.periods ≤ date ∧
    self.schedule.accrualEnd ≠ self.schedule.valueDate self.schedule.periods ∧ start < self.schedule.periods

instance (start : ℕ) : Decidable (self.Overshoots date start) := inferInstanceAs (Decidable (_ ∧ _ ∧ _))

/-- What `compute` multiplies in for a period that is still to be fixed. -/
def forwardFactor (self : CompoundingOvernightIndexedCouponPricer K) (date : Date) (P : Date → K) (today : Date) (i k : ℕ) : K :=
  if self.Overshoots date (self.telescopicStart i) ∧ k + 1 = self.schedule.periods then self.ratio P k
  else self.dailyFactor date P today k

/-- **The telescoped range.** -/
theorem prod_forward (hs : OvernightSchedule.Built self.index startDate endDate self.schedule) (hP : Forwards self P) (hn : n = self.begun date)
    (hknown : ∀ k, i ≤ k → k < n → self.index.known today (self.schedule.valueDate k) = none)
    (hlt : self.telescopicStart i < self.telescopicEnd date n) :
    ∏ k ∈ Ico (self.telescopicStart i) (self.telescopicEnd date n), self.forwardFactor date P today i k =
      P (self.schedule.valueDate (self.telescopicStart i)) / P (self.schedule.valueDate (self.telescopicEnd date n)) := by
  obtain ⟨hle, hbefore, -⟩ := hn ▸ @begun_spec K self date
  have hstop : self.telescopicEnd date n ≤ n := Nat.sub_le _ _
  have hstart : i ≤ self.telescopicStart i := by
    unfold telescopicStart
    split_ifs <;> omega
  have hratio : ∀ k ∈ Ico (self.telescopicStart i) (self.telescopicEnd date n),
      self.forwardFactor date P today i k = self.ratio P k := by
    intro k hk
    obtain ⟨hk₁, hk₂⟩ := mem_Ico.1 hk
    have hkn : k < self.schedule.periods := by omega
    unfold forwardFactor
    split_ifs with hover
    · rfl
    have hfirst : self.schedule.interestDate k = self.schedule.valueDate k := by
      rcases Nat.eq_zero_or_pos k with rfl | hpos
      · unfold telescopicStart at hk₁
        split_ifs at hk₁ with h0
        · omega
        · have hge := not_lt.1 fun hlt => h0 ⟨by omega, hlt⟩
          exact le_antisymm hge (hs.first ▸ hs.start_ge)
      · exact hs.interest k hpos hkn
    have hend : k + 1 = n → self.schedule.valueDate n ≤ date := by
      intro hkn
      by_contra hdate
      unfold telescopicEnd at hk₂
      rw [if_pos (not_le.1 hdate)] at hk₂
      omega
    rcases (Nat.succ_le_of_lt hkn).eq_or_lt with hlast | hinner
    · -- the last period of the schedule, which the ratio overshoots unless it ends on a value date
      have hkn' : k + 1 = n := by omega
      have hdate : self.schedule.valueDate (k + 1) ≤ date := hkn' ▸ hend hkn'
      refine dailyFactor_eq_ratio hP hkn (hknown k (by omega) (by omega)) hfirst ?_ hdate
      by_contra hne
      have hlast' : self.schedule.periods = k + 1 := hlast.symm
      exact hover ⟨⟨hlast' ▸ hdate, by rw [OvernightSchedule.accrualEnd, hlast']; exact hne, by omega⟩, hlast⟩
    · have hlast := hs.interest (k + 1) (Nat.succ_pos k) hinner
      refine dailyFactor_eq_ratio hP hkn (hknown k (by omega) (by omega)) hfirst hlast ?_
      rcases (show k + 1 ≤ n by omega).eq_or_lt with hkn' | hkn'
      · exact hkn' ▸ hend hkn'
      · exact hlast ▸ (hbefore (k + 1) hkn').le
  rw [prod_congr rfl hratio]
  exact prod_ratio (fun k => P (self.schedule.valueDate k)) hlt.le fun k _ hk => hP.discount_ne k (by omega)

theorem forwardFactor_eq_daily {k : ℕ}
    (h : self.Overshoots date (self.telescopicStart i) → k + 1 ≠ self.schedule.periods) :
    self.forwardFactor date P today i k = self.dailyFactor date P today k :=
  if_neg fun ⟨hover, hk⟩ => h hover hk

/-- **The periods still to be fixed** compound their factors. -/
theorem forward_spec (hs : OvernightSchedule.Built self.index startDate endDate self.schedule) (hspread : self.compoundSpreadDaily = false)
    (hP : Forwards self P) (htoday : self.index.evaluationDate = some today) (hn : n = self.begun date) (hi : i < n)
    (hknown : ∀ k, i ≤ k → k < n → self.index.known today (self.schedule.valueDate k) = none)
    (h : self.forward date n i factors = .ok factors') :
    factors'.compoundFactor = factors.compoundFactor * ∏ k ∈ Ico i n, self.forwardFactor date P today i k := by
  have hle : n ≤ self.schedule.periods := hn ▸ begun_spec.1
  have hstop : self.telescopicEnd date n ≤ n := Nat.sub_le _ _
  have hstart : i ≤ self.telescopicStart i := by
    unfold telescopicStart
    split_ifs <;> omega
  unfold forward at h
  cases hcurve : self.index.forwardingTermStructure with
  | none => rw [hcurve] at h; cases h
  | some curve =>
    rw [hcurve] at h
    obtain ⟨-, -, h⟩ := bind_eq_ok.1 h
    obtain ⟨-, -, h⟩ := bind_eq_ok.1 h
    dsimp only at h
    split_ifs at h with hlt
    · obtain ⟨head, hhead, h⟩ := bind_eq_ok.1 h
      obtain ⟨growth, hgrowth, h⟩ := bind_eq_ok.1 h
      have hfirst := forecasts_spec hs hspread hP htoday _ i (by omega)
        (fun k hk₁ hk₂ => hknown k hk₁ (by omega)) hhead
      have hrest := forecasts_spec hs hspread hP htoday _ (self.telescopicEnd date n) (by omega)
        (fun k hk₁ hk₂ => hknown k (by omega) (by omega)) h
      rw [Nat.add_sub_cancel' hstart] at hfirst
      rw [Nat.add_sub_cancel' hstop] at hrest
      have hhead' : ∏ k ∈ Ico i (self.telescopicStart i), self.dailyFactor date P today k =
          ∏ k ∈ Ico i (self.telescopicStart i), self.forwardFactor date P today i k := by
        refine prod_congr rfl fun k hk => (forwardFactor_eq_daily fun _ => ?_).symm
        have := (mem_Ico.1 hk).2
        omega
      -- a partial last period is not overshot
      have htail' : ∏ k ∈ Ico (self.telescopicEnd date n) n, self.dailyFactor date P today k =
          ∏ k ∈ Ico (self.telescopicEnd date n) n, self.forwardFactor date P today i k := by
        refine prod_congr rfl fun k hk => (forwardFactor_eq_daily fun hover hlast => ?_).symm
        obtain ⟨hk₁, hk₂⟩ := mem_Ico.1 hk
        obtain rfl : n = self.schedule.periods := by omega
        rw [telescopicEnd, if_neg hover.1.not_gt] at hk₁
        omega
      rw [hrest, hfirst, forwardGrowth_eq_ok hP hcurve (by omega) (by omega) hgrowth, hhead', htail',
        ← prod_forward hs hP hn hknown hlt, mul_assoc, mul_assoc, prod_Ico_consecutive _ hlt.le hstop,
        prod_Ico_consecutive _ hstart (hlt.le.trans hstop)]
    · have hall := forecasts_spec hs hspread hP htoday _ i (by omega) (fun k hk₁ hk₂ => hknown k hk₁ (by omega)) h
      rw [Nat.add_sub_cancel' hi.le] at hall
      rw [hall]
      refine congrArg _ (prod_congr rfl fun k hk => (forwardFactor_eq_daily fun hover hlast => hlt ?_).symm)
      obtain rfl : n = self.schedule.periods := by
        have := (mem_Ico.1 hk).2
        omega
      rw [telescopicEnd, if_neg hover.1.not_gt]
      exact hover.2.2

/-- **What is compounded**: the daily factors of the periods that are fixed, then those of the periods that are not. -/
theorem compoundFactors_spec (hs : OvernightSchedule.Built self.index startDate endDate self.schedule)
    (hspread : self.compoundSpreadDaily = false) (hP : Forwards self P) (htoday : self.index.evaluationDate = some today)
    (h : self.compoundFactors date today = .ok factors) :
    ∃ i, i ≤ self.begun date ∧ (∀ k, k < i → (self.index.known today (self.schedule.valueDate k)).isSome) ∧
      (∀ k, i ≤ k → k < self.begun date → self.index.known today (self.schedule.valueDate k) = none) ∧
      factors.compoundFactor = (∏ k ∈ Ico 0 i, self.dailyFactor date P today k) *
        ∏ k ∈ Ico i (self.begun date), self.forwardFactor date P today i k := by
  have hle : self.begun date ≤ self.schedule.periods := begun_spec.1
  unfold compoundFactors at h
  obtain ⟨p, hpast, h⟩ := bind_eq_ok.1 h
  obtain ⟨q, htodays, h⟩ := bind_eq_ok.1 h
  change self.todaysFixing date today (self.begun date) p.1 p.2 = .ok q at htodays
  change (if q.1 < self.begun date then self.forward date (self.begun date) q.1 q.2 else .ok q.2) = .ok factors at h
  obtain ⟨-, hp₂, hp₃, hp₄, hp₅⟩ := pastFixings_spec (P := P) hs hspread (self.begun date) 0 (by omega) hpast
  rw [Nat.zero_add] at hp₂ hp₃
  have hfixed : ∀ k, k < p.1 → (self.index.known today (self.schedule.valueDate k)).isSome := fun k hk =>
    hp₄ k (Nat.zero_le k) hk
  obtain ⟨hq₁, hq₂, hq₃, hq₄, hq₅⟩ := todaysFixing_spec (P := P) hs hspread hle hp₂ hfixed hp₃ htodays
  have hprefix : q.2.compoundFactor = ∏ k ∈ Ico 0 q.1, self.dailyFactor date P today k := by
    rw [hq₅, hp₅, one_mul, prod_Ico_consecutive _ (Nat.zero_le _) hq₁]
  refine ⟨q.1, hq₂, hq₄, hq₃, ?_⟩
  split_ifs at h with hlt
  · rw [forward_spec hs hspread hP htoday rfl hlt hq₃ h, hprefix]
  · rw [← Except.ok.inj h, hprefix, Ico_eq_empty_of_le (not_lt.1 hlt), prod_empty, mul_one]

/-- The last period is among those that the ratio covers, and it accrues to less than its value date. -/
def LastOvershot (self : CompoundingOvernightIndexedCouponPricer K) (date today : Date) : Prop :=
  self.schedule.valueDate self.schedule.periods ≤ date ∧
    self.schedule.accrualEnd ≠ self.schedule.valueDate self.schedule.periods ∧
    self.index.known today (self.schedule.valueDate (self.schedule.periods - 1)) = none ∧
    ¬ (self.schedule.periods = 1 ∧ self.schedule.valueDate 0 < self.schedule.interestDate 0)

/-- **The compound factor is the product of the daily growth factors, but for an overshot last period.** -/
theorem compoundFactors_eq_iff (hs : OvernightSchedule.Built self.index startDate endDate self.schedule)
    (hspread : self.compoundSpreadDaily = false) (hP : Forwards self P) (htoday : self.index.evaluationDate = some today)
    (h : self.compoundFactors date today = .ok factors) :
    factors.compoundFactor = ∏ k ∈ range (self.begun date), self.dailyFactor date P today k ↔
      (self.LastOvershot date today →
        (∃ k, k < self.schedule.periods - 1 ∧ self.dailyFactor date P today k = 0) ∨
          self.ratio P (self.schedule.periods - 1) = self.dailyFactor date P today (self.schedule.periods - 1)) := by
  obtain ⟨i, hi, hfixed, hknown, hfactor⟩ := compoundFactors_spec hs hspread hP htoday h
  obtain ⟨hle, hbefore, hafter⟩ := @begun_spec K self date
  have hpos := hs.pos
  rw [range_eq_Ico, hfactor]
  by_cases hlast : self.LastOvershot date today
  · rw [forall_prop_of_true hlast]
    obtain ⟨hdate, hend, hnone, hsingle⟩ := hlast
    have hcount : self.begun date = self.schedule.periods := by
      refine hle.eq_or_lt.resolve_right fun hlt => ?_
      have hlt' : self.schedule.interestDate (self.begun date) < self.schedule.valueDate self.schedule.periods := by
        rcases Nat.eq_zero_or_pos (self.begun date) with hzero | hbegun
        · rw [hzero, hs.first]
          apply hs.start_lt.trans_le
          rcases (Nat.succ_le_of_lt hpos).eq_or_lt with hone | hmore
          · rw [← hone]
          · exact (hs.value_lt 1 _ hmore le_rfl).le
        · rw [hs.interest _ hbegun hlt]
          exact hs.value_lt _ _ hlt le_rfl
      exact absurd ((hafter hlt).trans_lt hlt') hdate.not_gt
    have hlt : i < self.schedule.periods := by
      by_contra hge
      have := hfixed (self.schedule.periods - 1) (by omega)
      rw [hnone] at this
      cases this
    have hstart : self.telescopicStart i < self.schedule.periods := by
      unfold telescopicStart
      split_ifs with h0
      · have := mt (fun h1 => ⟨h1, h0.2⟩) hsingle
        omega
      · exact hlt
    obtain ⟨m, hm⟩ := Nat.exists_eq_succ_of_ne_zero hpos.ne'
    have hsame : ∏ k ∈ Ico i m, self.forwardFactor date P today i k = ∏ k ∈ Ico i m, self.dailyFactor date P today k := by
      refine prod_congr rfl fun k hk => forwardFactor_eq_daily fun _ => ?_
      have := (mem_Ico.1 hk).2
      omega
    have hratio : self.forwardFactor date P today i m = self.ratio P m := if_pos ⟨⟨hdate, hend, hstart⟩, hm.symm⟩
    rw [hcount, hm, Nat.succ_sub_one, Nat.succ_eq_add_one, prod_Ico_succ_top (show i ≤ m by omega),
      prod_Ico_succ_top (Nat.zero_le m), hsame, hratio, ← mul_assoc, prod_Ico_consecutive _ (Nat.zero_le i) (by omega),
      mul_eq_mul_left_iff, prod_eq_zero_iff, or_comm]
    simp only [mem_Ico, Nat.zero_le, true_and]
  · have hsame : ∏ k ∈ Ico i (self.begun date), self.forwardFactor date P today i k =
        ∏ k ∈ Ico i (self.begun date), self.dailyFactor date P today k := by
      refine prod_congr rfl fun k hk => forwardFactor_eq_daily fun hover hk' => hlast ?_
      obtain ⟨hk₁, hk₂⟩ := mem_Ico.1 hk
      obtain rfl : k = self.schedule.periods - 1 := by omega
      refine ⟨hover.1, hover.2.1, hknown _ hk₁ hk₂, fun hsingle => ?_⟩
      have hstart := hover.2.2
      rw [telescopicStart, if_pos ⟨by omega, hsingle.2⟩, hsingle.1] at hstart
      exact hstart.false
    rw [hsame, prod_Ico_consecutive _ (Nat.zero_le i) hi]
    exact iff_of_true rfl fun h => absurd h hlast

/-- **When the telescoped rate compounds the daily factors.**  The rates come from one compound factor; it is the product of
the daily growth factors of the fixings up to `date` unless the discount ratio goes past an accrual end that is no value
date, and then only if that makes no difference. -/
theorem compute_compounds_iff (hnew : OvernightSchedule.new self.index startDate endDate = some (.ok self.schedule))
    (hspread : self.compoundSpreadDaily = false) (hP : Forwards self P) (htoday : self.index.evaluationDate = some today)
    {rates : K × K × K} (hrun : self.compute date = .ok rates) :
    ∃ factor, rates = (self.gearing * ((factor - 1) / self.tau date) + self.spread, self.spread, (factor - 1) / self.tau date) ∧
      (factor = ∏ k ∈ range (self.begun date), self.dailyFactor date P today k ↔
        (self.LastOvershot date today →
          (∃ k, k < self.schedule.periods - 1 ∧ self.dailyFactor date P today k = 0) ∨
            self.forwardRate P (self.schedule.periods - 1) *
                self.index.yearFraction (self.schedule.valueDate (self.schedule.periods - 1))
                  (self.schedule.valueDate self.schedule.periods) =
              self.forwardRate P (self.schedule.periods - 1) * self.accrued date (self.schedule.periods - 1))) := by
  have hs := OvernightSchedule.new_built hnew
  have hpos := hs.pos
  unfold compute at hrun
  rw [htoday] at hrun
  obtain ⟨factors, hfactors, rfl⟩ := map_eq_ok.1 hrun
  refine ⟨factors.compoundFactor, by simp [hspread], ?_⟩
  rw [compoundFactors_eq_iff hs hspread hP htoday hfactors]
  refine forall_congr' fun hlast => or_congr_right ?_
  have hm : self.schedule.periods - 1 + 1 = self.schedule.periods := by omega
  have hratio : self.ratio P (self.schedule.periods - 1) = 1 + self.forwardRate P (self.schedule.periods - 1) *
      self.index.yearFraction (self.schedule.valueDate (self.schedule.periods - 1))
        (self.schedule.valueDate self.schedule.periods) := by
    have hfraction := hP.fraction_ne (self.schedule.periods - 1) (by omega)
    rw [hm] at hfraction
    rw [forwardRate, hm, div_mul_cancel₀ _ hfraction, add_sub_cancel, ratio, hm]
  rw [hratio, dailyFactor, dailyFixing, hlast.2.2.1, Option.getD_none, add_right_inj]

end Compounding

/-! ## An accrual that ends on a Saturday -/

section Saturday

open Finset Calendar

def thursday : Date := ⟨43279, by decide⟩

def friday : Date := ⟨43280, by decide⟩

def monday : Date := ⟨43283, by decide⟩

/-- Discount factors of a rate of 3.6%. -/
def flatDiscount (d : Date) : ℚ :=
  if d ≤ thursday then 1 else if d ≤ friday then 10000 / 10001 else 100000000 / (10001 * 10003)

/-- No fixing is stored, and every forecast is 3.6%. -/
def thursdayIndex : OvernightIndex ℚ where
  name := "SOFR"
  fixingCalendar := weekendsOnly
  yearFraction d₁ d₂ := (d₂.serialNumber - d₁.serialNumber) / 360
  evaluationDate := some thursday
  enforcesTodaysHistoricFixings := false
  storedFixing _ := none
  forecastFixing _ := .ok (36 / 1000)
  forwardingTermStructure := some ⟨fun _ => .ok (), fun d => .ok (flatDiscount d)⟩

def thursdayPricer : CompoundingOvernightIndexedCouponPricer ℚ where
  index := thursdayIndex
  schedule := ⟨[thursday, friday, monday], [thursday, friday, monthEndSaturday], [thursday, friday], [1 / 360, 1 / 360]⟩
  gearing := 1
  spread := 0
  compoundSpreadDaily := false

theorem thursdayPricer_new :
    OvernightSchedule.new thursdayPricer.index thursday monthEndSaturday = some (.ok thursdayPricer.schedule) := by
  decide +kernel

theorem thursdayPricer_forwards : Forwards thursdayPricer flatDiscount where
  discount_ne i hi := by
    have : i ≤ 2 := hi
    interval_cases i <;> decide +kernel
  fraction_ne i hi := by
    have : i < 2 := hi
    interval_cases i <;> decide +kernel
  discount curve hcurve i _ discount h := by
    obtain rfl := Option.some.inj hcurve
    exact (Except.ok.inj h).symm
  forecast i hi rate h := by
    obtain rfl := Except.ok.inj h
    have : i < 2 := hi
    interval_cases i <;> decide +kernel

/-- On the Saturday itself the last period is compounded by its fixing. -/
theorem compute_compounds_saturday : ∃ factor, thursdayPricer.compute monthEndSaturday =
      .ok ((factor - 1) / (2 / 360), 0, (factor - 1) / (2 / 360)) ∧
    factor = ∏ k ∈ range 2, thursdayPricer.dailyFactor monthEndSaturday flatDiscount thursday k := by
  obtain ⟨rates, hrun⟩ : ∃ rates, thursdayPricer.compute monthEndSaturday = .ok rates := ⟨_, rfl⟩
  obtain ⟨factor, hrates, hiff⟩ := compute_compounds_iff thursdayPricer_new rfl thursdayPricer_forwards rfl hrun
  have htau : thursdayPricer.tau monthEndSaturday = 2 / 360 := by decide +kernel
  have hfirst : ¬ thursdayPricer.LastOvershot monthEndSaturday thursday := fun h => absurd h.1 (by decide +kernel)
  refine ⟨factor, ?_, hiff.2 fun h => absurd h hfirst⟩
  rw [hrun, hrates, htau]
  simp [thursdayPricer]

/-- **On the Monday the ratio accrues the weekend**, of which the accrual holds one day. -/
theorem compute_overshoots :
    OvernightSchedule.new thursdayPricer.index thursday monthEndSaturday = some (.ok thursdayPricer.schedule) ∧
      Forwards thursdayPricer flatDiscount ∧ thursday < monday ∧
      ∃ rates, thursdayPricer.compute monday = .ok rates ∧
        rates.2.2 ≠ (∏ k ∈ range (thursdayPricer.begun monday), thursdayPricer.dailyFactor monday flatDiscount thursday k - 1) /
          thursdayPricer.tau monday := by
  refine ⟨thursdayPricer_new, thursdayPricer_forwards, by decide, _, rfl, ?_⟩
  decide +kernel

end Saturday

end CompoundingOvernightIndexedCouponPricer

end Itofin
