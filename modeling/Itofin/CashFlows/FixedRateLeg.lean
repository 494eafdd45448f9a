import Itofin.InterestRate
import Itofin.Time.BusinessDays
import Itofin.Time.Schedule.Truncation
/-!
# FixedRateLeg — coupons from a schedule

The leg builder of `cashflows/fixedrateleg.rs`.  It builds the first coupon, those in between and the last one in three
places; `coupons_spec` says of all of them what the `i`-th coupon is.
-/
namespace Itofin

inductive FixedRateLegError where
  /-- "no coupon rates given" -/
  | noCouponRates
  /-- "no notional given" -/
  | noNotional
  /-- "schedule with {size} date(s) spans no period" -/
  | noPeriod (size : ℕ)
  /-- "schedule carries no end-of-month flag, which its stub period needs" -/
  | noEndOfMonth
deriving DecidableEq

/-- A result, or `none` for a panic. -/
abbrev Building (α : Type) : Type := Option (Except FixedRateLegError α)

namespace Building

variable {α β : Type}

def andThen (x : Building α) (f : α → Building β) : Building β := match x with
  | none             => none
  | some (.error e)  => some (.error e)
  | some (.ok a)     => f a

/-- A call that panics or returns. -/
def call (x : Option α) (f : α → Building β) : Building β := x.bind f

theorem andThen_eq_ok {x : Building α} {f : α → Building β} {b : β} :
    x.andThen f = some (.ok b) ↔ ∃ a, x = some (.ok a) ∧ f a = some (.ok b) := by
  rcases x with _ | e | a <;> simp [andThen]

theorem call_eq_ok {x : Option α} {f : α → Building β} {b : β} :
    call x f = some (.ok b) ↔ ∃ a, x = some a ∧ f a = some (.ok b) := Option.bind_eq_some_iff

end Building

open Building

/-- The day counter of a rate. -/
abbrev DayCounting (K : Type) : Type := Date → Date → Date → Date → K

namespace InterestRate

variable {K : Type}

/-- `InterestRate::new` with the rate, compounding and frequency of another, which it accepts. -/
def withDayCounter (rate : InterestRate K) (dayCounter : DayCounting K) : InterestRate K where
  rate := rate.rate
  yearFractionRef := dayCounter
  compounding := rate.compounding
  rawFrequency := rate.frequency
  allowed h := by
    rw [frequency, if_pos h]
    exact rate.allowed h

end InterestRate

structure FixedRateCoupon (K : Type) where
  paymentDate    : Date
  nominal        : K
  rate           : InterestRate K
  accrualStart   : Date
  accrualEnd     : Date
  refPeriodStart : Date
  refPeriodEnd   : Date
  exCouponDate   : Option Date

structure FixedRateLeg (K : Type) where
  schedule              : Schedule
  notionals             : List K
  couponRates           : List (InterestRate K)
  firstPeriodDayCounter : Option (DayCounting K)
  lastPeriodDayCounter  : Option (DayCounting K)
  paymentCalendar       : Calendar
  paymentAdjustment     : BusinessDayConvention
  paymentLag            : ℤ
  exCouponPeriod        : Option Period
  exCouponCalendar      : Calendar
  exCouponAdjustment    : BusinessDayConvention
  exCouponEndOfMonth    : Bool

namespace Schedule

/-- `has_tenor() && has_is_regular() && !is_regular_at(i)` -/
def stubAt (self : Schedule) (i : ℕ) : Option Bool :=
  if self.tenor.isSome && self.hasIsRegular then (self.isRegularAt i).map (!·) else some false

/-- `(has_is_regular() && is_regular_at(i)) || !has_tenor()` -/
def regularAt (self : Schedule) (i : ℕ) : Option Bool :=
  (if self.hasIsRegular then self.isRegularAt i else some false).map (· || !self.tenor.isSome)

end Schedule

namespace FixedRateLeg

variable {K : Type}

/-- `at`: the value at the index, or the last one; it panics on an empty list. -/
def get {α : Type} (values : List α) (index : ℕ) : Option α := values[index]?.or values.getLast?

variable (self : FixedRateLeg K)

def scheduleEndOfMonth : Building Bool := match self.schedule.endOfMonth with
  | some endOfMonth => some (.ok endOfMonth)
  | none            => some (.error .noEndOfMonth)

def coupon (index : ℕ) (start stop referenceStart referenceEnd : Date) (dayCounter : Option (DayCounting K)) :
    Building (FixedRateCoupon K) :=
  call (self.paymentCalendar.advance stop self.paymentLag .days self.paymentAdjustment false) fun paymentDate =>
  call (match self.exCouponPeriod with
    | none        => some none
    | some period => (self.exCouponCalendar.advanceByPeriod paymentDate period.neg self.exCouponAdjustment
        self.exCouponEndOfMonth).map some) fun exCouponDate =>
  call (get self.couponRates index) fun rate =>
  call (get self.notionals index) fun nominal =>
    let rate := match dayCounter with
      | some dayCounter => rate.withDayCounter dayCounter
      | none            => rate
    some (.ok ⟨paymentDate, nominal, rate, start, stop, referenceStart, referenceEnd, exCouponDate⟩)

/-- A tenor before `end`, or after `start`: the other end of the reference period of a stub. -/
def stubReference (date : Date) (tenor : Period) : Building Date :=
  self.scheduleEndOfMonth.andThen fun endOfMonth =>
  call (self.schedule.calendar.advanceByPeriod date tenor self.schedule.convention endOfMonth) fun d => some (.ok d)

def firstCoupon (start stop : Date) : Building (FixedRateCoupon K) :=
  call (self.schedule.stubAt 1) fun stub =>
  andThen (if stub then call self.schedule.tenor fun tenor => self.stubReference stop tenor.neg else some (.ok start))
    fun referenceStart => self.coupon 0 start stop referenceStart stop self.firstPeriodDayCounter

/-- `for i in 2..size - 1 { .. }`, with so many turns left. -/
def interiorCoupons : ℕ → ℕ → Date → Building (List (FixedRateCoupon K) × Date)
  | 0, _, stop         => some (.ok ([], stop))
  | turns + 1, i, stop =>
    let start := stop
    call self.schedule.dates[i]? fun stop =>
    (self.coupon (i - 1) start stop start stop none).andThen fun coupon =>
    (interiorCoupons turns (i + 1) stop).andThen fun (coupons, stop) => some (.ok (coupon :: coupons, stop))

def lastCoupon (size : ℕ) (start stop : Date) : Building (FixedRateCoupon K) :=
  call (self.schedule.regularAt (size - 1)) fun regular =>
  andThen (if regular then some (.ok stop) else call self.schedule.tenor fun tenor => self.stubReference start tenor)
    fun referenceEnd => self.coupon (size - 2) start stop start referenceEnd self.lastPeriodDayCounter

def coupons : Building (List (FixedRateCoupon K)) :=
  let size := self.schedule.dates.length
  if self.couponRates.isEmpty then some (.error .noCouponRates)
  else if self.notionals.isEmpty then some (.error .noNotional)
  else if size < 2 then some (.error (.noPeriod size))
  else
    call self.schedule.dates[0]? fun start =>
    call self.schedule.dates[1]? fun stop =>
    (self.firstCoupon start stop).andThen fun first =>
    (self.interiorCoupons (size - 3) 2 stop).andThen fun (interior, stop) =>
      if 2 < size then
        let start := stop
        call self.schedule.dates[size - 1]? fun stop =>
        (self.lastCoupon size start stop).andThen fun last => some (.ok (first :: interior ++ [last]))
      else some (.ok (first :: interior))

/-! ## What the coupons are -/

section Spec

variable {self : FixedRateLeg K} {i : ℕ} {start stop referenceStart referenceEnd : Date}
  {dayCounter : Option (DayCounting K)} {c : FixedRateCoupon K}

/-- **The coupon of the `i`-th period**, its rate measured by a given day counter or by its own. -/
structure IsCoupon (leg : FixedRateLeg K) (i : ℕ) (dayCounter : Option (DayCounting K)) (c : FixedRateCoupon K) : Prop where
  accrualStart : leg.schedule.dates[i]? = some c.accrualStart
  accrualEnd   : leg.schedule.dates[i + 1]? = some c.accrualEnd
  nominal      : get leg.notionals i = some c.nominal
  rate         : ∃ rate, get leg.couponRates i = some rate ∧ c.rate.rate = rate.rate ∧
    c.rate.compounding = rate.compounding ∧ c.rate.frequency = rate.frequency ∧
    c.rate.yearFractionRef = dayCounter.getD rate.yearFractionRef
  reference    : leg.schedule.isRegularAt (i + 1) = some true →
    c.refPeriodStart = c.accrualStart ∧ c.refPeriodEnd = c.accrualEnd

theorem coupon_spec (h : self.coupon i start stop referenceStart referenceEnd dayCounter = some (.ok c))
    (hstart : self.schedule.dates[i]? = some start) (hstop : self.schedule.dates[i + 1]? = some stop)
    (hreference : self.schedule.isRegularAt (i + 1) = some true → referenceStart = start ∧ referenceEnd = stop) :
    self.IsCoupon i dayCounter c ∧ c.accrualEnd = stop := by
  obtain ⟨paymentDate, -, h⟩ := call_eq_ok.1 h
  obtain ⟨exCouponDate, -, h⟩ := call_eq_ok.1 h
  obtain ⟨rate, hrate, h⟩ := call_eq_ok.1 h
  obtain ⟨nominal, hnominal, h⟩ := call_eq_ok.1 h
  obtain rfl := Except.ok.inj (Option.some.inj h)
  refine ⟨⟨hstart, hstop, hnominal, ⟨rate, hrate, ?_⟩, hreference⟩, rfl⟩
  cases dayCounter with
  | none            => exact ⟨rfl, rfl, rfl, rfl⟩
  | some dayCounter =>
    refine ⟨rfl, rfl, ?_, rfl⟩
    simp only [InterestRate.withDayCounter, InterestRate.frequency]
    split_ifs <;> rfl

theorem firstCoupon_spec (h : self.firstCoupon start stop = some (.ok c)) (hstart : self.schedule.dates[0]? = some start)
    (hstop : self.schedule.dates[1]? = some stop) :
    self.IsCoupon 0 self.firstPeriodDayCounter c ∧ c.accrualEnd = stop := by
  obtain ⟨stub, hstub, h⟩ := call_eq_ok.1 h
  obtain ⟨referenceStart, hreference, h⟩ := andThen_eq_ok.1 h
  refine coupon_spec h hstart hstop fun hregular => ⟨?_, rfl⟩
  have hfalse : stub = false := by
    rw [Nat.zero_add] at hregular
    unfold Schedule.stubAt at hstub
    rw [hregular] at hstub
    split_ifs at hstub <;> exact (Option.some.inj hstub).symm
  rw [hfalse] at hreference
  exact (Except.ok.inj (Option.some.inj hreference)).symm

theorem lastCoupon_spec {size : ℕ} (hsize : 2 < size) (h : self.lastCoupon size start stop = some (.ok c))
    (hstart : self.schedule.dates[size - 2]? = some start) (hstop : self.schedule.dates[size - 1]? = some stop) :
    self.IsCoupon (size - 2) self.lastPeriodDayCounter c := by
  obtain ⟨regular, hregular, h⟩ := call_eq_ok.1 h
  obtain ⟨referenceEnd, hreference, h⟩ := andThen_eq_ok.1 h
  have hlast : size - 2 + 1 = size - 1 := by omega
  refine (coupon_spec h hstart (hlast ▸ hstop) fun hflag => ⟨rfl, ?_⟩).1
  have htrue : regular = true := by
    rw [hlast] at hflag
    unfold Schedule.regularAt at hregular
    have hne : self.schedule.hasIsRegular = true := by
      rw [Schedule.hasIsRegular, Bool.not_eq_true', List.isEmpty_eq_false_iff]
      intro hnil
      simp [Schedule.isRegularAt, hnil] at hflag
    rw [if_pos hne, hflag] at hregular
    exact (Option.some.inj hregular).symm
  rw [htrue] at hreference
  exact (Except.ok.inj (Option.some.inj hreference)).symm

theorem interiorCoupons_spec : ∀ (turns i : ℕ) {stop stop' : Date} {cs : List (FixedRateCoupon K)}, 0 < i →
    self.schedule.dates[i - 1]? = some stop → self.interiorCoupons turns i stop = some (.ok (cs, stop')) →
    cs.length = turns ∧ self.schedule.dates[i - 1 + turns]? = some stop' ∧
      ∀ j c, cs[j]? = some c → self.IsCoupon (i - 1 + j) none c
  | 0, i, stop, stop', cs, _, hstop, h          => by
    obtain ⟨rfl, rfl⟩ := Prod.mk.inj (Except.ok.inj (Option.some.inj h))
    exact ⟨rfl, hstop, fun j c hc => by simp at hc⟩
  | turns + 1, i, stop, stop', cs, hi, hstop, h => by
    obtain ⟨next, hnext, h⟩ := call_eq_ok.1 h
    obtain ⟨coupon, hcoupon, h⟩ := andThen_eq_ok.1 h
    obtain ⟨⟨rest, last⟩, hrest, h⟩ := andThen_eq_ok.1 h
    obtain ⟨rfl, rfl⟩ := Prod.mk.inj (Except.ok.inj (Option.some.inj h))
    have hi' : i - 1 + 1 = i := by omega
    obtain ⟨hlen, hlast, hall⟩ := interiorCoupons_spec turns (i + 1) (Nat.succ_pos i) (by rwa [Nat.add_sub_cancel]) hrest
    obtain ⟨hc, -⟩ := coupon_spec hcoupon hstop (by rwa [hi']) fun _ => ⟨rfl, rfl⟩
    rw [Nat.add_sub_cancel] at hlast hall
    refine ⟨by rw [List.length_cons, hlen], by rwa [show i - 1 + (turns + 1) = i + turns by omega], fun j c hj => ?_⟩
    cases j with
    | zero   => exact Option.some.inj hj ▸ hc
    | succ j =>
      rw [show i - 1 + (j + 1) = i + j by omega]
      exact hall j c hj

/-- The override of a coupon: that of the first period, or of the last. -/
def overrideAt (self : FixedRateLeg K) (i : ℕ) : Option (DayCounting K) :=
  if i = 0 then self.firstPeriodDayCounter
  else if i + 2 = self.schedule.dates.length then self.lastPeriodDayCounter else none

/-- **The coupons of a leg**: one for each period, in order. -/
theorem coupons_spec {cs : List (FixedRateCoupon K)} (h : self.coupons = some (.ok cs)) :
    cs.length + 1 = self.schedule.dates.length ∧ ∀ i c, cs[i]? = some c → self.IsCoupon i (self.overrideAt i) c := by
  unfold coupons at h
  dsimp only at h
  by_cases hrates : self.couponRates.isEmpty
  · rw [if_pos hrates] at h
    cases h
  by_cases hnotionals : self.notionals.isEmpty
  · rw [if_neg hrates, if_pos hnotionals] at h
    cases h
  by_cases hsize : self.schedule.dates.length < 2
  · rw [if_neg hrates, if_neg hnotionals, if_pos hsize] at h
    cases h
  rw [if_neg hrates, if_neg hnotionals, if_neg hsize] at h
  obtain ⟨start, hstart, h⟩ := call_eq_ok.1 h
  obtain ⟨stop, hstop, h⟩ := call_eq_ok.1 h
  obtain ⟨first, hfirst, h⟩ := andThen_eq_ok.1 h
  obtain ⟨⟨interior, stop'⟩, hinterior, h⟩ := andThen_eq_ok.1 h
  obtain ⟨hf, -⟩ := firstCoupon_spec hfirst hstart hstop
  obtain ⟨hlen, hstop', hall⟩ := interiorCoupons_spec _ 2 two_pos hstop hinterior
  dsimp only at h
  split_ifs at h with hmore
  · obtain ⟨end', hend, h⟩ := call_eq_ok.1 h
    obtain ⟨last, hlast, h⟩ := andThen_eq_ok.1 h
    obtain rfl := Except.ok.inj (Option.some.inj h)
    rw [show 2 - 1 + (self.schedule.dates.length - 3) = self.schedule.dates.length - 2 by omega] at hstop'
    have hl := lastCoupon_spec hmore hlast hstop' hend
    refine ⟨by simp [hlen]; omega, fun i c hi => ?_⟩
    rcases Nat.eq_zero_or_pos i with rfl | hpos
    · exact Option.some.inj hi ▸ hf
    obtain ⟨j, rfl⟩ := Nat.exists_eq_succ_of_ne_zero hpos.ne'
    rw [List.cons_append, Nat.succ_eq_add_one, List.getElem?_cons_succ] at hi
    rcases lt_or_ge j interior.length with hj | hj
    · rw [List.getElem?_append_left hj] at hi
      have hc := hall j c hi
      rwa [overrideAt, if_neg (Nat.succ_ne_zero j), if_neg (by omega), Nat.succ_eq_add_one, Nat.add_comm j 1]
    · rw [List.getElem?_append_right hj] at hi
      have hj' : j = interior.length := by
        have := (List.getElem?_eq_some_iff.1 hi).1
        simp only [List.length_singleton] at this
        omega
      rw [hj', Nat.sub_self] at hi
      have hindex : j + 1 = self.schedule.dates.length - 2 := by omega
      rw [overrideAt, if_neg (Nat.succ_ne_zero j), if_pos (by omega), Nat.succ_eq_add_one, hindex, ← Option.some.inj hi]
      exact hl
  · obtain rfl := Except.ok.inj (Option.some.inj h)
    have hnil : interior = [] := List.length_eq_zero_iff.1 (by omega)
    subst hnil
    refine ⟨by simp; omega, fun i c hi => ?_⟩
    cases i with
    | zero   => exact Option.some.inj hi ▸ hf
    | succ i => simp at hi

/-- **What a built leg should be.**  Every coupon is that of its period, and the overrides are those of exactly the first and
the last coupon. -/
structure Conforms (leg : FixedRateLeg K) (cs : List (FixedRateCoupon K)) : Prop where
  count   : cs.length + 1 = leg.schedule.dates.length
  coupons : ∀ i c, cs[i]? = some c → ∃ dayCounter, leg.IsCoupon i dayCounter c
  first   : ∀ c dayCounter, cs[0]? = some c → leg.firstPeriodDayCounter = some dayCounter →
    c.rate.yearFractionRef = dayCounter
  last    : ∀ c dayCounter, cs[cs.length - 1]? = some c → leg.lastPeriodDayCounter = some dayCounter →
    c.rate.yearFractionRef = dayCounter
  others  : ∀ i c rate, cs[i]? = some c → get leg.couponRates i = some rate →
    (i = 0 → leg.firstPeriodDayCounter = none) → (i + 1 = cs.length → leg.lastPeriodDayCounter = none) →
    c.rate.yearFractionRef = rate.yearFractionRef

/-- **A built leg is as it should be, but for the last period's day counter of a single period.** -/
theorem coupons_conform_iff {cs : List (FixedRateCoupon K)} (h : self.coupons = some (.ok cs)) :
    self.Conforms cs ↔ (2 < self.schedule.dates.length ∨ ∀ dayCounter, self.lastPeriodDayCounter = some dayCounter →
      ∀ rate, get self.couponRates 0 = some rate →
        self.firstPeriodDayCounter.getD rate.yearFractionRef = dayCounter) := by
  obtain ⟨hcount, hall⟩ := coupons_spec h
  have hpos : 0 < cs.length := by
    by_contra hzero
    unfold coupons at h
    dsimp only at h
    split_ifs at h with _ _ hsize <;> first | cases h | omega
  have hcounter : ∀ i c, cs[i]? = some c → ∃ rate, get self.couponRates i = some rate ∧
      c.rate.yearFractionRef = (self.overrideAt i).getD rate.yearFractionRef := fun i c hi => by
    obtain ⟨rate, hrate, -, -, -, hd⟩ := (hall i c hi).rate
    exact ⟨rate, hrate, hd⟩
  have hoverride : ∀ i, 0 < i → i < cs.length → self.overrideAt i =
      if i + 1 = cs.length then self.lastPeriodDayCounter else none := fun i hi _ => by
    rw [overrideAt, if_neg hi.ne', ← hcount]
    exact if_congr (by omega) rfl rfl
  constructor
  · intro hc
    rw [or_iff_not_imp_left]
    intro hsingle dayCounter hlast rate hrate
    have hone : cs.length = 1 := by omega
    obtain ⟨c, hc0⟩ : ∃ c, cs[0]? = some c := ⟨_, List.getElem?_eq_getElem hpos⟩
    obtain ⟨rate', hrate', hd⟩ := hcounter 0 c hc0
    obtain rfl : rate = rate' := Option.some.inj (hrate.symm.trans hrate')
    rw [overrideAt, if_pos rfl] at hd
    rw [← hd]
    exact hc.last c dayCounter (by rwa [hone]) hlast
  · intro hcond
    refine ⟨hcount, fun i c hi => ⟨_, hall i c hi⟩, fun c dayCounter hi hfirst => ?_, fun c dayCounter hi hlast => ?_,
      fun i c rate hi hrate hfirst hlast => ?_⟩
    · obtain ⟨rate, -, hd⟩ := hcounter 0 c hi
      rw [hd, overrideAt, if_pos rfl, hfirst, Option.getD_some]
    · obtain ⟨rate, hrate, hd⟩ := hcounter _ c hi
      rcases hcond with hmany | hsame
      · rw [hd, hoverride _ (by omega) (by omega), if_pos (by omega), hlast, Option.getD_some]
      · by_cases hone : cs.length = 1
        · rw [hone] at hd hrate
          rw [hd, overrideAt, if_pos rfl]
          exact hsame dayCounter hlast rate hrate
        · rw [hd, hoverride _ (by omega) (by omega), if_pos (by omega), hlast, Option.getD_some]
    · obtain ⟨rate', hrate', hd⟩ := hcounter i c hi
      obtain rfl : rate = rate' := Option.some.inj (hrate.symm.trans hrate')
      have hlen : i < cs.length := (List.getElem?_eq_some_iff.1 hi).1
      rcases Nat.eq_zero_or_pos i with rfl | hi0
      · rw [hd, overrideAt, if_pos rfl, hfirst rfl, Option.getD_none]
      · rw [hd, hoverride i hi0 hlen]
        split_ifs with hend
        · rw [hlast hend, Option.getD_none]
        · rfl

end Spec

/-! ## One period and two -/

section Periods

def openingDay : Date := ⟨43832, by decide⟩

/-- A leg over the dates given, with an override of the last period's day counter. -/
def quarterly (dates : List Date) : FixedRateLeg ℚ where
  schedule := ⟨none, Calendar.nullCalendar, .unadjusted, none, none, none, Date.null, Date.null, dates, []⟩
  notionals := [100]
  couponRates := [⟨1 / 20, fun _ _ _ _ => 1 / 4, .simple, .annual, by decide⟩]
  firstPeriodDayCounter := none
  lastPeriodDayCounter := some fun _ _ _ _ => 1 / 3
  paymentCalendar := Calendar.nullCalendar
  paymentAdjustment := .following
  paymentLag := 0
  exCouponPeriod := none
  exCouponCalendar := Calendar.nullCalendar
  exCouponAdjustment := .following
  exCouponEndOfMonth := false

/-- With two periods the last coupon is measured by its override. -/
theorem coupons_conform_two :
    ∃ cs, (quarterly [openingDay, ⟨43921, by decide⟩, ⟨44012, by decide⟩]).coupons = some (.ok cs) ∧
      (quarterly [openingDay, ⟨43921, by decide⟩, ⟨44012, by decide⟩]).Conforms cs := by
  obtain ⟨cs, hcs⟩ : ∃ cs, (quarterly [openingDay, ⟨43921, by decide⟩, ⟨44012, by decide⟩]).coupons = some (.ok cs) :=
    ⟨_, rfl⟩
  exact ⟨cs, hcs, (coupons_conform_iff hcs).2 (.inl (by decide))⟩

/-- **With one period the only coupon ignores it.** -/
theorem coupons_ignore_last : ∃ cs, (quarterly [openingDay, ⟨43921, by decide⟩]).coupons = some (.ok cs) ∧
    ¬ (quarterly [openingDay, ⟨43921, by decide⟩]).Conforms cs := by
  refine ⟨_, rfl, fun h => ?_⟩
  have hlast := congrFun (congrFun (congrFun (congrFun (h.last _ _ rfl rfl) openingDay) openingDay) openingDay) openingDay
  revert hlast
  norm_num [quarterly]

end Periods

end FixedRateLeg

end Itofin
