import Itofin.Lib.Turns
import Itofin.Time.Advance
import Itofin.Utilities.PeriodParser
/-!
# Futures — IMM and ASX dates and their codes

`time/imm.rs` and `time/asx.rs`.  The two modules are one with other values: a `FuturesRule` is the weekday, the days of
the month it may fall on, and the order of the main cycle's letters.  Every month of the supported years has one date
(`exists_contract`, `contract_unique`), so the dates are in the order of their months; `nextDate` finds the month of the
next one in one step, or in two when it starts in that month past its date (`search_spec`).

A code is the letter of the month and the last digit of the year.  It is read as the first date with that code on or
after a reference date, which is the date it was written for when the date ten years before comes before the reference.
-/
namespace Itofin

open Turns Text

/-- The values in which the modules of the two exchanges differ. -/
structure FuturesRule where
  nth : ℤ
  weekday : Weekday
  first : ℤ
  last : ℤ
  restart : ℤ
  mainCycleCodes : List UInt8
  nth_bounds : 2 ≤ nth ∧ nth ≤ 3
  first_eq : first = 7 * nth - 6
  last_eq : last = 7 * nth
  restart_eq : restart = last + 1

namespace FuturesRule

/-- `FGHJKMNQUVXZ` -/
def allMonthCodes : List UInt8 := [70, 71, 72, 74, 75, 77, 78, 81, 85, 86, 88, 90]

inductive CodeError where
  | notADate (date : Date)
  | notACode (code : List Char)
  | invalidMonth
  | outOfRange (code : List Char) (referenceDate : Date)
deriving DecidableEq

/-- `is_imm_date`, `is_asx_date` -/
def isDate (self : FuturesRule) (date : Date) (mainCycle : Bool) : Bool :=
  if date.weekday ≠ self.weekday then false
  else
    let d := date.dayOfMonth
    if ¬ (self.first ≤ d ∧ d ≤ self.last) then false
    else if !mainCycle then true
    else date.month ∈ [Month.march, Month.june, Month.september, Month.december]

def isAsciiDigit (b : UInt8) : Bool := 48 ≤ b && b ≤ 57

/-- `is_imm_code`, `is_asx_code` -/
def isCode (self : FuturesRule) (code : List Char) (mainCycle : Bool) : Bool :=
  match asBytes code with
  | [b0, b1] =>
    if !isAsciiDigit b1 then false
    else (if mainCycle then self.mainCycleCodes else allMonthCodes).contains (DataParsers.toAsciiUppercase b0)
  | _        => false

def code (self : FuturesRule) (date : Date) : Except CodeError (List Char) :=
  if self.isDate date false then
    .ok (Char.ofNat (allMonthCodes.getD (date.month.ordinal - 1).toNat 0).toNat :: display (date.year % 10))
  else .error (.notADate date)

/-- The months of a cycle are the multiples of its offset. -/
def offset (mainCycle : Bool) : ℤ := if mainCycle then 3 else 1

/-- The month of the year in which `next_date` looks, and the year. -/
def searchMonth (self : FuturesRule) (mainCycle : Bool) (date : Date) : ℤ × ℤ :=
  let y := date.year
  let m := date.month.ordinal
  let offset := offset mainCycle
  let skipMonths := offset - m % offset
  if skipMonths ≠ offset ∨ self.last < date.dayOfMonth then
    let skipMonths := skipMonths + m
    if skipMonths ≤ 12 then (skipMonths, y) else (skipMonths - 12, y + 1)
  else (m, y)

/-- The recursion of `next_date`. -/
def search (self : FuturesRule) (mainCycle : Bool) : ℕ → Date → Except Halt Date
  | 0, _            => .error .outOfTurns
  | turns + 1, date => do
    let (m, y) := self.searchMonth mainCycle date
    let month ← orPanic (Month.fromOrdinal m)
    let result ← orPanic (Date.nthWeekday self.nth self.weekday month y)
    if result ≤ date then do
      let start ← orPanic (Date.new self.restart month y)
      search self mainCycle turns start
    else .ok result

/-- `next_date`; two turns are enough. -/
def nextDate (self : FuturesRule) (date : Date) (mainCycle : Bool) : Except Halt Date := search self mainCycle 2 date

/-- The date of a month in a year that ends with the digit, on or after the reference date. -/
def resolve (self : FuturesRule) (code : List Char) (m : Month) (digit : ℤ) (referenceDate : Date) :
    Except Halt (Except CodeError Date) := do
  let y := if digit = 0 ∧ referenceDate.year ≤ 1909 then digit + 10 else digit
  let y := y + (referenceDate.year - referenceDate.year % 10)
  let start ← orPanic (Date.new 1 m y)
  let result ← self.nextDate start false
  if result < referenceDate then
    if y + 10 ≤ 2199 then do
      let start ← orPanic (Date.new 1 m (y + 10))
      let result ← self.nextDate start false
      .ok (.ok result)
    else .ok (.error (.outOfRange code referenceDate))
  else .ok (.ok result)

def date (self : FuturesRule) (code : List Char) (referenceDate : Date) : Except Halt (Except CodeError Date) :=
  if self.isCode code false then
    match asBytes code with
    | [b0, b1] =>
      match allMonthCodes.findIdx? (· == DataParsers.toAsciiUppercase b0) with
      | some index => do
        let m ← orPanic (Month.fromOrdinal (index + 1))
        self.resolve code m (b1.toNat - 48) referenceDate
      | none       => .ok (.error .invalidMonth)
    | _        => .error .panic
  else .ok (.error (.notACode code))

end FuturesRule

/-- The third Wednesday of a month; `HMZU`. -/
def imm : FuturesRule where
  nth := 3
  weekday := .wednesday
  first := 15
  last := 21
  restart := 22
  mainCycleCodes := [72, 77, 90, 85]
  nth_bounds := by decide
  first_eq := by decide
  last_eq := by decide
  restart_eq := by decide

/-- The second Friday of a month; `HMUZ`. -/
def asx : FuturesRule where
  nth := 2
  weekday := .friday
  first := 8
  last := 14
  restart := 15
  mainCycleCodes := [72, 77, 85, 90]
  nth_bounds := by decide
  first_eq := by decide
  last_eq := by decide
  restart_eq := by decide

namespace Date

variable {d r first : Date} {w : Weekday} {m : Month} {n y : ℤ}

theorem weekday_eq_iff : d.weekday = w ↔ d.serialNumber % 7 = w.ordinal % 7 := by
  unfold weekday
  have h₁ := Int.emod_nonneg d.serialNumber (show (7 : ℤ) ≠ 0 by decide)
  have h₂ := Int.emod_lt_of_pos d.serialNumber (show (0 : ℤ) < 7 by decide)
  generalize d.serialNumber % 7 = k at h₁ h₂ ⊢
  interval_cases k <;> cases w <;> decide

theorem weekday_ordinal_bounds (w : Weekday) : 1 ≤ w.ordinal ∧ w.ordinal ≤ 7 := by cases w <;> decide

theorem weekday_ordinal (d : Date) : d.weekday.ordinal % 7 = d.serialNumber % 7 := (weekday_eq_iff.mp rfl).symm

theorem serialNumber_sub (h : d.month = r.month) (h' : d.year = r.year) :
    r.serialNumber - d.serialNumber = r.dayOfMonth - d.dayOfMonth := by
  have e := serialNumber_eq d
  have e' := serialNumber_eq r
  rw [h, h'] at e
  omega

/-- **The nth weekday of a month** is the one among seven days. -/
theorem nthWeekday_eq_some (h₁ : 1 ≤ n) (h₄ : n ≤ 4) : nthWeekday n w m y = some r ↔ r ≠ null ∧ r.month = m ∧
    r.year = y ∧ r.weekday = w ∧ 7 * n - 6 ≤ r.dayOfMonth ∧ r.dayOfMonth ≤ 7 * n := by
  have hw := weekday_ordinal_bounds w
  rw [nthWeekday, if_pos (by omega)]
  constructor
  · intro h
    obtain ⟨first, hf, h⟩ := Option.bind_eq_some_iff.mp h
    obtain ⟨-, fd, fm, fy⟩ := new_spec hf
    obtain ⟨hr, rd, rm, ry⟩ := new_spec h
    have hs := serialNumber_sub (fm.trans rm.symm) (fy.trans ry.symm)
    have hfw := weekday_ordinal first
    have hb := weekday_ordinal_bounds first.weekday
    refine ⟨hr, rm, ry, weekday_eq_iff.mpr ?_, ?_⟩
    · rw [rd, fd] at hs
      split at hs <;> omega
    · rw [rd]
      split <;> omega
  · rintro ⟨hr, rm, ry, rw', h⟩
    obtain ⟨lo, hi, -⟩ := year_spec hr
    obtain ⟨first, hf⟩ := @exists_new 1 m y (by omega) (by omega) (by decide)
      (le_trans (by decide) (monthLength_bounds m _).1)
    obtain ⟨-, fd, fm, fy⟩ := new_spec hf
    have hs := serialNumber_sub (fm.trans rm.symm) (fy.trans ry.symm)
    have hfw := weekday_ordinal first
    have hb := weekday_ordinal_bounds first.weekday
    have hrw := weekday_eq_iff.mp rw'
    rw [hf, Option.bind_some, new_eq_some_iff]
    refine ⟨hr, ?_, rm, ry⟩
    rw [fd] at hs
    split <;> omega

theorem exists_nthWeekday (h₁ : 1 ≤ n) (h₄ : n ≤ 4) (hy : 1900 < y) (hy' : y < 2200) (w : Weekday) (m : Month) :
    ∃ r, nthWeekday n w m y = some r := by
  have hw := weekday_ordinal_bounds w
  have hl := monthLength_bounds m (isLeap y)
  obtain ⟨first, hf⟩ := @exists_new 1 m y hy hy' (by decide) (le_trans (by decide) hl.1)
  have hb := weekday_ordinal_bounds first.weekday
  rw [nthWeekday, if_pos (by omega), hf, Option.bind_some]
  refine exists_new hy hy' ?_ ?_ <;> split <;> omega

end Date

namespace FuturesRule

variable {self : FuturesRule} {mainCycle : Bool} {d r x x' : Date} {i : ℤ} {turns : ℕ}

/-- A date of the rule, in the main cycle when that is asked for. -/
def Contract (self : FuturesRule) (mainCycle : Bool) (x : Date) : Prop := x ≠ Date.null ∧ self.isDate x mainCycle = true

theorem mainCycle_iff (m : Month) :
    m ∈ [Month.march, Month.june, Month.september, Month.december] ↔ m.ordinal % 3 = 0 := by
  cases m <;> decide

theorem isContract_iff : self.Contract mainCycle x ↔ x ≠ Date.null ∧ x.weekday = self.weekday ∧
    7 * self.nth - 6 ≤ x.dayOfMonth ∧ x.dayOfMonth ≤ 7 * self.nth ∧ x.monthIndex % offset mainCycle = 0 := by
  have h₁ := self.first_eq
  have h₂ := self.last_eq
  have h₃ := mainCycle_iff x.month
  have h₄ : x.monthIndex % 3 = x.month.ordinal % 3 := by
    rw [Date.monthIndex]
    omega
  unfold Contract isDate offset
  rw [h₁, h₂]
  cases mainCycle <;> simp [h₃, h₄, Int.emod_one, and_assoc]

/-- **A month has one date** of the rule. -/
theorem contract_unique (h : self.Contract mainCycle x) (h' : self.Contract mainCycle x')
    (hi : x.monthIndex = x'.monthIndex) : x = x' := by
  obtain ⟨hx, hw, h₁, h₂, -⟩ := isContract_iff.mp h
  obtain ⟨hx', hw', h₁', h₂', -⟩ := isContract_iff.mp h'
  obtain ⟨hm, hy⟩ := Date.monthIndex_eq_iff.mp hi
  have hs := Date.serialNumber_sub hm hy
  have e := Date.weekday_eq_iff.mp hw
  have e' := Date.weekday_eq_iff.mp hw'
  exact Date.ext (by omega)

theorem contract_nthWeekday {m : Month} {y : ℤ} (h : Date.nthWeekday self.nth self.weekday m y = some r)
    (hi : (12 * y + m.ordinal) % offset mainCycle = 0) :
    self.Contract mainCycle r ∧ r.monthIndex = 12 * y + m.ordinal := by
  have hn := self.nth_bounds
  obtain ⟨hr, hm, hy, hw, h₁, h₂⟩ := (Date.nthWeekday_eq_some (by omega) (by omega)).mp h
  have hidx : r.monthIndex = 12 * y + m.ordinal := by rw [Date.monthIndex, hm, hy]
  exact ⟨isContract_iff.mpr ⟨hr, hw, h₁, h₂, hidx ▸ hi⟩, hidx⟩

/-- The month in which the search looks: this one, unless it is not of the cycle or its date has passed. -/
def target (self : FuturesRule) (mainCycle : Bool) (d : Date) : ℤ :=
  if d.monthIndex % offset mainCycle ≠ 0 ∨ self.last < d.dayOfMonth then
    d.monthIndex + (offset mainCycle - d.monthIndex % offset mainCycle)
  else d.monthIndex

theorem offset_cases (mainCycle : Bool) : offset mainCycle = 1 ∨ offset mainCycle = 3 := by
  cases mainCycle
  · exact .inl rfl
  · exact .inr rfl

theorem target_spec (self : FuturesRule) (mainCycle : Bool) (d : Date) :
    self.target mainCycle d % offset mainCycle = 0 ∧ d.monthIndex ≤ self.target mainCycle d := by
  unfold target
  rcases offset_cases mainCycle with h | h <;> rw [h] <;> split <;> omega

/-- **No date of the rule comes between** a date and the month in which the search looks. -/
theorem target_le (h : self.Contract mainCycle x) (hlt : d < x) : self.target mainCycle d ≤ x.monthIndex := by
  obtain ⟨hx, -, -, h₂, hc⟩ := isContract_iff.mp h
  have hlast := self.last_eq
  have hcases := Date.le_cases hlt.le
  unfold target
  rcases offset_cases mainCycle with ho | ho <;> rw [ho] at hc ⊢ <;> split <;> omega

theorem searchMonth_spec (self : FuturesRule) (mainCycle : Bool) (d : Date) : ∃ (m : Month) (y : ℤ),
    self.searchMonth mainCycle d = (m.ordinal, y) ∧ 12 * y + m.ordinal = self.target mainCycle d := by
  have hb := d.month.ordinal_bounds
  obtain ⟨⟨k, y⟩, hp⟩ : ∃ p, self.searchMonth mainCycle d = p := ⟨_, rfl⟩
  have hk : 1 ≤ k ∧ k ≤ 12 ∧ 12 * y + k = self.target mainCycle d := by
    unfold searchMonth at hp
    unfold target
    rw [Date.monthIndex]
    rcases offset_cases mainCycle with h | h <;> rw [h] at hp ⊢ <;> simp only at hp <;> split at hp <;>
      (try split at hp) <;> obtain ⟨rfl, rfl⟩ := Prod.mk.inj hp <;> split <;> omega
  obtain ⟨m, -, ho⟩ := Date.exists_month hk.1 hk.2.1
  exact ⟨m, y, by rw [hp, ho], by rw [ho]; exact hk.2.2⟩

theorem search_succ {m : Month} {y : ℤ} (h : self.searchMonth mainCycle d = (m.ordinal, y)) :
    search self mainCycle (turns + 1) d =
      (orPanic (Date.nthWeekday self.nth self.weekday m y)).bind (fun result =>
        if result ≤ d then
          (orPanic (Date.new self.restart m y)).bind (fun start => search self mainCycle turns start)
        else .ok result) := by
  rw [search, h]
  simp only [Month.fromOrdinal_ordinal]
  rfl

/-- The search found the next date, or there is none. -/
def Finds (self : FuturesRule) (mainCycle : Bool) (d : Date) (found : Except Halt Date) : Prop :=
  (∃ r, found = .ok r ∧ IsLeast {x | self.Contract mainCycle x ∧ d < x} r) ∨
  (found = .error .panic ∧ ∀ x, self.Contract mainCycle x → ¬ d < x)

/-- The month in which the search looks has a date, or there is no later one. -/
theorem target_contract (hd : d ≠ Date.null) {m : Month} {y : ℤ} (ht : 12 * y + m.ordinal = self.target mainCycle d) :
    (∃ r, Date.nthWeekday self.nth self.weekday m y = some r ∧ self.Contract mainCycle r ∧
      r.monthIndex = self.target mainCycle d) ∨
    (Date.nthWeekday self.nth self.weekday m y = none ∧ ∀ x, self.Contract mainCycle x → ¬ d < x) := by
  cases hr : Date.nthWeekday self.nth self.weekday m y with
  | some r =>
    obtain ⟨hc, hi⟩ := contract_nthWeekday hr (by rw [ht]; exact (target_spec self mainCycle d).1)
    exact .inl ⟨r, rfl, hc, hi.trans ht⟩
  | none   =>
    refine .inr ⟨rfl, fun x hx hlt => ?_⟩
    -- the month lies between the months of the two dates, in the supported years
    have hle := target_le hx hlt
    have hge := (target_spec self mainCycle d).2
    have hin := Date.monthIndex_inRange hd
    have hin' := Date.monthIndex_inRange hx.1
    have hm := m.ordinal_bounds
    have hn := self.nth_bounds
    unfold Date.MonthInRange at hin hin'
    obtain ⟨r, hr'⟩ := Date.exists_nthWeekday (n := self.nth) (y := y) (by omega) (by omega) (by omega) (by omega)
      self.weekday m
    rw [hr] at hr'
    cases hr'

/-- **The date of that month is the next one**, when it comes after. -/
theorem isLeast_target (hr : self.Contract mainCycle r) (hi : r.monthIndex = self.target mainCycle d) (hlt : d < r) :
    IsLeast {x | self.Contract mainCycle x ∧ d < x} r := by
  refine ⟨⟨hr, hlt⟩, fun x hx => ?_⟩
  rcases lt_or_eq_of_le (hi ▸ target_le hx.1 hx.2) with h | h
  · exact (Date.lt_of_monthIndex h).le
  · exact (contract_unique hr hx.1 h).le

/-- One turn is enough where the date of the month is still to come. -/
theorem search_ahead (hd : d ≠ Date.null)
    (h : ∀ r, self.Contract mainCycle r → r.monthIndex = self.target mainCycle d → d < r) :
    Finds self mainCycle d (search self mainCycle (turns + 1) d) := by
  obtain ⟨m, y, hs, ht⟩ := searchMonth_spec self mainCycle d
  rw [search_succ hs]
  rcases target_contract hd ht with ⟨r, hr, hc, hi⟩ | ⟨hnone, hlast⟩
  · have hlt := h r hc hi
    rw [hr]
    change Finds self mainCycle d (if r ≤ d then _ else _)
    rw [if_neg (not_le.mpr hlt)]
    exact .inl ⟨r, rfl, isLeast_target hc hi hlt⟩
  · rw [hnone]
    exact .inr ⟨rfl, hlast⟩

/-- **`next_date` finds the next date.** -/
theorem nextDate_finds (self : FuturesRule) (mainCycle : Bool) (hd : d ≠ Date.null) :
    Finds self mainCycle d (self.nextDate d mainCycle) := by
  obtain ⟨m, y, hs, ht⟩ := searchMonth_spec self mainCycle d
  rcases target_contract hd ht with ⟨r, hr, hc, hi⟩ | ⟨hnone, hlast⟩
  case inr =>
    rw [nextDate, search_succ hs, hnone]
    exact .inr ⟨rfl, hlast⟩
  by_cases hlt : d < r
  · exact search_ahead hd (fun r' hc' hi' => contract_unique hc hc' (hi.trans hi'.symm) ▸ hlt)
  -- the date of this month has come: the search goes on behind its last possible day
  have hle := not_lt.mp hlt
  have hn := self.nth_bounds
  have hlast := self.last_eq
  have hrestart := self.restart_eq
  obtain ⟨hrn, -, -, -, hr0⟩ := isContract_iff.mp hc
  obtain ⟨-, hrm, hry, -⟩ := (Date.nthWeekday_eq_some (by omega) (by omega)).mp hr
  obtain ⟨lo, hi', -⟩ := Date.year_spec hrn
  have hl := (Date.monthLength_bounds m (isLeap y)).1
  have hsame : r.monthIndex = d.monthIndex :=
    le_antisymm (Date.monthIndex_mono hle) (hi ▸ (target_spec self mainCycle d).2)
  obtain ⟨e, he⟩ := @Date.exists_new self.restart m y (by omega) (by omega) (by omega) (by omega)
  obtain ⟨hen, hed, hem, hey⟩ := Date.new_spec he
  have hei : e.monthIndex = d.monthIndex := by
    rw [← hsame]
    exact Date.monthIndex_eq_iff.mpr ⟨hem.trans hrm.symm, hey.trans hry.symm⟩
  have hte : self.target mainCycle e = e.monthIndex + offset mainCycle := by
    rw [target, if_pos (.inr (by omega)), hei, ← hsame, hr0, sub_zero]
  -- a date of the rule comes after the one exactly when it comes after the other
  have hiff : ∀ x, self.Contract mainCycle x → (d < x ↔ e < x) := fun x hx => by
    constructor
    · intro h
      refine Date.lt_of_monthIndex (lt_of_le_of_ne (hei ▸ Date.monthIndex_mono h.le) (fun heq => ?_))
      exact hlt (contract_unique hc hx (hsame.trans (hei.symm.trans heq)) ▸ h)
    · intro h
      have hcases := Date.le_cases h.le
      have hday := (isContract_iff.mp hx).2.2.2.1
      exact Date.lt_of_monthIndex (by omega)
  have hfinds : Finds self mainCycle e (search self mainCycle 1 e) := search_ahead hen (fun r' _ hi₁ => by
    apply Date.lt_of_monthIndex
    rcases offset_cases mainCycle with ho | ho <;> omega)
  rw [nextDate, search_succ hs, hr]
  change Finds self mainCycle d (if r ≤ d then _ else _)
  rw [if_pos hle, he]
  change Finds self mainCycle d (search self mainCycle 1 e)
  rcases hfinds with ⟨r', hr', ⟨hc', hlt'⟩, hmin⟩ | ⟨hp, hnone⟩
  · exact .inl ⟨r', hr', ⟨hc', (hiff r' hc').mpr hlt'⟩, fun x hx => hmin ⟨hx.1, (hiff x hx.1).mp hx.2⟩⟩
  · exact .inr ⟨hp, fun x hx h => hnone x hx ((hiff x hx).mp h)⟩

/-! ## Codes -/

/-- **The first of a month leads to its date.** -/
theorem nextDate_first (self : FuturesRule) {m : Month} {y : ℤ} (h : Date.new 1 m y = some d) :
    ∃ r, self.nextDate d false = .ok r ∧ self.Contract false r ∧ r.month = m ∧ r.year = y := by
  obtain ⟨hd, hday, hm, hy⟩ := Date.new_spec h
  obtain ⟨lo, hi, -⟩ := Date.year_spec hd
  have hn := self.nth_bounds
  obtain ⟨c, hc⟩ := Date.exists_nthWeekday (n := self.nth) (y := y) (by omega) (by omega) (by omega) (by omega)
    self.weekday m
  obtain ⟨hcc, hci⟩ : self.Contract false c ∧ c.monthIndex = 12 * y + m.ordinal :=
    contract_nthWeekday hc (Int.emod_one _)
  have hcd := (isContract_iff.mp hcc).2.2.1
  have hdi : d.monthIndex = c.monthIndex := by rw [hci, Date.monthIndex, hm, hy]
  have hlt : d < c := by
    obtain ⟨hm', hy'⟩ := Date.monthIndex_eq_iff.mp hdi
    have := Date.serialNumber_sub hm' hy'
    rw [Date.lt_iff]
    omega
  rcases nextDate_finds self false hd with ⟨r, hr, ⟨hrc, hdr⟩, hmin⟩ | ⟨-, hnone⟩
  · have hle : r ≤ c := hmin ⟨hcc, hlt⟩
    have hidx : r.monthIndex = c.monthIndex :=
      le_antisymm (Date.monthIndex_mono hle) (hdi ▸ Date.monthIndex_mono hdr.le)
    obtain rfl := contract_unique hrc hcc hidx
    obtain ⟨-, hrm, hry, -⟩ := (Date.nthWeekday_eq_some (by omega) (by omega)).mp hc
    exact ⟨r, hr, hrc, hrm, hry⟩
  · exact absurd hlt (hnone c hcc)

theorem exists_first (m : Month) {y : ℤ} (h₁ : 1901 ≤ y) (h₂ : y ≤ 2199) : ∃ d, Date.new 1 m y = some d :=
  Date.exists_new (by omega) (by omega) (by decide) (le_trans (by decide) (Date.monthLength_bounds m _).1)

/-- **The year of a code**: the decade of the reference date and the digit, unless the decade before is meant. -/
theorem resolve_eq {text : List Char} {ref : Date} (hr : ref ≠ Date.null) (hc : self.Contract false r) (hle : ref ≤ r)
    (hbefore : ∀ x, self.Contract false x → x.month = r.month → x.year + 10 = r.year → x < ref) :
    self.resolve text r.month (r.year % 10) ref = .ok (.ok r) := by
  obtain ⟨lo, hi, -⟩ := Date.year_spec hc.1
  obtain ⟨lo', hi', -⟩ := Date.year_spec hr
  have hyear := Date.year_mono hr hc.1 hle
  have hten : r.year - 10 ≤ ref.year := by
    by_cases h : 1901 ≤ r.year - 10
    · obtain ⟨first, hf⟩ := exists_first r.month h (by omega)
      obtain ⟨x, -, hx, hxm, hxy⟩ := nextDate_first self hf
      have := Date.year_mono hx.1 hr (hbefore x hx hxm (by omega)).le
      omega
    · omega
  obtain ⟨y, hy⟩ : ∃ y, (if r.year % 10 = 0 ∧ ref.year ≤ 1909 then r.year % 10 + 10 else r.year % 10) +
      (ref.year - ref.year % 10) = y := ⟨_, rfl⟩
  have hcases : y = r.year ∨ (y = r.year - 10 ∧ 1901 ≤ y) := by
    split at hy <;> omega
  obtain ⟨first, hf⟩ := exists_first r.month (y := y) (by omega) (by omega)
  obtain ⟨x, hx, hxc, hxm, hxy⟩ := nextDate_first self hf
  unfold resolve
  simp only [hy]
  rw [hf]
  change (self.nextDate first false).bind (fun result => if result < ref then _ else _) = _
  rw [hx]
  change (if x < ref then _ else _) = _
  rcases hcases with rfl | ⟨hten', hlo⟩
  · obtain rfl := contract_unique hxc hc (Date.monthIndex_eq_iff.mpr ⟨hxm, hxy⟩)
    rw [if_neg (not_lt.mpr hle)]
  · rw [if_pos (hbefore x hxc hxm (by omega)), if_pos (by omega)]
    obtain ⟨first', hf'⟩ := exists_first r.month (y := y + 10) (by omega) (by omega)
    obtain ⟨x', hx', hxc', hxm', hxy'⟩ := nextDate_first self hf'
    obtain rfl := contract_unique hxc' hc (Date.monthIndex_eq_iff.mpr ⟨hxm', by omega⟩)
    rw [hf']
    change (self.nextDate first' false).bind (fun result => _) = _
    rw [hx']
    rfl

/-- What is read is a date of the month and the digit, on or after the reference date. -/
theorem of_resolve {text : List Char} {ref : Date} {m : Month} {digit : ℤ} (h₀ : 0 ≤ digit) (h₉ : digit ≤ 9)
    (h : self.resolve text m digit ref = .ok (.ok r)) :
    self.Contract false r ∧ r.month = m ∧ r.year % 10 = digit ∧ ref ≤ r := by
  obtain ⟨y, hy⟩ : ∃ y, (if digit = 0 ∧ ref.year ≤ 1909 then digit + 10 else digit) + (ref.year - ref.year % 10) = y :=
    ⟨_, rfl⟩
  have hmod : y % 10 = digit ∧ ref.year < y + 10 := by
    split at hy <;> omega
  unfold resolve at h
  simp only [hy] at h
  obtain ⟨first, hf, h⟩ := of_bind_ok h
  obtain ⟨x, hx, h⟩ := of_bind_ok h
  have hf := orPanic_eq_ok hf
  obtain ⟨x', hx', hxc, hxm, hxy⟩ := nextDate_first self hf
  rw [hx, Except.ok.injEq] at hx'
  subst hx'
  split at h
  · split at h
    · obtain ⟨first', hf', h⟩ := of_bind_ok h
      obtain ⟨z, hz, h⟩ := of_bind_ok h
      have hf' := orPanic_eq_ok hf'
      obtain ⟨z', hz', hzc, hzm, hzy⟩ := nextDate_first self hf'
      rw [hz, Except.ok.injEq] at hz'
      subst hz'
      obtain rfl : z = r := Except.ok.inj (Except.ok.inj h)
      refine ⟨hzc, hzm, by omega, ?_⟩
      by_contra hlt
      by_cases hn : ref = Date.null
      · rw [hn] at hlt
        exact hlt (Date.null_le z)
      · have := Date.year_mono hzc.1 hn (not_le.mp hlt).le
        omega
    · exact absurd (Except.ok.inj h) (fun he => by cases he)
  · rename_i hlt
    obtain rfl : x = r := Except.ok.inj (Except.ok.inj h)
    exact ⟨hxc, hxm, by omega, not_lt.mp hlt⟩

def letter (m : Month) : UInt8 := allMonthCodes.getD (m.ordinal - 1).toNat 0

/-- A code is two bytes, the letter of its month and the digit of its year. -/
theorem asBytes_code (m : Month) {k : ℤ} (h₀ : 0 ≤ k) (h₉ : k ≤ 9) :
    asBytes (Char.ofNat (letter m).toNat :: display k) = [letter m, UInt8.ofNat (48 + k.toNat)] := by
  interval_cases k <;> cases m <;> decide

theorem toAsciiUppercase_letter (m : Month) : DataParsers.toAsciiUppercase (letter m) = letter m := by
  cases m <;> decide

theorem findIdx?_letter (m : Month) :
    allMonthCodes.findIdx? (· == letter m) = some (m.ordinal - 1).toNat := by
  cases m <;> decide

theorem exists_letter {b : UInt8} (h : allMonthCodes.contains b = true) : ∃ m, b = letter m := by
  have hmem : b ∈ allMonthCodes := List.contains_iff_mem.mp h
  simp only [allMonthCodes, List.mem_cons, List.not_mem_nil, or_false] at hmem
  rcases hmem with rfl | rfl | rfl | rfl | rfl | rfl | rfl | rfl | rfl | rfl | rfl | rfl
  exacts [⟨.january, rfl⟩, ⟨.february, rfl⟩, ⟨.march, rfl⟩, ⟨.april, rfl⟩, ⟨.may, rfl⟩, ⟨.june, rfl⟩, ⟨.july, rfl⟩,
    ⟨.august, rfl⟩, ⟨.september, rfl⟩, ⟨.october, rfl⟩, ⟨.november, rfl⟩, ⟨.december, rfl⟩]

/-- A text is a code when it is a letter, of either case, and a digit. -/
theorem isCode_iff {text : List Char} : self.isCode text false = true ↔
    ∃ b0 b1 m, asBytes text = [b0, b1] ∧ DataParsers.toAsciiUppercase b0 = letter m ∧ isAsciiDigit b1 = true := by
  unfold isCode
  constructor
  · intro h
    split at h
    · rename_i b0 b1 hb
      split at h
      · cases h
      · rename_i hd
        obtain ⟨m, hm⟩ := exists_letter h
        exact ⟨b0, b1, m, hb, hm, by simpa using hd⟩
    · cases h
  · rintro ⟨b0, b1, m, hb, hm, hd⟩
    rw [hb]
    simp only [hd, hm, Bool.not_true, Bool.false_eq_true, if_false]
    cases m <;> decide

theorem date_eq {text : List Char} {ref : Date} {b0 b1 : UInt8} {m : Month} (hb : asBytes text = [b0, b1])
    (hm : DataParsers.toAsciiUppercase b0 = letter m) (hd : isAsciiDigit b1 = true) :
    self.date text ref = self.resolve text m (b1.toNat - 48) ref := by
  have ho := m.ordinal_bounds
  have hf : Month.fromOrdinal (((m.ordinal - 1).toNat : ℤ) + 1) = some m := by
    rw [show ((m.ordinal - 1).toNat : ℤ) + 1 = m.ordinal by omega, Month.fromOrdinal_ordinal]
  unfold date
  rw [if_pos (isCode_iff.mpr ⟨b0, b1, m, hb, hm, hd⟩), hb]
  simp only [hm, findIdx?_letter, hf]
  rfl

theorem isAsciiDigit_bounds {b : UInt8} (h : isAsciiDigit b = true) : 48 ≤ b.toNat ∧ b.toNat ≤ 57 := by
  rw [isAsciiDigit, Bool.and_eq_true, decide_eq_true_eq, decide_eq_true_eq] at h
  exact ⟨UInt8.le_iff_toNat_le.mp h.1, UInt8.le_iff_toNat_le.mp h.2⟩

theorem code_eq (h : self.Contract false r) :
    self.code r = .ok (Char.ofNat (letter r.month).toNat :: display (r.year % 10)) := by
  rw [code, if_pos h.2, letter]

/-- **A code is read back** as its date, on a reference date after the date ten years before. -/
theorem date_code {ref : Date} (hr : ref ≠ Date.null) (hc : self.Contract false r) (hle : ref ≤ r)
    (hbefore : ∀ x, self.Contract false x → x.month = r.month → x.year + 10 = r.year → x < ref) :
    ∃ text, self.code r = .ok text ∧ self.date text ref = .ok (.ok r) := by
  have h₀ := Int.emod_nonneg r.year (show (10 : ℤ) ≠ 0 by decide)
  have h₉ := Int.emod_lt_of_pos r.year (show (0 : ℤ) < 10 by decide)
  have hbytes := asBytes_code r.month (k := r.year % 10) h₀ (by omega)
  have hnat : (UInt8.ofNat (48 + (r.year % 10).toNat)).toNat = 48 + (r.year % 10).toNat := by
    rw [UInt8.toNat_ofNat']
    omega
  have hdigit : isAsciiDigit (UInt8.ofNat (48 + (r.year % 10).toNat)) = true := by
    rw [isAsciiDigit, Bool.and_eq_true, decide_eq_true_eq, decide_eq_true_eq, UInt8.le_iff_toNat_le,
      UInt8.le_iff_toNat_le, hnat]
    exact ⟨Nat.le_add_right _ _, by change _ ≤ 57; omega⟩
  refine ⟨_, code_eq hc, ?_⟩
  rw [date_eq hbytes (toAsciiUppercase_letter r.month) hdigit, hnat]
  rw [show (((48 + (r.year % 10).toNat : ℕ) : ℤ) - 48) = r.year % 10 by push_cast; omega]
  exact resolve_eq hr hc hle hbefore

/-- **A date that is read has the code it was read from**, in capitals. -/
theorem code_date {text : List Char} {ref : Date} (h : self.date text ref = .ok (.ok r)) :
    ref ≤ r ∧ ∃ text', self.code r = .ok text' ∧ asBytes text' = (asBytes text).map DataParsers.toAsciiUppercase := by
  have hcode : self.isCode text false = true := by
    by_contra hn
    rw [date, if_neg hn] at h
    cases h
  obtain ⟨b0, b1, m, hb, hm, hd⟩ := isCode_iff.mp hcode
  obtain ⟨h₀, h₉⟩ := isAsciiDigit_bounds hd
  rw [date_eq hb hm hd] at h
  obtain ⟨hc, rfl, hy, hle⟩ := of_resolve (by omega) (by omega) h
  refine ⟨hle, _, code_eq hc, ?_⟩
  rw [asBytes_code r.month (by omega) (by omega), hb, List.map_cons, List.map_cons, List.map_nil, hm, hy]
  congr 2
  have hup : DataParsers.toAsciiUppercase b1 = b1 := if_neg (fun hlt => by
    have := UInt8.le_iff_toNat_le.mp hlt.1
    change 97 ≤ b1.toNat at this
    omega)
  rw [hup]
  refine UInt8.toNat_inj.mp ?_
  rw [UInt8.toNat_ofNat']
  omega

/-- **The dates of the exchanges and their codes.**  The search of `next_date` ends, and where a date of the rule, or of
its main cycle, comes after, it is at the least of them.  The code of a date is read back as it for every reference date
up to it and after the date ten years before; and every date that is read is on or after the reference date and has the
code it was read from. -/
theorem futures_spec (self : FuturesRule) :
    (∀ d mainCycle, d ≠ Date.null → Ends (self.nextDate d mainCycle) ∧
      ((∃ x, self.Contract mainCycle x ∧ d < x) →
        ∃ r, self.nextDate d mainCycle = .ok r ∧ IsLeast {x | self.Contract mainCycle x ∧ d < x} r)) ∧
    (∀ d ref, self.Contract false d → ref ≠ Date.null → ref ≤ d →
      (∀ x, self.Contract false x → x.month = d.month → x.year + 10 = d.year → x < ref) →
      ∃ text, self.code d = .ok text ∧ self.date text ref = .ok (.ok d)) ∧
    (∀ text ref d, self.date text ref = .ok (.ok d) → ref ≤ d ∧ ∃ text', self.code d = .ok text' ∧
      asBytes text' = (asBytes text).map DataParsers.toAsciiUppercase) := by
  refine ⟨fun d mainCycle hd => ?_, fun d ref hc hr hle hbefore => date_code hr hc hle hbefore,
    fun text ref d h => code_date h⟩
  rcases nextDate_finds self mainCycle hd with ⟨r, hr, hleast⟩ | ⟨hp, hnone⟩
  · rw [hr]
    exact ⟨ends_ok r, fun _ => ⟨r, rfl, hleast⟩⟩
  · rw [hp]
    exact ⟨ends_panic, fun ⟨x, hx, hlt⟩ => absurd hlt (hnone x hx)⟩

/-- The third Wednesday of March 2013 is read from its code on the first day of 2010. -/
theorem futures_spec_march : ∃ text, imm.code ⟨41353, by decide⟩ = .ok text ∧
    imm.date text ⟨40179, by decide⟩ = .ok (.ok ⟨41353, by decide⟩) := by
  have hc : imm.Contract false ⟨41353, by decide⟩ := ⟨by decide, by decide +kernel⟩
  refine (futures_spec imm).2.1 _ _ hc (by decide) (by decide) (fun x hx hm hy => ?_)
  have hn := hx.1
  have hyear : x.year = 2003 := by
    have : (⟨41353, by decide⟩ : Date).year = 2013 := by decide +kernel
    omega
  refine lt_of_not_ge (fun hle => ?_)
  have := Date.year_mono (by decide) hn hle
  have hy' : (⟨40179, by decide⟩ : Date).year = 2010 := by decide +kernel
  omega

/-- **No date follows the last day of 2199; and a reference date just before the date ten years before** gives that one:
the code of March 16th, 2011 is read on March 20th, 2001 as March 21st, 2001. -/
theorem not_read_back : imm.nextDate ⟨109574, by decide⟩ false = .error .panic ∧
    asx.nextDate ⟨109574, by decide⟩ true = .error .panic ∧
    imm.code ⟨40618, by decide⟩ = .ok ['H', '1'] ∧
    (⟨36970, by decide⟩ : Date).advance 10 .years = some ⟨40622, by decide⟩ ∧
    imm.date ['H', '1'] ⟨36970, by decide⟩ = .ok (.ok ⟨36971, by decide⟩) := by
  refine ⟨?_, ?_, ?_, ?_, ?_⟩ <;> decide +kernel

end FuturesRule

end Itofin
