import Itofin.Time.Period
/-!
# Thirty360 — the 30/360 day counts

`time/daycounters/thirty360.rs`.  Every month counts as thirty days once the day numbers are adjusted; the six rules
differ in how.  Those that adjust each date by itself count the days between two positions (`thirtyDays`), so their
counts add up; the others look at both dates.
-/
namespace Itofin.Thirty360

inductive Convention where
  | usa | bondBasis | european | eurobondBasis | italian | german | isma | isda | nasd
deriving DecidableEq, Repr

inductive Rule where
  | us | bondBasis | eurobond | italian | isda | nasd
deriving DecidableEq, Repr

/-- `Impl`: the rule, and the termination date that the ISDA rule looks at. -/
structure Counter where
  rule : Rule
  termination : Date

def withTermination (c : Convention) (termination : Date) : Counter :=
  { termination,
    rule := match c with
      | .usa                       => .us
      | .bondBasis | .isma         => .bondBasis
      | .european | .eurobondBasis => .eurobond
      | .italian                   => .italian
      | .german | .isda            => .isda
      | .nasd                      => .nasd }

def withConvention (c : Convention) : Counter := withTermination c Date.null

def isLastOfFebruary (d : ℤ) (m : Month) (y : ℤ) : Bool := m = .february && d = 28 + if isLeap y then 1 else 0

def thirty360 (yy1 yy2 mm1 mm2 dd1 dd2 : ℤ) : ℤ := 360 * (yy2 - yy1) + 30 * (mm2 - mm1) + (dd2 - dd1)

def dayCount (self : Counter) (d1 d2 : Date) : ℤ :=
  let dd1 := d1.dayOfMonth
  let dd2 := d2.dayOfMonth
  let mm1 := d1.month
  let mm2 := d2.month
  let yy1 := d1.year
  let yy2 := d2.year
  let om1 := mm1.ordinal
  let om2 := mm2.ordinal
  match self.rule with
  | .us        =>
    let first := isLastOfFebruary dd1 mm1 yy1
    let dd2 := if first ∧ isLastOfFebruary dd2 mm2 yy2 then 30 else dd2
    let dd1 := if first then 30 else dd1
    let dd2 := if dd2 = 31 ∧ 30 ≤ dd1 then 30 else dd2
    let dd1 := if dd1 = 31 then 30 else dd1
    thirty360 yy1 yy2 om1 om2 dd1 dd2
  | .bondBasis =>
    let dd1 := if dd1 = 31 then 30 else dd1
    let dd2 := if dd2 = 31 ∧ dd1 = 30 then 30 else dd2
    thirty360 yy1 yy2 om1 om2 dd1 dd2
  | .eurobond  =>
    let dd1 := if dd1 = 31 then 30 else dd1
    let dd2 := if dd2 = 31 then 30 else dd2
    thirty360 yy1 yy2 om1 om2 dd1 dd2
  | .italian   =>
    let dd1 := if dd1 = 31 then 30 else dd1
    let dd2 := if dd2 = 31 then 30 else dd2
    let dd1 := if mm1 = .february ∧ 27 < dd1 then 30 else dd1
    let dd2 := if mm2 = .february ∧ 27 < dd2 then 30 else dd2
    thirty360 yy1 yy2 om1 om2 dd1 dd2
  | .isda      =>
    let dd1 := if dd1 = 31 then 30 else dd1
    let dd2 := if dd2 = 31 then 30 else dd2
    let dd1 := if isLastOfFebruary dd1 mm1 yy1 then 30 else dd1
    let dd2 := if d2 ≠ self.termination ∧ isLastOfFebruary dd2 mm2 yy2 then 30 else dd2
    thirty360 yy1 yy2 om1 om2 dd1 dd2
  | .nasd      =>
    let dd1 := if dd1 = 31 then 30 else dd1
    let dd2 := if dd2 = 31 ∧ 30 ≤ dd1 then 30 else dd2
    -- the first of the next month, which may be the thirteenth
    let om2 := if dd2 = 31 ∧ dd1 < 30 then om2 + 1 else om2
    let dd2 := if dd2 = 31 ∧ dd1 < 30 then 1 else dd2
    thirty360 yy1 yy2 om1 om2 dd1 dd2

/-- The rules that adjust each date by itself. -/
def Separate (r : Rule) : Prop := r = .eurobond ∨ r = .italian

/-- The day number that such a rule gives a date. -/
def adjusted (r : Rule) (d : Date) : ℤ :=
  if d.dayOfMonth = 31 then 30
  else if r = .italian ∧ d.month = .february ∧ 27 < d.dayOfMonth then 30
  else d.dayOfMonth

/-- The days from the start of year zero, in months of thirty. -/
def thirtyDays (r : Rule) (d : Date) : ℤ := 360 * d.year + 30 * d.month.ordinal + adjusted r d

variable {self : Counter}

/-- **A count between positions**: the rules that adjust each date by itself. -/
theorem dayCount_eq (h : Separate self.rule) (d1 d2 : Date) :
    dayCount self d1 d2 = thirtyDays self.rule d2 - thirtyDays self.rule d1 := by
  obtain ⟨r, termination⟩ := self
  unfold thirtyDays adjusted
  rcases h with h | h <;> simp only at h <;> subst h <;> simp only [dayCount, thirty360]
  · simp only [reduceCtorEq, false_and, if_false]
    omega
  · simp only [true_and]
    split <;> split <;> split <;> split <;> grind

/-- The counts add up, and change sign with the order of the dates. -/
theorem dayCount_additive (h : Separate self.rule) (a b c : Date) :
    dayCount self a b + dayCount self b c = dayCount self a c ∧ dayCount self b a = -dayCount self a b := by
  rw [dayCount_eq h, dayCount_eq h, dayCount_eq h, dayCount_eq h]
  omega

end Itofin.Thirty360
