import Itofin.Lib.Ends
import Itofin.Time.BusinessDays
/-!
# Schedule — generating the dates of a schedule

`Schedule::new` of `time/schedule.rs`: it checks its arguments, generates dates by a rule, moves some of them to third
Wednesdays, adjusts the ends and the inner dates, and drops an inner date that met or passed an end.

The dates and the regularity flags grow together, in a `Draft` that holds one flag for every date but its first, and it
is the draft that the two loops hand on.  A loop takes a turn for every date of the supported range; a step of so many
periods has left the range before that (`backwardLoop_fuel`, `forwardLoop_fuel`).
-/
namespace Itofin

open Calendar Ends

inductive DateGeneration where
  | backward | forward | zero | thirdWednesday | thirdWednesdayInclusive
  | twentieth | twentiethIMM | oldCDS | cds | cds2015
deriving DecidableEq, Repr

namespace DateGeneration

/-- The rules that put the dates on the twentieth of a month. -/
def isTwentieth (rule : DateGeneration) : Bool := rule ∈ [twentieth, twentiethIMM, oldCDS, cds, cds2015]

/-- The rules whose twentieths are those of March, June, September and December. -/
def isTwentiethIMM (rule : DateGeneration) : Bool := rule ∈ [twentiethIMM, oldCDS, cds, cds2015]

def isCDS (rule : DateGeneration) : Bool := rule ∈ [cds, cds2015]

end DateGeneration

/-- A payment schedule and the meta information used to build it, when available. -/
structure Schedule where
  tenor : Option Period
  calendar : Calendar
  convention : BusinessDayConvention
  terminationDateConvention : Option BusinessDayConvention
  rule : Option DateGeneration
  endOfMonth : Option Bool
  firstDate : Date
  nextToLastDate : Date
  dates : List Date
  isRegular : List Bool

namespace Schedule

def previousTwentieth (d : Date) (rule : DateGeneration) : Option Date := do
  let result ← Date.new 20 d.month d.year
  let result ← (if d < result then result.subPeriod ⟨1, .months⟩ else some result)
  let m := result.month.ordinal
  if rule.isTwentiethIMM ∧ m % 3 ≠ 0 then result.subPeriod ⟨m % 3, .months⟩ else some result

def nextTwentieth (d : Date) (rule : DateGeneration) : Option Date := do
  let result ← Date.new 20 d.month d.year
  let result ← (if result < d then result.addPeriod ⟨1, .months⟩ else some result)
  let m := result.month.ordinal
  if rule.isTwentiethIMM ∧ m % 3 ≠ 0 then result.addPeriod ⟨3 - m % 3, .months⟩ else some result

def isIMMDate (d : Date) : Bool := d.weekday = .wednesday && (15 ≤ d.dayOfMonth && d.dayOfMonth ≤ 21)

/-! ## The arguments -/

structure Terms where
  effectiveDate : Date
  terminationDate : Date
  tenor : Period
  calendar : Calendar
  convention : BusinessDayConvention
  terminationDateConvention : BusinessDayConvention
  rule : DateGeneration
  endOfMonth : Bool
  firstDate : Date
  nextToLastDate : Date

namespace Terms

/-- The arguments after the `let`s that shadow them: a stub at its end of the schedule is none, a zero tenor generates
no dates, and the end of the month is for tenors in months and years. -/
def normalized (a : Terms) : Terms :=
  { a with
    endOfMonth := a.tenor.allowsEndOfMonth && a.endOfMonth
    firstDate := if a.firstDate = a.effectiveDate then Date.null else a.firstDate
    nextToLastDate := if a.nextToLastDate = a.terminationDate then Date.null else a.nextToLastDate
    rule := if a.tenor.length = 0 then .zero else a.rule }

def acceptsFirstDate (a : Terms) : Bool :=
  match a.rule with
  | .backward | .forward => a.effectiveDate < a.firstDate && a.firstDate ≤ a.terminationDate
  | .thirdWednesday      => isIMMDate a.firstDate
  | _                    => false

def acceptsNextToLastDate (a : Terms) : Bool :=
  match a.rule with
  | .backward | .forward => a.effectiveDate ≤ a.nextToLastDate && a.nextToLastDate < a.terminationDate
  | .thirdWednesday      => isIMMDate a.nextToLastDate
  | _                    => false

/-- The assertions on the arguments, once normalized. -/
structure Accepted (a : Terms) : Prop where
  terminationDate : a.terminationDate ≠ Date.null
  effectiveDate : a.effectiveDate ≠ Date.null
  inOrder : a.effectiveDate < a.terminationDate
  tenor : 0 ≤ a.tenor.length
  firstDate : a.firstDate ≠ Date.null → a.acceptsFirstDate = true
  nextToLastDate : a.nextToLastDate ≠ Date.null → a.acceptsNextToLastDate = true

theorem accepted_iff (a : Terms) : a.Accepted ↔ a.terminationDate ≠ Date.null ∧ a.effectiveDate ≠ Date.null ∧
    a.effectiveDate < a.terminationDate ∧ 0 ≤ a.tenor.length ∧
    (a.firstDate ≠ Date.null → a.acceptsFirstDate = true) ∧
    (a.nextToLastDate ≠ Date.null → a.acceptsNextToLastDate = true) :=
  ⟨fun h => ⟨h.1, h.2, h.3, h.4, h.5, h.6⟩, fun ⟨h₁, h₂, h₃, h₄, h₅, h₆⟩ => ⟨h₁, h₂, h₃, h₄, h₅, h₆⟩⟩

instance (a : Terms) : Decidable a.Accepted := decidable_of_iff' _ a.accepted_iff

/-- `null_calendar.advance_by_period(d, p, convention, end_of_month)` -/
def step (a : Terms) (d : Date) (p : Period) : Option Date :=
  nullCalendar.advanceByPeriod d p a.convention a.endOfMonth

/-- `calendar.adjust(d, c) != calendar.adjust(d', c)` -/
def apart (a : Terms) (c : BusinessDayConvention) (d d' : Date) : Option Bool := do
  let x ← a.calendar.adjust d c
  let y ← a.calendar.adjust d' c
  some (decide (x ≠ y))

end Terms

/-! ## Drafts -/

/-- The dates pushed so far, the last one first, with a flag for every date but the one pushed first. -/
structure Draft where
  last : Date
  earlier : List Date
  isRegular : List Bool
  inStep : isRegular.length = earlier.length

namespace Draft

/-- `dates.push(d)` on no dates. -/
def start (d : Date) : Draft := ⟨d, [], [], rfl⟩

/-- `dates.push(d); is_regular.push(regular);` -/
def push (b : Draft) (d : Date) (regular : Bool) : Draft :=
  ⟨d, b.last :: b.earlier, regular :: b.isRegular, by rw [List.length_cons, List.length_cons, b.inStep]⟩

def dates (b : Draft) : List Date := b.last :: b.earlier

theorem isRegular_length (b : Draft) : b.isRegular.length + 1 = b.dates.length := by
  rw [dates, List.length_cons, b.inStep]

end Draft

/-- The dates a rule generates, in the order of the schedule, and the date its periods are counted from. -/
structure Generated where
  seed : Date
  dates : List Date
  isRegular : List Bool
  inStep : isRegular.length + 1 = dates.length

namespace Terms

/-- Pushes a date that is regular when it is one step away. -/
def pushStub (a : Terms) (b : Draft) (p : Period) (d : Date) : Option Draft := do
  let temp ← a.step b.last p
  some (b.push d (temp = d))

/-! ## Backward -/

def backwardStart (a : Terms) : Option (Date × Draft) := do
  let b := Draft.start a.terminationDate
  if a.nextToLastDate ≠ Date.null then
    let b ← a.pushStub b (a.tenor.scale 1).neg a.nextToLastDate
    some (a.nextToLastDate, b)
  else some (a.terminationDate, b)

def backwardLoop (a : Terms) (seed exitDate : Date) : ℕ → ℤ → Draft → Option Draft
  | 0, _, _              => none
  | fuel + 1, periods, b => do
    let temp ← a.step seed (a.tenor.scale periods).neg
    if temp < exitDate then
      if a.firstDate ≠ Date.null then
        if ← a.apart a.convention b.last a.firstDate then a.pushStub b a.tenor.neg a.firstDate else some b
      else some b
    else
      let apart ← a.apart a.convention b.last temp
      a.backwardLoop seed exitDate fuel (periods + 1) (if apart then b.push temp true else b)

def backwardEnd (a : Terms) (b : Draft) : Option Draft := do
  if ← a.apart a.convention b.last a.effectiveDate then a.pushStub b a.tenor.neg a.effectiveDate else some b

/-- The dates from the termination date back; pushed last, the earliest comes first in the schedule. -/
def backward (a : Terms) : Option Generated := do
  let (seed, b) ← a.backwardStart
  let exitDate := if a.firstDate ≠ Date.null then a.firstDate else a.effectiveDate
  let b ← a.backwardLoop seed exitDate days 1 b
  let b ← a.backwardEnd b
  some ⟨seed, b.dates, b.isRegular, b.isRegular_length⟩

/-! ## Forward -/

def forwardStart (a : Terms) : Option Draft :=
  if a.rule.isCDS then do
    let prevTwentieth ← previousTwentieth a.effectiveDate a.rule
    let adjusted ← a.calendar.adjust prevTwentieth a.convention
    if a.effectiveDate < adjusted then
      let early ← prevTwentieth.subPeriod ⟨3, .months⟩
      some ((Draft.start early).push prevTwentieth true)
    else some (Draft.start prevTwentieth)
  else some (Draft.start a.effectiveDate)

def forwardStub (a : Terms) (b : Draft) : Option (Date × Draft) :=
  if a.firstDate ≠ Date.null then do
    let b ← a.pushStub b (a.tenor.scale 1) a.firstDate
    some (a.firstDate, b)
  else if a.rule.isTwentieth then do
    let next ← nextTwentieth a.effectiveDate a.rule
    let stubDays := 30
    let next ← (if a.rule = .oldCDS ∧ next.serialNumber - a.effectiveDate.serialNumber < stubDays then
        (next.addDays 1).bind (fun d => nextTwentieth d a.rule)
      else some next)
    if next ≠ a.effectiveDate then some (next, b.push next a.rule.isCDS) else some (b.last, b)
  else some (b.last, b)

def forwardLoop (a : Terms) (seed exitDate : Date) : ℕ → ℤ → Draft → Option Draft
  | 0, _, _              => none
  | fuel + 1, periods, b => do
    let temp ← a.step seed (a.tenor.scale periods)
    if exitDate < temp then
      if a.nextToLastDate ≠ Date.null then
        if ← a.apart a.convention b.last a.nextToLastDate then a.pushStub b a.tenor a.nextToLastDate else some b
      else some b
    else
      let apart ← a.apart a.convention b.last temp
      a.forwardLoop seed exitDate fuel (periods + 1) (if apart then b.push temp true else b)

def forwardEnd (a : Terms) (b : Draft) : Option Draft := do
  if ← a.apart a.terminationDateConvention b.last a.terminationDate then
    if a.rule.isTwentieth then
      let next ← nextTwentieth a.terminationDate a.rule
      some (b.push next true)
    else some (b.push a.terminationDate false)
  else some b

def forward (a : Terms) : Option Generated := do
  let b ← a.forwardStart
  let (seed, b) ← a.forwardStub b
  let exitDate := if a.nextToLastDate ≠ Date.null then a.nextToLastDate else a.terminationDate
  let b ← a.forwardLoop seed exitDate days 1 b
  let b ← a.forwardEnd b
  some ⟨seed, b.dates.reverse, b.isRegular.reverse, by
    rw [List.length_reverse, List.length_reverse, b.isRegular_length]⟩

def generate (a : Terms) : Option Generated :=
  match a.rule with
  | .zero     => some ⟨Date.null, [a.effectiveDate, a.terminationDate], [true], rfl⟩
  | .backward => a.backward
  | .forward  => a.forward
  -- the end of the month does not go with the rules that fix the days
  | _         => if a.endOfMonth then none else a.forward

/-! ## Rolling -/

def thirdWednesday (d : Date) : Option Date := Date.nthWeekday 3 .wednesday d.month d.year

def shift (a : Terms) (dates : List Date) : Option (List Date) :=
  match a.rule with
  | .thirdWednesday          => mapInner thirdWednesday dates
  | .thirdWednesdayInclusive => dates.mapM thirdWednesday
  | _                        => some dates

/-- Adjusts the first date, then the last. -/
def adjustEnds (a : Terms) (dates : List Date) : Option (List Date) := do
  let dates ← (if a.convention ≠ .unadjusted ∧ a.rule ≠ .oldCDS then
      mapFirst (fun d => a.calendar.adjust d a.convention) dates
    else some dates)
  if a.terminationDateConvention ≠ .unadjusted ∧ a.rule.isCDS = false then
    mapLast (fun d => a.calendar.adjust d a.terminationDateConvention) dates
  else some dates

/-- Adjusts the other dates, after moving them to the end of their month if the periods are counted from one. -/
def adjustInner (a : Terms) (seed : Date) (dates : List Date) : Option (List Date) := do
  let endOfMonth ← (if a.endOfMonth ∧ seed ≠ Date.null then a.calendar.isEndOfMonth seed else some false)
  if endOfMonth then
    mapInner (fun d => d.endOfMonth.bind (fun e => a.calendar.adjust e a.convention)) dates
  else
    mapInner (fun d => a.calendar.adjust d a.convention) dates

end Terms

/-! ## Merging -/

/-- Drops the last date but one when it is not before the last. -/
def mergeEnd (dates : List Date) (isRegular : List Bool) : List Date × List Bool :=
  let n := dates.length
  let last := dates.getD (n - 1) Date.null
  let previous := dates.getD (n - 2) Date.null
  if 2 ≤ n ∧ last ≤ previous then
    let k := isRegular.length
    let isRegular := if 2 ≤ k then isRegular.set (k - 2) (previous = last) else isRegular
    ((dates.set (n - 2) last).dropLast, isRegular.dropLast)
  else (dates, isRegular)

/-- Drops the second date when it is not after the first; there is a flag to drop with it, as many as dates but one. -/
def mergeStart (dates : List Date) (isRegular : List Bool) : List Date × List Bool :=
  let first := dates.getD 0 Date.null
  let second := dates.getD 1 Date.null
  if 2 ≤ dates.length ∧ second ≤ first then
    let isRegular := if 2 ≤ isRegular.length then isRegular.set 1 (second = first) else isRegular
    ((dates.set 1 first).tail, isRegular.tail)
  else (dates, isRegular)

def new (args : Terms) : Option Schedule :=
  let a := args.normalized
  if a.Accepted then do
    let g ← a.generate
    let dates ← a.shift g.dates
    let dates ← a.adjustEnds dates
    let dates ← a.adjustInner g.seed dates
    let (dates, isRegular) := mergeEnd dates g.isRegular
    let (dates, isRegular) := mergeStart dates isRegular
    if 1 < dates.length then
      some {
        tenor := if a.rule = .zero then some ⟨0, .years⟩ else some a.tenor
        calendar := a.calendar
        convention := a.convention
        terminationDateConvention := some a.terminationDateConvention
        rule := some a.rule
        endOfMonth := some a.endOfMonth
        firstDate := a.firstDate
        nextToLastDate := a.nextToLastDate
        dates, isRegular }
    else none
  else none

/-! ## The loops have turns enough -/

namespace Terms

variable {a : Terms} {seed exitDate : Date}

theorem step_far {d : Date} {p : Period} (hd : d ≠ Date.null) (hp : p.length ≤ -109574 ∨ 109574 ≤ p.length) :
    a.step d p = none := advance_far hd hp

/-- From turn `109574` on the step leaves the range, and there are turns left to see it. -/
theorem backwardLoop_succ (hs : seed ≠ Date.null) (ht : 0 < a.tenor.length) : ∀ (fuel : ℕ) (periods : ℤ) (b : Draft),
    109574 ≤ periods + fuel → a.backwardLoop seed exitDate fuel periods b =
      a.backwardLoop seed exitDate (fuel + 1) periods b
  | 0, periods, b, h        => by
    have hfar : a.step seed (a.tenor.scale periods).neg = none :=
      step_far hs (.inl (by rw [Period.neg_length, Period.scale_length]; push_cast at h; nlinarith))
    rw [backwardLoop, backwardLoop, hfar]
    rfl
  | fuel + 1, periods, b, h => by
    rw [backwardLoop, backwardLoop]
    simp only [backwardLoop_succ hs ht fuel (periods + 1) _ (by push_cast at h; omega)]

theorem forwardLoop_succ (hs : seed ≠ Date.null) (ht : 0 < a.tenor.length) : ∀ (fuel : ℕ) (periods : ℤ) (b : Draft),
    109574 ≤ periods + fuel → a.forwardLoop seed exitDate fuel periods b =
      a.forwardLoop seed exitDate (fuel + 1) periods b
  | 0, periods, b, h        => by
    have hfar : a.step seed (a.tenor.scale periods) = none :=
      step_far hs (.inr (by rw [Period.scale_length]; push_cast at h; nlinarith))
    rw [forwardLoop, forwardLoop, hfar]
    rfl
  | fuel + 1, periods, b, h => by
    rw [forwardLoop, forwardLoop]
    simp only [forwardLoop_succ hs ht fuel (periods + 1) _ (by push_cast at h; omega)]

/-- **The loop back ends before its turns do**: more turns change nothing. -/
theorem backwardLoop_fuel (hs : seed ≠ Date.null) (ht : 0 < a.tenor.length) (b : Draft) {fuel : ℕ}
    (hf : days ≤ fuel) : a.backwardLoop seed exitDate fuel 1 b = a.backwardLoop seed exitDate days 1 b := by
  induction fuel, hf using Nat.le_induction with
  | base => rfl
  | succ fuel hf ih => rw [← backwardLoop_succ hs ht fuel 1 b (by unfold days at hf; omega), ih]

/-- **The loop forward ends before its turns do**: more turns change nothing. -/
theorem forwardLoop_fuel (hs : seed ≠ Date.null) (ht : 0 < a.tenor.length) (b : Draft) {fuel : ℕ}
    (hf : days ≤ fuel) : a.forwardLoop seed exitDate fuel 1 b = a.forwardLoop seed exitDate days 1 b := by
  induction fuel, hf using Nat.le_induction with
  | base => rfl
  | succ fuel hf ih => rw [← forwardLoop_succ hs ht fuel 1 b (by unfold days at hf; omega), ih]

end Terms

end Schedule
end Itofin
