import Mathlib.Algebra.Order.Ring.Int
import Itofin.Time.Date
/-!
# Period — moving a date by days, weeks, months and years

`time/period.rs`, as far as dates are moved by it, and `Date::advance`.  A move by months carries into the years with
two loops and ends in the month so many months away (`advance_months`), on the day clamped to its length; a
move by years is one by twelve times as many months (`advance_years`).  So moves by more units go further
(`advance_lt`) and leave the range of the dates at the latest after as many units as it has days (`advance_far`).
-/
namespace Itofin

inductive TimeUnit where
  | days | weeks | months | years | hours | minutes | seconds | milliseconds | microseconds
deriving DecidableEq, Repr

structure Period where
  length : ℤ
  units : TimeUnit
deriving DecidableEq, Repr

namespace Period

/-- `n * period` -/
def scale (n : ℤ) (p : Period) : Period := ⟨n * p.length, p.units⟩

def neg (p : Period) : Period := ⟨-p.length, p.units⟩

/-- `days_min_max`: the numbers of days a period can span; it panics for the units below a day. -/
def daysMinMax (p : Period) : Option (ℤ × ℤ) :=
  let bounds := fun lo hi : ℤ => (min (lo * p.length) (hi * p.length), max (lo * p.length) (hi * p.length))
  match p.units with
  | .days   => some (p.length, p.length)
  | .weeks  => some (7 * p.length, 7 * p.length)
  | .months => some (bounds 28 31)
  | .years  => some (bounds 365 366)
  | _       => none

/-- Whether `p1 < p2`; the inner `none` is an undecidable comparison, the outer a panic. -/
def less (p1 p2 : Period) : Option (Option Bool) :=
  if p1.length = 0 then some (some (decide (0 < p2.length)))
  else if p2.length = 0 then some (some (decide (p1.length < 0)))
  else if p1.units = p2.units then some (some (decide (p1.length < p2.length)))
  else match p1.units, p2.units with
    | .months, .years => some (some (decide (p1.length < 12 * p2.length)))
    | .years, .months => some (some (decide (12 * p1.length < p2.length)))
    | .days, .weeks   => some (some (decide (p1.length < 7 * p2.length)))
    | .weeks, .days   => some (some (decide (7 * p1.length < p2.length)))
    | _, _ => do
      let (p1lo, p1hi) ← p1.daysMinMax
      let (p2lo, p2hi) ← p2.daysMinMax
      some (if p1hi < p2lo then some true else if p2hi < p1lo then some false else none)

/-- The ordering from `p < q` and `q < p`. -/
def ordering : Option Bool → Option Bool → Option Ordering
  | some true, _           => some .lt
  | _, some true           => some .gt
  | some false, some false => some .eq
  | _, _                   => none

def partialCmp (p q : Period) : Option (Option Ordering) := do
  let a ← p.less q
  let b ← q.less p
  some (ordering a b)

/-- `allows_end_of_month`: at least one month, in months or years. -/
def allowsEndOfMonth (tenor : Period) : Bool :=
  (tenor.units = .months || tenor.units = .years) &&
    (tenor.partialCmp ⟨1, .months⟩ = some (some .gt) || tenor.partialCmp ⟨1, .months⟩ = some (some .eq))

@[simp] theorem scale_length (n : ℤ) (p : Period) : (p.scale n).length = n * p.length := rfl

@[simp] theorem neg_length (p : Period) : p.neg.length = -p.length := rfl

end Period

namespace Date

/-- `while m > 12 { m -= 12; y += 1; }` -/
def carryUp : ℕ → ℤ × ℤ → ℤ × ℤ
  | 0, p             => p
  | fuel + 1, (m, y) => if 12 < m then carryUp fuel (m - 12, y + 1) else (m, y)

/-- `while m < 1 { m += 12; y -= 1; }` -/
def carryDown : ℕ → ℤ × ℤ → ℤ × ℤ
  | 0, p             => p
  | fuel + 1, (m, y) => if m < 1 then carryDown fuel (m + 12, y - 1) else (m, y)

/-- `Date::advance`, which panics outside the supported years and for the units below a day. -/
def advance (date : Date) (n : ℤ) : TimeUnit → Option Date
  | .days   => date.addDays n
  | .weeks  => date.addDays (7 * n)
  | .months =>
    let (m, y) := carryDown n.natAbs (carryUp n.natAbs (date.month.ordinal + n, date.year))
    if 1900 ≤ y ∧ y ≤ 2199 then
      (Month.fromOrdinal m).bind (fun m =>
        let length := monthLength m (isLeap y)
        new (if length < date.dayOfMonth then length else date.dayOfMonth) m y)
    else none
  | .years  =>
    let m := date.month
    let y := date.year + n
    if 1900 ≤ y ∧ y ≤ 2199 then
      new (if date.dayOfMonth = 29 ∧ m = .february ∧ !isLeap y then 28 else date.dayOfMonth) m y
    else none
  | _ => none

def addPeriod (date : Date) (p : Period) : Option Date := date.advance p.length p.units

def subPeriod (date : Date) (p : Period) : Option Date := date.advance (-p.length) p.units

/-! ## The carry -/

theorem carryUp_spec : ∀ (fuel : ℕ) (m y : ℤ), m ≤ 12 * fuel + 12 →
    12 * (carryUp fuel (m, y)).2 + (carryUp fuel (m, y)).1 = 12 * y + m ∧ (carryUp fuel (m, y)).1 ≤ 12 ∧
      (1 ≤ (carryUp fuel (m, y)).1 ∨ (carryUp fuel (m, y)).1 = m)
  | 0, m, y, h        => ⟨rfl, by push_cast at h; exact h, .inr rfl⟩
  | fuel + 1, m, y, h => by
    rw [carryUp]
    by_cases hm : 12 < m
    · rw [if_pos hm]
      obtain ⟨h₁, h₂, h₃⟩ := carryUp_spec fuel (m - 12) (y + 1) (by push_cast at h; omega)
      exact ⟨by omega, h₂, .inl (h₃.elim id (fun h => by omega))⟩
    · rw [if_neg hm]
      exact ⟨rfl, by omega, .inr rfl⟩

theorem carryDown_spec : ∀ (fuel : ℕ) (m y : ℤ), 1 ≤ m + 12 * fuel → m ≤ 12 →
    12 * (carryDown fuel (m, y)).2 + (carryDown fuel (m, y)).1 = 12 * y + m ∧ 1 ≤ (carryDown fuel (m, y)).1 ∧
      (carryDown fuel (m, y)).1 ≤ 12
  | 0, m, y, h, h'        => ⟨rfl, show 1 ≤ m by push_cast at h; omega, h'⟩
  | fuel + 1, m, y, h, h' => by
    rw [carryDown]
    by_cases hm : m < 1
    · rw [if_pos hm]
      obtain ⟨h₁, h₂⟩ := carryDown_spec fuel (m + 12) (y - 1) (by push_cast at h; omega) (by omega)
      exact ⟨by omega, h₂⟩
    · rw [if_neg hm]
      exact ⟨rfl, by omega, h'⟩

/-- The loops leave a month of a year, the same number of months after year zero. -/
theorem carry_spec {d : Date} {n m y : ℤ}
    (h : carryDown n.natAbs (carryUp n.natAbs (d.month.ordinal + n, d.year)) = (m, y)) :
    12 * y + m = d.monthIndex + n ∧ 1 ≤ m ∧ m ≤ 12 := by
  have hb := d.month.ordinal_bounds
  have hu := carryUp_spec n.natAbs (d.month.ordinal + n) d.year (by omega)
  obtain ⟨⟨m₁, y₁⟩, h₁⟩ : ∃ p, carryUp n.natAbs (d.month.ordinal + n, d.year) = p := ⟨_, rfl⟩
  rw [h₁] at hu h
  have hd := carryDown_spec n.natAbs m₁ y₁ (by simp only at hu; omega) hu.2.1
  rw [h] at hd
  unfold monthIndex
  simp only at hu hd
  exact ⟨by omega, hd.2⟩

/-- **A move by months** ends so many months away. -/
theorem advance_months {d r : Date} {n : ℤ} (h : d.advance n .months = some r) :
    r ≠ null ∧ r.monthIndex = d.monthIndex + n := by
  rw [advance] at h
  obtain ⟨⟨m, y⟩, hc⟩ : ∃ p, carryDown n.natAbs (carryUp n.natAbs (d.month.ordinal + n, d.year)) = p := ⟨_, rfl⟩
  obtain ⟨hs, h₁, h₂⟩ := carry_spec hc
  rw [hc] at h
  simp only at h
  split at h
  · obtain ⟨m', hm, h⟩ := Option.bind_eq_some_iff.mp h
    obtain ⟨hr, -, hm', hy⟩ := new_spec h
    have ho := ordinal_fromOrdinal h₁ h₂
    rw [hm, Option.getD_some] at ho
    exact ⟨hr, by rw [monthIndex, hm', hy]; omega⟩
  · exact absurd h.symm (Option.some_ne_none r)

/-- **A move by years** ends so many times twelve months away. -/
theorem advance_years {d r : Date} {n : ℤ} (h : d.advance n .years = some r) :
    r ≠ null ∧ r.monthIndex = d.monthIndex + 12 * n := by
  rw [advance] at h
  split at h
  · obtain ⟨hr, -, hm, hy⟩ := new_spec h
    exact ⟨hr, by rw [monthIndex, monthIndex, hm, hy]; omega⟩
  · exact absurd h.symm (Option.some_ne_none r)

theorem advance_ne_null {d r : Date} {n : ℤ} {u : TimeUnit} (h : d.advance n u = some r) : r ≠ null := by
  cases u with
  | days   => exact (addDays_eq_some.mp h).1
  | weeks  => exact (addDays_eq_some.mp h).1
  | months => exact (advance_months h).1
  | years  => exact (advance_years h).1
  | hours | minutes | seconds | milliseconds | microseconds => cases h

/-- **More units go further.** -/
theorem advance_lt {d r r' : Date} {n n' : ℤ} {u : TimeUnit} (hn : n < n') (h : d.advance n u = some r)
    (h' : d.advance n' u = some r') : r < r' := by
  cases u with
  | days | weeks =>
    have e := (addDays_eq_some.mp h).2
    have e' := (addDays_eq_some.mp h').2
    rw [lt_iff]
    omega
  | months => exact lt_of_monthIndex (by rw [(advance_months h).2, (advance_months h').2]; omega)
  | years  => exact lt_of_monthIndex (by rw [(advance_years h).2, (advance_years h').2]; omega)
  | hours | minutes | seconds | milliseconds | microseconds => cases h

theorem lt_advance {d r : Date} {n : ℤ} {u : TimeUnit} (hn : 0 < n) (h : d.advance n u = some r) : d < r := by
  cases u with
  | days | weeks =>
    have e := (addDays_eq_some.mp h).2
    rw [lt_iff]
    omega
  | months => exact lt_of_monthIndex (by rw [(advance_months h).2]; omega)
  | years  => exact lt_of_monthIndex (by rw [(advance_years h).2]; omega)
  | hours | minutes | seconds | milliseconds | microseconds => cases h

theorem advance_lt_self {d r : Date} {n : ℤ} {u : TimeUnit} (hn : n < 0) (h : d.advance n u = some r) : r < d := by
  cases u with
  | days | weeks =>
    have e := (addDays_eq_some.mp h).2
    rw [lt_iff]
    omega
  | months => exact lt_of_monthIndex (by rw [(advance_months h).2]; omega)
  | years  => exact lt_of_monthIndex (by rw [(advance_years h).2]; omega)
  | hours | minutes | seconds | milliseconds | microseconds => cases h

/-- **A move leaves the range** when its units are as many as the days of the range. -/
theorem advance_far {d : Date} {n : ℤ} {u : TimeUnit} (hd : d ≠ null) (hn : n ≤ -109574 ∨ 109574 ≤ n) :
    d.advance n u = none := by
  have hb := serial_bounds hd
  have hm : ∀ {r : Date}, r ≠ null → 12 * 1901 + 1 ≤ r.monthIndex ∧ r.monthIndex ≤ 12 * 2199 + 12 := fun {r} hr => by
    have ho := r.month.ordinal_bounds
    have hy := year_spec hr
    unfold monthIndex
    omega
  have hd' := hm hd
  cases hr : d.advance n u with
  | none   => rfl
  | some r =>
    exfalso
    cases u with
    | days | weeks =>
      obtain ⟨h₁, h₂⟩ := addDays_eq_some.mp hr
      have := serial_bounds h₁
      omega
    | months =>
      obtain ⟨h₁, h₂⟩ := advance_months hr
      have := hm h₁
      omega
    | years =>
      obtain ⟨h₁, h₂⟩ := advance_years hr
      have := hm h₁
      omega
    | hours | minutes | seconds | milliseconds | microseconds => cases hr

end Date
end Itofin
