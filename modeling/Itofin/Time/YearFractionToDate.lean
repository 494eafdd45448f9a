import Itofin.Lib.Nearest
import Itofin.Lib.Turns
import Itofin.Math.Comparison
import Itofin.Time.Advance
/-!
# Year fraction to date — the inverse of a day counter

`time/daycounters/yearfractiontodate.rs`.  From a guess the search walks towards the time by years, by months and then by
days, as long as the next date is short of it, and picks the nearer of the two dates where it stops.  A walk ends
(`walk_spec`): every step goes on in its direction, and within the bounds of a step no date is out of range
(`stepWithinBounds_spec`).  Where the year fractions do not decrease, the dates around the stop are around the time, so the
nearer of them is the nearest of all (`refine_nearest`).

The time the search walks to is a nudge of 100 epsilons beyond the given one.
-/
namespace Itofin

open Turns Nearest

namespace YearFractionToDate

variable {K : Type} [Field K] [LinearOrder K]

inductive Failure (K : Type) where
  /-- `time {x} is out of range for a day offset` -/
  | dayOffset (x : K)
  /-- `time {t} maps to a date outside the supported date range from {reference_date}` -/
  | outside (t : K) (referenceDate : Date)
deriving DecidableEq

/-- A number of days that is an `i32`. -/
def IsOffset (days : ℤ) : Prop := -2147483648 ≤ days ∧ days ≤ 2147483647

instance : DecidablePred IsOffset := fun _ => inferInstanceAs (Decidable (_ ∧ _))

def dayOffset [FloorRing K] (x : K) : Except (Failure K) ℤ :=
  let days := Math.roundAway x
  if IsOffset days then .ok days else .error (.dayOffset x)

def shiftedWithinBounds (d : Date) (days : ℤ) : Date :=
  ⟨max minimumSerialNumber (min (d.serialNumber + days) maximumSerialNumber), Or.inr (by
    unfold minimumSerialNumber maximumSerialNumber
    omega)⟩

def worstCaseDays : TimeUnit → ℤ
  | .years  => 366
  | .months => 31
  | _       => 1

def stepWithinBounds (d : Date) (direction : ℤ) (u : TimeUnit) : Except Halt (Option Date) :=
  let serial := d.serialNumber + direction * worstCaseDays u
  if minimumSerialNumber ≤ serial ∧ serial ≤ maximumSerialNumber then do
    let next ← orPanic (d.addPeriod ⟨direction, u⟩)
    .ok (some next)
  else .ok none

/-- `while let Some(next_date) = step_within_bounds(..) { if .. { guess_date = next_date; } else { break; } }` -/
def walk (yearFraction : Date → K) (t : K) (direction : ℤ) (u : TimeUnit) : ℕ → Date → Except Halt Date
  | 0, _                 => .error .outOfTurns
  | turns + 1, guessDate => do
    match ← stepWithinBounds guessDate direction u with
    | none          => .ok guessDate
    | some nextDate =>
      if direction * (yearFraction nextDate - t) < 0 then walk yearFraction t direction u turns nextDate
      else .ok guessDate

/-- More than the days of the range. -/
def turns : ℕ := 219149

/-- `365.25` -/
def daysPerYear : K := ((1461 : ℕ) : K) / ((4 : ℕ) : K)

/-- The guess that the length of a year gives, and again from where it went. -/
def guess [FloorRing K] (yearFraction : Date → K) (referenceDate : Date) (t : K) : Except (Failure K) Date := do
  let days ← dayOffset (t * daysPerYear)
  let guessDate := shiftedWithinBounds referenceDate days
  let days ← dayOffset ((t - yearFraction guessDate) * daysPerYear)
  .ok (shiftedWithinBounds guessDate days)

/-- How far beyond the time the search goes. -/
def nudge : K := ((100 : ℕ) : K) * Math.epsilon

/-- The search from a guess that is not close, in the direction of the time. -/
def refine (yearFraction : Date → K) (referenceDate : Date) (t : K) (direction : ℤ) (guessDate : Date) :
    Except Halt (Except (Failure K) Date) := do
  let t := t + direction * nudge
  let guessDate ← walk yearFraction t direction .years turns guessDate
  let guessDate ← walk yearFraction t direction .months turns guessDate
  let guessDate ← walk yearFraction t direction .days turns guessDate
  let guessTime := yearFraction guessDate
  match ← stepWithinBounds guessDate direction .days with
  | none          =>
    if Math.closeEnough guessTime t ∨ 0 ≤ direction * (guessTime - t) then .ok (.ok guessDate)
    else .ok (.error (.outside t referenceDate))
  | some nextDate =>
    if Math.closeEnough guessTime t ∨ |guessTime - t| < |yearFraction nextDate - t| then .ok (.ok guessDate)
    else .ok (.ok nextDate)

/-- `year_fraction_to_date`, of a day counter that has a year fraction for any two dates. -/
def yearFractionToDate [FloorRing K] (dayCounter : Date → Date → K) (referenceDate : Date) (t : K) :
    Except Halt (Except (Failure K) Date) :=
  let yearFraction := dayCounter referenceDate
  match guess yearFraction referenceDate t with
  | .error e      => .ok (.error e)
  | .ok guessDate =>
    let guessTime := yearFraction guessDate
    if Math.closeEnough guessTime t then .ok (.ok guessDate)
    else
      let searchDirection : ℤ := if t - guessTime < 0 then -1 else 1
      refine yearFraction referenceDate t searchDirection guessDate

/-! ## The steps -/

variable {d r : Date} {direction : ℤ} {u : TimeUnit}

theorem worstCaseDays_days : worstCaseDays .days = 1 := rfl

/-- **Within the bounds of a step no date is out of range.** -/
theorem exists_step (hd : d ≠ Date.null) (hdir : direction = 1 ∨ direction = -1) (hu : u = .years ∨ u = .months ∨ u = .days)
    (lo : 367 ≤ d.serialNumber + direction * worstCaseDays u)
    (hi : d.serialNumber + direction * worstCaseDays u ≤ 109574) : ∃ r, d.advance direction u = some r := by
  rcases hu with rfl | rfl | rfl
  · rw [worstCaseDays] at lo hi
    refine (Date.exists_advance_years hd).mpr ?_
    have hy := Date.year_spec hd
    rcases hdir with rfl | rfl
    · have hle : d.year ≤ (⟨109209, by decide⟩ : Date).year :=
        Date.year_mono hd (by decide) (Date.le_iff.mpr (by simp only; omega))
      have he : (⟨109209, by decide⟩ : Date).year = 2198 := by decide +kernel
      omega
    · have hle : (⟨732, by decide⟩ : Date).year ≤ d.year :=
        Date.year_mono (by decide) hd (Date.le_iff.mpr (by simp only; omega))
      have he : (⟨732, by decide⟩ : Date).year = 1902 := by decide +kernel
      omega
  · rw [worstCaseDays] at lo hi
    refine (Date.advance_spec hd direction).2.1.mpr ?_
    have hm := Date.monthIndex_inRange hd
    unfold Date.MonthInRange at hm ⊢
    rcases hdir with rfl | rfl
    · have hle : d.monthIndex ≤ (⟨109543, by decide⟩ : Date).monthIndex :=
        Date.monthIndex_mono (Date.le_iff.mpr (by simp only; omega))
      have he : (⟨109543, by decide⟩ : Date).monthIndex = 12 * 2199 + 11 := by decide +kernel
      omega
    · have hle : (⟨398, by decide⟩ : Date).monthIndex ≤ d.monthIndex :=
        Date.monthIndex_mono (Date.le_iff.mpr (by simp only; omega))
      have he : (⟨398, by decide⟩ : Date).monthIndex = 12 * 1901 + 2 := by decide +kernel
      omega
  · rw [worstCaseDays_days, mul_one] at lo hi
    cases hr : d.addDays direction with
    | none   => have := Date.addDays_eq_none.mp hr; omega
    | some r => exact ⟨r, hr⟩

theorem stepWithinBounds_spec (hd : d ≠ Date.null) (hdir : direction = 1 ∨ direction = -1)
    (hu : u = .years ∨ u = .months ∨ u = .days) : stepWithinBounds d direction u = .ok none ∨
      ∃ r, d.advance direction u = some r ∧ stepWithinBounds d direction u = .ok (some r) := by
  unfold stepWithinBounds
  dsimp only
  split
  · rename_i h
    obtain ⟨r, hr⟩ := exists_step hd hdir hu h.1 h.2
    refine .inr ⟨r, hr, ?_⟩
    rw [Date.addPeriod, orPanic_ok hr]
    rfl
  · exact .inl rfl

theorem stepWithinBounds_days (d : Date) (direction : ℤ) :
    stepWithinBounds d direction .days = .ok (d.addDays direction) := by
  unfold stepWithinBounds
  dsimp only
  rw [worstCaseDays_days, mul_one]
  split
  · rename_i h
    cases hr : d.addDays direction with
    | none   =>
      have := Date.addDays_eq_none.mp hr
      unfold minimumSerialNumber maximumSerialNumber at h
      omega
    | some r =>
      rw [orPanic_ok (show d.addPeriod ⟨direction, .days⟩ = some r from hr)]
      rfl
  · rename_i h
    rw [Date.addDays_eq_none.mpr (by unfold minimumSerialNumber maximumSerialNumber at h; omega)]

theorem step_further (hdir : direction = 1 ∨ direction = -1) (h : d.advance direction u = some r) :
    direction * d.serialNumber < direction * r.serialNumber := by
  rcases hdir with rfl | rfl
  · have := Date.lt_iff.mp (Date.lt_advance (by decide) h)
    omega
  · have := Date.lt_iff.mp (Date.advance_lt_self (by decide) h)
    omega

variable {yearFraction : Date → K} {t : K}

/-- The year fraction of the date is short of the time, in the direction of the search. -/
def Short (yearFraction : Date → K) (t : K) (direction : ℤ) (d : Date) : Prop :=
  direction * (yearFraction d - t) < 0

/-- Where a walk stops: on a date that is short, with no step to another one. -/
structure Stops (yearFraction : Date → K) (t : K) (direction : ℤ) (u : TimeUnit) (d : Date) : Prop where
  ne_null : d ≠ Date.null
  short : Short yearFraction t direction d
  last : ∀ r, stepWithinBounds d direction u = .ok (some r) → ¬ Short yearFraction t direction r

/-- **A walk ends**, with every step further in the direction and the serial numbers bounded. -/
theorem walk_spec (hdir : direction = 1 ∨ direction = -1) (hu : u = .years ∨ u = .months ∨ u = .days) :
    ∀ (n : ℕ) {d : Date}, d ≠ Date.null → Short yearFraction t direction d → 109574 - direction * d.serialNumber < n →
      ∃ r, walk yearFraction t direction u n d = .ok r ∧ Stops yearFraction t direction u r
  | 0, d, hd, _, hn      => by
    have := Date.serial_bounds hd
    rcases hdir with rfl | rfl <;> omega
  | n + 1, d, hd, hs, hn => by
    rw [walk]
    rcases stepWithinBounds_spec hd hdir hu with hnone | ⟨r, hr, hsome⟩
    · rw [hnone]
      exact ⟨d, rfl, hd, hs, fun r hr => by rw [hnone] at hr; cases hr⟩
    · rw [hsome]
      change ∃ r', (if direction * (yearFraction r - t) < 0 then _ else _) = _ ∧ _
      split
      · rename_i h
        refine walk_spec hdir hu n (Date.advance_ne_null hr) h ?_
        have := step_further hdir hr
        omega
      · rename_i h
        refine ⟨d, rfl, hd, hs, fun r' hr' => ?_⟩
        rw [hsome] at hr'
        cases hr'
        exact h

/-! ## The nearest date -/

/-- The dates. -/
def dates : Set Date := {d | d ≠ Date.null}

variable [IsStrictOrderedRing K] {next : Date}

theorem before_of_short (h : Short yearFraction t 1 d) : yearFraction d ≤ t := by
  rw [Short, Int.cast_one, one_mul] at h
  linarith

theorem after_of_not_short (h : ¬ Short yearFraction t 1 d) : t ≤ yearFraction d := by
  rw [Short, Int.cast_one, one_mul, not_lt] at h
  linarith

theorem after_of_short (h : Short yearFraction t (-1) d) : t ≤ yearFraction d := by
  rw [Short, Int.cast_neg, Int.cast_one] at h
  linarith

theorem before_of_not_short (h : ¬ Short yearFraction t (-1) d) : yearFraction d ≤ t := by
  rw [Short, Int.cast_neg, Int.cast_one, not_lt] at h
  linarith

/-- **The dates around the stop are around the time**, so the nearer of the two is the nearest date. -/
theorem Stops.nearest (hmono : MonotoneOn yearFraction dates) (hdir : direction = 1 ∨ direction = -1)
    (h : Stops yearFraction t direction .days d) (hn : d.addDays direction = some next) :
    (|yearFraction d - t| ≤ |yearFraction next - t| → IsNearest dates yearFraction t d) ∧
      (|yearFraction next - t| ≤ |yearFraction d - t| → IsNearest dates yearFraction t next) := by
  have hnext : next ≠ Date.null := (Date.addDays_eq_some.mp hn).1
  have hlast := h.last next (by rw [stepWithinBounds_days, hn])
  rcases hdir with rfl | rfl
  · have hc : Crosses dates yearFraction t d next := by
      refine ⟨before_of_short h.short, after_of_not_short hlast, fun z hz => ?_⟩
      rcases le_or_gt z d with hle | hlt
      · exact .inl (hmono hz h.ne_null hle)
      · exact .inr (hmono hnext hz (not_lt.mp ((Date.addDays_one_covBy hn).2 hlt)))
    exact ⟨hc.nearest_left, hc.nearest_right⟩
  · have hc : Crosses dates yearFraction t next d := by
      refine ⟨before_of_not_short hlast, after_of_short h.short, fun z hz => ?_⟩
      rcases le_or_gt d z with hle | hlt
      · exact .inr (hmono h.ne_null hz hle)
      · exact .inl (hmono hz hnext (not_lt.mp (fun h => (Date.addDays_neg_one_covBy hn).2 h hlt)))
    exact ⟨hc.nearest_right, hc.nearest_left⟩

theorem Stops.all_short (hmono : MonotoneOn yearFraction dates) (hdir : direction = 1 ∨ direction = -1)
    (h : Stops yearFraction t direction .days d) (hn : d.addDays direction = none) {z : Date} (hz : z ≠ Date.null) :
    Short yearFraction t direction z := by
  have hb := Date.serial_bounds hz
  have hshort := h.short
  have hend := Date.addDays_eq_none.mp hn
  have hd := Date.serial_bounds h.ne_null
  unfold Short at hshort ⊢
  rcases hdir with rfl | rfl
  · have hle := hmono hz h.ne_null (Date.le_iff.mpr (by omega))
    rw [Int.cast_one, one_mul] at hshort ⊢
    linarith
  · have hle := hmono h.ne_null hz (Date.le_iff.mpr (by omega))
    rw [Int.cast_neg, Int.cast_one] at hshort ⊢
    linarith

/-- **What the search finds**: a date close to the time or nearest to it; or every date is short of the time. -/
theorem refine_spec (hmono : MonotoneOn yearFraction dates) (hdir : direction = 1 ∨ direction = -1) (hd : d ≠ Date.null)
    (hs : Short yearFraction (t + direction * nudge) direction d) (referenceDate : Date) :
    (∃ r, refine yearFraction referenceDate t direction d = .ok (.ok r) ∧ r ≠ Date.null ∧
      (Math.closeEnough (yearFraction r) (t + direction * nudge) = true ∨
        IsNearest dates yearFraction (t + direction * nudge) r)) ∨
    ∀ z, z ≠ Date.null → Short yearFraction (t + direction * nudge) direction z := by
  have hroom : ∀ z : Date, 109574 - direction * z.serialNumber < turns := fun z => by
    have := Date.serial_nonneg z
    have := Date.serial_le z
    unfold turns
    rcases hdir with rfl | rfl <;> omega
  obtain ⟨d₁, h₁, s₁⟩ := walk_spec hdir (.inl rfl) turns hd hs (hroom d)
  obtain ⟨d₂, h₂, s₂⟩ := walk_spec hdir (.inr (.inl rfl)) turns s₁.ne_null s₁.short (hroom d₁)
  obtain ⟨d₃, h₃, s₃⟩ := walk_spec hdir (.inr (.inr rfl)) turns s₂.ne_null s₂.short (hroom d₂)
  have hrun : refine yearFraction referenceDate t direction d =
      stepWithinBounds d₃ direction .days >>= fun next => match next with
        | none          =>
          if Math.closeEnough (yearFraction d₃) (t + direction * nudge) ∨
              0 ≤ direction * (yearFraction d₃ - (t + direction * nudge)) then .ok (.ok d₃)
          else .ok (.error (.outside (t + direction * nudge) referenceDate))
        | some nextDate =>
          if Math.closeEnough (yearFraction d₃) (t + direction * nudge) ∨
              |yearFraction d₃ - (t + direction * nudge)| < |yearFraction nextDate - (t + direction * nudge)|
          then .ok (.ok d₃) else .ok (.ok nextDate) := by
    rw [refine]
    dsimp only
    rw [h₁]
    change (walk _ _ _ _ _ _ >>= _) = _
    rw [h₂]
    change (walk _ _ _ _ _ _ >>= _) = _
    rw [h₃]
    rfl
  rw [hrun, stepWithinBounds_days]
  cases hn : d₃.addDays direction with
  | none      => exact .inr (fun z hz => s₃.all_short hmono hdir hn hz)
  | some next =>
    obtain ⟨hleft, hright⟩ := s₃.nearest hmono hdir hn
    by_cases h : Math.closeEnough (yearFraction d₃) (t + direction * nudge) = true ∨
        |yearFraction d₃ - (t + direction * nudge)| < |yearFraction next - (t + direction * nudge)|
    · exact .inl ⟨d₃, if_pos h, s₃.ne_null, h.imp id (fun h => hleft h.le)⟩
    · have h' := h
      rw [not_or, not_lt] at h'
      exact .inl ⟨next, if_neg h, (Date.addDays_eq_some.mp hn).1, .inr (hright h'.2)⟩

theorem shiftedWithinBounds_ne_null (d : Date) (days : ℤ) : shiftedWithinBounds d days ≠ Date.null := fun h => by
  have := congrArg Date.serialNumber h
  simp only [shiftedWithinBounds, Date.null, minimumSerialNumber, maximumSerialNumber] at this
  omega

omit [IsStrictOrderedRing K] in
theorem guess_spec [FloorRing K] (yearFraction : Date → K) (referenceDate : Date) (t : K) :
    (∃ x, guess yearFraction referenceDate t = .error (.dayOffset x) ∧ ¬ IsOffset (Math.roundAway x) ∧
      (x = t * daysPerYear ∨ ∃ d, d ≠ Date.null ∧ x = (t - yearFraction d) * daysPerYear)) ∨
    ∃ d, guess yearFraction referenceDate t = .ok d ∧ d ≠ Date.null := by
  by_cases h₁ : IsOffset (Math.roundAway (t * daysPerYear))
  · obtain ⟨d, hd⟩ : ∃ d, d = shiftedWithinBounds referenceDate (Math.roundAway (t * daysPerYear)) := ⟨_, rfl⟩
    have hg : guess yearFraction referenceDate t = (dayOffset ((t - yearFraction d) * daysPerYear)).bind
        (fun days => .ok (shiftedWithinBounds d days)) := by
      rw [guess, dayOffset, if_pos h₁, hd]
      rfl
    have hne : d ≠ Date.null := hd ▸ shiftedWithinBounds_ne_null _ _
    by_cases h₂ : IsOffset (Math.roundAway ((t - yearFraction d) * daysPerYear))
    · exact .inr ⟨_, by rw [hg, dayOffset, if_pos h₂]; rfl, shiftedWithinBounds_ne_null _ _⟩
    · exact .inl ⟨_, by rw [hg, dayOffset, if_neg h₂]; rfl, h₂, .inr ⟨d, hne, rfl⟩⟩
  · exact .inl ⟨_, by rw [guess, dayOffset, if_neg h₁]; rfl, h₁, .inl rfl⟩

variable [FloorRing K] {dayCounter : Date → Date → K} {referenceDate : Date}

/-- The year fraction is close to the time, or to the time nudged. -/
def IsClose (yearFraction : Date → K) (t : K) (d : Date) : Prop :=
  Math.closeEnough (yearFraction d) t = true ∨ Math.closeEnough (yearFraction d) (t + nudge) = true ∨
    Math.closeEnough (yearFraction d) (t - nudge) = true

/-- **The inverse of a day counter.**  Where the year fractions from the reference date do not decrease, and the time is a
nudge inside those of the range, the search ends.  It finds a date whose year fraction is close to the time, or as near to
it as that of every date up to twice the nudge; or it reports a number of days that is no `i32`. -/
theorem yearFractionToDate_nearest (hmono : MonotoneOn (dayCounter referenceDate) dates)
    (lo : dayCounter referenceDate ⟨minimumSerialNumber, by decide⟩ + nudge ≤ t)
    (hi : t + nudge ≤ dayCounter referenceDate ⟨maximumSerialNumber, by decide⟩) :
    (∃ r, yearFractionToDate dayCounter referenceDate t = .ok (.ok r) ∧ r ≠ Date.null ∧
      (IsClose (dayCounter referenceDate) t r ∨ ∀ d, d ≠ Date.null →
        |dayCounter referenceDate r - t| ≤ |dayCounter referenceDate d - t| + 2 * nudge)) ∨
    ∃ x, yearFractionToDate dayCounter referenceDate t = .ok (.error (.dayOffset x)) ∧ ¬ IsOffset (Math.roundAway x) ∧
      (x = t * daysPerYear ∨ ∃ d, d ≠ Date.null ∧ x = (t - dayCounter referenceDate d) * daysPerYear) := by
  have hpos : (0 : K) < nudge := mul_pos (by norm_num) Math.epsilon_pos
  rcases guess_spec (dayCounter referenceDate) referenceDate t with ⟨x, hg, hx⟩ | ⟨d, hg, hd⟩
  · exact .inr ⟨x, by rw [yearFractionToDate, hg], hx⟩
  left
  by_cases hc : Math.closeEnough (dayCounter referenceDate d) t = true
  · refine ⟨d, ?_, hd, .inl (.inl hc)⟩
    rw [yearFractionToDate, hg]
    exact if_pos hc
  obtain ⟨direction, hdirection⟩ : ∃ direction : ℤ, direction = if t - dayCounter referenceDate d < 0 then -1 else 1 :=
    ⟨_, rfl⟩
  have hrun : yearFractionToDate dayCounter referenceDate t = refine (dayCounter referenceDate) referenceDate t direction d := by
    rw [yearFractionToDate, hg, hdirection]
    exact if_neg hc
  have hne := Math.ne_of_not_close hc
  have hcases : direction = 1 ∧ dayCounter referenceDate d < t ∨ direction = -1 ∧ t < dayCounter referenceDate d := by
    rw [hdirection]
    rcases lt_or_gt_of_ne hne with h | h
    · exact .inl ⟨if_neg (by linarith), h⟩
    · exact .inr ⟨if_pos (by linarith), h⟩
  have hdir : direction = 1 ∨ direction = -1 := hcases.imp And.left And.left
  have hmove : |t + direction * nudge - t| ≤ nudge := by
    rw [add_sub_cancel_left]
    rcases hdir with rfl | rfl <;> simp [abs_of_pos hpos]
  have hshort : Short (dayCounter referenceDate) (t + direction * nudge) direction d := by
    unfold Short
    rcases hcases with ⟨rfl, h⟩ | ⟨rfl, h⟩ <;> push_cast <;> linarith
  rw [hrun]
  rcases refine_spec hmono hdir hd hshort referenceDate with ⟨r, hr, hr', h⟩ | hall
  · refine ⟨r, hr, hr', ?_⟩
    rcases h with h | h
    · refine .inl (.inr ?_)
      rcases hdir with rfl | rfl
      · exact .inl (by simpa using h)
      · exact .inr (by simpa [sub_eq_add_neg] using h)
    · exact .inr (fun z hz => h.move hmove hz)
  · exfalso
    rcases hdir with rfl | rfl
    · have := before_of_short (hall ⟨maximumSerialNumber, by decide⟩ (by decide))
      have := hall ⟨maximumSerialNumber, by decide⟩ (by decide)
      unfold Short at this
      push_cast at this
      linarith
    · have := hall ⟨minimumSerialNumber, by decide⟩ (by decide)
      unfold Short at this
      push_cast at this
      linarith

/-- `Actual360`: the days between the dates, of which a year has 360. -/
def actual360 (d1 d2 : Date) : ℚ := (d2.serialNumber - d1.serialNumber : ℤ) / 360

/-- The business days of the last weekend of the range and the Monday after it, of which a year has 252. -/
def lastWeekend (_ d2 : Date) : ℚ := if d2.serialNumber = maximumSerialNumber then 1 / 252 else 0

theorem actual360_mono (d : Date) : MonotoneOn (actual360 d) dates := by
  intro a _ b _ hab
  have : ((a.serialNumber - d.serialNumber : ℤ) : ℚ) ≤ (b.serialNumber - d.serialNumber : ℤ) := by
    exact_mod_cast sub_le_sub_right (Date.le_iff.mp hab) _
  unfold actual360
  linarith

/-- The first of January 2020 and half a day less than 181 days later, but for 50 epsilons. -/
theorem yearFractionToDate_nearest_half :
    (∃ r, yearFractionToDate actual360 ⟨43831, by decide⟩ (361 / 720 - 50 * Math.epsilon) = .ok (.ok r) ∧ r ≠ Date.null ∧
      (IsClose (actual360 ⟨43831, by decide⟩) (361 / 720 - 50 * Math.epsilon) r ∨ ∀ d, d ≠ Date.null →
        |actual360 ⟨43831, by decide⟩ r - (361 / 720 - 50 * Math.epsilon)| ≤
          |actual360 ⟨43831, by decide⟩ d - (361 / 720 - 50 * Math.epsilon)| + 2 * nudge)) ∨
    ∃ x, yearFractionToDate actual360 ⟨43831, by decide⟩ (361 / 720 - 50 * Math.epsilon) = .ok (.error (.dayOffset x)) ∧
      ¬ IsOffset (Math.roundAway x) ∧ (x = (361 / 720 - 50 * Math.epsilon) * daysPerYear ∨ ∃ d, d ≠ Date.null ∧
        x = ((361 / 720 - 50 * Math.epsilon) - actual360 ⟨43831, by decide⟩ d) * daysPerYear) :=
  yearFractionToDate_nearest (actual360_mono _) (by decide +kernel) (by decide +kernel)

/-- **The nudge decides**: it makes the search pick the farther of two dates when the time is 50 epsilons from halfway
between them, and miss the last date of the range when its year fraction is the time. -/
theorem yearFractionToDate_nudged :
    (∃ r q : Date, MonotoneOn (actual360 ⟨43831, by decide⟩) dates ∧
      yearFractionToDate actual360 ⟨43831, by decide⟩ (361 / 720 - 50 * Math.epsilon) = .ok (.ok r) ∧
      r.addDays (-1) = some q ∧ |actual360 ⟨43831, by decide⟩ q - (361 / 720 - 50 * Math.epsilon)| <
        |actual360 ⟨43831, by decide⟩ r - (361 / 720 - 50 * Math.epsilon)|) ∧
    ∃ referenceDate : Date, MonotoneOn (lastWeekend referenceDate) dates ∧
      yearFractionToDate lastWeekend referenceDate (lastWeekend referenceDate ⟨maximumSerialNumber, by decide⟩) =
        .ok (.error (.outside (1 / 252 + nudge) referenceDate)) := by
  refine ⟨⟨⟨44012, by decide⟩, ⟨44011, by decide⟩, actual360_mono _, by decide +kernel, by decide +kernel, by decide +kernel⟩,
    ⟨109571, by decide⟩, ?_, by decide +kernel⟩
  intro a _ b _ hab
  have hb := Date.serial_le b
  have hle := Date.le_iff.mp hab
  unfold lastWeekend maximumSerialNumber
  split
  · rw [if_pos (by omega)]
  · split <;> norm_num

end YearFractionToDate
end Itofin
