import Mathlib.Algebra.Order.Field.Rat
import Mathlib.Tactic.FieldSimp
import Mathlib.Tactic.Linarith
import Mathlib.Tactic.Ring
import Itofin.Lib.Turns
import Itofin.Time.Advance
/-!
# ActualActual — year fractions in exact arithmetic

`time/daycounters/actualactual.rs`, without the schedule.  A year fraction panics when a date that it builds leaves the
supported range, or a reference period is refused; the loops and the recursion take turns.

The ISDA fraction is the difference of the positions of the two dates in their years (`isda_eq`), so it adds up.  The
AFB loop steps back year by year to the anniversary in the year of the earlier date, and once more when that comes after
it: in 1901 there is no year to step back to (`afb_spec`).
-/
namespace Itofin.ActualActual

open Turns

inductive Convention where
  | isma | bond | isda | historical | actual365 | afb | euro
deriving DecidableEq, Repr

def daysBetween (d1 d2 : Date) : ℚ := ((d2.serialNumber - d1.serialNumber : ℤ) : ℚ)

/-! ## ISMA -/

/-- `(12.0 * days / 365.0).round()`; the quotient is never halfway between two integers. -/
def estimateMonths (refStart refEnd : Date) : ℤ := (24 * (refEnd.serialNumber - refStart.serialNumber) + 365) / 730

/-- The loop over whole periods from the end of the reference period. -/
def ismaLoop (months : ℤ) (period : ℚ) (refEnd d2 : Date) : ℕ → ℤ → ℚ → Except Halt (Date × Date × ℚ)
  | 0, _, _        => .error .outOfTurns
  | turns + 1, i, sum => do
    let newRefStart ← orPanic (refEnd.addPeriod ⟨months * i, .months⟩)
    let newRefEnd ← orPanic (refEnd.addPeriod ⟨months * (i + 1), .months⟩)
    if d2 < newRefEnd then .ok (newRefStart, newRefEnd, sum)
    else ismaLoop months period refEnd d2 turns (i + 1) (sum + period)

/-- The turns of the loop over whole periods; there are fewer months. -/
def loopTurns : ℕ := 4000

/-- The year fraction once the dates are in order, the reference period is chosen and its months are not zero; the
recursive calls are `again`. -/
def ismaPeriod (again : Date → Date → Date → Date → Except Halt ℚ) (d1 d2 refStart refEnd : Date) (months : ℤ) :
    Except Halt ℚ :=
  let period := (months : ℚ) / 12
  if d2 ≤ refEnd then
    if refStart ≤ d1 then .ok (period * daysBetween d1 d2 / daysBetween refStart refEnd)
    else do
      let previousRef ← orPanic (refStart.subPeriod ⟨months, .months⟩)
      if refStart < d2 then do
        let before ← again d1 refStart previousRef refStart
        let rest ← again refStart d2 refStart refEnd
        .ok (before + rest)
      else again d1 d2 previousRef refStart
  else if refStart ≤ d1 then do
    let sum ← again d1 refEnd refStart refEnd
    let (newRefStart, newRefEnd, sum) ← ismaLoop months period refEnd d2 loopTurns 0 sum
    let rest ← again newRefStart d2 newRefStart newRefEnd
    .ok (sum + rest)
  else .error .panic

/-- The year fraction once the dates are in order and the reference period is chosen. -/
def ismaChosen (again : Date → Date → Date → Date → Except Halt ℚ) (d1 d2 refStart refEnd : Date) : Except Halt ℚ :=
  if refStart < refEnd ∧ d1 < refEnd then
    let months := estimateMonths refStart refEnd
    if months = 0 then
      -- a short stub: a part of the year from the first date, which the last supported year does not have
      if d1.year = 2199 then .ok (daysBetween d1 d2 / 365)
      else do
        let refEnd ← orPanic (d1.addPeriod ⟨1, .years⟩)
        ismaPeriod again d1 d2 d1 refEnd 12
    else ismaPeriod again d1 d2 refStart refEnd months
  else .error .panic

/-- The recursion of `year_fraction`; a reference period that is not specified is from the one date to the other. -/
def isma : ℕ → Date → Date → Date → Date → Except Halt ℚ
  | 0, _, _, _, _                                  => .error .outOfTurns
  | turns + 1, d1, d2, refPeriodStart, refPeriodEnd =>
    if d1 = d2 then .ok 0
    else if d2 < d1 then (isma turns d2 d1 refPeriodStart refPeriodEnd).map (fun x => -x)
    else ismaChosen (isma turns) d1 d2 (if refPeriodStart ≠ Date.null then refPeriodStart else d1)
      (if refPeriodEnd ≠ Date.null then refPeriodEnd else d2)

/-! ## ISDA -/

def daysInYear (y : ℤ) : ℚ := if isLeap y then 366 else 365

/-- The year fraction of two dates in order. -/
def isdaOrdered (d1 d2 : Date) : Except Halt ℚ :=
  let y1 := d1.year
  let y2 := d2.year
  let dib1 := daysInYear y1
  let dib2 := daysInYear y2
  if y1 = y2 then .ok (daysBetween d1 d2 / dib1)
  else do
    let sum : ℚ := ((y2 - y1 - 1 : ℤ) : ℚ)
    let next ← orPanic (Date.new 1 .january (y1 + 1))
    let sum := sum + daysBetween d1 next / dib1
    let start ← orPanic (Date.new 1 .january y2)
    .ok (sum + daysBetween start d2 / dib2)

def isda (d1 d2 : Date) : Except Halt ℚ :=
  if d1 = d2 then .ok 0
  else if d2 < d1 then (isdaOrdered d2 d1).map (fun x => -x)
  else isdaOrdered d1 d2

/-! ## AFB -/

/-- One year back; from the 28th of February to the leap day, where there is one. -/
def yearBack (newD2 : Date) : Except Halt Date := do
  let temp ← orPanic (newD2.subPeriod ⟨1, .years⟩)
  if temp.dayOfMonth = 28 ∧ temp.month = .february ∧ isLeap temp.year then orPanic (temp.addDays 1) else .ok temp

/-- The loop over whole years, back from the later date. -/
def afbLoop (d1 : Date) : ℕ → Date → Date → ℚ → Except Halt (Date × ℚ)
  | 0, _, _, _                 => .error .outOfTurns
  | turns + 1, newD2, temp, sum =>
    if d1 < temp then do
      let temp ← yearBack newD2
      if d1 ≤ temp then afbLoop d1 turns temp temp (sum + 1) else afbLoop d1 turns newD2 temp sum
    else .ok (newD2, sum)

/-- The denominator of the stub: one day more when it holds a leap day. -/
def afbDenominator (d1 newD2 : Date) : Except Halt ℚ :=
  if isLeap newD2.year then do
    let temp ← orPanic (Date.new 29 .february newD2.year)
    .ok (if temp < newD2 ∧ d1 ≤ temp then 366 else 365)
  else if isLeap d1.year then do
    let temp ← orPanic (Date.new 29 .february d1.year)
    .ok (if temp < newD2 ∧ d1 ≤ temp then 366 else 365)
  else .ok 365

/-- The turns of the loop over whole years; there are fewer years. -/
def yearTurns : ℕ := 400

/-- The year fraction of two dates in order. -/
def afbOrdered (d1 d2 : Date) : Except Halt ℚ := do
  let (newD2, sum) ← afbLoop d1 yearTurns d2 d2 0
  let den ← afbDenominator d1 newD2
  .ok (sum + daysBetween d1 newD2 / den)

def afb (d1 d2 : Date) : Except Halt ℚ :=
  if d1 = d2 then .ok 0
  else if d2 < d1 then (afbOrdered d2 d1).map (fun x => -x)
  else afbOrdered d1 d2

/-! ## The counter -/

/-- The depth of the ISMA recursion; there are fewer days. -/
def depth : ℕ := 110000

/-- `year_fraction_ref` -/
def yearFractionRef (c : Convention) (d1 d2 refPeriodStart refPeriodEnd : Date) : Except Halt ℚ :=
  match c with
  | .isma | .bond                     => isma depth d1 d2 refPeriodStart refPeriodEnd
  | .isda | .historical | .actual365 => isda d1 d2
  | .afb | .euro                      => afb d1 d2

def yearFraction (c : Convention) (d1 d2 : Date) : Except Halt ℚ := yearFractionRef c d1 d2 Date.null Date.null

variable {a b c d d1 d2 r refStart refEnd : Date} {n : ℤ} {months : ℤ} {turns : ℕ}

/-! ## ISDA adds up -/

theorem daysInYear_pos (y : ℤ) : 0 < daysInYear y := by
  unfold daysInYear
  split <;> norm_num

/-- The position of a date in the years: its year, and the part of it that has passed. -/
def position (d : Date) : ℚ := d.year + ((d.dayOfYear - 1 : ℤ) : ℚ) / daysInYear d.year

theorem daysInYear_cast {y : ℤ} (h₁ : 1900 ≤ y) (h₂ : y < 2200) :
    daysInYear y = ((yearOffset (y + 1) - yearOffset y : ℤ) : ℚ) := by
  rw [Date.yearOffset_succ h₁ h₂, daysInYear]
  split <;> norm_num

theorem isdaOrdered_eq (h₁ : d1 ≠ Date.null) (h₂ : d2 ≠ Date.null) (h : d1 ≤ d2) :
    isdaOrdered d1 d2 = .ok (position d2 - position d1) := by
  obtain ⟨lo₁, hi₁, -⟩ := Date.year_spec h₁
  obtain ⟨lo₂, hi₂, -⟩ := Date.year_spec h₂
  have hp₁ := daysInYear_pos d1.year
  have hp₂ := daysInYear_pos d2.year
  unfold isdaOrdered
  simp only
  by_cases hy : d1.year = d2.year
  · rw [if_pos hy, position, position, ← hy]
    congr 1
    rw [daysBetween, Date.dayOfYear, Date.dayOfYear, ← hy]
    push_cast
    field_simp
    ring
  · have hlt : d1.year < d2.year := lt_of_le_of_ne (Date.year_mono h₁ h₂ h) hy
    obtain ⟨next, hnext⟩ := @Date.exists_new 1 .january (d1.year + 1) (by omega) (by omega)
      (by decide) (by cases isLeap (d1.year + 1) <;> decide)
    obtain ⟨start, hstart⟩ := @Date.exists_new 1 .january d2.year (by omega) (by omega)
      (by decide) (by cases isLeap d2.year <;> decide)
    have first {x : Date} {y : ℤ} (hx : Date.new 1 .january y = some x) : x.serialNumber = yearOffset y + 1 := by
      obtain ⟨-, hd, hm, hy⟩ := Date.new_spec hx
      rw [Date.serialNumber_eq, hd, hm, hy]
      have : monthOffset Month.january.ordinal (isLeap y) = 0 := by cases isLeap y <;> rfl
      omega
    have hs₁ : (d1.serialNumber : ℚ) = d1.dayOfYear + yearOffset d1.year := by
      rw [Date.dayOfYear]; push_cast; ring
    have hs₂ : (d2.serialNumber : ℚ) = d2.dayOfYear + yearOffset d2.year := by
      rw [Date.dayOfYear]; push_cast; ring
    have hl := daysInYear_cast (y := d1.year) (by omega) (by omega)
    push_cast at hl
    rw [if_neg hy, hnext, hstart]
    change Except.ok _ = _
    congr 1
    rw [position, position, daysBetween, daysBetween, first hnext, first hstart]
    push_cast
    rw [hs₁, hs₂, show ((yearOffset (d1.year + 1) : ℤ) : ℚ) = yearOffset d1.year + daysInYear d1.year by rw [hl]; ring]
    field_simp
    ring

/-- **The ISDA fraction is the difference of two positions.** -/
theorem isda_eq (h₁ : d1 ≠ Date.null) (h₂ : d2 ≠ Date.null) : isda d1 d2 = .ok (position d2 - position d1) := by
  unfold isda
  by_cases he : d1 = d2
  · rw [if_pos he, he, sub_self]
  rw [if_neg he]
  by_cases hlt : d2 < d1
  · rw [if_pos hlt, isdaOrdered_eq h₂ h₁ hlt.le]
    exact congrArg Except.ok (neg_sub _ _)
  · rw [if_neg hlt, isdaOrdered_eq h₁ h₂ (not_lt.mp hlt)]

/-! ## The ISMA recursion ends -/

theorem monthLength_leap_le (m : Month) (leap leap' : Bool) :
    monthLength m leap ≤ monthLength m leap' + 1 ∧ monthOffset m.ordinal leap ≤ monthOffset m.ordinal leap' + 1 := by
  cases m <;> cases leap <;> cases leap' <;> decide

/-- A year on is more than 360 days on. -/
theorem add_year_far (hd : d ≠ Date.null) (h : d.advance 1 .years = some r) : d.serialNumber + 360 ≤ r.serialNumber := by
  obtain ⟨hr, hy, hm, hday⟩ := (Date.advance_years_some hd).mp h
  obtain ⟨lo, hi, -⟩ := Date.year_spec hd
  obtain ⟨-, hi', -⟩ := Date.year_spec hr
  obtain ⟨-, h₁⟩ := Date.day_spec hd
  have hl := monthLength_leap_le d.month (isLeap d.year) (isLeap (d.year + 1))
  have ho := (monthLength_leap_le d.month (isLeap d.year) (isLeap r.year)).2
  have e := Date.serialNumber_eq d
  have e' := Date.serialNumber_eq r
  have hs := Date.yearOffset_succ (y := d.year) (by omega) (by omega)
  rw [hm, hy] at e'
  rw [hy] at ho
  split at hs <;> omega

theorem estimateMonths_nonneg (h : refStart < refEnd) : 0 ≤ estimateMonths refStart refEnd ∧
    (estimateMonths refStart refEnd = 0 → refEnd.serialNumber ≤ refStart.serialNumber + 15) := by
  rw [Date.lt_iff] at h
  unfold estimateMonths
  omega

/-- **Dates inside the reference period** have a year fraction at once. -/
theorem ismaChosen_direct (again : Date → Date → Date → Date → Except Halt ℚ) (hd : d1 ≠ Date.null) (h : d1 < d2)
    (hs : refStart ≤ d1) (he : d2 ≤ refEnd) : ∃ x, ismaChosen again d1 d2 refStart refEnd = .ok x := by
  have hlt : refStart < refEnd := lt_of_le_of_lt hs (lt_of_lt_of_le h he)
  have hm := estimateMonths_nonneg hlt
  unfold ismaChosen
  rw [if_pos ⟨hlt, lt_of_lt_of_le h he⟩]
  simp only
  by_cases h₀ : estimateMonths refStart refEnd = 0
  · rw [if_pos h₀]
    by_cases hy : d1.year = 2199
    · exact ⟨_, if_pos hy⟩
    rw [if_neg hy]
    obtain ⟨lo, hi, -⟩ := Date.year_spec hd
    obtain ⟨r, hr⟩ := (Date.exists_advance_years (n := 1) hd).mpr (by omega)
    have hfar := add_year_far hd hr
    have hle : d2 ≤ r := by
      have := hm.2 h₀
      rw [Date.le_iff] at hs he ⊢
      omega
    rw [Date.addPeriod, orPanic_ok hr]
    change ∃ x, ismaPeriod again d1 d2 d1 r 12 = .ok x
    rw [ismaPeriod, if_pos hle, if_pos le_rfl]
    exact ⟨_, rfl⟩
  · rw [if_neg h₀]
    exact ⟨_, by rw [ismaPeriod, if_pos he, if_pos hs]⟩

theorem isma_eq (h : d1 < d2) (hs : refStart ≠ Date.null) (he : refEnd ≠ Date.null) :
    isma (turns + 1) d1 d2 refStart refEnd = ismaChosen (isma turns) d1 d2 refStart refEnd := by
  rw [isma, if_neg h.ne, if_neg (not_lt.mpr h.le), if_pos hs, if_pos he]

theorem isma_direct (hd : d1 ≠ Date.null) (h : d1 ≤ d2) (hn : refStart ≠ Date.null) (hs : refStart ≤ d1)
    (he : d2 ≤ refEnd) : ∃ x, isma (turns + 1) d1 d2 refStart refEnd = .ok x := by
  rcases eq_or_lt_of_le h with rfl | hlt
  · exact ⟨0, by rw [isma, if_pos rfl]⟩
  · have hn' : refEnd ≠ Date.null := fun h₀ =>
      absurd (lt_of_le_of_lt (Date.null_le d1) (lt_of_lt_of_le hlt he)) (h₀ ▸ lt_irrefl Date.null)
    obtain ⟨x, hx⟩ := ismaChosen_direct (isma turns) hd hlt hs he
    exact ⟨x, by rw [isma_eq hlt hn hn', hx]⟩

/-- The loop over whole periods leaves the period that the later date lies in, or the supported range. -/
theorem ismaLoop_spec (period : ℚ) (d2 : Date) (hm : 1 ≤ months) (hn : refEnd ≠ Date.null) :
    ∀ (turns : ℕ) (i : ℤ) (sum : ℚ), 0 ≤ i → i ≤ 3600 → 3700 ≤ turns + i →
      (∀ r, refEnd.addPeriod ⟨months * i, .months⟩ = some r → r ≤ d2) →
      Ends (ismaLoop months period refEnd d2 turns i sum) ∧
      ∀ s e x, ismaLoop months period refEnd d2 turns i sum = .ok (s, e, x) →
        s ≠ Date.null ∧ s ≤ d2 ∧ d2 < e
  | 0, i, sum, h₀, h₁, h₂, hle         => by push_cast at h₂; omega
  | turns + 1, i, sum, h₀, h₁, h₂, hle => by
    rw [ismaLoop]
    cases hs : refEnd.addPeriod ⟨months * i, .months⟩ with
    | none   => exact ⟨ends_panic, fun s e x h => by cases h⟩
    | some s =>
      cases he : refEnd.addPeriod ⟨months * (i + 1), .months⟩ with
      | none   => exact ⟨ends_panic, fun s e x h => by cases h⟩
      | some e =>
        change Ends (if d2 < e then _ else _) ∧ ∀ s' e' x', (if d2 < e then _ else _) = _ → _
        by_cases hlt : d2 < e
        · rw [if_pos hlt]
          refine ⟨ends_ok _, fun s' e' x' h => ?_⟩
          cases h
          exact ⟨Date.advance_ne_null hs, hle s hs, hlt⟩
        · rw [if_neg hlt]
          obtain ⟨hne, hidx⟩ := Date.advance_months he
          simp only at hidx
          have hr := Date.monthIndex_inRange hne
          have hr' := Date.monthIndex_inRange hn
          unfold Date.MonthInRange at hr hr'
          have hi : i + 1 ≤ months * (i + 1) := le_mul_of_one_le_left (by omega) hm
          refine ismaLoop_spec period d2 hm hn turns (i + 1) _ (by omega) (by omega) (by push_cast at h₂; omega) (fun r hr => ?_)
          rw [he] at hr
          exact Option.some.inj hr ▸ not_lt.mp hlt

theorem ismaPeriod_ends {again : Date → Date → Date → Date → Except Halt ℚ} (h : d1 < d2) (hm : 1 ≤ months)
    (hd : d1 ≠ Date.null) (hs : refStart ≠ Date.null) (he : refEnd ≠ Date.null) (hde : d1 < refEnd)
    (direct : ∀ a b s e, a ≠ Date.null → a ≤ b → s ≠ Date.null → s ≤ a → b ≤ e → ∃ x, again a b s e = .ok x)
    (back : ∀ b s, s ≠ Date.null → s < refStart → d1 < refStart → d1 < b → b ≤ refStart → Ends (again d1 b s refStart)) :
    Ends (ismaPeriod again d1 d2 refStart refEnd months) := by
  unfold ismaPeriod
  simp only
  by_cases h₁ : d2 ≤ refEnd
  · rw [if_pos h₁]
    by_cases h₂ : refStart ≤ d1
    · rw [if_pos h₂]
      exact ends_ok _
    rw [if_neg h₂]
    have hlt : d1 < refStart := not_le.mp h₂
    cases hp : refStart.subPeriod ⟨months, .months⟩ with
    | none   => exact ends_panic
    | some p =>
      have hpn := Date.advance_ne_null hp
      have hpl : p < refStart := Date.advance_lt_self (show -months < 0 by omega) hp
      change Ends (if refStart < d2 then _ else _)
      by_cases h₃ : refStart < d2
      · rw [if_pos h₃]
        obtain ⟨x, hx⟩ := direct refStart d2 refStart refEnd hs h₃.le hs le_rfl h₁
        refine (back refStart p hpn hpl hlt hlt le_rfl).bind (fun y _ => ?_)
        rw [hx]
        exact ends_ok _
      · rw [if_neg h₃]
        exact back d2 p hpn hpl hlt h (not_lt.mp h₃)
  · rw [if_neg h₁]
    by_cases h₂ : refStart ≤ d1
    · rw [if_pos h₂]
      obtain ⟨x, hx⟩ := direct d1 refEnd refStart refEnd hd hde.le hs h₂ le_rfl
      rw [hx]
      obtain ⟨hends, hok⟩ := ismaLoop_spec ((months : ℚ) / 12) d2 hm he loopTurns 0 x le_rfl (by omega)
        (by decide) (fun r hr => by
          rw [mul_zero, Date.addPeriod, Date.advance_months_zero he] at hr
          exact Option.some.inj hr ▸ (not_le.mp h₁).le)
      refine hends.bind (fun p hp => ?_)
      obtain ⟨s, e, y⟩ := p
      obtain ⟨hsn, hsd, hde⟩ := hok s e y hp
      obtain ⟨z, hz⟩ := direct s d2 s e hsn hsd hsn le_rfl hde.le
      simp only [hz]
      exact ends_ok _
    · rw [if_neg h₂]
      exact ends_panic

/-- **The recursion ends**: the reference period moves back past the earlier date. -/
theorem isma_ordered_ends : ∀ (turns : ℕ) (d1 d2 refStart refEnd : Date), d1 ≠ Date.null → d1 < d2 →
    refStart ≠ Date.null → refEnd ≠ Date.null → 2 ≤ turns → refStart.serialNumber + 2 ≤ turns + d1.serialNumber →
    Ends (isma turns d1 d2 refStart refEnd)
  | 0, _, _, _, _, _, _, _, _, h₀, _                         => by omega
  | turns + 1, d1, d2, refStart, refEnd, hd, h, hs, he, h₀, hn => by
    obtain ⟨turns, rfl⟩ : ∃ k, turns = k + 1 := ⟨turns - 1, by omega⟩
    have direct : ∀ a b s e, a ≠ Date.null → a ≤ b → s ≠ Date.null → s ≤ a → b ≤ e →
        ∃ x, isma (turns + 1) a b s e = .ok x := fun a b s e ha hab hs hsa hbe => isma_direct ha hab hs hsa hbe
    rw [isma_eq h hs he]
    unfold ismaChosen
    by_cases hr : refStart < refEnd ∧ d1 < refEnd
    case neg => rw [if_neg hr]; exact ends_panic
    rw [if_pos hr]
    simp only
    have hm := estimateMonths_nonneg hr.1
    by_cases h₁ : estimateMonths refStart refEnd = 0
    · rw [if_pos h₁]
      by_cases hy : d1.year = 2199
      · rw [if_pos hy]
        exact ends_ok _
      rw [if_neg hy]
      refine (ends_orPanic _).bind (fun e hadd => ?_)
      have hadd := orPanic_eq_ok hadd
      exact ismaPeriod_ends h (by omega) hd hd (Date.advance_ne_null hadd) (Date.lt_advance Int.zero_lt_one hadd) direct
        (fun b s _ _ hlt => absurd hlt (lt_irrefl d1))
    · rw [if_neg h₁]
      refine ismaPeriod_ends h (by omega) hd hs he hr.2 direct (fun b s hsn hslt hdlt hb _ => ?_)
      rw [Date.lt_iff] at hslt hdlt
      exact isma_ordered_ends (turns + 1) d1 b s refStart hd hb hsn hs (by omega) (by push_cast at hn ⊢; omega)

theorem isma_ends (h₁ : d1 ≠ Date.null) (h₂ : d2 ≠ Date.null) : Ends (isma depth d1 d2 refStart refEnd) := by
  have ordered {turns : ℕ} {a b : Date} (ht : 109999 ≤ turns) (ha : a ≠ Date.null) (hb : b ≠ Date.null) (h : a < b) :
      Ends (isma turns a b refStart refEnd) := by
    obtain ⟨s, hs, hsn⟩ : ∃ s, (if refStart ≠ Date.null then refStart else a) = s ∧ s ≠ Date.null := by
      split
      · exact ⟨_, rfl, ‹_›⟩
      · exact ⟨_, rfl, ha⟩
    obtain ⟨e, he, hen⟩ : ∃ e, (if refEnd ≠ Date.null then refEnd else b) = e ∧ e ≠ Date.null := by
      split
      · exact ⟨_, rfl, ‹_›⟩
      · exact ⟨_, rfl, hb⟩
    have hend := isma_ordered_ends turns a b s e ha h hsn hen (by omega) (by
      have := Date.serial_le s
      have := Date.serial_nonneg a
      omega)
    obtain ⟨turns, rfl⟩ : ∃ k, turns = k + 1 := ⟨turns - 1, by omega⟩
    rw [isma_eq h hsn hen] at hend
    rw [isma, if_neg h.ne, if_neg (not_lt.mpr h.le), hs, he]
    exact hend
  rcases lt_trichotomy d1 d2 with h | rfl | h
  · exact ordered (by decide) h₁ h₂ h
  · rw [depth, isma, if_pos rfl]
    exact ends_ok _
  · rw [depth, isma, if_neg h.ne', if_pos h]
    exact (ordered (by decide) h₂ h₁ h).map _

/-! ## AFB in the first supported year -/

/-- The day of a date in a common year. -/
def commonDay (d : Date) : ℤ := monthOffset d.month.ordinal false + min d.dayOfMonth (monthLength d.month false)

/-- The loop steps below the first supported year: the earlier date lies in it, and the anniversary of the later one
after that. -/
def StepsBelow (d1 d2 : Date) : Prop := d1.year = 1901 ∧ commonDay d1 < commonDay d2

instance (d1 d2 : Date) : Decidable (StepsBelow d1 d2) := inferInstanceAs (Decidable (_ ∧ _))

theorem commonDay_1901 (hd : d ≠ Date.null) (hy : d.year = 1901) : d.serialNumber = commonDay d + yearOffset 1901 := by
  have hday := (Date.day_spec hd).2
  have hleap : isLeap 1901 = false := rfl
  rw [hy, hleap] at hday
  have e := Date.serialNumber_eq d
  rw [hy, hleap] at e
  rw [commonDay, min_eq_left hday, e]
  omega

theorem yearBack_first (hd : d ≠ Date.null) (hy : d.year = 1901) : yearBack d = .error .panic := by
  have h : d.subPeriod ⟨1, .years⟩ = none := by
    rw [Option.eq_none_iff_forall_ne_some]
    intro r hr
    have := (Date.exists_advance_years (n := -1) hd).mp ⟨r, hr⟩
    omega
  rw [yearBack, h]
  rfl

/-- **A year back** is the same day of a common year. -/
theorem yearBack_spec (hd : d ≠ Date.null) (hy : 1902 ≤ d.year) : ∃ t, yearBack d = .ok t ∧ t ≠ Date.null ∧
    t.year = d.year - 1 ∧ commonDay t = commonDay d := by
  obtain ⟨-, hi, -⟩ := Date.year_spec hd
  obtain ⟨t, ht⟩ := (Date.exists_advance_years (n := -1) hd).mpr (by omega)
  obtain ⟨htn, hty, htm, htd⟩ := (Date.advance_years_some hd).mp ht
  have hl : monthLength d.month false ≤ monthLength d.month (isLeap (d.year + -1)) := by
    cases d.month <;> cases isLeap (d.year + -1) <;> decide
  rw [yearBack, Date.subPeriod, orPanic_ok ht]
  change ∃ t', (if t.dayOfMonth = 28 ∧ t.month = .february ∧ isLeap t.year = true then orPanic (t.addDays 1)
    else .ok t) = .ok t' ∧ _
  by_cases hf : t.dayOfMonth = 28 ∧ t.month = .february ∧ isLeap t.year = true
  · rw [if_pos hf]
    obtain ⟨h28, hfeb, hleap⟩ := hf
    have hty' := (Date.year_spec htn)
    obtain ⟨r, hr⟩ := @Date.exists_new 29 .february t.year (by omega) (by omega) (by decide)
      (by rw [hleap]; decide)
    obtain ⟨hrn, hrd, hrm, hry⟩ := Date.new_spec hr
    have hadd : t.addDays 1 = some r := by
      have e := Date.serialNumber_eq t
      have e' := Date.serialNumber_eq r
      rw [hrd, hrm, hry] at e'
      rw [h28, hfeb] at e
      exact Date.addDays_eq_some.mpr ⟨hrn, by omega⟩
    refine ⟨r, orPanic_ok hadd, hrn, by omega, ?_⟩
    have hdm : d.month = .february := htm.symm.trans hfeb
    have hd28 : d.dayOfMonth = 28 := by
      rw [h28, hdm, ← hty, hleap] at htd
      have : monthLength Month.february true = 29 := rfl
      omega
    rw [commonDay, commonDay, hrd, hrm, hdm, hd28]
    decide
  · rw [if_neg hf]
    refine ⟨t, rfl, htn, by omega, ?_⟩
    rw [commonDay, commonDay, htm, htd, min_assoc, min_eq_right hl]

/-- **The loop ends at an anniversary, or steps below the first year.** -/
theorem afbLoop_spec (h₁ : d1 ≠ Date.null) : ∀ (turns : ℕ) (newD2 : Date) (sum : ℚ), newD2 ≠ Date.null →
    d1 ≤ newD2 → newD2.year ≤ turns + 1899 →
    (StepsBelow d1 newD2 ∧ afbLoop d1 turns newD2 newD2 sum = .error .panic) ∨
    (¬ StepsBelow d1 newD2 ∧ ∃ e x, afbLoop d1 turns newD2 newD2 sum = .ok (e, x) ∧ e ≠ Date.null)
  | 0, newD2, sum, h₂, _, hy            => by
    have := (Date.year_spec h₂).1
    push_cast at hy
    omega
  | turns + 1, newD2, sum, h₂, hle, hy => by
    rw [afbLoop]
    rcases eq_or_lt_of_le hle with rfl | hlt
    · rw [if_neg (lt_irrefl d1)]
      exact .inr ⟨fun h => lt_irrefl _ h.2, d1, sum, rfl, h₂⟩
    rw [if_pos hlt]
    obtain ⟨lo, -⟩ := Date.year_spec h₁
    obtain ⟨lo', -⟩ := Date.year_spec h₂
    rcases eq_or_lt_of_le lo' with hfirst | hlater
    · have hy₁ : d1.year = 1901 := le_antisymm (hfirst ▸ Date.year_mono h₁ h₂ hle) lo
      have c₁ := commonDay_1901 h₁ hy₁
      have c₂ := commonDay_1901 h₂ hfirst.symm
      rw [Date.lt_iff] at hlt
      rw [yearBack_first h₂ hfirst.symm]
      exact .inl ⟨⟨hy₁, by omega⟩, rfl⟩
    obtain ⟨t, ht, htn, hty, htc⟩ := yearBack_spec h₂ hlater
    have hsteps : StepsBelow d1 newD2 ↔ StepsBelow d1 t := by rw [StepsBelow, StepsBelow, htc]
    rw [ht, hsteps]
    change (_ ∧ (if d1 ≤ t then _ else _) = _) ∨ (_ ∧ ∃ e x, (if d1 ≤ t then _ else _) = _ ∧ _)
    by_cases hdt : d1 ≤ t
    · rw [if_pos hdt]
      exact afbLoop_spec h₁ turns t _ htn hdt (by push_cast at hy; omega)
    · rw [if_neg hdt]
      obtain ⟨turns, rfl⟩ : ∃ k, turns = k + 1 := ⟨turns - 1, by push_cast at hy; omega⟩
      rw [afbLoop, if_neg (not_lt.mpr (not_le.mp hdt).le)]
      refine .inr ⟨?_, newD2, sum, rfl, h₂⟩
      rintro ⟨hy₁, hc⟩
      have hty₁ : t.year = 1901 := le_antisymm (hy₁ ▸ Date.year_mono htn h₁ (not_le.mp hdt).le) (Date.year_spec htn).1
      have c₁ := commonDay_1901 h₁ hy₁
      have c₂ := commonDay_1901 htn hty₁
      exact hdt (by rw [Date.le_iff]; omega)

theorem afbDenominator_ok (h₁ : d1 ≠ Date.null) (h₂ : d2 ≠ Date.null) : ∃ x, afbDenominator d1 d2 = .ok x := by
  have leapDay {d : Date} (hd : d ≠ Date.null) (hl : isLeap d.year = true) :
      ∃ r, Date.new 29 .february d.year = some r := by
    obtain ⟨lo, hi, -⟩ := Date.year_spec hd
    exact Date.exists_new (by omega) (by omega) (by decide) (by rw [hl]; decide)
  unfold afbDenominator
  by_cases hl : isLeap d2.year = true
  · obtain ⟨r, hr⟩ := leapDay h₂ hl
    rw [if_pos hl, orPanic_ok hr]
    exact ⟨_, rfl⟩
  rw [if_neg hl]
  by_cases hl₁ : isLeap d1.year = true
  · obtain ⟨r, hr⟩ := leapDay h₁ hl₁
    rw [if_pos hl₁, orPanic_ok hr]
    exact ⟨_, rfl⟩
  · rw [if_neg hl₁]
    exact ⟨_, rfl⟩

theorem afbOrdered_spec (h₁ : d1 ≠ Date.null) (h₂ : d2 ≠ Date.null) (h : d1 ≤ d2) :
    (StepsBelow d1 d2 ∧ afbOrdered d1 d2 = .error .panic) ∨ (¬ StepsBelow d1 d2 ∧ ∃ x, afbOrdered d1 d2 = .ok x) := by
  have hy : d2.year ≤ (yearTurns : ℤ) + 1899 := le_trans (Date.year_spec h₂).2.1 (by decide)
  unfold afbOrdered
  rcases afbLoop_spec h₁ yearTurns d2 0 h₂ h hy with ⟨hs, hl⟩ | ⟨hs, e, x, hl, he⟩
  · rw [hl]
    exact .inl ⟨hs, rfl⟩
  · obtain ⟨den, hden⟩ := afbDenominator_ok h₁ he
    rw [hl]
    change _ ∨ (_ ∧ ∃ y, (afbDenominator d1 e >>= _) = _)
    rw [hden]
    exact .inr ⟨hs, _, rfl⟩

/-- **When an AFB fraction panics.** -/
theorem afb_spec (h₁ : d1 ≠ Date.null) (h₂ : d2 ≠ Date.null) :
    (StepsBelow (min d1 d2) (max d1 d2) ∧ afb d1 d2 = .error .panic) ∨
    (¬ StepsBelow (min d1 d2) (max d1 d2) ∧ ∃ x, afb d1 d2 = .ok x) := by
  unfold afb
  rcases lt_trichotomy d1 d2 with h | rfl | h
  · rw [if_neg h.ne, if_neg (not_lt.mpr h.le), min_eq_left h.le, max_eq_right h.le]
    exact afbOrdered_spec h₁ h₂ h.le
  · rw [if_pos rfl, min_self, max_self]
    exact .inr ⟨fun h => lt_irrefl _ h.2, 0, rfl⟩
  · rw [if_neg h.ne', if_pos h, min_eq_right h.le, max_eq_left h.le]
    rcases afbOrdered_spec h₂ h₁ h.le with ⟨hs, hp⟩ | ⟨hs, x, hx⟩
    · rw [hp]
      exact .inl ⟨hs, rfl⟩
    · rw [hx]
      exact .inr ⟨hs, -x, rfl⟩

/-! ## Totality -/

/-- The conventions that the AFB counter implements. -/
def Convention.isEuro (c : Convention) : Prop := c = .afb ∨ c = .euro

/-- **When a year fraction has a value.**  Every computation ends, with any reference period; and without one it has a
value unless the convention is the AFB one and its loop steps below the first supported year. -/
theorem yearFraction_ok_iff (c : Convention) (h₁ : d1 ≠ Date.null) (h₂ : d2 ≠ Date.null) :
    (∀ refStart refEnd, Ends (yearFractionRef c d1 d2 refStart refEnd)) ∧
    ((∃ x, yearFraction c d1 d2 = .ok x) ↔ ¬ (c.isEuro ∧ StepsBelow (min d1 d2) (max d1 d2))) := by
  have isma_ok : ∃ x, isma depth d1 d2 Date.null Date.null = .ok x := by
    have direct (turns : ℕ) {a b : Date} (ha : a ≠ Date.null) (h : a < b) :
        ∃ x, isma (turns + 1) a b Date.null Date.null = .ok x := by
      rw [isma, if_neg h.ne, if_neg (not_lt.mpr h.le), if_neg (not_not.mpr rfl), if_neg (not_not.mpr rfl)]
      exact ismaChosen_direct _ ha h le_rfl le_rfl
    rcases lt_trichotomy d1 d2 with h | rfl | h
    · exact direct 109999 h₁ h
    · exact ⟨0, by rw [depth, isma, if_pos rfl]⟩
    · obtain ⟨x, hx⟩ := direct 109998 h₂ h
      exact ⟨-x, by rw [depth, isma, if_neg h.ne', if_pos h, hx]; rfl⟩
  have afb_cases := afb_spec h₁ h₂
  have afb_ends : Ends (afb d1 d2) := by
    rcases afb_cases with ⟨-, h⟩ | ⟨-, x, h⟩
    · rw [h]
      exact ends_panic
    · rw [h]
      exact ends_ok x
  have afb_ok : (∃ x, afb d1 d2 = .ok x) ↔ ¬ StepsBelow (min d1 d2) (max d1 d2) := by
    rcases afb_cases with ⟨hs, h⟩ | ⟨hs, x, h⟩
    · exact ⟨fun ⟨x, hx⟩ => (by rw [h] at hx; cases hx), fun hn => absurd hs hn⟩
    · exact ⟨fun _ => hs, fun _ => ⟨x, h⟩⟩
  have isda_ok := isda_eq h₁ h₂
  unfold yearFraction yearFractionRef Convention.isEuro
  cases c with
  | isma | bond =>
    exact ⟨fun s e => isma_ends h₁ h₂, fun _ h => by simp at h, fun _ => isma_ok⟩
  | isda | historical | actual365 =>
    exact ⟨fun s e => isda_ok ▸ ends_ok _, fun _ h => by simp at h, fun _ => ⟨_, isda_ok⟩⟩
  | afb | euro =>
    exact ⟨fun s e => afb_ends, by rw [afb_ok]; simp⟩

/-- The first two days of 2001 are a fraction of a year apart by the AFB convention. -/
theorem yearFraction_ok_iff_january : ∃ d1 d2 x, Date.new 1 .january 2001 = some d1 ∧
    Date.new 2 .january 2001 = some d2 ∧ yearFraction .afb d1 d2 = .ok x := by
  obtain ⟨d1, h₁⟩ : ∃ d, Date.new 1 .january 2001 = some d := ⟨_, rfl⟩
  obtain ⟨d2, h₂⟩ : ∃ d, Date.new 2 .january 2001 = some d := ⟨_, rfl⟩
  obtain ⟨n₁, -, -, y₁⟩ := Date.new_spec h₁
  obtain ⟨n₂, -, -, y₂⟩ := Date.new_spec h₂
  have hmin : (min d1 d2).year = 2001 := by
    rcases min_choice d1 d2 with h | h
    · rw [h, y₁]
    · rw [h, y₂]
  obtain ⟨x, hx⟩ := (yearFraction_ok_iff .afb n₁ n₂).2.mpr (fun h => by
    rw [StepsBelow, hmin] at h
    exact absurd h.2.1 (by decide))
  exact ⟨d1, d2, x, h₁, h₂, hx⟩

/-- **The first two days of 1901** are not: the loop steps back to January 2nd of 1900, which is no date. -/
theorem not_ok_january : ∃ d1 d2, Date.new 1 .january 1901 = some d1 ∧ Date.new 2 .january 1901 = some d2 ∧
    yearFraction .afb d1 d2 = .error .panic ∧ yearFraction .isda d1 d2 = .ok (1 / 365) := by
  refine ⟨_, _, rfl, rfl, ?_, ?_⟩
  · rfl
  · decide +kernel

end Itofin.ActualActual
