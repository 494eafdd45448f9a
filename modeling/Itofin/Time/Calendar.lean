import Mathlib.Data.Finset.Erase
import Mathlib.Data.Finset.Insert
import Itofin.Lib.Rolling
import Itofin.Time.Date
/-!
# Calendar — business days and adjustment

A calendar of `time/calendar.rs`: a natural business-day predicate, which may be any predicate, under the holidays added
to it and removed from it.  A loop over the days takes fuel for every date of the supported range, so it ends at a
business day or leaves the range, which panics (`none`) in the source.

`rollForward_eq_some` and `rollBackward_eq_some` say that the loops find the next and the previous business day, and
`adjust_following` and its neighbours which roll each convention is.
-/
namespace Itofin

open Rolling

inductive BusinessDayConvention where
  | following | modifiedFollowing | preceding | modifiedPreceding | unadjusted | halfMonthModifiedFollowing | nearest
deriving DecidableEq, Repr

/-- A calendar; `natural` is `CalendarImpl::is_business_day` of its market. -/
structure Calendar where
  name : String
  natural : Date → Bool
  addedHolidays : Finset Date
  removedHolidays : Finset Date

namespace Calendar

def fromImpl (name : String) (natural : Date → Bool) : Calendar := ⟨name, natural, ∅, ∅⟩

/-- `NullCalendar`: no holidays and no weekend. -/
def nullCalendar : Calendar := fromImpl "Null" (fun _ => true)

def isWeekendSatSun (w : Weekday) : Bool := w = .saturday || w = .sunday

/-- `WeekendsOnly`: the only holidays are Saturdays and Sundays. -/
def weekendsOnly : Calendar := fromImpl "weekends only" (fun d => !isWeekendSatSun d.weekday)

def isEmpty (cal : Calendar) : Bool := cal.name.isEmpty

def isBusinessDay (cal : Calendar) (d : Date) : Bool :=
  if d ∈ cal.addedHolidays then false
  else if d ∈ cal.removedHolidays then true
  else cal.natural d

def isHoliday (cal : Calendar) (d : Date) : Bool := !cal.isBusinessDay d

def addHoliday (cal : Calendar) (d : Date) : Calendar :=
  { cal with
    removedHolidays := cal.removedHolidays.erase d
    addedHolidays := if cal.natural d then insert d cal.addedHolidays else cal.addedHolidays }

def removeHoliday (cal : Calendar) (d : Date) : Calendar :=
  { cal with
    addedHolidays := cal.addedHolidays.erase d
    removedHolidays := if cal.natural d then cal.removedHolidays else insert d cal.removedHolidays }

/-- Enough turns to take every date of the supported range. -/
def days : ℕ := 109574

/-- `while self.is_holiday(d1) { d1 += 1; }` -/
def rollForward (cal : Calendar) : Date → Option Date := seek (fun d1 => d1.addDays 1) cal.isBusinessDay days

/-- `while self.is_holiday(d1) { d1 -= 1; }` -/
def rollBackward (cal : Calendar) : Date → Option Date := seek (fun d1 => d1.addDays (-1)) cal.isBusinessDay days

/-- `while self.is_holiday(d1) && self.is_holiday(d2) { d1 += 1; d2 -= 1; }` -/
def rollBoth (cal : Calendar) : ℕ → Date → Date → Option (Date × Date)
  | 0, _, _           => none
  | fuel + 1, d1, d2  =>
    if cal.isHoliday d1 && cal.isHoliday d2 then
      (d1.addDays 1).bind (fun d1 => (d2.addDays (-1)).bind (fun d2 => cal.rollBoth fuel d1 d2))
    else some (d1, d2)

/-- `try_adjust`: a panic is `none`.  The modified conventions fall back on `Preceding` and `Following`, which do not
recurse. -/
def tryAdjust (cal : Calendar) (d : Date) (c : BusinessDayConvention) : Option (Except String Date) :=
  if d = Date.null then none
  else if c = .unadjusted then some (.ok d)
  else if cal.isEmpty then some (.error "no calendar implementation provided")
  else match c with
    | .unadjusted => some (.ok d)
    | .following => (cal.rollForward d).map .ok
    | .modifiedFollowing => (cal.rollForward d).bind (fun d1 =>
        if d1.month ≠ d.month then (cal.rollBackward d).map .ok else some (.ok d1))
    | .halfMonthModifiedFollowing => (cal.rollForward d).bind (fun d1 =>
        if d1.month ≠ d.month then (cal.rollBackward d).map .ok
        else if d.dayOfMonth ≤ 15 ∧ 15 < d1.dayOfMonth then (cal.rollBackward d).map .ok
        else some (.ok d1))
    | .preceding => (cal.rollBackward d).map .ok
    | .modifiedPreceding => (cal.rollBackward d).bind (fun d1 =>
        if d1.month ≠ d.month then (cal.rollForward d).map .ok else some (.ok d1))
    | .nearest => (cal.rollBoth days d d).map (fun (d1, d2) => .ok (if cal.isHoliday d1 then d2 else d1))

/-- `adjust`, which panics on an error. -/
def adjust (cal : Calendar) (d : Date) (c : BusinessDayConvention) : Option Date :=
  (cal.tryAdjust d c).bind (fun r => match r with
    | .ok d    => some d
    | .error _ => none)

def startOfMonth (cal : Calendar) (d : Date) : Option Date :=
  d.startOfMonth.bind (fun s => cal.adjust s .following)

def isStartOfMonth (cal : Calendar) (d : Date) : Option Bool := (cal.startOfMonth d).map (fun s => decide (d ≤ s))

def endOfMonth (cal : Calendar) (d : Date) : Option Date :=
  d.endOfMonth.bind (fun e => cal.adjust e .preceding)

def isEndOfMonth (cal : Calendar) (d : Date) : Option Bool := (cal.endOfMonth d).map (fun e => decide (e ≤ d))

/-! ## Holidays -/

variable {cal : Calendar} {d d' r : Date} {c : BusinessDayConvention}

theorem isBusinessDay_addHoliday (cal : Calendar) (d x : Date) :
    (cal.addHoliday d).isBusinessDay x = if x = d then false else cal.isBusinessDay x := by
  unfold addHoliday isBusinessDay
  by_cases hx : x = d
  · subst hx
    cases cal.natural x <;> simp
  · cases cal.natural d <;> simp [hx]

theorem isBusinessDay_removeHoliday (cal : Calendar) (d x : Date) :
    (cal.removeHoliday d).isBusinessDay x = if x = d then true else cal.isBusinessDay x := by
  unfold removeHoliday isBusinessDay
  by_cases hx : x = d
  · subst hx
    cases cal.natural x <;> simp
  · cases cal.natural d <;> simp [hx]

/-! ## The loops -/

/-- A business day of the calendar; the null date is none. -/
def Business (cal : Calendar) (d : Date) : Prop := d ≠ Date.null ∧ cal.isBusinessDay d = true

instance (cal : Calendar) : DecidablePred cal.Business := fun _ => inferInstanceAs (Decidable (_ ∧ _))

theorem business_iff (h : d ≠ Date.null) : cal.isBusinessDay d = true ↔ cal.Business d :=
  ⟨fun hb => ⟨h, hb⟩, fun hb => hb.2⟩

theorem isHoliday_iff (h : d ≠ Date.null) : cal.isHoliday d = true ↔ ¬ cal.Business d := by
  rw [← business_iff h, isHoliday, Bool.not_eq_true', Bool.not_eq_true]

theorem walks_forward (cal : Calendar) : Walks cal.Business (fun d1 => d1.addDays 1) cal.isBusinessDay
    (fun d => d ≠ Date.null) (fun d => (109574 - d.serialNumber).toNat) where
  stop_iff _ h := business_iff h
  covBy d d' h hn := by
    obtain ⟨h', hs⟩ := Date.addDays_eq_some.mp hn
    have := Date.serial_bounds h'
    exact ⟨Date.addDays_one_covBy hn, h', by omega⟩
  last d h hn x hx := by
    have := Date.serial_bounds h
    have := Date.serial_bounds hx.1
    rw [Date.addDays_eq_none] at hn
    rw [Date.le_iff]
    omega

theorem walks_backward (cal : Calendar) : Walks (α := Dateᵒᵈ) cal.Business (fun d1 => Date.addDays d1 (-1))
    cal.isBusinessDay (fun d => d ≠ Date.null) (fun d => (Date.serialNumber d - 367).toNat) where
  stop_iff _ h := business_iff h
  covBy d d' h hn := by
    obtain ⟨h', hs⟩ := Date.addDays_eq_some.mp hn
    have := Date.serial_bounds h'
    exact ⟨(Date.addDays_neg_one_covBy hn).toDual, h', by omega⟩
  last d h hn x hx := by
    have := Date.serial_bounds h
    have := Date.serial_bounds hx.1
    have hn := Date.addDays_eq_none.mp hn
    change Date.serialNumber d ≤ Date.serialNumber x
    omega

/-- **The loop forward finds the next business day.** -/
theorem rollForward_eq_some (h : d ≠ Date.null) : cal.rollForward d = some r ↔ IsNext cal.Business d r :=
  (walks_forward cal).seek_eq_some_iff days d h (by have := Date.serial_bounds h; unfold days; omega)

/-- **The loop back finds the previous business day.** -/
theorem rollBackward_eq_some (h : d ≠ Date.null) : cal.rollBackward d = some r ↔ IsPrev cal.Business d r :=
  (walks_backward cal).seek_eq_some_iff days d h (by
    have := Date.serial_bounds h
    change (Date.serialNumber d - 367).toNat < 109574
    omega)

/-- The loop both ways ends at the first distance where one of its two days is a business day. -/
theorem rollBoth_eq_some {r1 r2 : Date} : ∀ (fuel : ℕ) (d1 d2 : Date), d1 ≠ Date.null → d2 ≠ Date.null →
    cal.rollBoth fuel d1 d2 = some (r1, r2) →
    r1 ≠ Date.null ∧ r2 ≠ Date.null ∧ (cal.Business r1 ∨ cal.Business r2) ∧
      ∃ k : ℕ, r1.serialNumber = d1.serialNumber + k ∧ r2.serialNumber = d2.serialNumber - k ∧
        ∀ x, cal.Business x → (d1 ≤ x → r1 ≤ x) ∧ (x ≤ d2 → x ≤ r2)
  | 0, _, _, _, _, h          => absurd h.symm (Option.some_ne_none _)
  | fuel + 1, d1, d2, h₁, h₂, h => by
    rw [rollBoth] at h
    by_cases hh : (cal.isHoliday d1 && cal.isHoliday d2) = true
    · rw [if_pos hh] at h
      rw [Bool.and_eq_true, isHoliday_iff h₁, isHoliday_iff h₂] at hh
      obtain ⟨e1, he1, h⟩ := Option.bind_eq_some_iff.mp h
      obtain ⟨e2, he2, h⟩ := Option.bind_eq_some_iff.mp h
      obtain ⟨n1, s1⟩ := Date.addDays_eq_some.mp he1
      obtain ⟨n2, s2⟩ := Date.addDays_eq_some.mp he2
      obtain ⟨m1, m2, hb, k, k1, k2, hk⟩ := rollBoth_eq_some fuel e1 e2 n1 n2 h
      refine ⟨m1, m2, hb, k + 1, by push_cast; omega, by push_cast; omega, fun x hx => ⟨fun hle => ?_, fun hle => ?_⟩⟩
      · refine (hk x hx).1 ((Date.addDays_one_covBy he1).ge_of_gt (lt_of_le_of_ne hle ?_))
        rintro rfl
        exact hh.1 hx
      · refine (hk x hx).2 ((Date.addDays_neg_one_covBy he2).le_of_lt (lt_of_le_of_ne hle ?_))
        rintro rfl
        exact hh.2 hx
    · rw [if_neg hh] at h
      obtain ⟨rfl, rfl⟩ := Prod.mk.inj (Option.some.inj h)
      rw [Bool.and_eq_true, isHoliday_iff h₁, isHoliday_iff h₂, not_and_or, not_not, not_not] at hh
      exact ⟨h₁, h₂, hh, 0, by simp, by simp, fun x _ => ⟨id, id⟩⟩

/-- The loop both ways returns when there is a business day whose mirror image is a date of the supported range. -/
theorem rollBoth_returns {b m : Date} : ∀ (fuel k : ℕ) (d1 d2 : Date), k < fuel → d1 ≠ Date.null → d2 ≠ Date.null →
    b ≠ Date.null → m ≠ Date.null → b.serialNumber = d1.serialNumber + k → m.serialNumber = d2.serialNumber - k →
    cal.Business b ∨ cal.Business m → ∃ p, cal.rollBoth fuel d1 d2 = some p
  | 0, _, _, _, hf, _, _, _, _, _, _, _             => absurd hf (Nat.not_lt_zero _)
  | fuel + 1, k, d1, d2, hf, h₁, h₂, hb, hm, k1, k2, h => by
    rw [rollBoth]
    by_cases hh : (cal.isHoliday d1 && cal.isHoliday d2) = true
    · rw [if_pos hh]
      rw [Bool.and_eq_true, isHoliday_iff h₁, isHoliday_iff h₂] at hh
      obtain ⟨k, rfl⟩ : ∃ k', k = k' + 1 := by
        refine Nat.exists_eq_succ_of_ne_zero (fun hk => ?_)
        subst hk
        obtain rfl : b = d1 := Date.ext (by simpa using k1)
        obtain rfl : m = d2 := Date.ext (by simpa using k2)
        exact h.elim hh.1 hh.2
      have bb := Date.serial_bounds hb
      have bm := Date.serial_bounds hm
      have b1 := Date.serial_bounds h₁
      have b2 := Date.serial_bounds h₂
      push_cast at k1 k2
      cases he1 : d1.addDays 1 with
      | none => rw [Date.addDays_eq_none] at he1; omega
      | some e1 =>
        cases he2 : d2.addDays (-1) with
        | none => rw [Date.addDays_eq_none] at he2; omega
        | some e2 =>
          obtain ⟨n1, s1⟩ := Date.addDays_eq_some.mp he1
          obtain ⟨n2, s2⟩ := Date.addDays_eq_some.mp he2
          exact rollBoth_returns fuel k e1 e2 (by omega) n1 n2 hb hm (by omega) (by omega) h
    · rw [if_neg hh]
      exact ⟨_, rfl⟩

/-! ## Which roll a convention is -/

theorem adjust_unadjusted (hd : d ≠ Date.null) : cal.adjust d .unadjusted = some d := by
  rw [adjust, tryAdjust, if_neg hd, if_pos rfl, Option.bind_some]

theorem bind_ok_map (o : Option Date) : ((o.map Except.ok).bind fun r : Except String Date => match r with
    | .ok d    => some d
    | .error _ => none) = o := by
  cases o <;> rfl

theorem adjust_following (hd : d ≠ Date.null) (he : cal.isEmpty = false) :
    cal.adjust d .following = cal.rollForward d := by
  rw [adjust, tryAdjust, if_neg hd, if_neg (by decide), if_neg (by simp [he])]
  exact bind_ok_map _

theorem adjust_preceding (hd : d ≠ Date.null) (he : cal.isEmpty = false) :
    cal.adjust d .preceding = cal.rollBackward d := by
  rw [adjust, tryAdjust, if_neg hd, if_neg (by decide), if_neg (by simp [he])]
  exact bind_ok_map _

theorem adjust_nearest (hd : d ≠ Date.null) (he : cal.isEmpty = false) : cal.adjust d .nearest =
    (cal.rollBoth days d d).map (fun p => if cal.isHoliday p.1 then p.2 else p.1) := by
  rw [adjust, tryAdjust, if_neg hd, if_neg (by decide), if_neg (by simp [he])]
  cases cal.rollBoth days d d <;> rfl

/-- The modified conventions: the first roll, unless it leaves for a day that the convention refuses. -/
theorem adjust_modified {first second : Option Date} {leaves : Date → Prop} [DecidablePred leaves] :
    (((first.bind (fun d1 => if leaves d1 then second.map Except.ok else some (.ok d1))).bind
      fun r : Except String Date => match r with
        | .ok d    => some d
        | .error _ => none) = some r) ↔
      (first = some r ∧ ¬ leaves r) ∨ ((∃ n, first = some n ∧ leaves n) ∧ second = some r) := by
  cases first with
  | none => simp
  | some n =>
    by_cases hl : leaves n
    · rw [Option.bind_some, if_pos hl, bind_ok_map]
      refine ⟨fun h => .inr ⟨⟨n, rfl, hl⟩, h⟩, ?_⟩
      rintro (⟨h, hn⟩ | ⟨-, h⟩)
      · exact absurd (Option.some.inj h ▸ hl) hn
      · exact h
    · rw [Option.bind_some, if_neg hl]
      refine ⟨fun h => .inl ⟨h, Option.some.inj h ▸ hl⟩, ?_⟩
      rintro (⟨h, -⟩ | ⟨⟨m, hm, hlm⟩, -⟩)
      · exact h
      · exact absurd (Option.some.inj hm ▸ hlm) hl

theorem adjust_modifiedFollowing (hd : d ≠ Date.null) (he : cal.isEmpty = false) :
    cal.adjust d .modifiedFollowing = some r ↔
      (IsNext cal.Business d r ∧ ¬ r.month ≠ d.month) ∨
        ((∃ n, IsNext cal.Business d n ∧ n.month ≠ d.month) ∧ IsPrev cal.Business d r) := by
  rw [adjust, tryAdjust, if_neg hd, if_neg (by decide), if_neg (by simp [he])]
  simp only [← rollForward_eq_some hd, ← rollBackward_eq_some hd]
  exact adjust_modified

theorem adjust_modifiedPreceding (hd : d ≠ Date.null) (he : cal.isEmpty = false) :
    cal.adjust d .modifiedPreceding = some r ↔
      (IsPrev cal.Business d r ∧ ¬ r.month ≠ d.month) ∨
        ((∃ n, IsPrev cal.Business d n ∧ n.month ≠ d.month) ∧ IsNext cal.Business d r) := by
  rw [adjust, tryAdjust, if_neg hd, if_neg (by decide), if_neg (by simp [he])]
  simp only [← rollForward_eq_some hd, ← rollBackward_eq_some hd]
  exact adjust_modified

/-- Whether the half-month convention refuses the following business day `d1`. -/
def LeavesHalfMonth (d d1 : Date) : Prop := d1.month ≠ d.month ∨ (d.dayOfMonth ≤ 15 ∧ 15 < d1.dayOfMonth)

instance : DecidablePred (LeavesHalfMonth d) := fun _ => inferInstanceAs (Decidable (_ ∨ _))

theorem adjust_halfMonth (hd : d ≠ Date.null) (he : cal.isEmpty = false) :
    cal.adjust d .halfMonthModifiedFollowing = some r ↔
      (IsNext cal.Business d r ∧ ¬ LeavesHalfMonth d r) ∨
        ((∃ n, IsNext cal.Business d n ∧ LeavesHalfMonth d n) ∧ IsPrev cal.Business d r) := by
  rw [adjust, tryAdjust, if_neg hd, if_neg (by decide), if_neg (by simp [he])]
  simp only [← rollForward_eq_some hd, ← rollBackward_eq_some hd, ← ite_or]
  exact adjust_modified

end Calendar
end Itofin
