import Mathlib.Data.Int.Interval
import Itofin.Lib.Counting
import Itofin.Time.Period
import Itofin.Time.Adjustment
/-!
# Business days — advancing by them and counting them

`Calendar::advance` and `business_days_between`.  The two loops over the days of the first find the business day picked
after, and before, a date (`rollAfter_eq_some`, `rollBefore_eq_some`), so advancing by days finds the `n`-th one; the
loop of the second counts the business days of an interval (`businessDaysBetween_eq`).
-/
namespace Itofin.Calendar

open Rolling Counting

/-! ## Advancing -/

/-- `d1 += 1; while self.is_holiday(d1) { d1 += 1; }`, so many times. -/
def advanceForward (cal : Calendar) : ℕ → Date → Option Date
  | 0, d1     => some d1
  | n + 1, d1 => (d1.addDays 1).bind (fun d1 => (cal.rollForward d1).bind (cal.advanceForward n))

/-- `d1 -= 1; while self.is_holiday(d1) { d1 -= 1; }`, so many times. -/
def advanceBackward (cal : Calendar) : ℕ → Date → Option Date
  | 0, d1     => some d1
  | n + 1, d1 => (d1.addDays (-1)).bind (fun d1 => (cal.rollBackward d1).bind (cal.advanceBackward n))

def advance (cal : Calendar) (d : Date) (n : ℤ) (unit : TimeUnit) (c : BusinessDayConvention) (endOfMonth : Bool) :
    Option Date :=
  if d = Date.null then none
  else if cal.isEmpty then none
  else if n = 0 then cal.adjust d c
  else match unit with
    | .days => if 0 < n then cal.advanceForward n.toNat d else cal.advanceBackward (-n).toNat d
    | .weeks => (d.advance n unit).bind (fun d1 => cal.adjust d1 c)
    | _ => (d.advance n unit).bind (fun d1 =>
        if endOfMonth then
          if c = .unadjusted then
            if d.isEndOfMonth then d1.endOfMonth else cal.adjust d1 c
          else
            (cal.isEndOfMonth d).bind (fun e => if e then cal.endOfMonth d1 else cal.adjust d1 c)
        else cal.adjust d1 c)

def advanceByPeriod (cal : Calendar) (d : Date) (p : Period) (c : BusinessDayConvention) (endOfMonth : Bool) :
    Option Date :=
  cal.advance d p.length p.units c endOfMonth

/-! ## Counting -/

/-- `while d < to { res += is_business_day(d); d += 1; }` -/
def countLoop (cal : Calendar) (stop : Date) : ℕ → ℤ → Date → Option ℤ
  | 0, _, _          => none
  | fuel + 1, res, d =>
    if d < stop then (d.addDays 1).bind (cal.countLoop stop fuel (res + if cal.isBusinessDay d then 1 else 0)) else some res

/-- `days_between_impl`, for `from < to`. -/
def daysBetweenImpl (cal : Calendar) (start stop : Date) (includeFirst includeLast : Bool) : Option ℤ :=
  let res : ℤ := if includeLast && cal.isBusinessDay stop then 1 else 0
  (if includeFirst then some start else start.addDays 1).bind (cal.countLoop stop days res)

def businessDaysBetween (cal : Calendar) (start stop : Date) (includeFirst includeLast : Bool) : Option ℤ :=
  if start < stop then cal.daysBetweenImpl start stop includeFirst includeLast
  else if stop < start then (cal.daysBetweenImpl stop start includeLast includeFirst).map (fun n => -n)
  else some (if includeFirst && includeLast && cal.isBusinessDay start then 1 else 0)

/-! ## What advancing finds -/

variable {cal : Calendar} {a b d r : Date} {c : BusinessDayConvention} {n : ℕ}

noncomputable instance : LocallyFiniteOrder Date :=
  LocallyFiniteOrder.ofFiniteIcc (fun a b =>
    ((Set.finite_Icc a.serialNumber b.serialNumber).preimage (fun _ _ _ _ h => Date.ext h)).subset (fun _ h => h))

theorem rollAfter_eq_some (hd : d ≠ Date.null) :
    (d.addDays 1).bind cal.rollForward = some r ↔ IsAfter cal.Business d r := by
  cases hn : d.addDays 1 with
  | none =>
    refine ⟨fun h => absurd h.symm (Option.some_ne_none r), fun h => absurd h.1.2 (not_lt.mpr ?_)⟩
    exact (walks_forward cal).last d hd hn r h.1.1
  | some d' =>
    rw [Option.bind_some, rollForward_eq_some (Date.addDays_eq_some.mp hn).1,
      isAfter_iff_of_covBy (Date.addDays_one_covBy hn)]

theorem rollBefore_eq_some (hd : d ≠ Date.null) :
    (d.addDays (-1)).bind cal.rollBackward = some r ↔ IsBefore cal.Business d r := by
  cases hn : d.addDays (-1) with
  | none =>
    refine ⟨fun h => absurd h.symm (Option.some_ne_none r), fun h => absurd h.1.2 (not_lt.mpr ?_)⟩
    exact (walks_backward cal).last d hd hn r h.1.1
  | some d' =>
    rw [Option.bind_some, rollBackward_eq_some (Date.addDays_eq_some.mp hn).1,
      isBefore_iff_of_covBy (Date.addDays_neg_one_covBy hn)]

/-- **Advancing finds the `n`-th business day after the date.** -/
theorem advanceForward_eq_some : ∀ (n : ℕ) {d : Date}, d ≠ Date.null →
    (cal.advanceForward n d = some r ↔ IsNth cal.Business n d r)
  | 0, d, _      => by
    rw [advanceForward, isNth_zero, Option.some.injEq]
    exact eq_comm
  | n + 1, d, hd => by
    rw [advanceForward, ← Option.bind_assoc, Option.bind_eq_some_iff, isNth_succ]
    refine exists_congr (fun m => ?_)
    rw [rollAfter_eq_some hd]
    exact and_congr_right (fun h => advanceForward_eq_some n h.1.1.1)

theorem advanceForward_le : ∀ (n : ℕ) {d : Date}, cal.advanceForward n d = some r →
    d.serialNumber + n ≤ r.serialNumber
  | 0, d, h      => by
    rw [← Option.some.inj h, Nat.cast_zero, add_zero]
  | n + 1, d, h => by
    obtain ⟨d', hd, h⟩ := Option.bind_eq_some_iff.mp h
    obtain ⟨m, hm, h⟩ := Option.bind_eq_some_iff.mp h
    obtain ⟨hd', hs⟩ := Date.addDays_eq_some.mp hd
    have h₁ := Date.le_iff.mp ((rollForward_eq_some hd').mp hm).le
    have h₂ := advanceForward_le n h
    push_cast
    omega

theorem le_advanceBackward : ∀ (n : ℕ) {d : Date}, cal.advanceBackward n d = some r →
    r.serialNumber + n ≤ d.serialNumber
  | 0, d, h      => by
    rw [← Option.some.inj h, Nat.cast_zero, add_zero]
  | n + 1, d, h => by
    obtain ⟨d', hd, h⟩ := Option.bind_eq_some_iff.mp h
    obtain ⟨m, hm, h⟩ := Option.bind_eq_some_iff.mp h
    obtain ⟨hd', hs⟩ := Date.addDays_eq_some.mp hd
    have h₁ := Date.le_iff.mp ((rollBackward_eq_some hd').mp hm).le
    have h₂ := le_advanceBackward n h
    push_cast
    omega

/-- **Advancing back finds the `n`-th business day before the date.** -/
theorem advanceBackward_eq_some : ∀ (n : ℕ) {d : Date}, d ≠ Date.null →
    (cal.advanceBackward n d = some r ↔ IsNthBefore cal.Business n d r)
  | 0, d, _      => by
    rw [advanceBackward, isNthBefore_zero, Option.some.injEq]
    exact eq_comm
  | n + 1, d, hd => by
    rw [advanceBackward, ← Option.bind_assoc, Option.bind_eq_some_iff, isNthBefore_succ]
    refine exists_congr (fun m => ?_)
    rw [rollBefore_eq_some hd]
    exact and_congr_right (fun h => advanceBackward_eq_some n h.1.1.1)

/-- **Advancing leaves the range** when there are as many units as days in it. -/
theorem advance_far {n : ℤ} {u : TimeUnit} {eom : Bool} (hd : d ≠ Date.null) (hn : n ≤ -109574 ∨ 109574 ≤ n) :
    cal.advance d n u c eom = none := by
  have hb := Date.serial_bounds hd
  rw [advance.eq_def, if_neg hd]
  by_cases he : cal.isEmpty = true
  · rw [if_pos he]
  rw [if_neg he, if_neg (by omega)]
  cases u with
  | days =>
    cases hr : (if 0 < n then cal.advanceForward n.toNat d else cal.advanceBackward (-n).toNat d) with
    | none   => rfl
    | some r =>
      exfalso
      have h₀ := Date.serial_le r
      split at hr
      · have h₁ := advanceForward_le _ hr
        omega
      · have h₁ := le_advanceBackward _ hr
        have h₂ := Date.serial_nonneg r
        obtain ⟨hle, hr', -⟩ := (advanceBackward_eq_some _ hd).mp hr
        have h₃ := Date.serial_bounds (hr' (Date.lt_iff.mpr (by omega))).1
        omega
  | weeks | months | years | hours | minutes | seconds | milliseconds | microseconds =>
    simp only [Date.advance_far hd hn, Option.bind_none]

/-! ## What counting counts -/

theorem count_day (hd : d ≠ Date.null) :
    ((count cal.Business {d} : ℕ) : ℤ) = if cal.isBusinessDay d then 1 else 0 := by
  rw [count_singleton]
  simp only [← business_iff hd]
  split <;> rfl

/-- The loop counts the business days from its date up to the end, which it leaves out. -/
theorem countLoop_eq (hb : b ≠ Date.null) : ∀ (fuel : ℕ) (res : ℤ) {d : Date}, d ≠ Date.null → d ≤ b →
    (b.serialNumber - d.serialNumber).toNat < fuel →
    cal.countLoop b fuel res d = some (res + count cal.Business (Set.Ico d b))
  | 0, _, _, _, _, hf           => absurd hf (Nat.not_lt_zero _)
  | fuel + 1, res, d, hd, hle, hf => by
    rw [countLoop]
    rcases eq_or_lt_of_le hle with rfl | hlt
    · rw [if_neg (lt_irrefl _), Set.Ico_self, count_empty, Nat.cast_zero, add_zero]
    have h₁ := Date.serial_bounds hd
    have h₂ := Date.serial_bounds hb
    have h₃ := Date.lt_iff.mp hlt
    rw [if_pos hlt]
    cases hn : d.addDays 1 with
    | none => rw [Date.addDays_eq_none] at hn; omega
    | some d' =>
      obtain ⟨hd', hs⟩ := Date.addDays_eq_some.mp hn
      have hc := Date.addDays_one_covBy hn
      rw [Option.bind_some, countLoop_eq hb fuel _ hd' (hc.ge_of_gt hlt) (by omega),
        count_Ico_add hc.le (hc.ge_of_gt hlt), hc.Ico_eq, ← count_day hd]
      push_cast
      rw [add_assoc]

def interval (start stop : Date) (includeFirst includeLast : Bool) : Set Date :=
  {x | (if includeFirst then start ≤ x else start < x) ∧ (if includeLast then x ≤ stop else x < stop)}

theorem count_interval_true (hab : a < b) (includeFirst : Bool) : count cal.Business (interval a b includeFirst true) =
    count cal.Business (interval a b includeFirst false) + count cal.Business {b} := by
  have he : interval a b includeFirst true = interval a b includeFirst false ∪ {b} := by
    ext x
    have : x ≤ b ↔ x < b ∨ x = b := le_iff_lt_or_eq
    cases includeFirst <;> simp only [interval, Set.mem_ofPred_eq, Set.mem_union, Set.mem_singleton_iff] <;> grind
  rw [he]
  refine count_union ?_ ((Set.finite_Icc a b).subset ?_) (Set.finite_singleton b)
  · rw [Set.disjoint_singleton_right]
    exact fun h => lt_irrefl b h.2
  · rintro x ⟨h₁, h₂⟩
    cases includeFirst
    · exact ⟨le_of_lt h₁, le_of_lt h₂⟩
    · exact ⟨h₁, le_of_lt h₂⟩

theorem daysBetweenImpl_eq (ha : a ≠ Date.null) (hb : b ≠ Date.null) (hab : a < b) (includeFirst includeLast : Bool) :
    cal.daysBetweenImpl a b includeFirst includeLast =
      some (count cal.Business (interval a b includeFirst includeLast) : ℤ) := by
  have h₁ := Date.serial_bounds ha
  have h₂ := Date.serial_bounds hb
  have h₃ := Date.lt_iff.mp hab
  have loop : ∀ res, ((if includeFirst then some a else a.addDays 1).bind (cal.countLoop b days res)) =
      some (res + count cal.Business (interval a b includeFirst false)) := fun res => by
    cases includeFirst with
    | true  => exact countLoop_eq hb days res ha hab.le (by unfold days; omega)
    | false =>
      cases hn : a.addDays 1 with
      | none => rw [Date.addDays_eq_none] at hn; omega
      | some d =>
        obtain ⟨hd, hs⟩ := Date.addDays_eq_some.mp hn
        have hc := Date.addDays_one_covBy hn
        have he : interval a b false false = Set.Ico d b :=
          Set.ext (fun x => and_congr_left (fun _ => ⟨hc.ge_of_gt, fun h => lt_of_lt_of_le hc.lt h⟩))
        rw [he]
        exact countLoop_eq hb days res hd (hc.ge_of_gt hab) (by unfold days; omega)
  unfold daysBetweenImpl
  rw [loop]
  cases includeLast with
  | false => simp
  | true  =>
    rw [count_interval_true hab, Nat.cast_add, count_day hb, Bool.true_and, add_comm]

/-- **Counting counts the business days of the interval**, with the sign of its direction; between equal dates it counts
the date itself if both ends are included. -/
theorem businessDaysBetween_eq (ha : a ≠ Date.null) (hb : b ≠ Date.null) (includeFirst includeLast : Bool) :
    cal.businessDaysBetween a b includeFirst includeLast =
      some (if a ≤ b then (count cal.Business (interval a b includeFirst includeLast) : ℤ)
        else -count cal.Business (interval b a includeLast includeFirst)) := by
  rw [businessDaysBetween]
  rcases lt_trichotomy a b with hlt | rfl | hgt
  · rw [if_pos hlt, if_pos hlt.le, daysBetweenImpl_eq ha hb hlt]
  · rw [if_neg (lt_irrefl a), if_neg (lt_irrefl a), if_pos le_rfl, Option.some.injEq]
    cases hf : includeFirst && includeLast with
    | true  =>
      rw [Bool.and_eq_true] at hf
      rw [hf.1, hf.2, show interval a a true true = {a} from Set.Icc_self a, count_day ha, Bool.true_and]
    | false =>
      have he : interval a a includeFirst includeLast = ∅ := by
        refine Set.eq_empty_of_forall_notMem (fun x hx => ?_)
        cases includeFirst with
        | false =>
          have hx₁ : a < x := hx.1
          cases includeLast with
          | false => exact lt_asymm hx₁ hx.2
          | true  => exact not_le.mpr hx₁ hx.2
        | true  =>
          cases includeLast with
          | true  => exact absurd hf (by decide)
          | false => exact lt_irrefl x (lt_of_lt_of_le hx.2 hx.1)
      rw [he, count_empty]
      rfl
  · rw [if_neg (lt_asymm hgt), if_pos hgt, if_neg (not_le.mpr hgt), daysBetweenImpl_eq hb ha hgt]
    rfl

/-- `r` is the `n`-th business day strictly after the date, or for a negative `n` strictly before it. -/
def NthBusinessDay (cal : Calendar) (d : Date) (n : ℤ) (r : Date) : Prop :=
  cal.Business r ∧
    if 0 < n then d < r ∧ (count cal.Business (Set.Ioc d r) : ℤ) = n
    else r < d ∧ (count cal.Business (Set.Ico r d) : ℤ) = -n

theorem nthBusinessDay_iff {n : ℤ} (hn : 0 < n) : cal.NthBusinessDay d n r ↔ IsNth cal.Business n.toNat d r := by
  rw [NthBusinessDay, if_pos hn, IsNth]
  constructor
  · rintro ⟨hb, hlt, hc⟩
    exact ⟨hlt.le, fun _ => hb, by omega⟩
  · rintro ⟨hle, hb, hc⟩
    obtain ⟨x, -, h₁, h₂⟩ := count_Ioc_pos_iff.mp (by omega : 0 < count cal.Business (Set.Ioc d r))
    exact ⟨hb (lt_of_lt_of_le h₁ h₂), lt_of_lt_of_le h₁ h₂, by omega⟩

theorem nthBusinessDay_neg_iff {n : ℤ} (hn : n < 0) :
    cal.NthBusinessDay d n r ↔ IsNthBefore cal.Business (-n).toNat d r := by
  rw [NthBusinessDay, if_neg (by omega), IsNthBefore]
  constructor
  · rintro ⟨hb, hlt, hc⟩
    exact ⟨hlt.le, fun _ => hb, by omega⟩
  · rintro ⟨hle, hb, hc⟩
    have hlt : r < d := by
      refine lt_of_le_of_ne hle (fun he => ?_)
      rw [he, Set.Ico_self, count_empty] at hc
      omega
    exact ⟨hb hlt, hlt, by omega⟩

/-- **Advancing by days lands on the `n`-th business day**, whenever there are so many. -/
theorem advance_days_eq_some (hd : d ≠ Date.null) (he : cal.isEmpty = false) {n : ℤ} (hn : n ≠ 0) {eom : Bool} :
    cal.advance d n .days c eom = some r ↔ cal.NthBusinessDay d n r := by
  rw [advance, if_neg hd, if_neg (by simp [he]), if_neg hn]
  rcases lt_or_gt_of_ne hn with hneg | hpos
  · rw [nthBusinessDay_neg_iff hneg, ← advanceBackward_eq_some _ hd]
    simp only [if_neg (not_lt.mpr hneg.le)]
  · rw [nthBusinessDay_iff hpos, ← advanceForward_eq_some _ hd]
    simp only [if_pos hpos]

/-- **Business-day counting agrees with advancing.**  Advancing by days finds the `n`-th business day after the date, or
before it, whenever there is one, and counting up to it without the date itself gives `n`.  Counting is antisymmetric,
but for the business day that is counted between itself and itself with both ends, and additive. -/
theorem counting_spec (cal : Calendar) :
    (∀ (d : Date) (n : ℤ) (c : BusinessDayConvention) (eom : Bool), d ≠ Date.null → cal.isEmpty = false → n ≠ 0 → ∀ r,
      (cal.advance d n .days c eom = some r ↔ cal.NthBusinessDay d n r) ∧
      (cal.advance d n .days c eom = some r → cal.businessDaysBetween d r false true = some n)) ∧
    (∀ (a b : Date) (includeFirst includeLast : Bool),
      ¬ (a = b ∧ includeFirst = true ∧ includeLast = true ∧ cal.isBusinessDay a = true) →
      cal.businessDaysBetween b a includeLast includeFirst =
        (cal.businessDaysBetween a b includeFirst includeLast).map (fun n => -n)) ∧
    (∀ a b c : Date, a ≠ Date.null → a ≤ b → b ≤ c → ∃ i j : ℤ,
      cal.businessDaysBetween a b true false = some i ∧ cal.businessDaysBetween b c true false = some j ∧
      cal.businessDaysBetween a c true false = some (i + j)) := by
  refine ⟨fun d n c eom hd he hn r => ⟨advance_days_eq_some hd he hn, fun h => ?_⟩, fun a b f l hne => ?_,
    fun a b c ha hab hbc => ?_⟩
  · obtain ⟨hb, hr⟩ := (advance_days_eq_some hd he hn).mp h
    rw [businessDaysBetween_eq hd hb.1]
    split at hr
    · rw [if_pos hr.1.le, ← hr.2]
      rfl
    · rw [if_neg (not_le.mpr hr.1), show interval r d true false = Set.Ico r d from rfl, hr.2, neg_neg]
  · unfold businessDaysBetween
    rcases lt_trichotomy a b with hlt | rfl | hgt
    · rw [if_neg (lt_asymm hlt), if_pos hlt, if_pos hlt]
    · have h₀ : (f && l && cal.isBusinessDay a) = false := by
        rw [← Bool.not_eq_true, Bool.and_eq_true, Bool.and_eq_true]
        exact fun ⟨⟨h₁, h₂⟩, h₃⟩ => hne ⟨rfl, h₁, h₂, h₃⟩
      rw [if_neg (lt_irrefl a), if_neg (lt_irrefl a), if_neg (lt_irrefl a), if_neg (lt_irrefl a), Bool.and_comm l f, h₀]
      rfl
    · rw [if_pos hgt, if_neg (lt_asymm hgt), if_pos hgt, Option.map_map]
      simp
  · have hb : b ≠ Date.null := fun h => ha (le_antisymm (h ▸ hab) (Date.null_le a))
    have hc : c ≠ Date.null := fun h => hb (le_antisymm (h ▸ hbc) (Date.null_le b))
    refine ⟨_, _, businessDaysBetween_eq ha hb true false, businessDaysBetween_eq hb hc true false, ?_⟩
    rw [businessDaysBetween_eq ha hc, if_pos hab, if_pos hbc, if_pos (le_trans hab hbc), ← Nat.cast_add]
    exact congrArg (fun n : ℕ => some (n : ℤ)) (count_Ico_add hab hbc)

/-- From a Saturday the second business day is Tuesday, with two business days on the way. -/
theorem counting_spec_monthEndSaturday :
    weekendsOnly.businessDaysBetween monthEndSaturday ⟨43284, by decide⟩ false true = some 2 :=
  ((counting_spec weekendsOnly).1 monthEndSaturday 2 .following false (by decide) (by decide +kernel) (by decide) _).2
    (by decide +kernel)

/-- **No days are no advance but an adjustment**, and a business day is counted between itself and itself: a Saturday
goes on to Monday, one business day away, and no negated count of Monday is its count. -/
theorem counting_zero :
    weekendsOnly.advance monthEndSaturday 0 .days .following false = some ⟨43283, by decide⟩ ∧
    weekendsOnly.businessDaysBetween monthEndSaturday ⟨43283, by decide⟩ false true = some 1 ∧
    weekendsOnly.businessDaysBetween ⟨43283, by decide⟩ ⟨43283, by decide⟩ true true ≠
      (weekendsOnly.businessDaysBetween ⟨43283, by decide⟩ ⟨43283, by decide⟩ true true).map (fun n => -n) := by
  decide +kernel

end Itofin.Calendar
