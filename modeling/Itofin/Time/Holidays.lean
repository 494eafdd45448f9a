import Mathlib.Data.Finset.Disjoint
import Itofin.Lib.Machine
import Itofin.Time.Calendar
/-!
# Holidays — overriding a calendar's holidays through its clones

`add_holiday`, `remove_holiday` and `reset_added_and_removed_holidays` of `time/calendar.rs`, and the lists of days.  A
`Calendar` value of the source shares its two sets of overrides with its clones: here it holds the places of the sets in
a `World`, and the overrides are steps of it.

A `Ledger` says what the sets are for.  It keeps, for each calendar and its clones together, every operation so far;
the world of a run is the one its ledger replays to (`run_represents`), so the last operation on a date decides
(`isHoliday_calendar`, `overrides_run`).
-/
namespace Itofin

open Machine

namespace Calendar

def resetAddedAndRemovedHolidays (cal : Calendar) : Calendar := { cal with addedHolidays := ∅, removedHolidays := ∅ }

/-! ## Lists of days -/

/-- `while d <= to { if keep(d) { result.push(d); } if d == to { break; } d += 1; }` -/
def listLoop (keep : Date → Bool) (stop : Date) : ℕ → List Date → Date → Option (List Date)
  | 0, _, _             => none
  | fuel + 1, result, d =>
    if d ≤ stop then
      let result := if keep d then result ++ [d] else result
      if d = stop then some result else (d.addDays 1).bind (listLoop keep stop fuel result)
    else some result

/-- `holiday_list`; `isWeekendOn` is the one of the market. -/
def holidayList (cal : Calendar) (isWeekendOn : Date → Bool) (start stop : Date) (includeWeekends : Bool) :
    Option (List Date) :=
  listLoop (fun d => cal.isHoliday d && (includeWeekends || !isWeekendOn d)) stop days [] start

def businessDayList (cal : Calendar) (start stop : Date) : Option (List Date) :=
  listLoop cal.isBusinessDay stop days [] start

/-- The kept days of an interval, in their order. -/
structure Lists (keep : Date → Bool) (start stop : Date) (l : List Date) : Prop where
  sorted : l.Pairwise (· < ·)
  mem_iff : ∀ d, d ∈ l ↔ (start ≤ d ∧ d ≤ stop) ∧ keep d = true

section

variable {keep : Date → Bool} {stop d d' : Date} {l : List Date}

/-- The day itself, when it is kept. -/
def kept (keep : Date → Bool) (d : Date) : List Date := if keep d then [d] else []

theorem mem_kept {x : Date} : x ∈ kept keep d ↔ x = d ∧ keep x = true := by
  unfold kept
  split
  case isTrue h =>
    rw [List.mem_singleton]
    exact ⟨fun hx => ⟨hx, hx ▸ h⟩, And.left⟩
  case isFalse h => exact ⟨fun hx => absurd hx List.not_mem_nil, fun hx => absurd (hx.1 ▸ hx.2) h⟩

theorem kept_sorted (keep : Date → Bool) (d : Date) : (kept keep d).Pairwise (· < ·) := by
  unfold kept
  split <;> simp

theorem Lists.none (h : ¬ d ≤ stop) : Lists keep d stop [] := by
  refine ⟨List.Pairwise.nil, fun x => ⟨fun h => absurd h List.not_mem_nil, ?_⟩⟩
  rintro ⟨⟨h₁, h₂⟩, -⟩
  exact absurd (le_trans h₁ h₂) h

theorem Lists.last (keep : Date → Bool) (d : Date) : Lists keep d d (kept keep d) :=
  ⟨kept_sorted keep d, fun x => by rw [mem_kept, ← le_antisymm_iff.trans and_comm]⟩

theorem Lists.next (hc : d ⋖ d') (hle : d ≤ stop) (h : Lists keep d' stop l) : Lists keep d stop (kept keep d ++ l) := by
  refine ⟨List.pairwise_append.mpr ⟨kept_sorted keep d, h.sorted, fun x hx y hy => ?_⟩, fun x => ?_⟩
  · rw [(mem_kept.mp hx).1]
    exact lt_of_lt_of_le hc.lt ((h.mem_iff y).mp hy).1.1
  · rw [List.mem_append, mem_kept, h.mem_iff]
    constructor
    · rintro (⟨rfl, hk⟩ | ⟨⟨h₁, h₂⟩, hk⟩)
      · exact ⟨⟨le_rfl, hle⟩, hk⟩
      · exact ⟨⟨le_trans hc.le h₁, h₂⟩, hk⟩
    · rintro ⟨⟨h₁, h₂⟩, hk⟩
      rcases h₁.eq_or_lt with rfl | h₁
      · exact .inl ⟨rfl, hk⟩
      · exact .inr ⟨⟨hc.ge_of_gt h₁, h₂⟩, hk⟩

end

theorem listLoop_spec (keep : Date → Bool) (stop : Date) : ∀ (fuel : ℕ) (result : List Date) (d : Date),
    d ≠ Date.null → (stop.serialNumber - d.serialNumber).toNat < fuel →
    ∃ l, listLoop keep stop fuel result d = some (result ++ l) ∧ Lists keep d stop l
  | 0, _, _, _, hf             => absurd hf (Nat.not_lt_zero _)
  | fuel + 1, result, d, hd, hf => by
    rw [listLoop]
    by_cases hle : d ≤ stop
    case neg =>
      rw [if_neg hle]
      exact ⟨[], by rw [List.append_nil], .none hle⟩
    have hkeep : (if keep d then result ++ [d] else result) = result ++ kept keep d := by
      unfold kept
      split <;> simp
    rw [if_pos hle, hkeep]
    by_cases he : d = stop
    · rw [if_pos he]
      exact ⟨_, rfl, he ▸ .last keep d⟩
    · rw [if_neg he]
      cases hn : d.addDays 1 with
      | none =>
        have := Date.serial_le stop
        rw [Date.addDays_eq_none] at hn
        have := Date.serial_bounds hd
        rw [Date.le_iff] at hle
        exact absurd (Date.ext (by omega)) he
      | some d' =>
        obtain ⟨hd', hs⟩ := Date.addDays_eq_some.mp hn
        have hlt : d < stop := lt_of_le_of_ne hle he
        rw [Date.lt_iff] at hlt
        obtain ⟨l, hl, hlists⟩ := listLoop_spec keep stop fuel (result ++ kept keep d) d' hd' (by omega)
        refine ⟨kept keep d ++ l, by rw [Option.bind_some, hl, List.append_assoc], ?_⟩
        exact hlists.next (Date.addDays_one_covBy hn) hle

/-- **The loop lists the kept days of an interval**, the maximum date included, and never takes a day past it. -/
theorem listLoop_lists (keep : Date → Bool) {start : Date} (stop : Date) (h : start ≠ Date.null) :
    ∃ l, listLoop keep stop days [] start = some l ∧ Lists keep start stop l := by
  have hs := Date.serial_bounds h
  have := Date.serial_le stop
  obtain ⟨l, hl, hk⟩ := listLoop_spec keep stop days [] start h (by unfold days; omega)
  exact ⟨l, by rwa [List.nil_append] at hl, hk⟩

/-! ## Overrides -/

/-- The overrides say nothing that the natural schedule says: days added were business days, days removed holidays. -/
structure Overridden (cal : Calendar) : Prop where
  added : ∀ d ∈ cal.addedHolidays, cal.natural d = true
  removed : ∀ d ∈ cal.removedHolidays, cal.natural d = false

theorem Overridden.disjoint {cal : Calendar} (h : cal.Overridden) : Disjoint cal.addedHolidays cal.removedHolidays :=
  Finset.disjoint_left.mpr (fun d ha hr => absurd (h.added d ha) (by rw [h.removed d hr]; exact Bool.false_ne_true))

theorem overridden_fromImpl (name : String) (natural : Date → Bool) : (fromImpl name natural).Overridden :=
  ⟨fun _ h => absurd h (Finset.notMem_empty _), fun _ h => absurd h (Finset.notMem_empty _)⟩

theorem Overridden.addHoliday {cal : Calendar} (h : cal.Overridden) (d : Date) : (cal.addHoliday d).Overridden where
  added x hx := by
    unfold Calendar.addHoliday at hx
    split at hx
    case isTrue hn =>
      rcases Finset.mem_insert.mp hx with rfl | hx
      · exact hn
      · exact h.added x hx
    case isFalse => exact h.added x hx
  removed x hx := h.removed x (Finset.mem_of_mem_erase hx)

theorem Overridden.removeHoliday {cal : Calendar} (h : cal.Overridden) (d : Date) :
    (cal.removeHoliday d).Overridden where
  added x hx := h.added x (Finset.mem_of_mem_erase hx)
  removed x hx := by
    unfold Calendar.removeHoliday at hx
    split at hx
    case isTrue => exact h.removed x hx
    case isFalse hn =>
      rcases Finset.mem_insert.mp hx with rfl | hx
      · exact Bool.not_eq_true _ ▸ hn
      · exact h.removed x hx

theorem overridden_reset (cal : Calendar) : cal.resetAddedAndRemovedHolidays.Overridden :=
  ⟨fun _ h => absurd h (Finset.notMem_empty _), fun _ h => absurd h (Finset.notMem_empty _)⟩

/-- The two lists of days are in order and split an interval: each of its days is in one of them. -/
structure Partition (start stop : Date) (holidays businessDays : List Date) : Prop where
  sorted_holidays : holidays.Pairwise (· < ·)
  sorted_businessDays : businessDays.Pairwise (· < ·)
  cover : ∀ d, (d ∈ holidays ∨ d ∈ businessDays) ↔ start ≤ d ∧ d ≤ stop
  disjoint : holidays.Disjoint businessDays

/-- **The holidays, weekends included, and the business days partition every interval.** -/
theorem lists_partition (cal : Calendar) (isWeekendOn : Date → Bool) {start : Date} (stop : Date)
    (h : start ≠ Date.null) : ∃ hs bs, cal.holidayList isWeekendOn start stop true = some hs ∧
      cal.businessDayList start stop = some bs ∧ Partition start stop hs bs ∧
      Lists cal.isHoliday start stop hs ∧ Lists cal.isBusinessDay start stop bs := by
  obtain ⟨hs, hhs, lh⟩ := listLoop_lists cal.isHoliday stop h
  obtain ⟨bs, hbs, lb⟩ := listLoop_lists cal.isBusinessDay stop h
  have htrue : (fun d => cal.isHoliday d && (true || !isWeekendOn d)) = cal.isHoliday :=
    funext (fun d => by rw [Bool.true_or, Bool.and_true])
  refine ⟨hs, bs, by rw [holidayList, htrue, hhs], hbs, ⟨lh.sorted, lb.sorted, fun d => ?_, fun d hd hd' => ?_⟩, lh, lb⟩
  · rw [lh.mem_iff, lb.mem_iff, ← and_or_left, and_iff_left]
    rw [isHoliday, Bool.not_eq_true']
    exact (Bool.eq_false_or_eq_true _).symm
  · have hh := ((lh.mem_iff d).mp hd).2
    rw [isHoliday, ((lb.mem_iff d).mp hd').2] at hh
    exact absurd hh Bool.false_ne_true

end Calendar

namespace Holidays

inductive Override where
  | addHoliday (d : Date)
  | removeHoliday (d : Date)
  | reset
deriving DecidableEq

/-- A `Calendar` value of the source, with the places of its sets of overrides. -/
structure CalendarRef where
  name : String
  natural : Date → Bool
  addedHolidays : ℕ
  removedHolidays : ℕ

/-- The sets of overrides that are shared, and the calendars that share them. -/
structure World where
  added : List (Finset Date)
  removed : List (Finset Date)
  calendars : List CalendarRef

inductive Act where
  | fromImpl (name : String) (natural : Date → Bool)
  | clone (c : ℕ)
  | apply (c : ℕ) (o : Override)

namespace World

def init : World := ⟨[], [], []⟩

def addHoliday (w : World) (r : CalendarRef) (d : Date) : World :=
  { w with
    removed := w.removed.modify r.removedHolidays (fun s => s.erase d)
    added := if r.natural d then w.added.modify r.addedHolidays (insert d) else w.added }

def removeHoliday (w : World) (r : CalendarRef) (d : Date) : World :=
  { w with
    added := w.added.modify r.addedHolidays (fun s => s.erase d)
    removed := if r.natural d then w.removed else w.removed.modify r.removedHolidays (insert d) }

def resetAddedAndRemovedHolidays (w : World) (r : CalendarRef) : World :=
  { w with
    added := w.added.modify r.addedHolidays (fun _ => ∅)
    removed := w.removed.modify r.removedHolidays (fun _ => ∅) }

def apply (w : World) (r : CalendarRef) : Override → World
  | .addHoliday d    => w.addHoliday r d
  | .removeHoliday d => w.removeHoliday r d
  | .reset           => w.resetAddedAndRemovedHolidays r

/-- A step; a calendar that does not exist cannot be cloned or changed. -/
def step (w : World) : Act → Option World
  | .fromImpl name natural => some ⟨w.added ++ [∅], w.removed ++ [∅],
      w.calendars ++ [⟨name, natural, w.added.length, w.removed.length⟩]⟩
  | .clone c               => w.calendars[c]?.map (fun r => { w with calendars := w.calendars ++ [r] })
  | .apply c o             => w.calendars[c]?.map (fun r => w.apply r o)

def read (w : World) (r : CalendarRef) : Calendar :=
  ⟨r.name, r.natural, w.added.getD r.addedHolidays ∅, w.removed.getD r.removedHolidays ∅⟩

def calendar (w : World) (c : ℕ) : Option Calendar := w.calendars[c]?.map w.read

end World

/-! ## The ledger -/

def Override.on (cal : Calendar) : Override → Calendar
  | .addHoliday d    => cal.addHoliday d
  | .removeHoliday d => cal.removeHoliday d
  | .reset           => cal.resetAddedAndRemovedHolidays

/-- A calendar with its clones, and every operation through one of them, the first one first. -/
structure Family where
  name : String
  natural : Date → Bool
  history : List Override

namespace Family

def calendar (f : Family) : Calendar := f.history.foldl Override.on (.fromImpl f.name f.natural)

def record (f : Family) (o : Override) : Family := { f with history := f.history ++ [o] }

def ref (f : Family) (i : ℕ) : CalendarRef := ⟨f.name, f.natural, i, i⟩

end Family

/-- The operations recorded, and the family of each calendar. -/
structure Ledger where
  families : List Family
  calendars : List ℕ

namespace Ledger

def init : Ledger := ⟨[], []⟩

def step (l : Ledger) : Act → Option Ledger
  | .fromImpl name natural => some ⟨l.families ++ [⟨name, natural, []⟩], l.calendars ++ [l.families.length]⟩
  | .clone c               => l.calendars[c]?.map (fun i => { l with calendars := l.calendars ++ [i] })
  | .apply c o             => l.calendars[c]?.map (fun i => { l with families := l.families.modify i (·.record o) })

def family (l : Ledger) (c : ℕ) : Option Family := l.calendars[c]?.bind (fun i => l.families[i]?)

end Ledger

/-- The last operation on the date, once one more is done. -/
def Override.after (d : Date) (last : Option Override) : Override → Option Override
  | .addHoliday x    => if x = d then some (.addHoliday x) else last
  | .removeHoliday x => if x = d then some (.removeHoliday x) else last
  | .reset           => none

/-- The last operation on the date since the last reset. -/
def lastOn (d : Date) (history : List Override) : Option Override := history.foldl (Override.after d) none

/-! ## The world of a ledger -/

section

variable {w w' : World} {l l' : Ledger} {r : CalendarRef} {o : Override} {f : Family} {c i : ℕ} {d : Date}

theorem on_natural (cal : Calendar) (o : Override) : (o.on cal).natural = cal.natural := by cases o <;> rfl

theorem on_name (cal : Calendar) (o : Override) : (o.on cal).name = cal.name := by cases o <;> rfl

theorem foldl_on_natural : ∀ (history : List Override) (cal : Calendar),
    (history.foldl Override.on cal).natural = cal.natural
  | [], _             => rfl
  | o :: history, cal => by rw [List.foldl_cons, foldl_on_natural history, on_natural]

theorem foldl_on_name : ∀ (history : List Override) (cal : Calendar),
    (history.foldl Override.on cal).name = cal.name
  | [], _             => rfl
  | o :: history, cal => by rw [List.foldl_cons, foldl_on_name history, on_name]

theorem calendar_natural (f : Family) : f.calendar.natural = f.natural := foldl_on_natural f.history _

theorem calendar_name (f : Family) : f.calendar.name = f.name := foldl_on_name f.history _

theorem calendar_record (f : Family) (o : Override) : (f.record o).calendar = o.on f.calendar := by
  rw [Family.calendar, Family.record, List.foldl_append]
  rfl

theorem apply_added (w : World) (r : CalendarRef) (o : Override) : (w.apply r o).added =
    w.added.modify r.addedHolidays (fun s => (o.on ⟨r.name, r.natural, s, ∅⟩).addedHolidays) := by
  cases o with
  | addHoliday d =>
    simp only [World.apply, World.addHoliday, Override.on, Calendar.addHoliday]
    split
    · rfl
    · exact (List.modify_id _ _).symm
  | removeHoliday d => rfl
  | reset => rfl

theorem apply_removed (w : World) (r : CalendarRef) (o : Override) : (w.apply r o).removed =
    w.removed.modify r.removedHolidays (fun s => (o.on ⟨r.name, r.natural, ∅, s⟩).removedHolidays) := by
  cases o with
  | addHoliday d => rfl
  | removeHoliday d =>
    simp only [World.apply, World.removeHoliday, Override.on, Calendar.removeHoliday]
    split
    · exact (List.modify_id _ _).symm
    · rfl
  | reset => rfl

theorem apply_calendars (w : World) (r : CalendarRef) (o : Override) : (w.apply r o).calendars = w.calendars := by
  cases o <;> rfl

theorem map_modify {α β : Type} {g : α → β} {h : α → α} {k : β → β} {xs : List α} {x : α} (hx : xs[i]? = some x)
    (hg : g (h x) = k (g x)) : (xs.modify i h).map g = (xs.map g).modify i k := by
  refine List.ext_getElem? (fun j => ?_)
  rw [List.getElem?_map, List.getElem?_modify, List.getElem?_modify, List.getElem?_map]
  by_cases hj : i = j
  · subst hj
    simp [hx, hg]
  · simp [hj]

/-- The world that the families of the ledger replay to. -/
structure Represents (w : World) (l : Ledger) : Prop where
  added : w.added = l.families.map (fun f => f.calendar.addedHolidays)
  removed : w.removed = l.families.map (fun f => f.calendar.removedHolidays)
  calendars : w.calendars.map some = l.calendars.map (fun i => l.families[i]?.map (fun f => f.ref i))

theorem Represents.init : Represents World.init Ledger.init := ⟨rfl, rfl, rfl⟩

theorem Represents.ref (h : Represents w l) (hr : w.calendars[c]? = some r) :
    ∃ i f, l.calendars[c]? = some i ∧ l.families[i]? = some f ∧ r = f.ref i := by
  have hc := congrArg (fun rs => rs[c]?) h.calendars
  rw [List.getElem?_map, List.getElem?_map, hr, Option.map_some] at hc
  obtain ⟨i, hi, hf⟩ := Option.map_eq_some_iff.mp hc.symm
  obtain ⟨f, hf, he⟩ := Option.map_eq_some_iff.mp hf
  exact ⟨i, f, hi, hf, he.symm⟩

theorem Represents.calendar {cal : Calendar} (h : Represents w l) (hc : w.calendar c = some cal) :
    ∃ f, l.family c = some f ∧ cal = f.calendar := by
  obtain ⟨r, hr, rfl⟩ := Option.map_eq_some_iff.mp hc
  obtain ⟨i, f, hi, hf, rfl⟩ := h.ref hr
  refine ⟨f, by rw [Ledger.family, hi, Option.bind_some, hf], ?_⟩
  rw [World.read, Family.ref, h.added, h.removed, List.getD_eq_getElem?_getD, List.getD_eq_getElem?_getD,
    List.getElem?_map, List.getElem?_map, hf, Option.map_some, Option.map_some, Option.getD_some, Option.getD_some,
    ← calendar_natural f, ← calendar_name f]

theorem Represents.step {a : Act} (h : Represents w l) (hs : w.step a = some w') :
    ∃ l', l.step a = some l' ∧ Represents w' l' := by
  cases a with
  | fromImpl name natural =>
    obtain rfl := Option.some.inj hs
    refine ⟨_, rfl, ?_, ?_, ?_⟩
    · rw [h.added, List.map_append]
      rfl
    · rw [h.removed, List.map_append]
      rfl
    · have hlen : w.added.length = l.families.length := by rw [h.added, List.length_map]
      have hlen' : w.removed.length = l.families.length := by rw [h.removed, List.length_map]
      rw [List.map_append, List.map_append, h.calendars]
      congr 1
      · refine List.map_congr_left (fun i hi => ?_)
        -- the families of the calendars so far exist, so the new one is after them
        have hm := List.mem_map_of_mem (f := fun i => l.families[i]?.map (fun f => f.ref i)) hi
        rw [← h.calendars] at hm
        obtain ⟨r, -, hr⟩ := List.mem_map.mp hm
        obtain ⟨f, hf, -⟩ := Option.map_eq_some_iff.mp hr.symm
        rw [List.getElem?_append_left (List.getElem?_eq_some_iff.mp hf).1]
      · simp [Family.ref, hlen, hlen']
  | clone c =>
    obtain ⟨r, hr, rfl⟩ := Option.map_eq_some_iff.mp hs
    obtain ⟨i, f, hi, hf, rfl⟩ := h.ref hr
    refine ⟨{ l with calendars := l.calendars ++ [i] }, by rw [Ledger.step, hi]; rfl, h.added, h.removed, ?_⟩
    rw [List.map_append, List.map_append, h.calendars, List.map_singleton, List.map_singleton, hf]
    rfl
  | apply c o =>
    obtain ⟨r, hr, rfl⟩ := Option.map_eq_some_iff.mp hs
    obtain ⟨i, f, hi, hf, rfl⟩ := h.ref hr
    refine ⟨{ l with families := l.families.modify i (·.record o) }, by rw [Ledger.step, hi]; rfl, ?_, ?_, ?_⟩
    · rw [apply_added, h.added]
      refine (map_modify hf ?_).symm
      rw [calendar_record, Family.ref, ← calendar_natural]
      cases o <;> rfl
    · rw [apply_removed, h.removed]
      refine (map_modify hf ?_).symm
      rw [calendar_record, Family.ref, ← calendar_natural]
      cases o <;> rfl
    · rw [apply_calendars, h.calendars]
      refine List.map_congr_left (fun j _ => ?_)
      rw [List.getElem?_modify]
      cases l.families[j]? with
      | none => rfl
      | some g =>
        split
        · rfl
        · rfl

/-- **The world of every run is the one its ledger replays to.** -/
theorem run_represents (acts : List Act) (h : run World.step World.init acts = some w) :
    ∃ l, run Ledger.step Ledger.init acts = some l ∧ Represents w l :=
  run_simulation Ledger.step Represents (fun _ _ _ _ hr hs => hr.step hs) acts _ w _ Represents.init h

/-! ## The last operation -/

/-- Whether a date is a holiday after the last operation on it. -/
def holidayAfter (natural : Date → Bool) (d : Date) : Option Override → Bool
  | some (.addHoliday _)    => true
  | some (.removeHoliday _) => false
  | _                       => !natural d

theorem foldl_on_isHoliday (d : Date) : ∀ (history : List Override) (cal : Calendar) (last : Option Override),
    cal.isHoliday d = holidayAfter cal.natural d last →
    (history.foldl Override.on cal).isHoliday d =
      holidayAfter cal.natural d (history.foldl (Override.after d) last)
  | [], _, _, h                => h
  | o :: history, cal, last, h => by
    rw [List.foldl_cons, List.foldl_cons, ← on_natural cal o]
    apply foldl_on_isHoliday d history _ _
    rw [on_natural]
    cases o with
    | addHoliday x =>
      rw [Override.on, Override.after, Calendar.isHoliday, Calendar.isBusinessDay_addHoliday]
      by_cases hx : x = d
      · rw [if_pos hx.symm, if_pos hx]
        rfl
      · rw [if_neg (Ne.symm hx), if_neg hx]
        exact h
    | removeHoliday x =>
      rw [Override.on, Override.after, Calendar.isHoliday, Calendar.isBusinessDay_removeHoliday]
      by_cases hx : x = d
      · rw [if_pos hx.symm, if_pos hx]
        rfl
      · rw [if_neg (Ne.symm hx), if_neg hx]
        exact h
    | reset => rfl

/-- The last operation on a date is an addition or a removal of it. -/
theorem lastOn_cases (d : Date) (history : List Override) : lastOn d history = none ∨
    lastOn d history = some (.addHoliday d) ∨ lastOn d history = some (.removeHoliday d) := by
  refine List.foldlRecOn (motive := fun last : Option Override => last = none ∨ last = some (.addHoliday d) ∨
    last = some (.removeHoliday d)) history _ (.inl rfl) (fun last h o _ => ?_)
  cases o with
  | addHoliday x =>
    by_cases hx : x = d
    · exact .inr (.inl (by rw [Override.after, if_pos hx, hx]))
    · rwa [Override.after, if_neg hx]
  | removeHoliday x =>
    by_cases hx : x = d
    · exact .inr (.inr (by rw [Override.after, if_pos hx, hx]))
    · rwa [Override.after, if_neg hx]
  | reset => exact .inl rfl

/-- **The last operation on a date since the last reset decides**, and the natural schedule when there is none. -/
theorem isHoliday_calendar (f : Family) (d : Date) : f.calendar.isHoliday d = true ↔
    lastOn d f.history = some (.addHoliday d) ∨ (lastOn d f.history = none ∧ f.natural d = false) := by
  have h : f.calendar.isHoliday d = holidayAfter f.natural d (lastOn d f.history) :=
    foldl_on_isHoliday d f.history (.fromImpl f.name f.natural) none (by
      simp [Calendar.isHoliday, Calendar.isBusinessDay, Calendar.fromImpl, holidayAfter])
  rw [h]
  rcases lastOn_cases d f.history with hl | hl | hl <;> simp [hl, holidayAfter]

theorem foldl_on_overridden : ∀ (history : List Override) (cal : Calendar), cal.Overridden →
    (history.foldl Override.on cal).Overridden
  | [], _, h             => h
  | o :: history, cal, h => by
    apply foldl_on_overridden history _
    cases o with
    | addHoliday d => exact h.addHoliday d
    | removeHoliday d => exact h.removeHoliday d
    | reset => exact Calendar.overridden_reset cal

theorem calendar_overridden (f : Family) : f.calendar.Overridden :=
  foldl_on_overridden f.history _ (Calendar.overridden_fromImpl f.name f.natural)

/-- **Overriding holidays through clones, over every run**: in the calendars of the world it leads to, the last
operation on a date decides whether it is a holiday, the overrides say nothing that the natural schedule says, and the
holidays and the business days partition every interval. -/
theorem overrides_run (acts : List Act) (h : run World.step World.init acts = some w) :
    ∃ l, run Ledger.step Ledger.init acts = some l ∧ ∀ c cal, w.calendar c = some cal →
      ∃ f, l.family c = some f ∧ cal.natural = f.natural ∧
        (∀ d, cal.isHoliday d = true ↔
          lastOn d f.history = some (.addHoliday d) ∨ (lastOn d f.history = none ∧ f.natural d = false)) ∧
        (∀ d ∈ cal.addedHolidays, f.natural d = true) ∧ (∀ d ∈ cal.removedHolidays, f.natural d = false) ∧
        Disjoint cal.addedHolidays cal.removedHolidays ∧
        ∀ (isWeekendOn : Date → Bool) (start stop : Date), start ≠ Date.null →
          ∃ hs bs, cal.holidayList isWeekendOn start stop true = some hs ∧
            cal.businessDayList start stop = some bs ∧ Calendar.Partition start stop hs bs ∧
            ∀ d, d ∈ hs ↔ (start ≤ d ∧ d ≤ stop) ∧ cal.isHoliday d = true := by
  obtain ⟨l, hl, hr⟩ := run_represents acts h
  refine ⟨l, hl, fun c cal hc => ?_⟩
  obtain ⟨f, hf, rfl⟩ := hr.calendar hc
  have ho := calendar_overridden f
  refine ⟨f, hf, calendar_natural f, isHoliday_calendar f, calendar_natural f ▸ ho.added,
    calendar_natural f ▸ ho.removed, ho.disjoint, fun isWeekendOn start stop hs => ?_⟩
  obtain ⟨hs, bs, hhs, hbs, hp, lh, -⟩ := f.calendar.lists_partition isWeekendOn stop hs
  exact ⟨hs, bs, hhs, hbs, hp, lh.mem_iff⟩

/-- A Monday is added through a clone and removed again through the original. -/
theorem overrides_run_clone : ∃ w cal, run World.step World.init
    [.fromImpl "weekends only" Calendar.weekendsOnly.natural, .clone 0, .apply 1 (.addHoliday ⟨43283, by decide⟩),
      .apply 0 (.removeHoliday ⟨43283, by decide⟩)] = some w ∧ w.calendar 1 = some cal ∧
    cal.isHoliday ⟨43283, by decide⟩ = false ∧ Disjoint cal.addedHolidays cal.removedHolidays := by
  refine ⟨_, _, rfl, rfl, by decide +kernel, ?_⟩
  obtain ⟨l, -, h⟩ := overrides_run
    [.fromImpl "weekends only" Calendar.weekendsOnly.natural, .clone 0, .apply 1 (.addHoliday ⟨43283, by decide⟩),
      .apply 0 (.removeHoliday ⟨43283, by decide⟩)] rfl
  obtain ⟨f, -, -, -, -, -, hd, -⟩ := h 1 _ rfl
  exact hd

end

end Holidays
end Itofin
