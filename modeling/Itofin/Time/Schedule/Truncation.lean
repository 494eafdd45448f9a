import Mathlib.Data.List.DropRight
import Itofin.Lib.Machine
import Itofin.Time.Schedule.Coverage
/-!
# Truncation — schedules cut at a date

The other constructors of a schedule, its regularity flags, and `after` and `until`, which drop dates and flags at one
end and put the truncation date there.  The flag of that date is inserted whether or not there are flags: a schedule
without any gets one flag, which is one for every period only when the truncation leaves one date (`flagged_step`).
-/
namespace Itofin.Schedule

/-! ## Constructors and flags -/

/-- `with_metadata`: the number of flags is checked. -/
def withMetadata (dates : List Date) (calendar : Calendar) (convention : BusinessDayConvention)
    (terminationDateConvention : Option BusinessDayConvention) (tenor : Option Period) (rule : Option DateGeneration)
    (endOfMonth : Option Bool) (isRegular : List Bool) : Option Schedule :=
  let endOfMonth := match tenor with
    | some t => if t.allowsEndOfMonth then endOfMonth else some false
    | none   => endOfMonth
  if isRegular = [] ∨ isRegular.length = dates.length - 1 then
    some {
      tenor, calendar, convention, terminationDateConvention, rule, endOfMonth
      firstDate := Date.null
      nextToLastDate := Date.null
      dates, isRegular }
  else none

def fromDates (dates : List Date) : Option Schedule :=
  withMetadata dates Calendar.nullCalendar .unadjusted none none none none []

def hasIsRegular (s : Schedule) : Bool := !s.isRegular.isEmpty

/-- `is_regular_at`, which counts periods from one. -/
def isRegularAt (s : Schedule) (i : ℕ) : Option Bool :=
  if s.isRegular = [] then none
  else if 1 ≤ i ∧ i ≤ s.isRegular.length then s.isRegular[i - 1]? else none

/-! ## Truncating -/

/-- The search of `partition_point`: halves the range from `base` on. -/
def partitionLoop (pred : ℕ → Bool) : ℕ → ℕ → ℕ → ℕ
  | 0, _, base           => base
  | fuel + 1, size, base =>
    if 1 < size then
      let half := size / 2
      let mid := base + half
      partitionLoop pred fuel (size - half) (if pred mid then mid else base)
    else base

/-- `partition_point` of a slice, whether or not the predicate partitions it. -/
def partitionPoint (pred : Date → Bool) (dates : List Date) : ℕ :=
  if dates = [] then 0
  else
    let holds := fun i => pred (dates.getD i Date.null)
    let base := partitionLoop holds dates.length dates.length 0
    if holds base then base + 1 else base

def lowerBound (s : Schedule) (refDate : Date) : Option ℕ :=
  if refDate = Date.null then none else some (partitionPoint (fun d => d < refDate) s.dates)

/-- `while dates.last() > truncation_date { dates.pop(); is_regular.pop(); }` -/
def popLoop (truncationDate : Date) : ℕ → List Date → List Bool → Option (List Date × List Bool)
  | 0, _, _                    => none
  | fuel + 1, dates, isRegular =>
    match dates.getLast? with
    | none   => none
    | some d =>
      if truncationDate < d then popLoop truncationDate fuel dates.dropLast isRegular.dropLast
      else some (dates, isRegular)

def after (s : Schedule) (truncationDate : Date) : Option Schedule := do
  let first ← s.dates.head?
  let last ← s.dates.getLast?
  if truncationDate < last then
    if first < truncationDate then
      let cut ← s.lowerBound truncationDate
      let dates := s.dates.drop cut
      let isRegular := s.isRegular.drop (min cut s.isRegular.length)
      let head ← dates.head?
      let inserted := decide (truncationDate ≠ head)
      some { s with
        dates := if inserted then truncationDate :: dates else dates
        isRegular := if inserted then false :: isRegular else isRegular
        terminationDateConvention := some (if inserted then .unadjusted else s.convention)
        nextToLastDate := if s.nextToLastDate ≤ truncationDate then Date.null else s.nextToLastDate
        firstDate := if s.firstDate ≤ truncationDate then Date.null else s.firstDate }
    else some s
  else none

def «until» (s : Schedule) (truncationDate : Date) : Option Schedule := do
  let first ← s.dates.head?
  let last ← s.dates.getLast?
  if first < truncationDate then
    if truncationDate < last then
      let (dates, isRegular) ← popLoop truncationDate s.dates.length s.dates s.isRegular
      let last ← dates.getLast?
      let pushed := decide (truncationDate ≠ last)
      some { s with
        dates := if pushed then dates ++ [truncationDate] else dates
        isRegular := if pushed then isRegular ++ [false] else isRegular
        terminationDateConvention := some (if pushed then .unadjusted else s.convention)
        nextToLastDate := if truncationDate ≤ s.nextToLastDate then Date.null else s.nextToLastDate
        firstDate := if truncationDate ≤ s.firstDate then Date.null else s.firstDate }
    else some s
  else none

/-! ## Truncations of a schedule -/

inductive Truncation where
  | after (truncationDate : Date)
  | «until» (truncationDate : Date)

def truncate (s : Schedule) : Truncation → Option Schedule
  | .after t => s.after t
  | .«until» t => s.«until» t

/-- The schedules the constructors build. -/
inductive Constructed : Schedule → Prop
  | new {args s} (h : Schedule.new args = some s) : Constructed s
  | fromDates {dates s} (h : fromDates dates = some s) : Constructed s
  | withMetadata {dates cal c tc tenor rule eom isRegular s}
      (h : withMetadata dates cal c tc tenor rule eom isRegular = some s) : Constructed s

/-- There are no flags, or one for every period, and then they are read at the periods exactly. -/
def Flagged (s : Schedule) : Prop :=
  (s.isRegular = [] ∨ s.isRegular.length + 1 = s.dates.length) ∧
    (s.hasIsRegular = true → ∀ i, (s.isRegularAt i).isSome = true ↔ 1 ≤ i ∧ i ≤ s.dates.length - 1)

/-- The dates that a truncation leaves of the schedule. -/
def kept (s : Schedule) : Truncation → List Date
  | .after t => s.dates.drop (partitionPoint (fun d => d < t) s.dates)
  | .«until» t => s.dates.rdropWhile (fun d => t < d)

/-- The date is inserted: it lies inside the schedule and is not the date next to the cut. -/
def Inserts (s : Schedule) : Truncation → Prop
  | .after t => (∃ first, s.dates.head? = some first ∧ first < t) ∧ (s.kept (.after t)).head? ≠ some t
  | .«until» t => (∃ last, s.dates.getLast? = some last ∧ t < last) ∧ (s.kept (.«until» t)).getLast? ≠ some t

/-- A schedule without flags gets the truncation date only beside one other. -/
def Fits (s : Schedule) (act : Truncation) : Prop := s.isRegular = [] → s.Inserts act → (s.kept act).length = 1

variable {s s' : Schedule} {t : Date} {act : Truncation}

theorem flagged_iff : s.Flagged ↔ s.isRegular = [] ∨ s.isRegular.length + 1 = s.dates.length := by
  refine ⟨And.left, fun h => ⟨h, fun hr i => ?_⟩⟩
  have hne : s.isRegular ≠ [] := fun he => by rw [hasIsRegular, he] at hr; exact absurd hr (by decide)
  have hlen := h.resolve_left hne
  rw [isRegularAt, if_neg hne]
  split
  · rename_i hi
    rw [List.getElem?_eq_getElem (by omega)]
    exact ⟨fun _ => by omega, fun _ => rfl⟩
  · rename_i hi
    exact ⟨fun h => absurd h (by decide), fun h => absurd (by omega) hi⟩

theorem withMetadata_flagged {dates cal c tc tenor rule eom isRegular}
    (h : withMetadata dates cal c tc tenor rule eom isRegular = some s) : s.Flagged := by
  rw [flagged_iff]
  unfold withMetadata at h
  simp only at h
  split at h
  · rename_i hc
    rw [← Option.some.inj h]
    rcases hc with hc | hc
    · exact .inl hc
    · cases dates with
      | nil       => exact .inl (List.eq_nil_of_length_eq_zero hc)
      | cons d ds => exact .inr (by simp only [hc, List.length_cons, Nat.add_sub_cancel])
  · exact absurd h.symm (Option.some_ne_none s)

theorem Constructed.flagged (h : Constructed s) : s.Flagged := by
  cases h with
  | new h          => exact flagged_iff.mpr (.inr (new_inStep h))
  | fromDates h    => exact withMetadata_flagged h
  | withMetadata h => exact withMetadata_flagged h

/-! ## What a truncation leaves -/

theorem popLoop_eq : ∀ (fuel : ℕ) {dates ds : List Date} {flags fs : List Bool},
    popLoop t fuel dates flags = some (ds, fs) →
    ds = dates.rdropWhile (fun d => t < d) ∧ fs.length = flags.length - (dates.length - ds.length) ∧
      ds.length ≤ dates.length
  | 0, _, _, _, _, h                => absurd h.symm (Option.some_ne_none _)
  | fuel + 1, dates, ds, flags, fs, h => by
    rcases List.eq_nil_or_concat dates with rfl | ⟨l, d, rfl⟩
    · exact absurd h.symm (Option.some_ne_none _)
    rw [List.concat_eq_append] at h ⊢
    rw [popLoop, List.getLast?_concat] at h
    simp only [List.dropLast_concat] at h
    by_cases hd : t < d
    · rw [if_pos hd] at h
      obtain ⟨h₁, h₂, h₃⟩ := popLoop_eq fuel h
      rw [List.rdropWhile_concat_pos (p := fun d => decide (t < d)) _ _ (decide_eq_true hd)]
      rw [List.length_dropLast] at h₂
      simp only [List.length_append, List.length_singleton]
      exact ⟨h₁, by omega, by omega⟩
    · rw [if_neg hd] at h
      obtain ⟨rfl, rfl⟩ := Prod.mk.inj (Option.some.inj h)
      rw [List.rdropWhile_concat_neg (p := fun d => decide (t < d)) _ _ (by simpa using hd)]
      exact ⟨rfl, by omega, le_rfl⟩

theorem length_ite_cons {α : Type} (inserted : Bool) (x : α) (l : List α) :
    (if inserted then x :: l else l).length = l.length + inserted.toNat := by
  cases inserted <;> rfl

theorem length_ite_concat {α : Type} (inserted : Bool) (x : α) (l : List α) :
    (if inserted then l ++ [x] else l).length = l.length + inserted.toNat := by
  cases inserted <;> simp

/-- **What a truncation does**: it leaves the schedule as it is, or it keeps dates, with as many flags fewer as dates,
and inserts its date with a flag when it is not the date at the cut. -/
theorem truncate_eq_some (h : s.truncate act = some s') :
    (s' = s ∧ ¬ s.Inserts act) ∨
    (∃ inserted : Bool, (inserted = true ↔ s.Inserts act) ∧ s.kept act ≠ [] ∧
      (s.kept act).length ≤ s.dates.length ∧ s'.dates.length = (s.kept act).length + inserted.toNat ∧
      s'.isRegular.length = s.isRegular.length - (s.dates.length - (s.kept act).length) + inserted.toNat) := by
  cases act with
  | after t =>
    obtain ⟨first, hfirst, h⟩ := Option.bind_eq_some_iff.mp h
    obtain ⟨last, hlast, h⟩ := Option.bind_eq_some_iff.mp h
    split at h
    · by_cases hf : first < t
      · rw [if_pos hf] at h
        obtain ⟨cut, hcut, h⟩ := Option.bind_eq_some_iff.mp h
        obtain ⟨head, hhead, h⟩ := Option.bind_eq_some_iff.mp h
        obtain rfl := Option.some.inj h
        have hk : s.kept (.after t) = s.dates.drop cut := by
          unfold lowerBound at hcut
          split at hcut
          · exact absurd hcut.symm (Option.some_ne_none _)
          · rw [kept, Option.some.inj hcut]
        have hne : s.dates.drop cut ≠ [] := by rintro he; rw [he] at hhead; cases hhead
        have hlen : cut < s.dates.length := by
          by_contra hle
          exact hne (List.drop_eq_nil_of_le (not_lt.mp hle))
        refine .inr ⟨decide (t ≠ head), ?_, hk ▸ hne, by rw [hk]; simp, ?_, ?_⟩
        · rw [decide_eq_true_eq, Inserts, hk, hhead]
          exact ⟨fun hne => ⟨⟨first, hfirst, hf⟩, fun he => hne (Option.some.inj he).symm⟩,
            fun hi he => hi.2 (congrArg some he.symm)⟩
        · rw [length_ite_cons, hk]
        · rw [length_ite_cons, hk, List.length_drop, List.length_drop]
          omega
      · rw [if_neg hf] at h
        refine .inl ⟨(Option.some.inj h).symm, ?_⟩
        rintro ⟨⟨x, hx, hlt⟩, -⟩
        rw [hfirst, Option.some.injEq] at hx
        exact hf (hx ▸ hlt)
    · exact absurd h.symm (Option.some_ne_none _)
  | «until» t =>
    obtain ⟨first, hfirst, h⟩ := Option.bind_eq_some_iff.mp h
    obtain ⟨last, hlast, h⟩ := Option.bind_eq_some_iff.mp h
    split at h
    · by_cases hl : t < last
      · rw [if_pos hl] at h
        obtain ⟨⟨ds, fs⟩, hpop, h⟩ := Option.bind_eq_some_iff.mp h
        obtain ⟨head, hhead, h⟩ := Option.bind_eq_some_iff.mp h
        obtain rfl := Option.some.inj h
        obtain ⟨hk, hfs, hle⟩ := popLoop_eq _ hpop
        have hk : s.kept (.«until» t) = ds := hk.symm
        have hne : ds ≠ [] := by rintro rfl; cases hhead
        refine .inr ⟨decide (t ≠ head), ?_, hk ▸ hne, by rw [hk]; exact hle, ?_, ?_⟩
        · rw [decide_eq_true_eq, Inserts, hk, hhead]
          exact ⟨fun hne => ⟨⟨last, hlast, hl⟩, fun he => hne (Option.some.inj he).symm⟩,
            fun hi he => hi.2 (congrArg some he.symm)⟩
        · rw [length_ite_concat, hk]
        · rw [length_ite_concat, hk, hfs]
      · rw [if_neg hl] at h
        refine .inl ⟨(Option.some.inj h).symm, ?_⟩
        rintro ⟨⟨x, hx, hlt⟩, -⟩
        rw [hlast, Option.some.injEq] at hx
        exact hl (hx ▸ hlt)
    · exact absurd h.symm (Option.some_ne_none _)

/-- **A truncation keeps the flags in step exactly when it fits.** -/
theorem flagged_step (hs : s.Flagged) (h : s.truncate act = some s') : s'.Flagged ↔ s.Fits act := by
  rw [flagged_iff] at hs ⊢
  rcases truncate_eq_some h with ⟨rfl, hi⟩ | ⟨inserted, hi, hne, hle, hd, hf⟩
  · exact ⟨fun _ _ hins => absurd hins hi, fun _ => hs⟩
  have hk : 0 < (s.kept act).length := List.length_pos_of_ne_nil hne
  rw [← List.length_eq_zero_iff] at hs ⊢
  unfold Fits
  rw [← List.length_eq_zero_iff, ← hi]
  cases inserted with
  | false =>
    rw [Bool.toNat_false] at hd hf
    exact ⟨fun _ _ h => absurd h (by decide), fun _ => by omega⟩
  | true  =>
    rw [Bool.toNat_true] at hd hf
    refine ⟨fun h h₀ _ => by omega, fun h => ?_⟩
    have h₁ : s.isRegular.length = 0 → (s.kept act).length = 1 := fun h₀ => h h₀ rfl
    omega

/-- **The flags over a run of truncations.**  A schedule that a constructor builds, and every schedule of a run of
truncations from it, has its flags in step exactly when every truncation of the run fits: the date inserted into a
schedule without flags is put beside one other. -/
theorem flagged_run (hs : Constructed s) {acts : List Truncation} (h : Machine.run truncate s acts = some s') :
    (∀ k w, Machine.run truncate s (acts.take k) = some w → w.Flagged) ↔ Machine.along truncate Fits s acts :=
  Machine.always_iff_along Flagged Fits (fun _ _ _ => flagged_step) acts s s' hs.flagged h

/-- The first days of four months, without flags. -/
def fourMonths : List Date := [⟨43101, by decide⟩, ⟨43132, by decide⟩, ⟨43160, by decide⟩, ⟨43191, by decide⟩]

/-- Cut in their last period they are two dates and one flag. -/
theorem flagged_run_fourMonths : ∃ s w, fromDates fourMonths = some s ∧
    Machine.run truncate s [.after ⟨43170, by decide⟩] = some w ∧ w.Flagged := by
  obtain ⟨s, hs, hlen, hrun⟩ : ∃ s, fromDates fourMonths = some s ∧
      (s.kept (.after ⟨43170, by decide⟩)).length = 1 ∧
      (Machine.run truncate s [.after ⟨43170, by decide⟩]).isSome = true :=
    ⟨_, rfl, by decide +kernel, by decide +kernel⟩
  obtain ⟨w, hw⟩ := Option.isSome_iff_exists.mp hrun
  refine ⟨s, w, hs, hw, (flagged_run (.fromDates hs) hw).mpr ⟨fun _ _ => hlen, ?_⟩ 1 w hw⟩
  split <;> trivial

/-- **Cut in their first period they are four dates and one flag**, and the second period has none. -/
theorem flagged_fourMonths : ∃ s w, fromDates fourMonths = some s ∧ s.after ⟨43110, by decide⟩ = some w ∧
    w.dates.length = 4 ∧ w.isRegular = [false] ∧ w.hasIsRegular = true ∧ w.isRegularAt 2 = none :=
  ⟨_, _, rfl, rfl, by decide +kernel, by decide +kernel, by decide +kernel, by decide +kernel⟩

end Itofin.Schedule
