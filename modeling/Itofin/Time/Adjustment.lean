import Mathlib.Tactic.Linarith
import Itofin.Time.Calendar
/-!
# Adjustment — what the business-day conventions give

`Searchable` is when the search of a convention stays in the range of the dates and finds a day, and
`adjust_returns_iff` says that `adjust` returns exactly then.  A day found is a business day and a business day is left
alone (`adjust_business`, `adjust_of_business`), whatever the calendar.

The modified conventions compare months without their years: a calendar closed for most of a year can send them to the
same-named month of another year (`LeavesYear`).  Apart from that each convention is one of the rolls of the library
(`adjust_rolls`), which makes it monotone and keeps it in its month or half month.
-/
namespace Itofin.Calendar

open Rolling

variable {cal : Calendar} {b d d' r r' : Date} {c : BusinessDayConvention}

/-! ## When the search returns -/

/-- The search of the convention stays in the supported range and a suitable business day exists: a business day on the
side searched, and one on the other side if the convention refuses the first.  `Nearest` searches both sides at once,
so the mirror image of its business day is in the range too. -/
def Searchable (cal : Calendar) (d : Date) : BusinessDayConvention → Prop
  | .unadjusted => True
  | .following  => ∃ b, cal.Business b ∧ d ≤ b
  | .preceding  => ∃ b, cal.Business b ∧ b ≤ d
  | .modifiedFollowing =>
    ∃ n, IsNext cal.Business d n ∧ (n.month ≠ d.month → ∃ b, cal.Business b ∧ b ≤ d)
  | .halfMonthModifiedFollowing =>
    ∃ n, IsNext cal.Business d n ∧ (LeavesHalfMonth d n → ∃ b, cal.Business b ∧ b ≤ d)
  | .modifiedPreceding =>
    ∃ n, IsPrev cal.Business d n ∧ (n.month ≠ d.month → ∃ b, cal.Business b ∧ d ≤ b)
  | .nearest =>
    ∃ b m, cal.Business b ∧ m ≠ Date.null ∧ b.serialNumber + m.serialNumber = 2 * d.serialNumber

theorem isNext_exists_iff : (∃ r, IsNext cal.Business d r) ↔ ∃ b, cal.Business b ∧ d ≤ b :=
  ⟨fun ⟨r, h⟩ => ⟨r, h.holds, h.le⟩, fun ⟨_, hb, hd⟩ => IsNext.exists_of_le hb hd⟩

theorem isPrev_exists_iff : (∃ r, IsPrev cal.Business d r) ↔ ∃ b, cal.Business b ∧ b ≤ d :=
  ⟨fun ⟨r, h⟩ => ⟨r, h.holds, h.le⟩, fun ⟨_, hb, hd⟩ => IsPrev.exists_of_le hb hd⟩

/-- A modified convention returns if its first search does, and its second when it needs one. -/
theorem modified_exists_iff {first second leaves : Date → Prop} :
    (∃ r, (first r ∧ ¬ leaves r) ∨ ((∃ n, first n ∧ leaves n) ∧ second r)) ↔
      ∃ n, first n ∧ (leaves n → ∃ r, second r) := by
  constructor
  · rintro ⟨r, ⟨h, hl⟩ | ⟨⟨n, h, -⟩, h₂⟩⟩
    · exact ⟨r, h, fun hl' => absurd hl' hl⟩
    · exact ⟨n, h, fun _ => ⟨r, h₂⟩⟩
  · rintro ⟨n, h, h₂⟩
    by_cases hl : leaves n
    · obtain ⟨r, hr⟩ := h₂ hl
      exact ⟨r, .inr ⟨⟨n, h, hl⟩, hr⟩⟩
    · exact ⟨n, .inl ⟨h, hl⟩⟩

theorem nearest_returns_iff (hd : d ≠ Date.null) (he : cal.isEmpty = false) :
    (∃ r, cal.adjust d .nearest = some r) ↔ cal.Searchable d .nearest := by
  rw [adjust_nearest hd he]
  constructor
  · rintro ⟨r, hr⟩
    obtain ⟨⟨r1, r2⟩, hp, -⟩ := Option.map_eq_some_iff.mp hr
    obtain ⟨n1, n2, hb, k, k1, k2, -⟩ := rollBoth_eq_some days d d hd hd hp
    rcases hb with hb | hb
    · exact ⟨r1, r2, hb, n2, by omega⟩
    · exact ⟨r2, r1, hb, n1, by omega⟩
  · rintro ⟨b, m, hb, hm, hs⟩
    have bd := Date.serial_bounds hd
    have bb := Date.serial_bounds hb.1
    have bm := Date.serial_bounds hm
    obtain ⟨p, hp⟩ : ∃ p, cal.rollBoth days d d = some p := by
      rcases le_total d b with hle | hle <;> rw [Date.le_iff] at hle
      · exact rollBoth_returns days (b.serialNumber - d.serialNumber).toNat d d (by unfold days; omega) hd hd hb.1 hm
          (by omega) (by omega) (.inl hb)
      · exact rollBoth_returns days (d.serialNumber - b.serialNumber).toNat d d (by unfold days; omega) hd hd hm hb.1
          (by omega) (by omega) (.inr hb)
    exact ⟨_, by rw [hp]; rfl⟩

/-- **`adjust` returns exactly when the search stays in the range and finds a business day.** -/
theorem adjust_returns_iff (hd : d ≠ Date.null) (he : c = .unadjusted ∨ cal.isEmpty = false) :
    (∃ r, cal.adjust d c = some r) ↔ cal.Searchable d c := by
  by_cases hc : c = .unadjusted
  · subst hc
    exact ⟨fun _ => trivial, fun _ => ⟨d, adjust_unadjusted hd⟩⟩
  replace he := he.resolve_left hc
  cases c with
  | unadjusted => exact absurd rfl hc
  | following =>
    rw [adjust_following hd he]
    simp only [rollForward_eq_some hd]
    exact isNext_exists_iff
  | preceding =>
    rw [adjust_preceding hd he]
    simp only [rollBackward_eq_some hd]
    exact isPrev_exists_iff
  | modifiedFollowing =>
    simp only [adjust_modifiedFollowing hd he, Searchable, ← isPrev_exists_iff]
    exact modified_exists_iff
  | halfMonthModifiedFollowing =>
    simp only [adjust_halfMonth hd he, Searchable, ← isPrev_exists_iff]
    exact modified_exists_iff
  | modifiedPreceding =>
    simp only [adjust_modifiedPreceding hd he, Searchable, ← isNext_exists_iff]
    exact modified_exists_iff
  | nearest => exact nearest_returns_iff hd he

/-! ## Business days found and left alone -/

/-- **The day found is a business day**, except that `Unadjusted` finds none. -/
theorem adjust_business (hd : d ≠ Date.null) (he : cal.isEmpty = false) (hc : c ≠ .unadjusted)
    (h : cal.adjust d c = some r) : cal.Business r := by
  cases c with
  | unadjusted => exact absurd rfl hc
  | following =>
    rw [adjust_following hd he, rollForward_eq_some hd] at h
    exact h.holds
  | preceding =>
    rw [adjust_preceding hd he, rollBackward_eq_some hd] at h
    exact h.holds
  | modifiedFollowing =>
    rcases (adjust_modifiedFollowing hd he).mp h with ⟨h, -⟩ | ⟨-, h⟩
    · exact h.holds
    · exact h.holds
  | halfMonthModifiedFollowing =>
    rcases (adjust_halfMonth hd he).mp h with ⟨h, -⟩ | ⟨-, h⟩
    · exact h.holds
    · exact h.holds
  | modifiedPreceding =>
    rcases (adjust_modifiedPreceding hd he).mp h with ⟨h, -⟩ | ⟨-, h⟩
    · exact h.holds
    · exact h.holds
  | nearest =>
    rw [adjust_nearest hd he] at h
    obtain ⟨⟨r1, r2⟩, hp, rfl⟩ := Option.map_eq_some_iff.mp h
    obtain ⟨n1, n2, hb, -⟩ := rollBoth_eq_some days d d hd hd hp
    by_cases hh : cal.isHoliday r1 = true
    · rw [if_pos hh]
      exact hb.resolve_left ((isHoliday_iff n1).mp hh)
    · rw [if_neg hh]
      exact not_not.mp (fun hn => hh ((isHoliday_iff n1).mpr hn))

/-- **A business day is left alone** by every convention. -/
theorem adjust_of_business (he : cal.isEmpty = false) (h : cal.Business d) : cal.adjust d c = some d := by
  have hd := h.1
  cases c with
  | unadjusted => exact adjust_unadjusted hd
  | following =>
    rw [adjust_following hd he, rollForward_eq_some hd]
    exact IsNext.self h
  | preceding =>
    rw [adjust_preceding hd he, rollBackward_eq_some hd]
    exact IsPrev.self h
  | modifiedFollowing => exact (adjust_modifiedFollowing hd he).mpr (.inl ⟨IsNext.self h, not_not.mpr rfl⟩)
  | halfMonthModifiedFollowing =>
    refine (adjust_halfMonth hd he).mpr (.inl ⟨IsNext.self h, ?_⟩)
    rintro (hl | hl)
    · exact hl rfl
    · omega
  | modifiedPreceding => exact (adjust_modifiedPreceding hd he).mpr (.inl ⟨IsPrev.self h, not_not.mpr rfl⟩)
  | nearest =>
    have hh : cal.isHoliday d = false := by rw [isHoliday, h.2]; rfl
    rw [adjust_nearest hd he, show days = 109573 + 1 from rfl, rollBoth, hh]
    simp [hh]

/-! ## The rolls -/

/-- The search of a modified convention ends in the same-named month of another year, which it takes for the month of
the date. -/
def LeavesYear (cal : Calendar) (d : Date) : BusinessDayConvention → Prop
  | .modifiedFollowing | .halfMonthModifiedFollowing =>
    ∃ n, IsNext cal.Business d n ∧ n.month = d.month ∧ n.year ≠ d.year
  | .modifiedPreceding => ∃ n, IsPrev cal.Business d n ∧ n.month = d.month ∧ n.year ≠ d.year
  | _ => False

/-- The roll that a convention stands for. -/
def Rolls (cal : Calendar) (d r : Date) : BusinessDayConvention → Prop
  | .unadjusted                 => r = d
  | .following                  => IsNext cal.Business d r
  | .preceding                  => IsPrev cal.Business d r
  | .modifiedFollowing          => ModifiedNext cal.Business Date.monthIndex d r
  | .halfMonthModifiedFollowing => ModifiedNext cal.Business Date.halfMonthIndex d r
  | .modifiedPreceding          => ModifiedPrev cal.Business Date.monthIndex d r
  | .nearest => Nearest (fun n => ∃ b, cal.Business b ∧ b.serialNumber = n) d.serialNumber r.serialNumber

theorem month_ne_iff {n : Date} (h : ¬ (n.month = d.month ∧ n.year ≠ d.year)) :
    n.month ≠ d.month ↔ n.monthIndex ≠ d.monthIndex := by
  rw [not_and_not_right] at h
  rw [not_iff_not, Date.monthIndex_eq_iff]
  exact ⟨fun hm => ⟨hm, h hm⟩, And.left⟩

theorem leavesHalfMonth_iff {n : Date} (hle : d ≤ n) (h : ¬ (n.month = d.month ∧ n.year ≠ d.year)) :
    LeavesHalfMonth d n ↔ n.halfMonthIndex ≠ d.halfMonthIndex := by
  have hm := Date.halfMonthIndex_mono hle
  rw [LeavesHalfMonth, month_ne_iff h]
  unfold Date.halfMonthIndex at hm ⊢
  split at hm <;> split at hm <;> omega

theorem nearest_rolls (hd : d ≠ Date.null) (he : cal.isEmpty = false) (h : cal.adjust d .nearest = some r) :
    cal.Rolls d r .nearest := by
  have hb := adjust_business hd he (by decide) h
  rw [adjust_nearest hd he] at h
  obtain ⟨⟨r1, r2⟩, hp, hr⟩ := Option.map_eq_some_iff.mp h
  obtain ⟨n1, n2, -, k, k1, k2, hk⟩ := rollBoth_eq_some days d d hd hd hp
  refine ⟨⟨r, hb, rfl⟩, ?_⟩
  rintro _ ⟨x, hx, rfl⟩
  obtain ⟨h₁, h₂⟩ := hk x hx
  simp only [Date.le_iff] at h₁ h₂
  by_cases hh : cal.isHoliday r1 = true
  · obtain rfl : r2 = r := by rw [← hr, if_pos hh]
    -- the day ahead is a holiday, so no business day lies ahead at this distance
    have hne : x.serialNumber ≠ r1.serialNumber := fun hs =>
      (isHoliday_iff n1).mp hh ((Date.ext hs : x = r1) ▸ hx)
    rcases abs_cases (r2.serialNumber - d.serialNumber) with ⟨e₁, -⟩ | ⟨e₁, -⟩ <;>
      rcases abs_cases (x.serialNumber - d.serialNumber) with ⟨e₂, c₂⟩ | ⟨e₂, c₂⟩ <;>
      constructor <;> omega
  · obtain rfl : r1 = r := by rw [← hr, if_neg hh]
    rcases abs_cases (r1.serialNumber - d.serialNumber) with ⟨e₁, -⟩ | ⟨e₁, -⟩ <;>
      rcases abs_cases (x.serialNumber - d.serialNumber) with ⟨e₂, c₂⟩ | ⟨e₂, c₂⟩ <;>
      constructor <;> omega

/-- **Each convention is its roll**, in the year of the date. -/
theorem adjust_rolls (hd : d ≠ Date.null) (he : c = .unadjusted ∨ cal.isEmpty = false) (hy : ¬ cal.LeavesYear d c)
    (h : cal.adjust d c = some r) : cal.Rolls d r c := by
  by_cases hc : c = .unadjusted
  · subst hc
    rw [adjust_unadjusted hd] at h
    exact (Option.some.inj h).symm
  replace he := he.resolve_left hc
  cases c with
  | unadjusted => exact absurd rfl hc
  | following =>
    rw [adjust_following hd he, rollForward_eq_some hd] at h
    exact h
  | preceding =>
    rw [adjust_preceding hd he, rollBackward_eq_some hd] at h
    exact h
  | modifiedFollowing =>
    rcases (adjust_modifiedFollowing hd he).mp h with ⟨h, hm⟩ | ⟨⟨n, hn, hm⟩, h⟩
    · rw [month_ne_iff (fun hl => hy ⟨r, h, hl⟩), not_not] at hm
      exact .inl ⟨h, hm⟩
    · rw [month_ne_iff (fun hl => hy ⟨n, hn, hl⟩)] at hm
      exact .inr ⟨⟨n, hn, hm⟩, h⟩
  | halfMonthModifiedFollowing =>
    rcases (adjust_halfMonth hd he).mp h with ⟨h, hm⟩ | ⟨⟨n, hn, hm⟩, h⟩
    · rw [leavesHalfMonth_iff h.le (fun hl => hy ⟨r, h, hl⟩), not_not] at hm
      exact .inl ⟨h, hm⟩
    · rw [leavesHalfMonth_iff hn.le (fun hl => hy ⟨n, hn, hl⟩)] at hm
      exact .inr ⟨⟨n, hn, hm⟩, h⟩
  | modifiedPreceding =>
    rcases (adjust_modifiedPreceding hd he).mp h with ⟨h, hm⟩ | ⟨⟨n, hn, hm⟩, h⟩
    · rw [month_ne_iff (fun hl => hy ⟨r, h, hl⟩), not_not] at hm
      exact .inl ⟨h, hm⟩
    · rw [month_ne_iff (fun hl => hy ⟨n, hn, hl⟩)] at hm
      exact .inr ⟨⟨n, hn, hm⟩, h⟩
  | nearest => exact nearest_rolls hd he h

/-- The roll that leaves the year: January 10th, 2018 goes to January 8th, 2019 past a business day of its own month. -/
example : (fromImpl "two days" (fun d => d.serialNumber = 43105 || d.serialNumber = 43473)).adjust
    ⟨43110, by decide⟩ .modifiedFollowing = some ⟨43473, by decide⟩ := by decide +kernel

theorem Rolls.mono (h : cal.Rolls d r c) (h' : cal.Rolls d' r' c) (hd : d ≤ d') : r ≤ r' := by
  cases c with
  | unadjusted                 => rwa [show r = d from h, show r' = d' from h']
  | following                  => exact IsNext.mono h h' hd
  | preceding                  => exact IsPrev.mono h h' hd
  | modifiedFollowing          => exact ModifiedNext.mono (fun _ _ => Date.monthIndex_mono) h h' hd
  | halfMonthModifiedFollowing => exact ModifiedNext.mono (fun _ _ => Date.halfMonthIndex_mono) h h' hd
  | modifiedPreceding          => exact ModifiedPrev.mono (fun _ _ => Date.monthIndex_mono) h h' hd
  | nearest                    =>
    rw [Rolls] at h h'
    exact Date.le_iff.mpr (h.mono h' (Date.le_iff.mp hd))

/-- **Business-day adjustment.**  Where the search returns, the result is a business day (the date itself when it is not
adjusted) and is adjusted to itself; `Nearest` gives the closest business day, the later of two.  Where the search does
not leave the year, the result is also monotone in the date, and stays in its month or half month if there is a business
day in it. -/
theorem adjust_spec (hd : d ≠ Date.null) (he : c = .unadjusted ∨ cal.isEmpty = false) (hs : cal.Searchable d c) :
    ∃ r, cal.adjust d c = some r ∧ cal.adjust r c = some r ∧
      (c = .unadjusted → r = d) ∧ (c ≠ .unadjusted → r ≠ Date.null ∧ cal.isBusinessDay r = true) ∧
      (c = .nearest → ∀ b, cal.Business b →
        |r.serialNumber - d.serialNumber| ≤ |b.serialNumber - d.serialNumber| ∧
          (|b.serialNumber - d.serialNumber| = |r.serialNumber - d.serialNumber| → b ≤ r)) ∧
      (¬ cal.LeavesYear d c →
        (∀ d', d' ≠ Date.null → cal.Searchable d' c → ¬ cal.LeavesYear d' c → d ≤ d' →
          ∃ r', cal.adjust d' c = some r' ∧ r ≤ r') ∧
        (c = .modifiedFollowing ∨ c = .modifiedPreceding → (∃ b, cal.Business b ∧ b.SameMonth d) → r.SameMonth d) ∧
        (c = .halfMonthModifiedFollowing → (∃ b, cal.Business b ∧ b.SameHalfMonth d) → r.SameHalfMonth d)) := by
  obtain ⟨r, hr⟩ := (adjust_returns_iff hd he).mpr hs
  refine ⟨r, hr, ?_, ?_, fun hc => ?_, ?_, fun hy => ⟨fun d' hd' hs' hy' hle => ?_, ?_, ?_⟩⟩
  · by_cases hc : c = .unadjusted
    · subst hc
      rw [adjust_unadjusted hd] at hr
      rw [← Option.some.inj hr, adjust_unadjusted hd]
    · exact adjust_of_business (he.resolve_left hc) (adjust_business hd (he.resolve_left hc) hc hr)
  · rintro rfl
    exact adjust_rolls hd he not_false hr
  · exact adjust_business hd (he.resolve_left hc) hc hr
  · rintro rfl b hb
    exact (nearest_rolls hd (he.resolve_left (by decide)) hr).2 _ ⟨b, hb, rfl⟩
  · obtain ⟨r', hr'⟩ := (adjust_returns_iff hd' he).mpr hs'
    exact ⟨r', hr', Rolls.mono (adjust_rolls hd he hy hr) (adjust_rolls hd' he hy' hr') hle⟩
  · rintro hc ⟨b, hb, hm⟩
    have hroll := adjust_rolls hd he hy hr
    rw [Date.sameMonth_iff] at hm ⊢
    rcases hc with rfl | rfl
    · exact ModifiedNext.block_eq (fun _ _ => Date.monthIndex_mono) hroll hb hm
    · exact ModifiedPrev.block_eq (fun _ _ => Date.monthIndex_mono) hroll hb hm
  · rintro rfl ⟨b, hb, hm⟩
    rw [Date.sameHalfMonth_iff] at hm ⊢
    exact ModifiedNext.block_eq (fun _ _ => Date.halfMonthIndex_mono) (adjust_rolls hd he hy hr) hb hm

/-- Saturday, June 30th, 2018. -/
def monthEndSaturday : Date := ⟨43281, by decide⟩

/-- The Saturday falls back on Friday, in its month. -/
theorem adjust_spec_monthEndSaturday : ∃ r, weekendsOnly.adjust monthEndSaturday .modifiedFollowing = some r ∧
    weekendsOnly.isBusinessDay r = true ∧ r.SameMonth monthEndSaturday := by
  have hd : monthEndSaturday ≠ Date.null := by decide
  have next : IsNext weekendsOnly.Business monthEndSaturday ⟨43283, by decide⟩ :=
    (rollForward_eq_some hd).mp (by decide +kernel)
  have friday : weekendsOnly.Business ⟨43280, by decide⟩ := ⟨by decide, by decide +kernel⟩
  obtain ⟨r, hr, -, -, hb, -, hy⟩ := adjust_spec (c := .modifiedFollowing) hd (.inr (by decide +kernel))
    ⟨_, next, fun _ => ⟨_, friday, by decide⟩⟩
  refine ⟨r, hr, (hb (by decide)).2, (hy ?_).2.1 (.inl rfl) ⟨_, friday, by decide +kernel⟩⟩
  rintro ⟨n, hn, hm, -⟩
  rw [hn.unique next] at hm
  exact absurd hm (by decide +kernel)

/-- **`Unadjusted` leaves a holiday where it is**, although there are business days on both sides. -/
theorem unadjusted_holiday : weekendsOnly.adjust monthEndSaturday .unadjusted = some monthEndSaturday ∧
    weekendsOnly.isBusinessDay monthEndSaturday = false ∧
    weekendsOnly.adjust monthEndSaturday .following ≠ none ∧
    weekendsOnly.adjust monthEndSaturday .preceding ≠ none := by
  decide +kernel

end Itofin.Calendar
