import Itofin.Utilities.PeriodParser
/-!
# DateParser — which texts are read as dates

`Display` of `time/date.rs` and `parse_iso_date` of `utilities/dataparsers.rs`.  A text of ten bytes with hyphens at the
fifth and the eighth is cut into year, month and day without cutting a character, and each is read as an integer
(`parseIsoDate_spec`).  An integer may have a sign: a year with one is out of range, and so is a month or a day with a
minus, but a plus is accepted (`Signed`).  Every other text is read as the format says (`isoDate_of_readsDate`).
-/
namespace Itofin

open Text

/-- `Display`, the ISO format. -/
def Date.display (d : Date) : List Char :=
  if d = Date.null then "null date".toList
  else displayPadded 4 d.year ++ '-' :: (displayPadded 2 d.month.ordinal ++ '-' :: displayPadded 2 d.dayOfMonth)

namespace DataParsers

/-- The second half of `parse_iso_date`: the ranges, and the date. -/
def checkedDate (year month day : ℤ) : Except Failure Date := do
  require (1901 ≤ year ∧ year ≤ 2199) "invalid format"
  require (1 ≤ month ∧ month ≤ 12) "invalid format"
  let month ← orPanic (Month.fromOrdinal month)
  let first ← orPanic (Date.new 1 month year)
  let last ← orPanic first.endOfMonth
  require (1 ≤ day ∧ day ≤ last.dayOfMonth) "invalid format"
  orPanic (Date.new day month year)

def parseIsoDate (s : List Char) : Except Failure Date := do
  let bytes := asBytes s
  require (size s = 10 ∧ bytes[4]? = some 45 ∧ bytes[7]? = some 45) "invalid format"
  let year ← orPanic (slice s 0 4)
  let year ← refuse "invalid format" (parseInteger year)
  let month ← orPanic (slice s 5 7)
  let month ← refuse "invalid format" (parseInteger month)
  let day ← orPanic (slice s 8 10)
  let day ← refuse "invalid format" (parseInteger day)
  checkedDate year month day

variable {s y m d : List Char} {date : Date}

/-- The year, the month and the day with hyphens between. -/
def dashed (y m d : List Char) : List Char := y ++ '-' :: (m ++ '-' :: d)

def Fields (date : Date) (year month day : ℤ) : Prop :=
  date ≠ Date.null ∧ date.year = year ∧ date.month.ordinal = month ∧ date.dayOfMonth = day

/-- What the parser reads: integers in four, two and two bytes. -/
def ReadsDate (s : List Char) (date : Date) : Prop :=
  ∃ y m d, s = dashed y m d ∧ size y = 4 ∧ size m = 2 ∧ size d = 2 ∧
    ∃ year month day, IsInteger y year ∧ IsInteger m month ∧ IsInteger d day ∧ Fields date year month day

/-- **The format**: four, two and two digits, with hyphens between. -/
def IsoDate (s : List Char) (date : Date) : Prop :=
  ∃ y m d, s = dashed y m d ∧
    (IsNumeral y ∧ y.length = 4) ∧ (IsNumeral m ∧ m.length = 2) ∧ (IsNumeral d ∧ d.length = 2) ∧
    Fields date (value y) (value m) (value d)

/-! ## The fields of a date -/

theorem fromOrdinal_eq_some_iff {n : ℤ} {mo : Month} : Month.fromOrdinal n = some mo ↔ mo.ordinal = n := by
  refine ⟨fun h => ?_, fun h => by rw [← h, Month.fromOrdinal_ordinal]⟩
  unfold Month.fromOrdinal at h
  split at h <;> cases h <;> rfl

theorem endOfMonth_eq (mo : Month) {year : ℤ} (h₁ : 1901 ≤ year) (h₂ : year ≤ 2199) : ∃ first last,
    Date.new 1 mo year = some first ∧ first.endOfMonth = some last ∧
      last.dayOfMonth = monthLength mo (isLeap year) := by
  have hlen := Date.monthLength_bounds mo (isLeap year)
  obtain ⟨first, hfirst⟩ := Date.exists_new (m := mo) (y := year) (by omega) (by omega) one_pos (by omega)
  obtain ⟨last, hlast⟩ := Date.exists_new (m := mo) (y := year) (by omega) (by omega) (by omega) le_rfl
  obtain ⟨-, -, hm, hy⟩ := Date.new_spec hfirst
  exact ⟨first, last, hfirst, by rw [Date.endOfMonth, hm, hy, hlast], (Date.new_spec hlast).2.1⟩

theorem refused_spec {α : Type} {x : Except Failure α} {accepted : α → Prop} {message : String}
    (h : x = .error (.error message)) (hno : ∀ a, ¬ accepted a) : x ≠ .error .panic ∧ ∀ a, x = .ok a ↔ accepted a := by
  rw [h]
  exact ⟨(fun h => by cases h), fun a => iff_of_false (fun h => by cases h) (hno a)⟩

/-- **The dates that pass the checks** are those with the fields; nothing panics. -/
theorem checkedDate_spec (year month day : ℤ) : checkedDate year month day ≠ .error .panic ∧
    ∀ date, checkedDate year month day = .ok date ↔ Fields date year month day := by
  by_cases hy : 1901 ≤ year ∧ year ≤ 2199
  case neg =>
    refine refused_spec (by rw [checkedDate, require_bind, if_neg hy]) ?_
    rintro date ⟨hd, rfl, -⟩
    exact hy ⟨(Date.year_spec hd).1, (Date.year_spec hd).2.1⟩
  by_cases hm : 1 ≤ month ∧ month ≤ 12
  case neg =>
    refine refused_spec (by rw [checkedDate, require_bind, if_pos hy, require_bind, if_neg hm]) ?_
    rintro date ⟨-, -, rfl, -⟩
    exact hm date.month.ordinal_bounds
  obtain ⟨mo, hmo⟩ : ∃ mo, Month.fromOrdinal month = some mo :=
    ⟨_, fromOrdinal_eq_some_iff.mpr (Date.ordinal_fromOrdinal hm.1 hm.2)⟩
  obtain ⟨first, last, hfirst, hlast, hlen⟩ := endOfMonth_eq mo hy.1 hy.2
  have hchecked : checkedDate year month day =
      if 1 ≤ day ∧ day ≤ monthLength mo (isLeap year) then orPanic (Date.new day mo year)
      else .error (.error "invalid format") := by
    rw [checkedDate, require_bind, if_pos hy, require_bind, if_pos hm, hmo, orPanic_bind, hfirst, orPanic_bind, hlast,
      orPanic_bind, require_bind, hlen]
  obtain rfl := fromOrdinal_eq_some_iff.mp hmo
  by_cases hd : 1 ≤ day ∧ day ≤ monthLength mo (isLeap year)
  · obtain ⟨r, hr⟩ := Date.exists_new (m := mo) (y := year) (by omega) (by omega) (by omega) hd.2
    rw [hchecked, if_pos hd, hr]
    refine ⟨(fun h => by cases h), fun date => ?_⟩
    change Except.ok r = Except.ok date ↔ _
    rw [Except.ok.injEq, ← Option.some.injEq, ← hr, Date.new_eq_some_iff]
    exact ⟨fun ⟨h₁, h₂, h₃, h₄⟩ => ⟨h₁, h₄, by rw [h₃], h₂⟩,
      fun ⟨h₁, h₂, h₃, h₄⟩ => ⟨h₁, h₄, Month.ordinal_injective h₃, h₂⟩⟩
  · refine refused_spec (by rw [hchecked, if_neg hd]) ?_
    rintro date ⟨hne, rfl, hmonth, rfl⟩
    obtain rfl := Month.ordinal_injective hmonth
    exact hd (Date.day_spec hne)

/-! ## The positions -/

/-- Ten bytes with hyphens at the fifth and the eighth are cut between characters. -/
theorem dashed_of_bytes (h : size s = 10 ∧ (asBytes s)[4]? = some 45 ∧ (asBytes s)[7]? = some 45) :
    ∃ y m d, s = dashed y m d ∧ size y = 4 ∧ size m = 2 ∧ size d = 2 := by
  obtain ⟨hs, h₄, h₇⟩ := h
  have hyphen (x : Char) (hx : x.toNat < 128) (h : (45 : UInt8) = UInt8.ofNat x.toNat) : x = '-' := by
    have := congrArg UInt8.toNat h
    rw [UInt8.toNat_ofNat', Nat.mod_eq_of_lt (by omega)] at this
    exact Char.toNat_inj.mp this.symm
  have hsize : ('-').utf8Size = 1 := rfl
  obtain ⟨y, x, t, rfl, hy, hx, he⟩ := ascii_of_asBytes (by decide) h₄
  obtain rfl := hyphen x hx he
  have hlen : (asBytes (y ++ ['-'])).length = 5 := by rw [asBytes_length, size_append, hy, size_cons, hsize, size_nil]
  rw [List.append_cons, asBytes_append, List.getElem?_append_right (by omega), hlen] at h₇
  obtain ⟨m, x, d, rfl, hm, hx, he⟩ := ascii_of_asBytes (by decide) h₇
  obtain rfl := hyphen x hx he
  refine ⟨y, m, d, rfl, hy, hm, ?_⟩
  simp only [size_append, size_cons, hsize] at hs
  omega

theorem bytes_dashed (hy : size y = 4) (hm : size m = 2) (hd : size d = 2) :
    size (dashed y m d) = 10 ∧ (asBytes (dashed y m d))[4]? = some 45 ∧ (asBytes (dashed y m d))[7]? = some 45 := by
  have hsize : ('-').utf8Size = 1 := rfl
  refine ⟨?_, ?_, ?_⟩
  · rw [dashed, size_append, size_cons, size_append, size_cons, hy, hm, hd, hsize]
  · have := asBytes_ascii (a := y) (b := m ++ '-' :: d) (x := '-') (by decide)
    rwa [hy] at this
  · have := asBytes_ascii (a := y ++ '-' :: m) (b := d) (x := '-') (by decide)
    rwa [size_append, size_cons, hy, hm, hsize, List.append_assoc, List.cons_append] at this

theorem slices_dashed (hy : size y = 4) (hm : size m = 2) (hd : size d = 2) : slice (dashed y m d) 0 4 = some y ∧
    slice (dashed y m d) 5 7 = some m ∧ slice (dashed y m d) 8 10 = some d := by
  have hsize : ('-').utf8Size = 1 := rfl
  refine ⟨?_, ?_, ?_⟩
  · have := slice_append [] y ('-' :: (m ++ '-' :: d))
    rwa [size_nil, hy, List.nil_append] at this
  · have := slice_append (y ++ ['-']) m ('-' :: d)
    rwa [size_append, size_cons, size_nil, hy, hm, hsize, List.append_assoc, List.append_assoc,
      List.singleton_append] at this
  · have := slice_append (y ++ '-' :: (m ++ ['-'])) d []
    rw [size_append, size_cons, size_append, size_cons, size_nil, hy, hm, hd, hsize] at this
    rwa [List.append_nil, List.append_assoc, List.cons_append, List.append_assoc, List.singleton_append] at this

theorem refuse_bind {α β : Type} {message : String} {a : Option α} {f : α → Except Failure β} {r : Except Failure β}
    (hr : ∀ message, r ≠ .error (.error message)) : (refuse message a >>= f) = r ↔ ∃ x, a = some x ∧ f x = r := by
  cases a with
  | none   => exact iff_of_false (fun h => hr message h.symm) (fun ⟨x, h, _⟩ => by cases h)
  | some x => exact ⟨fun h => ⟨x, rfl, h⟩, fun ⟨y, hy, h⟩ => Option.some.inj hy ▸ h⟩

theorem Fields.bounds {year month day : ℤ} (h : Fields date year month day) :
    (1901 ≤ year ∧ year ≤ 2199) ∧ (1 ≤ month ∧ month ≤ 12) ∧ 1 ≤ day ∧ day ≤ 31 := by
  obtain ⟨hne, rfl, rfl, rfl⟩ := h
  obtain ⟨h₁, h₂, -⟩ := Date.year_spec hne
  obtain ⟨h₃, h₄⟩ := Date.day_spec hne
  have hlen := Date.monthLength_bounds date.month (isLeap date.year)
  exact ⟨⟨h₁, h₂⟩, date.month.ordinal_bounds, h₃, by omega⟩

theorem readsDate_dashed (hy : size y = 4) (hm : size m = 2) (hd : size d = 2) : ReadsDate (dashed y m d) date ↔
    ∃ year month day, IsInteger y year ∧ IsInteger m month ∧ IsInteger d day ∧ Fields date year month day := by
  obtain ⟨sy, sm, sd⟩ := slices_dashed hy hm hd
  constructor
  · rintro ⟨y', m', d', he, hy', hm', hd', h⟩
    obtain ⟨sy', sm', sd'⟩ := slices_dashed hy' hm' hd'
    rw [← he] at sy' sm' sd'
    cases sy.symm.trans sy'
    cases sm.symm.trans sm'
    cases sd.symm.trans sd'
    exact h
  · exact fun h => ⟨y, m, d, rfl, hy, hm, hd, h⟩

theorem parseIsoDate_dashed (hy : size y = 4) (hm : size m = 2) (hd : size d = 2) :
    parseIsoDate (dashed y m d) = (refuse "invalid format" (parseInteger y) >>= fun year =>
      refuse "invalid format" (parseInteger m) >>= fun month =>
        refuse "invalid format" (parseInteger d) >>= fun day => checkedDate year month day) := by
  obtain ⟨sy, sm, sd⟩ := slices_dashed hy hm hd
  rw [parseIsoDate, require_bind, if_pos (bytes_dashed hy hm hd), sy, orPanic_bind, sm, sd]
  rfl

/-- **What the parser reads.**  It never panics. -/
theorem parseIsoDate_spec (s : List Char) : parseIsoDate s ≠ .error .panic ∧
    ∀ date, parseIsoDate s = .ok date ↔ ReadsDate s date := by
  by_cases hb : size s = 10 ∧ (asBytes s)[4]? = some 45 ∧ (asBytes s)[7]? = some 45
  case neg =>
    refine refused_spec (by rw [parseIsoDate, require_bind, if_neg hb]) ?_
    rintro date ⟨y, m, d, rfl, hy, hm, hd, -⟩
    exact hb (bytes_dashed hy hm hd)
  obtain ⟨y, m, d, rfl, hy, hm, hd⟩ := dashed_of_bytes hb
  rw [parseIsoDate_dashed hy hm hd]
  constructor
  · intro h
    obtain ⟨year, -, h⟩ := (refuse_bind (fun _ h => by cases h)).mp h
    obtain ⟨month, -, h⟩ := (refuse_bind (fun _ h => by cases h)).mp h
    obtain ⟨day, -, h⟩ := (refuse_bind (fun _ h => by cases h)).mp h
    exact (checkedDate_spec year month day).1 h
  · intro date
    have integer_iff (t : List Char) (n : ℤ) : parseInteger t = some n ↔ IsInteger t n ∧ isI32 n :=
      parseInt_eq_some_iff (by decide) (by decide)
    rw [readsDate_dashed hy hm hd]
    constructor
    · intro h
      obtain ⟨year, hyear, h⟩ := (refuse_bind (fun _ h => by cases h)).mp h
      obtain ⟨month, hmonth, h⟩ := (refuse_bind (fun _ h => by cases h)).mp h
      obtain ⟨day, hday, h⟩ := (refuse_bind (fun _ h => by cases h)).mp h
      exact ⟨year, month, day, ((integer_iff _ _).mp hyear).1, ((integer_iff _ _).mp hmonth).1,
        ((integer_iff _ _).mp hday).1, ((checkedDate_spec year month day).2 date).mp h⟩
    · rintro ⟨year, month, day, hyear, hmonth, hday, h⟩
      obtain ⟨by', bm, bd⟩ := h.bounds
      rw [(integer_iff _ _).mpr ⟨hyear, by unfold isI32; omega⟩, (integer_iff _ _).mpr ⟨hmonth, by unfold isI32; omega⟩,
        (integer_iff _ _).mpr ⟨hday, by unfold isI32; omega⟩]
      exact ((checkedDate_spec year month day).2 date).mpr h

/-! ## The format -/

/-- **The contract** for a text: the parser does not panic, and it accepts what has the format, as the date. -/
structure IsoContract (s : List Char) : Prop where
  no_panic : parseIsoDate s ≠ .error .panic
  accepts : ∀ date, parseIsoDate s = .ok date ↔ IsoDate s date

/-- **The month or the day is written with a plus**, in a text that is read. -/
def Signed (s : List Char) : Prop := (∃ date, ReadsDate s date) ∧ (s[5]? = some '+' ∨ s[8]? = some '+')

theorem numeral_of_integer {t : List Char} {n : ℤ} (h : IsInteger t n) (hn : 0 < n) :
    (IsNumeral t ∧ n = value t) ∨ ∃ ds, t = '+' :: ds ∧ IsNumeral ds ∧ n = value ds := by
  cases h with
  | plain h => exact .inl ⟨h, rfl⟩
  | plus h  => exact .inr ⟨_, rfl, h, rfl⟩
  | minus h => omega

theorem getElem_dashed (hy : y.length = 4) (hm : m.length = 2) :
    (dashed y m d)[5]? = m[0]? ∧ (dashed y m d)[8]? = d[0]? := by
  obtain ⟨m₁, m₂, rfl⟩ := List.length_eq_two.mp hm
  have hcut : dashed y [m₁, m₂] d = (y ++ ['-', m₁, m₂, '-']) ++ d := by
    rw [dashed, List.append_assoc]
    rfl
  constructor
  · rw [dashed, List.getElem?_append_right (by omega), hy]
    rfl
  · rw [hcut, List.getElem?_append_right (by rw [List.length_append, hy]; exact le_rfl), List.length_append, hy]
    rfl

theorem readsDate_of_isoDate (h : IsoDate s date) : ReadsDate s date := by
  obtain ⟨y, m, d, rfl, ⟨hy, ly⟩, ⟨hm, lm⟩, ⟨hd, ld⟩, h⟩ := h
  exact ⟨y, m, d, rfl, by rw [hy.size, ly], by rw [hm.size, lm], by rw [hd.size, ld], _, _, _, .plain hy, .plain hm,
    .plain hd, h⟩

theorem not_signed_of_isoDate (h : IsoDate s date) : ¬ (s[5]? = some '+' ∨ s[8]? = some '+') := by
  obtain ⟨y, m, d, rfl, ⟨-, ly⟩, ⟨hm, lm⟩, ⟨hd, -⟩, -⟩ := h
  obtain ⟨h₅, h₈⟩ := getElem_dashed (d := d) ly lm
  have hplus {t : List Char} (ht : IsNumeral t) : t[0]? ≠ some '+' := fun h => by
    have := ht.2 '+' (List.mem_of_getElem? h)
    exact absurd this (by decide)
  rw [h₅, h₈]
  exact fun h => h.elim (hplus hm) (hplus hd)

/-- What is read without a plus has the format: a year with a sign is too small, and a minus is out of range. -/
theorem isoDate_of_readsDate (h : ReadsDate s date) (hplus : ¬ (s[5]? = some '+' ∨ s[8]? = some '+')) :
    IsoDate s date := by
  obtain ⟨y, m, d, rfl, sy, sm, sd, year, month, day, hy, hm, hd, h⟩ := h
  obtain ⟨by', bm, bd⟩ := h.bounds
  have hsize : ('+').utf8Size = 1 := rfl
  have hyear : IsNumeral y ∧ year = value y := by
    rcases numeral_of_integer hy (by omega) with h | ⟨ds, rfl, hds, rfl⟩
    · exact h
    · have hlt := value_lt hds
      rw [size_cons, hsize, hds.size] at sy
      rw [show ds.length = 3 by omega] at hlt
      omega
  have ly : y.length = 4 := by rw [← hyear.1.size, sy]
  have hmonth : IsNumeral m ∧ month = value m := by
    rcases numeral_of_integer hm (by omega) with h | ⟨ds, rfl, hds, rfl⟩
    · exact h
    · rw [size_cons, hsize, hds.size] at sm
      exact absurd (.inl (getElem_dashed ly (by rw [List.length_cons]; omega)).1) hplus
  have lm : m.length = 2 := by rw [← hmonth.1.size, sm]
  have hday : IsNumeral d ∧ day = value d := by
    rcases numeral_of_integer hd (by omega) with h | ⟨ds, rfl, -, rfl⟩
    · exact h
    · exact absurd (.inr (getElem_dashed ly lm).2) hplus
  refine ⟨y, m, d, rfl, ⟨hyear.1, ly⟩, ⟨hmonth.1, lm⟩, ⟨hday.1, by rw [← hday.1.size, sd]⟩, ?_⟩
  rwa [← hyear.2, ← hmonth.2, ← hday.2]

theorem isoDate_display (h : date ≠ Date.null) : IsoDate date.display date := by
  obtain ⟨by', bm, bd⟩ := Fields.bounds ⟨h, rfl, rfl, rfl⟩
  obtain ⟨y, hy⟩ := Int.eq_ofNat_of_zero_le (show 0 ≤ date.year by omega)
  obtain ⟨m, hm⟩ := Int.eq_ofNat_of_zero_le (show 0 ≤ date.month.ordinal by omega)
  obtain ⟨d, hd⟩ := Int.eq_ofNat_of_zero_le (show 0 ≤ date.dayOfMonth by omega)
  obtain ⟨ny, ly, vy⟩ := displayPadded_spec 4 y (by decide) (by omega)
  obtain ⟨nm, lm, vm⟩ := displayPadded_spec 2 m (by decide) (by omega)
  obtain ⟨nd, ld, vd⟩ := displayPadded_spec 2 d (by decide) (by omega)
  refine ⟨displayPadded 4 y, displayPadded 2 m, displayPadded 2 d, ?_, ⟨ny, ly⟩, ⟨nm, lm⟩, ⟨nd, ld⟩, h, ?_, ?_, ?_⟩
  · rw [Date.display, if_neg h, hy, hm, hd, dashed]
  · rw [vy, hy]
  · rw [vm, hm]
  · rw [vd, hd]

/-- **The parser meets its contract** unless the month or the day is written with a plus, and it reads back every date
that is displayed. -/
theorem isoContract_iff (s : List Char) : (IsoContract s ↔ ¬ Signed s) ∧
    ∀ date : Date, date ≠ Date.null → parseIsoDate date.display = .ok date := by
  refine ⟨?_, fun date h => ((parseIsoDate_spec _).2 date).mpr (readsDate_of_isoDate (isoDate_display h))⟩
  obtain ⟨hpanic, hok⟩ := parseIsoDate_spec s
  constructor
  · rintro h ⟨⟨date, hread⟩, hplus⟩
    exact not_signed_of_isoDate ((h.accepts date).mp ((hok date).mpr hread)) hplus
  · intro h
    refine ⟨hpanic, fun date => (hok date).trans ⟨fun hread => ?_, readsDate_of_isoDate⟩⟩
    exact isoDate_of_readsDate hread (fun hplus => h ⟨⟨date, hread⟩, hplus⟩)

theorem isoContract_iff_first : parseIsoDate (Date.display ⟨367, by decide⟩) = .ok ⟨367, by decide⟩ :=
  (isoContract_iff []).2 ⟨367, by decide⟩ (by decide)

theorem not_isoContract : ¬ IsoContract ['2', '0', '0', '6', '-', '+', '1', '-', '1', '5'] := by
  intro h
  have hread : parseIsoDate ['2', '0', '0', '6', '-', '+', '1', '-', '1', '5'] = .ok ⟨38732, by decide⟩ := by
    decide +kernel
  exact not_signed_of_isoDate ((h.accepts _).mp hread) (.inl rfl)

end DataParsers
end Itofin
