import Itofin.Time.Period
/-!
# Advance — the closed form of adding months and years

`Date::advance` carries months into years with two loops and then clips the day.  Both of its branches are one function
of the month they arrive in (`onMonth`), counted through the years, and of the day to keep: `advance_months_eq` and
`advance_years_eq`.  `onMonth_eq_some` says which date that is, `onMonth_isSome` when it is one, and `onMonth_mono` that
a later date stays later, or becomes equal.
-/
namespace Itofin
namespace Date

variable {d d' r r' : Date} {n i i' day day' : ℤ}

/-- The `i`-th month since year zero lies in a supported year. -/
def MonthInRange (i : ℤ) : Prop := 12 * 1901 + 1 ≤ i ∧ i ≤ 12 * 2199 + 12

instance : DecidablePred MonthInRange := fun _ => inferInstanceAs (Decidable (_ ∧ _))

/-- The date of the `i`-th month on the given day, or on the last of the month when it is shorter. -/
def onMonth (i day : ℤ) : Option Date :=
  (Month.fromOrdinal ((i - 1) % 12 + 1)).bind (fun m =>
    new (min day (monthLength m (isLeap ((i - 1) / 12)))) m ((i - 1) / 12))

theorem exists_month {k : ℤ} (h₁ : 1 ≤ k) (h₂ : k ≤ 12) : ∃ m, Month.fromOrdinal k = some m ∧ m.ordinal = k := by
  have ho := ordinal_fromOrdinal h₁ h₂
  have hs : (Month.fromOrdinal k).isSome = true := by interval_cases k <;> rfl
  obtain ⟨m, hm⟩ := Option.isSome_iff_exists.mp hs
  rw [hm, Option.getD_some] at ho
  exact ⟨m, hm, ho⟩

theorem onMonth_eq {m : Month} {y : ℤ} (h : 12 * y + m.ordinal = i) :
    onMonth i day = new (min day (monthLength m (isLeap y))) m y := by
  have hb := m.ordinal_bounds
  rw [onMonth, show (i - 1) % 12 + 1 = m.ordinal by omega, show (i - 1) / 12 = y by omega,
    Month.fromOrdinal_ordinal, Option.bind_some]

theorem monthIndex_inRange (h : d ≠ null) : MonthInRange d.monthIndex := by
  have hm := d.month.ordinal_bounds
  obtain ⟨lo, hi, -⟩ := year_spec h
  unfold MonthInRange monthIndex
  omega

/-- **Which date is on a month**: the one of that month, on the day or on the last of the month. -/
theorem onMonth_eq_some : onMonth i day = some r ↔
    r ≠ null ∧ r.monthIndex = i ∧ r.dayOfMonth = min day (monthLength r.month (isLeap r.year)) := by
  constructor
  · intro h
    obtain ⟨m, hm, ho⟩ := exists_month (k := (i - 1) % 12 + 1) (by omega) (by omega)
    rw [onMonth_eq (show 12 * ((i - 1) / 12) + m.ordinal = i by omega)] at h
    obtain ⟨hr, hd, hm', hy⟩ := new_spec h
    refine ⟨hr, ?_, by rw [hd, hm', hy]⟩
    rw [monthIndex, hm', hy]
    omega
  · rintro ⟨hr, hi, hd⟩
    rw [onMonth_eq hi, ← hd]
    exact new_eq_some_iff.mpr ⟨hr, rfl, rfl, rfl⟩

theorem onMonth_isSome (h : 1 ≤ day) : (∃ r, onMonth i day = some r) ↔ MonthInRange i := by
  constructor
  · rintro ⟨r, hr⟩
    obtain ⟨h₁, h₂, -⟩ := onMonth_eq_some.mp hr
    exact h₂ ▸ monthIndex_inRange h₁
  · rintro ⟨h₁, h₂⟩
    obtain ⟨m, -, ho⟩ := exists_month (k := (i - 1) % 12 + 1) (by omega) (by omega)
    rw [onMonth_eq (show 12 * ((i - 1) / 12) + m.ordinal = i by omega)]
    have hl := monthLength_bounds m (isLeap ((i - 1) / 12))
    exact exists_new (by omega) (by omega) (by omega) (min_le_right _ _)

/-- **A later month, or a later day of one month, is a later date or the same.** -/
theorem onMonth_mono (h : i < i' ∨ i = i' ∧ day ≤ day') (hr : onMonth i day = some r)
    (hr' : onMonth i' day' = some r') : r ≤ r' := by
  obtain ⟨-, hi, hd⟩ := onMonth_eq_some.mp hr
  obtain ⟨-, hi', hd'⟩ := onMonth_eq_some.mp hr'
  rcases h with h | ⟨rfl, h⟩
  · exact (lt_of_monthIndex (by rw [hi, hi']; exact h)).le
  · obtain ⟨hm, hy⟩ := monthIndex_eq_iff.mp (hi.trans hi'.symm)
    have hday : r.dayOfMonth ≤ r'.dayOfMonth := by
      rw [hd, hd', hm, hy]
      exact min_le_min_right _ h
    have e := serialNumber_eq r
    have e' := serialNumber_eq r'
    rw [hm, hy] at e
    rw [le_iff]
    omega

/-- The dates are in the order of their months, and of their days within one. -/
theorem le_cases (h : d ≤ d') :
    d.monthIndex < d'.monthIndex ∨ d.monthIndex = d'.monthIndex ∧ d.dayOfMonth ≤ d'.dayOfMonth := by
  rcases lt_or_eq_of_le (monthIndex_mono h) with hm | hm
  · exact .inl hm
  · obtain ⟨hm₁, hy⟩ := monthIndex_eq_iff.mp hm
    have e := serialNumber_eq d
    have e' := serialNumber_eq d'
    rw [hm₁, hy] at e
    rw [le_iff] at h
    exact .inr ⟨hm, by omega⟩

/-- **The loops of `advance` in closed form.** -/
theorem advance_months_eq : d.advance n .months = onMonth (d.monthIndex + n) d.dayOfMonth := by
  rw [advance]
  obtain ⟨⟨m, y⟩, hc⟩ : ∃ p, carryDown n.natAbs (carryUp n.natAbs (d.month.ordinal + n, d.year)) = p := ⟨_, rfl⟩
  obtain ⟨hs, h₁, h₂⟩ := carry_spec hc
  obtain ⟨mo, hm, rfl⟩ := exists_month h₁ h₂
  rw [hc, onMonth_eq hs]
  simp only [hm, Option.bind_some]
  have hmin : (if monthLength mo (isLeap y) < d.dayOfMonth then monthLength mo (isLeap y) else d.dayOfMonth) =
      min d.dayOfMonth (monthLength mo (isLeap y)) := by
    split <;> omega
  rw [hmin]
  by_cases hy : 1900 ≤ y ∧ y ≤ 2199
  · rw [if_pos hy]
  · rw [if_neg hy, new, if_neg (by omega)]

theorem advance_months_zero (hd : d ≠ null) : d.advance 0 .months = some d := by
  rw [advance_months_eq, onMonth_eq_some]
  exact ⟨hd, (add_zero _).symm, (min_eq_left (day_spec hd).2).symm⟩

theorem monthLength_leap {m : Month} {leap leap' : Bool} {k : ℤ} (h : k ≤ monthLength m leap)
    (hne : ¬ (k = 29 ∧ m = .february ∧ leap' = false)) : k ≤ monthLength m leap' := by
  cases m <;> cases leap <;> cases leap' <;> simp_all [monthLength, Month.ordinal] <;> omega

/-- **The years of `advance` in closed form**: twelve times as many months. -/
theorem advance_years_eq (hd : d ≠ null) :
    d.advance n .years = onMonth (d.monthIndex + 12 * n) d.dayOfMonth := by
  obtain ⟨h₁, h₂⟩ := day_spec hd
  rw [advance, onMonth_eq (show 12 * (d.year + n) + d.month.ordinal = d.monthIndex + 12 * n by
    rw [monthIndex]; omega)]
  have hmin : (if d.dayOfMonth = 29 ∧ d.month = .february ∧ !isLeap (d.year + n) then 28 else d.dayOfMonth) =
      min d.dayOfMonth (monthLength d.month (isLeap (d.year + n))) := by
    split
    · rename_i h
      obtain ⟨h₁, h₂, h₃⟩ := h
      rw [Bool.not_eq_true'] at h₃
      rw [h₁, h₂, h₃]
      rfl
    · rename_i h
      rw [Bool.not_eq_true'] at h
      rw [min_eq_left (monthLength_leap h₂ h)]
  simp only [hmin]
  by_cases hy : 1900 ≤ d.year + n ∧ d.year + n ≤ 2199
  · rw [if_pos hy]
  · rw [if_neg hy, new, if_neg (by omega)]

/-- The date some years away: it is of that year, and a leap day becomes the day before where there is none. -/
theorem advance_years_some (hd : d ≠ null) : d.advance n .years = some r ↔
    r ≠ null ∧ r.year = d.year + n ∧ r.month = d.month ∧
      r.dayOfMonth = min d.dayOfMonth (monthLength d.month (isLeap (d.year + n))) := by
  rw [advance_years_eq hd, onMonth_eq (show 12 * (d.year + n) + d.month.ordinal = d.monthIndex + 12 * n by
    rw [monthIndex]; omega), new_eq_some_iff]
  tauto

theorem exists_advance_years (hd : d ≠ null) :
    (∃ r, d.advance n .years = some r) ↔ 1901 ≤ d.year + n ∧ d.year + n ≤ 2199 := by
  have hm := d.month.ordinal_bounds
  rw [advance_years_eq hd, onMonth_isSome (day_spec hd).1, MonthInRange, monthIndex]
  omega

/-- **Adding months and years.**  Adding `n` months gives the date of the month `n` later, on the smaller of the day and
that month's length, whenever the month lies in a supported year; adding `n` years is adding `12 * n` months; and both
keep the order of the dates. -/
theorem advance_spec (hd : d ≠ null) (n : ℤ) :
    (∀ r, d.advance n .months = some r ↔ r ≠ null ∧ r.monthIndex = d.monthIndex + n ∧
      r.dayOfMonth = min d.dayOfMonth (monthLength r.month (isLeap r.year))) ∧
    ((∃ r, d.advance n .months = some r) ↔ MonthInRange (d.monthIndex + n)) ∧
    d.advance n .years = d.advance (12 * n) .months ∧
    ∀ d', d ≤ d' → ∀ r r',
      (d.advance n .months = some r → d'.advance n .months = some r' → r ≤ r') ∧
      (d.advance n .years = some r → d'.advance n .years = some r' → r ≤ r') := by
  refine ⟨fun r => ?_, ?_, ?_, fun d' hle r r' => ⟨fun h h' => ?_, fun h h' => ?_⟩⟩
  · rw [advance_months_eq, onMonth_eq_some]
  · rw [advance_months_eq, onMonth_isSome (day_spec hd).1]
  · rw [advance_years_eq hd, advance_months_eq]
  · rw [advance_months_eq] at h h'
    exact onMonth_mono ((le_cases hle).imp (fun h => by omega) (fun h => ⟨by omega, h.2⟩)) h h'
  · have hd' : d' ≠ null := fun hn => hd (le_antisymm (hn ▸ hle) (null_le d))
    rw [advance_years_eq hd] at h
    rw [advance_years_eq hd'] at h'
    exact onMonth_mono ((le_cases hle).imp (fun h => by omega) (fun h => ⟨by omega, h.2⟩)) h h'

/-- A month after January 31st is the last of February. -/
theorem advance_spec_month :
    (new 31 .january 2024).bind (fun d => d.advance 1 .months) = new 29 .february 2024 ∧
      ∃ d : Date, d ≠ null ∧ d.advance 1 .years = d.advance (12 * 1) .months := by
  refine ⟨by decide +kernel, ⟨367, by decide⟩, by decide, ?_⟩
  exact (advance_spec (by decide) 1).2.2.1

/-! ### Months and days -/

/-- The serial number of the day before the `i`-th month. -/
def beforeMonth (i : ℤ) : ℤ := yearOffset ((i - 1) / 12) + monthOffset ((i - 1) % 12 + 1) (isLeap ((i - 1) / 12))

theorem serialNumber_eq_beforeMonth (d : Date) : d.serialNumber = d.dayOfMonth + beforeMonth d.monthIndex := by
  have hb := d.month.ordinal_bounds
  unfold beforeMonth monthIndex
  rw [show (12 * d.year + d.month.ordinal - 1) / 12 = d.year by omega,
    show (12 * d.year + d.month.ordinal - 1) % 12 + 1 = d.month.ordinal by omega, serialNumber_eq d]
  omega

/-- A month has 31 days at most. -/
theorem beforeMonth_succ (h : MonthInRange i) : beforeMonth (i + 1) ≤ beforeMonth i + 31 := by
  unfold MonthInRange at h
  obtain ⟨m, -, hm⟩ := exists_month (k := (i - 1) % 12 + 1) (by omega) (by omega)
  have hlength := monthLength_bounds m (isLeap ((i - 1) / 12))
  have hsucc := monthOffset_succ m (isLeap ((i - 1) / 12))
  rw [hm] at hsucc
  unfold beforeMonth
  by_cases hend : (i - 1) % 12 = 11
  · have hyear := yearOffset_succ (y := (i - 1) / 12) (by omega) (by omega)
    rw [show (i + 1 - 1) / 12 = (i - 1) / 12 + 1 by omega, show (i + 1 - 1) % 12 + 1 = 1 by omega, hyear]
    rw [hend] at hsucc ⊢
    have hfirst : monthOffset 1 (isLeap ((i - 1) / 12 + 1)) = 0 := by
      cases isLeap ((i - 1) / 12 + 1) <;> rfl
    rw [← monthOffset_end, hfirst]
    change monthOffset 13 _ = _ at hsucc
    omega
  · rw [show (i + 1 - 1) / 12 = (i - 1) / 12 by omega, show (i + 1 - 1) % 12 + 1 = (i - 1) % 12 + 1 + 1 by omega]
    omega

theorem beforeMonth_add (h : MonthInRange i) : ∀ k : ℕ, MonthInRange (i + k) → beforeMonth (i + k) ≤ beforeMonth i + 31 * k
  | 0, _      => by simp
  | k + 1, hk => by
    unfold MonthInRange at h hk
    push_cast at hk
    have hi : MonthInRange (i + k) := ⟨by omega, by omega⟩
    have hstep := beforeMonth_succ hi
    have ih := beforeMonth_add ⟨h.1, h.2⟩ k hi
    push_cast
    rw [← add_assoc]
    omega

/-- **So many times 31 days are so many months at least.** -/
theorem monthIndex_add_le (hd : d ≠ null) (hd' : d' ≠ null) (hn : 0 ≤ n) (h : 31 * n ≤ d'.serialNumber - d.serialNumber) :
    d.monthIndex + n ≤ d'.monthIndex := by
  have hle : d.monthIndex ≤ d'.monthIndex := monthIndex_mono (le_iff.2 (by omega))
  obtain ⟨k, hk⟩ := Int.eq_ofNat_of_zero_le (sub_nonneg.2 hle)
  have hindex : d'.monthIndex = d.monthIndex + k := by omega
  have hadd := beforeMonth_add (monthIndex_inRange hd) k (hindex ▸ monthIndex_inRange hd')
  have hday := day_spec hd
  have hday' := day_spec hd'
  have hlength := monthLength_bounds d'.month (isLeap d'.year)
  rw [serialNumber_eq_beforeMonth d, serialNumber_eq_beforeMonth d', hindex] at h
  omega

end Date
end Itofin
