import Itofin.Time.Period.Sum
/-!
# Normal — the normal form of a period

`normalize`, `Mul` and `DivAssign` of `time/period.rs`.  Two calendar periods are the `Same` when they are as many
months, or as many days, or both empty; `==` decides that without an overflow (`eq_iff_same`).  A `Normal` period is
the one of its class that `normalize` leaves alone (`normal_unique`), so equality is equality of normal forms, and the
laws of sums and quotients up to `==` are laws of the measure.
-/
namespace Itofin
namespace Period

/-- `normalize`, and `normalized` of a copy: it panics for the units below a day, unless the length is zero. -/
def normalize (self : Period) : Option Period :=
  if self.length = 0 then some ⟨self.length, .days⟩
  else match self.units with
    | .months => some (if self.length.tmod 12 = 0 then ⟨self.length.tdiv 12, .years⟩ else self)
    | .days   => some (if self.length.tmod 7 = 0 then ⟨self.length.tdiv 7, .weeks⟩ else self)
    | .weeks  => some self
    | .years  => some self
    | _       => none

/-- `period * n` -/
def mul (self : Period) (n : ℤ) : Option Period := do
  let length ← checked (self.length * n)
  some ⟨length, self.units⟩

/-- `a % n`, which panics for zero, and on the overflow of the least integer divided by minus one. -/
def checkedRem (a n : ℤ) : Option ℤ :=
  if n = 0 ∨ (a = -2147483648 ∧ n = -1) then none else some (a.tmod n)

/-- The unit refined: years to months, weeks to days. -/
def finer (self : Period) : Option Period :=
  match self.units with
  | .years => (checked (self.length * 12)).map (⟨·, .months⟩)
  | .weeks => (checked (self.length * 7)).map (⟨·, .days⟩)
  | _      => some self

/-- `self /= n`, in the unit of the period or else in the finer one. -/
def divAssign (self : Period) (n : ℤ) : Option Period :=
  if n = 0 then none
  else do
    let rem ← checkedRem self.length n
    if rem = 0 then some ⟨self.length.tdiv n, self.units⟩
    else do
      let p ← self.finer
      let rem ← checkedRem p.length n
      if rem = 0 then some ⟨p.length.tdiv n, p.units⟩ else none

variable {p q r s : Period} {n : ℤ}

/-! ## The same period -/

theorem length_eq_zero_iff (hp : isCalendarUnit p.units = true) : p.length = 0 ↔ p.measure = 0 := by
  have := sign_spec hp
  omega

theorem same_refl (p : Period) : Same p p := by rw [Same, if_pos rfl]

theorem same_symm (h : Same p q) : Same q p := by
  unfold Same at *
  by_cases hm : p.monthly = q.monthly
  · rw [if_pos hm] at h
    rw [if_pos hm.symm, h]
  · rw [if_neg hm] at h
    rw [if_neg (Ne.symm hm)]
    exact h.symm

theorem same_trans (hp : isCalendarUnit p.units = true) (hq : isCalendarUnit q.units = true)
    (hr : isCalendarUnit r.units = true) (h : Same p q) (h' : Same q r) : Same p r := by
  have zp := length_eq_zero_iff hp
  have zq := length_eq_zero_iff hq
  have zr := length_eq_zero_iff hr
  unfold Same at *
  cases mp : p.monthly <;> cases mq : q.monthly <;> cases mr : r.monthly <;>
    simp only [mp, mq, mr, if_true, if_false, Bool.true_eq_false, Bool.false_eq_true] at h h' ⊢ <;> omega

/-- The product a comparison of equal periods forms is the length of one of them. -/
theorem fits_of_same (hp : isCalendarUnit p.units = true) (hq : isCalendarUnit q.units = true)
    (ip : isI32 p.length) (iq : isI32 q.length) (h : Same p q) : Fits p q := by
  obtain ⟨m, u⟩ := p
  obtain ⟨k, v⟩ := q
  unfold Fits compared
  by_cases hc : m = 0 ∨ k = 0 ∨ u = v
  · rw [if_pos hc]
    exact fun x hx => absurd hx List.not_mem_nil
  rw [if_neg hc]
  simp only [Same, monthly, measure] at h ip iq
  rcases calendarUnit_cases hp with e | e | e | e <;> simp only at e <;> subst e <;>
    rcases calendarUnit_cases hq with e | e | e | e <;> simp only at e <;> subst e <;>
    simp_all

/-- **`==` decides whether two periods are the same.** -/
theorem eq_iff_same (hp : isCalendarUnit p.units = true) (hq : isCalendarUnit q.units = true)
    (ip : isI32 p.length) (iq : isI32 q.length) : p.eq q ↔ Same p q := by
  rw [eq_iff hp hq]
  exact ⟨And.right, fun h => ⟨fits_of_same hp hq ip iq h, h⟩⟩

/-! ## Normal forms -/

/-- A period that `normalize` leaves alone. -/
def Normal (p : Period) : Prop :=
  match p.units with
  | .days   => p.length = 0 ∨ p.length % 7 ≠ 0
  | .weeks  => p.length ≠ 0
  | .months => p.length % 12 ≠ 0
  | .years  => p.length ≠ 0
  | _       => False

theorem normalize_of_normal (h : Normal p) : p.normalize = some p := by
  obtain ⟨m, u⟩ := p
  cases u <;> simp only [Normal, normalize, ← Int.dvd_iff_tmod_eq_zero] at h ⊢ <;> grind

/-- **The normal form**: the same period, and one that stays. -/
theorem normalize_spec (hp : isCalendarUnit p.units = true) :
    ∃ q, p.normalize = some q ∧ isCalendarUnit q.units = true ∧ Normal q ∧ Same p q := by
  by_cases hz : p.length = 0
  · refine ⟨⟨p.length, .days⟩, by rw [normalize, if_pos hz], rfl, .inl hz, ?_⟩
    have zp := (length_eq_zero_iff hp).mp hz
    unfold Same
    split
    · rw [zp, measure, hz]
    · exact ⟨hz, hz⟩
  rw [normalize, if_neg hz]
  obtain ⟨m, u⟩ := p
  rcases calendarUnit_cases hp with e | e | e | e <;> simp only at e <;> subst e
  · refine ⟨_, rfl, ?_⟩
    by_cases h : m.tmod 7 = 0
    · have hm := Int.tdiv_mul_cancel (Int.dvd_iff_tmod_eq_zero.mpr h)
      simp only [if_pos h]
      refine ⟨rfl, fun h₀ : m.tdiv 7 = 0 => hz (by change m = 0; omega), ?_⟩
      change m = 7 * m.tdiv 7
      omega
    · simp only [if_neg h, Normal]
      exact ⟨rfl, .inr (fun h' => h (Int.dvd_iff_tmod_eq_zero.mp (Int.dvd_of_emod_eq_zero h'))), same_refl _⟩
  · exact ⟨_, rfl, rfl, hz, same_refl _⟩
  · refine ⟨_, rfl, ?_⟩
    by_cases h : m.tmod 12 = 0
    · have hm := Int.tdiv_mul_cancel (Int.dvd_iff_tmod_eq_zero.mpr h)
      simp only [if_pos h]
      refine ⟨rfl, fun h₀ : m.tdiv 12 = 0 => hz (by change m = 0; omega), ?_⟩
      change m = 12 * m.tdiv 12
      omega
    · simp only [if_neg h, Normal]
      exact ⟨rfl, fun h' => h (Int.dvd_iff_tmod_eq_zero.mp (Int.dvd_of_emod_eq_zero h')), same_refl _⟩
  · exact ⟨_, rfl, rfl, hz, same_refl _⟩

/-- **A class has one normal form.** -/
theorem normal_unique (hp : Normal p) (hq : Normal q) (h : Same p q) : p = q := by
  obtain ⟨m, u⟩ := p
  obtain ⟨k, v⟩ := q
  rw [Same] at h
  cases u <;> cases v <;> simp only [Normal, monthly, measure] at hp hq h <;>
    simp only [Period.mk.injEq, reduceCtorEq, and_true, and_false, decide_false, decide_true, Bool.or_true,
      Bool.or_false, if_true, if_false, Bool.false_eq_true, Bool.true_eq_false] at h ⊢ <;> omega

theorem same_iff_normalize (hp : isCalendarUnit p.units = true) (hq : isCalendarUnit q.units = true) :
    Same p q ↔ p.normalize = q.normalize := by
  obtain ⟨p', hp', up, np, sp⟩ := normalize_spec hp
  obtain ⟨q', hq', uq, nq, sq⟩ := normalize_spec hq
  rw [hp', hq', Option.some.injEq]
  constructor
  · intro h
    have h₁ : Same p' q := same_trans up hp hq (same_symm sp) h
    exact normal_unique np nq (same_trans up hq uq h₁ sq)
  · rintro rfl
    exact same_trans hp up hq sp (same_symm sq)

/-! ## Sums and quotients -/

theorem plus_comm (hp : isCalendarUnit p.units = true) (hq : isCalendarUnit q.units = true)
    (h : p.plus q = some r) : ∃ s, q.plus p = some s ∧ isCalendarUnit r.units = true ∧
      isCalendarUnit s.units = true ∧ Same r s := by
  obtain ⟨m, u⟩ := p
  obtain ⟨k, v⟩ := q
  rcases calendarUnit_cases hp with e | e | e | e <;> simp only at e <;> subst e <;>
    rcases calendarUnit_cases hq with e | e | e | e <;> simp only at e <;> subst e <;>
    simp only [plus] at h ⊢ <;> by_cases hm : m = 0 <;> by_cases hk : k = 0 <;>
    simp only [hm, hk, if_true, if_false, reduceCtorEq, Option.some.injEq] at h <;> subst h <;>
    simp [hm, hk, isCalendarUnit, Same, monthly, measure] <;> omega

theorem checked_eq_some {m k : ℤ} : checked m = some k ↔ isI32 m ∧ m = k := by
  rw [checked]
  split <;> simp_all

theorem checkedRem_eq_zero {a : ℤ} (h : checkedRem a n = some 0) : n ∣ a := by
  rw [checkedRem] at h
  split at h
  · cases h
  · exact Int.dvd_iff_tmod_eq_zero.mpr (Option.some.inj h)

theorem finer_spec (hp : isCalendarUnit p.units = true) (ip : isI32 p.length) (h : p.finer = some s) :
    isCalendarUnit s.units = true ∧ isI32 s.length ∧ Same s p := by
  obtain ⟨m, u⟩ := p
  rcases calendarUnit_cases hp with e | e | e | e <;> simp only at e <;> subst e <;>
    simp only [finer, Option.map_eq_some_iff, checked_eq_some, Option.some.injEq] at h
  · exact h ▸ ⟨rfl, ip, same_refl _⟩
  · obtain ⟨k, ⟨hi, rfl⟩, rfl⟩ := h
    exact ⟨rfl, hi, mul_comm m 7⟩
  · exact h ▸ ⟨rfl, ip, same_refl _⟩
  · obtain ⟨k, ⟨hi, rfl⟩, rfl⟩ := h
    exact ⟨rfl, hi, mul_comm m 12⟩

/-- **What a quotient is of**: the period, or the period in its finer unit. -/
theorem divAssign_eq_some (h : p.divAssign n = some r) :
    ∃ s, (s = p ∨ p.finer = some s) ∧ n ∣ s.length ∧ r = ⟨s.length.tdiv n, s.units⟩ := by
  rw [divAssign] at h
  split at h
  · cases h
  obtain ⟨rem, hrem, h⟩ := Option.bind_eq_some_iff.mp h
  split at h
  · rename_i hz
    rw [hz] at hrem
    exact ⟨p, .inl rfl, checkedRem_eq_zero hrem, (Option.some.inj h).symm⟩
  obtain ⟨s, hs, h⟩ := Option.bind_eq_some_iff.mp h
  obtain ⟨rem', hrem', h⟩ := Option.bind_eq_some_iff.mp h
  split at h
  · rename_i hz
    rw [hz] at hrem'
    exact ⟨s, .inr hs, checkedRem_eq_zero hrem', (Option.some.inj h).symm⟩
  · cases h

theorem mul_divAssign (hp : isCalendarUnit p.units = true) (ip : isI32 p.length) (h : p.divAssign n = some r) :
    ∃ s, r.mul n = some s ∧ isCalendarUnit s.units = true ∧ isI32 s.length ∧ Same s p := by
  obtain ⟨s, hs, hn, rfl⟩ := divAssign_eq_some h
  have hspec : isCalendarUnit s.units = true ∧ isI32 s.length ∧ Same s p := by
    rcases hs with rfl | hs
    · exact ⟨hp, ip, same_refl _⟩
    · exact finer_spec hp ip hs
  refine ⟨s, ?_, hspec⟩
  rw [mul, Int.tdiv_mul_cancel hn, checked_eq_some.mpr ⟨hspec.2.1, rfl⟩]
  rfl

/-- **The algebra of calendar periods.**  `normalized` is idempotent; `==` is equality of normal forms; a sum that is
defined is, added the other way without an overflow, equal; and a quotient times its divisor equals the period. -/
theorem normal_form (hp : isCalendarUnit p.units = true) (ip : isI32 p.length) :
    (∃ p', p.normalize = some p' ∧ p'.normalize = some p') ∧
    (∀ q, isCalendarUnit q.units = true → isI32 q.length →
      (p.eq q ↔ p.normalize = q.normalize) ∧
      ∀ r, p.addAssign q = some r → SumFits q p → ∃ s, q.addAssign p = some s ∧ r.eq s) ∧
    ∀ n r, p.divAssign n = some r → ∃ s, r.mul n = some s ∧ s.eq p := by
  refine ⟨?_, fun q hq iq => ⟨?_, fun r hr hfits => ?_⟩, fun n r hr => ?_⟩
  · obtain ⟨p', hp', -, np, -⟩ := normalize_spec hp
    exact ⟨p', hp', normalize_of_normal np⟩
  · rw [eq_iff_same hp hq ip iq, same_iff_normalize hp hq]
  · rw [addAssign_eq] at hr
    have hfits' : SumFits p q := by
      by_contra hn
      rw [if_neg hn] at hr
      cases hr
    rw [if_pos hfits'] at hr
    obtain ⟨s, hs, ur, us, hrs⟩ := plus_comm hp hq hr
    refine ⟨s, by rw [addAssign_eq, if_pos hfits, hs], ?_⟩
    exact (eq_iff_same ur us (isI32_plus ip iq hfits' hr) (isI32_plus iq ip hfits hs)).mpr hrs
  · obtain ⟨s, hs, us, is, hsp⟩ := mul_divAssign hp ip hr
    exact ⟨s, hs, (eq_iff_same us hp is ip).mpr hsp⟩

/-- A year is twice six months, and twelve months are a year. -/
theorem normal_form_year : (∃ s, mul ⟨6, .months⟩ 2 = some s ∧ s.eq ⟨1, .years⟩) ∧
    (eq ⟨12, .months⟩ ⟨1, .years⟩ ↔ normalize ⟨12, .months⟩ = normalize ⟨1, .years⟩) :=
  ⟨(normal_form (p := ⟨1, .years⟩) rfl (by decide)).2.2 2 ⟨6, .months⟩ (by decide),
    ((normal_form (p := ⟨12, .months⟩) rfl (by decide)).2.1 ⟨1, .years⟩ rfl (by decide)).1⟩

end Period
end Itofin
