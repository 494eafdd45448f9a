import Itofin.Indexes.InflationPeriod
/-!
# Seasonality — the factor of a date

`MultiplicativePriceSeasonality` of `termstructures/inflation/seasonality.rs`: which of its factors a date has.  The month
branch guesses a number of periods and walks on one at a time; the guess never goes too far (`start_spec`), and every turn
goes on by one period (`walk_spec`), so that the walk ends in the date's period after as many turns as are missing.  The
day and week branches divide.
-/
namespace Itofin

open Inflation

/-- `Display` -/
def TimeUnit.display : TimeUnit → String
  | days         => "Days"
  | weeks        => "Weeks"
  | months       => "Months"
  | years        => "Years"
  | hours        => "Hours"
  | minutes      => "Minutes"
  | seconds      => "Seconds"
  | milliseconds => "Milliseconds"
  | microseconds => "Microseconds"

/-- `Period::try_from` -/
def Period.tryFrom (f : Frequency) : Except Stop Period :=
  let n := f.toInt
  match f with
  | .noFrequency                                                              => .ok ⟨0, .days⟩
  | .once                                                                     => .ok ⟨0, .years⟩
  | .annual                                                                   => .ok ⟨1, .years⟩
  | .semiannual | .everyFourthMonth | .quarterly | .bimonthly | .monthly      => .ok ⟨12 / n, .months⟩
  | .everyFourthWeek | .biweekly | .weekly                                    => .ok ⟨52 / n, .weeks⟩
  | .daily                                                                    => .ok ⟨1, .days⟩
  | .otherFrequency => .error (.error "cannot build a Period from an unknown frequency")

/-- The frequencies from semi-annual through daily. -/
def permittedFrequencies : List Frequency :=
  [.semiannual, .everyFourthMonth, .quarterly, .bimonthly, .monthly, .biweekly, .weekly, .daily]

/-- The invariant is what `validate` checks. -/
structure MultiplicativePriceSeasonality (K : Type) where
  seasonalityBaseDate : Date
  frequency : Frequency
  seasonalityFactors : List K
  permitted : frequency ∈ permittedFrequencies
  nonempty : seasonalityFactors ≠ []
  multiple : frequency.toInt ∣ seasonalityFactors.length

namespace MultiplicativePriceSeasonality

variable {K : Type}

def new (seasonalityBaseDate : Date) (frequency : Frequency) (seasonalityFactors : List K) :
    Except String (MultiplicativePriceSeasonality K) :=
  if permitted : frequency ∈ permittedFrequencies then
    if nonempty : seasonalityFactors ≠ [] then
      if multiple : frequency.toInt ∣ seasonalityFactors.length then
        .ok ⟨seasonalityBaseDate, frequency, seasonalityFactors, permitted, nonempty, multiple⟩
      else .error ("For frequency " ++ frequency.display ++ " require multiple of " ++ toString frequency.toInt ++ " factors " ++
        toString seasonalityFactors.length ++ " were given.")
    else .error "no seasonality factors given"
  else .error ("bad frequency specified: " ++ frequency.display ++ ", only semi-annual through daily permitted.")

/-- `date + period`; the null date has no month. -/
def addMonths (date : Date) (p : Period) : Option Date := if date = Date.null then none else date.addPeriod p

/-- `while !(lim.0 <= go && go <= lim.1)`; `none` is that the turns did not do. -/
def walk (factorPeriod : Period) (dir : ℤ) (lim : Date × Date) : ℕ → Date → ℤ → Option (Except Stop ℤ)
  | 0, _, _             => none
  | turns + 1, go, steps =>
    if lim.1 ≤ go ∧ go ≤ lim.2 then some (.ok steps)
    else match go.addPeriod (factorPeriod.scale dir) with
      | some go => walk factorPeriod dir lim turns go (steps + 1)
      | none    => some (.error .panic)

variable (self : MultiplicativePriceSeasonality K)

/-- The signed number of factor periods, as the branches count it. -/
def countPeriods (factorPeriod : Period) (dir diffDays : ℤ) (turns : ℕ) (date : Date) : Option (Except Stop ℤ) :=
  match factorPeriod.units with
  | .days   => some (.ok (dir * diffDays))
  | .weeks  => some (.ok (dir * (diffDays / 7)))
  | .months =>
    match inflationPeriod date self.frequency with
    | .error e => some (.error e)
    | .ok lim  =>
      let steps := diffDays / (31 * factorPeriod.length)
      match addMonths self.seasonalityBaseDate (factorPeriod.scale (dir * steps)) with
      | some go => (walk factorPeriod dir lim turns go steps).map (Except.map (dir * ·))
      | none    => some (.error .panic)
  | .years  => some (.error (.error ("seasonality period time unit is not allowed to be : " ++ TimeUnit.display .years)))
  | unit    => some (.error (.error ("Unknown time unit: " ++ unit.display)))

/-- The wrap into the factors. -/
def wrap (nFactors : ℕ) (dir diff : ℤ) : ℕ :=
  if dir = 1 then diff.toNat % nFactors else (nFactors - (-diff).toNat % nFactors) % nFactors

/-- The index of the factor covering a date; `turns` bounds the turns of the loop. -/
def which (turns : ℕ) (date : Date) : Option (Except Stop ℕ) :=
  match Period.tryFrom self.frequency with
  | .error e         => some (.error e)
  | .ok factorPeriod =>
    if self.seasonalityBaseDate = date then some (.ok 0)
    else
      let diffDays := |date.serialNumber - self.seasonalityBaseDate.serialNumber|
      let dir := if date < self.seasonalityBaseDate then -1 else 1
      (self.countPeriods factorPeriod dir diffDays turns date).map
        (Except.map (wrap self.seasonalityFactors.length dir))

def seasonalityFactor (turns : ℕ) (date : Date) : Option (Except Stop K) :=
  (self.which turns date).map fun which => which.bind fun which =>
    match self.seasonalityFactors[which]? with
    | some factor => .ok factor
    | none        => .error .panic

/-! ## The factor of a date -/

/-- The signed number of periods from the base date to a date: of inflation periods between theirs, or of whole periods of
days, rounded down. -/
def IsOffset (date : Date) (k : ℤ) : Prop :=
  match Period.tryFrom self.frequency with
  | .ok ⟨length, .months⟩ => ∃ start stop, inflationPeriod self.seasonalityBaseDate self.frequency = .ok start ∧
    inflationPeriod date self.frequency = .ok stop ∧ start.1.advance (k * length) .months = some stop.1
  | .ok ⟨length, .weeks⟩  => k = (date.serialNumber - self.seasonalityBaseDate.serialNumber) / (7 * length)
  | .ok ⟨length, .days⟩   => k = (date.serialNumber - self.seasonalityBaseDate.serialNumber) / length
  | _                     => False

/-- The lookup ends, at the remainder of an offset. -/
def Lands (date : Date) (k : ℤ) : Prop :=
  ∃ enough, ∀ turns, enough ≤ turns →
    self.which turns date = some (.ok (k % self.seasonalityFactors.length).toNat) ∧
    ∃ factor, self.seasonalityFactors[(k % self.seasonalityFactors.length).toNat]? = some factor ∧
      self.seasonalityFactor turns date = some (.ok factor)

/-- **The factor of a date is the one at its offset**, by the remainder. -/
def Picks (date : Date) : Prop := ∃ k, self.IsOffset date k ∧ self.Lands date k

/-- Where the branches count the periods that the factors step at. -/
def Aligned (date : Date) : Prop :=
  let days := date.serialNumber - self.seasonalityBaseDate.serialNumber
  let n : ℤ := self.seasonalityFactors.length
  match self.frequency with
  | .daily    => True
  | .weekly   => 0 ≤ days ∨ 7 ∣ days
  | .biweekly => if 0 ≤ days then n ∣ (days + 7) / 14
    else n ∣ -days / 14 - if 0 < -days % 14 ∧ -days % 14 < 7 then 1 else 0
  | _         => self.seasonalityBaseDate ≠ Date.null ∧ date ≠ Date.null

/-! ### The walk -/

section Walk

open Date

variable {f : Frequency} {d d' go : Date} {p dir steps : ℤ} {lim : Date × Date}

theorem periodIndex_bounds (h : Handled f) (d : Date) :
    monthsOf f * periodIndex f d + 1 ≤ d.monthIndex ∧ d.monthIndex ≤ monthsOf f * periodIndex f d + monthsOf f := by
  unfold periodIndex
  rcases monthsOf_cases h with h | h | h | h | h | h <;> rw [h] <;> omega

theorem exists_advance (h : Handled f) (hd : d ≠ null) (hd' : d' ≠ null) {k : ℤ}
    (hk : (0 ≤ k ∧ periodIndex f d + k ≤ periodIndex f d') ∨ (k ≤ 0 ∧ periodIndex f d' ≤ periodIndex f d + k)) :
    ∃ r, d.advance (k * monthsOf f) .months = some r ∧ r ≠ null ∧ periodIndex f r = periodIndex f d + k := by
  have hrange : MonthInRange (d.monthIndex + k * monthsOf f) := by
    have hb := periodIndex_bounds h d
    have hd₁ := period_inRange h hd
    have hd₂ := period_inRange h hd'
    unfold MonthInRange at *
    rcases monthsOf_cases h with hm | hm | hm | hm | hm | hm <;> rw [hm] at hb hd₁ hd₂ ⊢ <;> omega
  obtain ⟨r, hr⟩ := (onMonth_isSome (day_spec hd).1).2 hrange
  refine ⟨r, advance_months_eq.trans hr, (onMonth_eq_some.1 hr).1, ?_⟩
  have hindex := (onMonth_eq_some.1 hr).2.1
  unfold periodIndex
  rcases monthsOf_cases h with hm | hm | hm | hm | hm | hm <;> rw [hm] at hindex ⊢ <;> omega

/-- **Every turn goes on by one period**, so that as many are enough as are missing. -/
theorem walk_spec (h : Handled f) (hd : d ≠ null) (hlim : Bounds f (periodIndex f d) lim) (hdir : dir = 1 ∨ dir = -1) :
    ∀ (r : ℕ) (go : Date) (steps : ℤ) (turns : ℕ), go ≠ null → periodIndex f go + dir * r = periodIndex f d → r < turns →
      walk ⟨monthsOf f, .months⟩ dir lim turns go steps = some (.ok (steps + r))
  | 0, go, steps, turns + 1, hgo, hp, _         => by
    rw [walk, if_pos ((hlim.mem_iff h hgo).2 (by simpa using hp))]
    simp
  | r + 1, go, steps, turns + 1, hgo, hp, hturns => by
    push_cast at hp
    have hout : ¬ (lim.1 ≤ go ∧ go ≤ lim.2) := by
      rw [hlim.mem_iff h hgo]
      rcases hdir with rfl | rfl <;> omega
    obtain ⟨next, hnext, hne, hindex⟩ := exists_advance (k := dir) h hgo hd (by rcases hdir with rfl | rfl <;> omega)
    have hstep : go.addPeriod (Period.scale dir ⟨monthsOf f, .months⟩) = some next := hnext
    have ih := walk_spec h hd hlim hdir r next (steps + 1) turns hne (by rcases hdir with rfl | rfl <;> omega) (by omega)
    rw [walk, if_neg hout, hstep]
    change walk _ _ _ _ _ _ = _
    rw [ih]
    push_cast
    rw [add_assoc, add_comm 1 (r : ℤ)]

/-- **The guess does not go too far**: the periods that it skips have 31 days a month. -/
theorem start_spec (h : Handled f) (hd : d ≠ null) (hd' : d' ≠ null) (hdir : dir = if d' < d then -1 else 1) :
    ∃ (go : Date) (r : ℕ), addMonths d (Period.scale (dir * (|d'.serialNumber - d.serialNumber| / (31 * monthsOf f)))
        ⟨monthsOf f, .months⟩) = some go ∧ go ≠ null ∧ periodIndex f go + dir * r = periodIndex f d' ∧
      |d'.serialNumber - d.serialNumber| / (31 * monthsOf f) + r = dir * (periodIndex f d' - periodIndex f d) := by
  generalize hguess : |d'.serialNumber - d.serialNumber| / (31 * monthsOf f) = guess
  have hpos : 0 < monthsOf f := by rcases monthsOf_cases h with h | h | h | h | h | h <;> omega
  have habs := abs_nonneg (d'.serialNumber - d.serialNumber)
  have hguess_nonneg : 0 ≤ guess := by
    rw [← hguess]
    exact Int.ediv_nonneg habs (by omega)
  have hdays : 31 * (guess * monthsOf f) ≤ |d'.serialNumber - d.serialNumber| := by
    have := Int.ediv_mul_le |d'.serialNumber - d.serialNumber| (show 31 * monthsOf f ≠ 0 by omega)
    rw [hguess] at this
    linarith
  have hmul : 0 ≤ guess * monthsOf f := mul_nonneg hguess_nonneg hpos.le
  have hbounds := periodIndex_bounds h d
  have hbounds' := periodIndex_bounds h d'
  -- in months, and so in periods
  have hperiods : (dir = 1 ∧ periodIndex f d + guess ≤ periodIndex f d') ∨
      (dir = -1 ∧ periodIndex f d' ≤ periodIndex f d + -guess) := by
    split_ifs at hdir with hlt
    · right
      rw [lt_iff] at hlt
      rw [abs_of_nonpos (by omega)] at hdays
      have hmonths := monthIndex_add_le hd' hd hmul (by omega)
      refine ⟨hdir, ?_⟩
      unfold periodIndex
      rcases monthsOf_cases h with hm | hm | hm | hm | hm | hm <;> rw [hm] at hmonths ⊢ <;> omega
    · left
      rw [lt_iff] at hlt
      rw [abs_of_nonneg (by omega)] at hdays
      have hmonths := monthIndex_add_le hd hd' hmul (by omega)
      refine ⟨hdir, ?_⟩
      unfold periodIndex
      rcases monthsOf_cases h with hm | hm | hm | hm | hm | hm <;> rw [hm] at hmonths ⊢ <;> omega
  obtain ⟨go, hgo, hne, hindex⟩ := exists_advance (k := dir * guess) h hd hd'
    (by rcases hperiods with ⟨rfl, hp⟩ | ⟨rfl, hp⟩ <;> omega)
  refine ⟨go, (dir * (periodIndex f d' - periodIndex f go)).toNat, ?_, hne, ?_, ?_⟩
  · rw [addMonths, if_neg hd]
    exact hgo
  · rcases hperiods with ⟨rfl, hp⟩ | ⟨rfl, hp⟩ <;> omega
  · rcases hperiods with ⟨rfl, hp⟩ | ⟨rfl, hp⟩ <;> omega

theorem advance_first_iff (h : Handled f) {p p' k : ℤ} {bounds bounds' : Date × Date} (hb : Bounds f p bounds)
    (hb' : Bounds f p' bounds') : bounds.1.advance (k * monthsOf f) .months = some bounds'.1 ↔ k = p' - p := by
  obtain ⟨hne, hindex, hday⟩ := onMonth_eq_some.1 hb.first
  obtain ⟨hne', hindex', -⟩ := onMonth_eq_some.1 hb'.first
  have hlength := monthLength_bounds bounds.1.month (isLeap bounds.1.year)
  rw [advance_months_eq, hday, min_eq_left (by omega)]
  constructor
  · intro hk
    have := (onMonth_eq_some.1 hk).2.1
    rcases monthsOf_cases h with hm | hm | hm | hm | hm | hm <;> rw [hm] at this hindex hindex' <;> omega
  · rintro rfl
    rw [hindex, ← hb'.first]
    congr 1
    ring

end Walk

/-! ### The wrap -/

theorem wrap_eq {n : ℕ} {dir diff : ℤ} (hn : 0 < n) (h : dir = 1 ∧ 0 ≤ diff ∨ dir = -1 ∧ diff ≤ 0) :
    wrap n dir diff = (diff % n).toNat := by
  unfold wrap
  rcases h with ⟨rfl, hdiff⟩ | ⟨rfl, hdiff⟩
  · obtain ⟨m, rfl⟩ := Int.eq_ofNat_of_zero_le hdiff
    rw [if_pos rfl]
    exact congrArg Int.toNat (Int.natCast_mod m n)
  · obtain ⟨m, hm⟩ := Int.eq_ofNat_of_zero_le (neg_nonneg.2 hdiff)
    obtain rfl : diff = -m := by omega
    rw [if_neg (by decide), neg_neg, Int.toNat_natCast]
    have hlt := Nat.mod_lt m hn
    have hmod : (-(m : ℤ)) % n = ((n - m % n : ℕ) : ℤ) % n := by
      rw [Nat.cast_sub hlt.le, Int.natCast_mod]
      rw [Int.emod_eq_emod_iff_emod_sub_eq_zero]
      have hdvd : (n : ℤ) ∣ -(m : ℤ) - (n - (m : ℤ) % n) :=
        ⟨-((m : ℤ) / n) - 1, by have := Int.emod_add_mul_ediv (m : ℤ) n; linarith⟩
      exact Int.emod_eq_zero_of_dvd hdvd
    rw [hmod, ← Int.natCast_mod, Int.toNat_natCast]

theorem toNat_emod_inj {n : ℕ} {a b : ℤ} (hn : 0 < n) : (a % n).toNat = (b % n).toNat ↔ (n : ℤ) ∣ a - b := by
  have ha := Int.emod_nonneg a (Nat.cast_pos.2 hn).ne'
  have hb := Int.emod_nonneg b (Nat.cast_pos.2 hn).ne'
  rw [Int.dvd_iff_emod_eq_zero, ← Int.emod_eq_emod_iff_emod_sub_eq_zero]
  exact ⟨fun h => by omega, fun h => by rw [h]⟩

section Lookup

open Date

variable {self} {date : Date} {k diff : ℤ} {turns : ℕ} {n : ℤ} {period : Period}

theorem length_pos : 0 < self.seasonalityFactors.length := List.length_pos_iff.2 self.nonempty

theorem which_eq (hperiod : Period.tryFrom self.frequency = .ok period)
    (hsign : if date < self.seasonalityBaseDate then diff ≤ 0 else 0 ≤ diff)
    (hbase : self.seasonalityBaseDate = date → diff = 0)
    (hcount : self.countPeriods period (if date < self.seasonalityBaseDate then -1 else 1)
      |date.serialNumber - self.seasonalityBaseDate.serialNumber| turns date = some (.ok diff)) :
    self.which turns date = some (.ok (diff % self.seasonalityFactors.length).toNat) := by
  unfold which
  rw [hperiod]
  dsimp only
  by_cases h : self.seasonalityBaseDate = date
  · rw [if_pos h, hbase h, Int.zero_emod]
    rfl
  · rw [if_neg h, hcount]
    change some (Except.ok (wrap _ _ diff)) = _
    rw [wrap_eq length_pos]
    split_ifs at hsign ⊢ with hlt
    · exact .inr ⟨rfl, hsign⟩
    · exact .inl ⟨rfl, hsign⟩

/-- The lookup lands at an offset exactly when its index is the same. -/
theorem lands_iff {enough : ℕ} (h : ∀ turns, enough ≤ turns →
    self.which turns date = some (.ok (diff % self.seasonalityFactors.length).toNat)) :
    self.Lands date k ↔ (self.seasonalityFactors.length : ℤ) ∣ diff - k := by
  rw [← toNat_emod_inj length_pos]
  constructor
  · rintro ⟨enough', h'⟩
    have hwhich := (h' (max enough enough') (le_max_right _ _)).1
    rw [h _ (le_max_left _ _)] at hwhich
    exact Except.ok.inj (Option.some.inj hwhich)
  · intro heq
    have hlt : (k % self.seasonalityFactors.length).toNat < self.seasonalityFactors.length := by
      have hpos : (0 : ℤ) < self.seasonalityFactors.length := Nat.cast_pos.2 length_pos
      have := Int.emod_lt_of_pos k hpos
      have := Int.emod_nonneg k hpos.ne'
      omega
    refine ⟨enough, fun turns hturns => ⟨heq ▸ h turns hturns, _, List.getElem?_eq_getElem hlt, ?_⟩⟩
    unfold seasonalityFactor
    rw [h turns hturns, heq]
    simp only [Option.map_some, Except.bind, List.getElem?_eq_getElem hlt]

/-! ### The frequencies -/

theorem picks_months (hf : Handled self.frequency)
    (hperiod : Period.tryFrom self.frequency = .ok ⟨monthsOf self.frequency, .months⟩) :
    self.Picks date ↔ self.seasonalityBaseDate ≠ null ∧ date ≠ null := by
  constructor
  · rintro ⟨k, hk, -⟩
    unfold IsOffset at hk
    rw [hperiod] at hk
    obtain ⟨start, stop, hstart, hstop, -⟩ := hk
    constructor
    · intro h
      rw [h] at hstart
      exact absurd hstart nofun
    · rintro rfl
      exact absurd hstop nofun
  · rintro ⟨hbase, hdate⟩
    obtain ⟨start, hstart, hstart'⟩ := inflationPeriod_spec hf hbase
    obtain ⟨stop, hstop, hstop'⟩ := inflationPeriod_spec hf hdate
    let k := periodIndex self.frequency date - periodIndex self.frequency self.seasonalityBaseDate
    obtain ⟨go, r, hgo, hne, hindex, hsteps⟩ := start_spec hf hbase hdate rfl
    have hwhich : ∀ turns, r + 1 ≤ turns →
        self.which turns date = some (.ok (k % self.seasonalityFactors.length).toNat) := by
      intro turns hturns
      have hwalk := walk_spec hf hdate hstop' (by split_ifs <;> simp) r go
        (|date.serialNumber - self.seasonalityBaseDate.serialNumber| / (31 * monthsOf self.frequency)) turns hne hindex hturns
      have hpos : 0 < monthsOf self.frequency := by rcases monthsOf_cases hf with h | h | h | h | h | h <;> omega
      have hsteps_nonneg : 0 ≤ |date.serialNumber - self.seasonalityBaseDate.serialNumber| /
          (31 * monthsOf self.frequency) := Int.ediv_nonneg (abs_nonneg _) (by omega)
      refine which_eq hperiod ?_ (fun h => ?_) ?_
      · split_ifs at hsteps ⊢ with hlt <;> omega
      · simp only [k, h, sub_self]
      · unfold countPeriods
        dsimp only
        rw [hstop]
        dsimp only
        rw [hgo]
        dsimp only
        rw [hwalk, hsteps]
        refine congrArg (fun diff => some (Except.ok diff)) ?_
        dsimp only
        split_ifs <;> simp [k]
    refine ⟨k, ?_, (lands_iff hwhich).2 (by rw [sub_self]; exact dvd_zero _)⟩
    unfold IsOffset
    rw [hperiod]
    exact ⟨start, stop, hstart, hstop, (advance_first_iff hf hstart' hstop').2 rfl⟩

theorem picks_days (hperiod : Period.tryFrom self.frequency = .ok ⟨1, .days⟩) : self.Picks date := by
  let k := date.serialNumber - self.seasonalityBaseDate.serialNumber
  have hwhich : ∀ turns, 0 ≤ turns →
      self.which turns date = some (.ok (k % self.seasonalityFactors.length).toNat) := by
    intro turns _
    refine which_eq hperiod ?_ (fun h => ?_) ?_
    · split_ifs with hlt <;> rw [lt_iff] at hlt <;> omega
    · simp only [k, h, sub_self]
    · refine congrArg (fun diff => some (Except.ok diff)) ?_
      split_ifs with hlt <;> rw [lt_iff] at hlt
      · rw [abs_of_nonpos (by omega)]
        omega
      · rw [abs_of_nonneg (by omega)]
        omega
  refine ⟨k, ?_, (lands_iff hwhich).2 (by rw [sub_self]; exact dvd_zero _)⟩
  unfold IsOffset
  rw [hperiod]
  exact (Int.ediv_one _).symm

theorem tdiv_of_neg {days : ℤ} (h : days < 0) : days.tdiv 7 = -(-days / 7) := by
  rw [← Int.tdiv_eq_ediv_of_nonneg (by omega), Int.neg_tdiv, neg_neg]

/-- The branch counts single weeks, rounded towards the base date. -/
theorem picks_weeks (hperiod : Period.tryFrom self.frequency = .ok ⟨n, .weeks⟩) :
    self.Picks date ↔ (self.seasonalityFactors.length : ℤ) ∣
      (date.serialNumber - self.seasonalityBaseDate.serialNumber).tdiv 7 -
        (date.serialNumber - self.seasonalityBaseDate.serialNumber) / (7 * n) := by
  have hwhich : ∀ turns, 0 ≤ turns → self.which turns date = some
      (.ok ((date.serialNumber - self.seasonalityBaseDate.serialNumber).tdiv 7 % self.seasonalityFactors.length).toNat) := by
    intro turns _
    refine which_eq hperiod ?_ (fun h => ?_) ?_
    · split_ifs with hlt <;> rw [lt_iff] at hlt
      · rw [tdiv_of_neg (by omega)]
        omega
      · exact Int.tdiv_nonneg (by omega) (by decide)
    · rw [h, sub_self]
      rfl
    · refine congrArg (fun diff => some (Except.ok diff)) ?_
      split_ifs with hlt <;> rw [lt_iff] at hlt
      · rw [abs_of_nonpos (by omega), ← Int.tdiv_eq_ediv_of_nonneg (by omega), Int.neg_tdiv]
        omega
      · rw [abs_of_nonneg (by omega), one_mul, Int.tdiv_eq_ediv_of_nonneg (by omega)]
  constructor
  · rintro ⟨k, hk, hlands⟩
    unfold IsOffset at hk
    rw [hperiod] at hk
    subst hk
    exact (lands_iff hwhich).1 hlands
  · intro h
    refine ⟨_, ?_, (lands_iff hwhich).2 h⟩
    unfold IsOffset
    rw [hperiod]

theorem weekly_iff (hn : (52 : ℤ) ∣ self.seasonalityFactors.length) (days : ℤ) :
    (self.seasonalityFactors.length : ℤ) ∣ days.tdiv 7 - days / 7 ↔ 0 ≤ days ∨ 7 ∣ days := by
  have hpos : 0 < self.seasonalityFactors.length := length_pos
  by_cases h : 0 ≤ days
  · rw [Int.tdiv_eq_ediv_of_nonneg h, sub_self]
    exact iff_of_true (dvd_zero _) (.inl h)
  · rw [tdiv_of_neg (not_le.1 h)]
    constructor
    · intro hdvd
      right
      by_contra hmod
      have hone : -(-days / 7) - days / 7 = 1 := by omega
      rw [hone] at hdvd
      have := Int.le_of_dvd one_pos (hn.trans hdvd)
      omega
    · rintro (h' | h')
      · exact absurd h' h
      · have hzero : -(-days / 7) - days / 7 = 0 := by omega
        rw [hzero]
        exact dvd_zero _

theorem biweekly_iff (n days : ℤ) : n ∣ days.tdiv 7 - days / 14 ↔
    if 0 ≤ days then n ∣ (days + 7) / 14
    else n ∣ -days / 14 - if 0 < -days % 14 ∧ -days % 14 < 7 then 1 else 0 := by
  split_ifs with h hmod
  · rw [Int.tdiv_eq_ediv_of_nonneg h]
    rw [show days / 7 - days / 14 = (days + 7) / 14 by omega]
  · rw [tdiv_of_neg (not_le.1 h), show -(-days / 7) - days / 14 = -(-days / 14 - 1) by omega, dvd_neg]
  · rw [tdiv_of_neg (not_le.1 h), show -(-days / 7) - days / 14 = -(-days / 14 - 0) by omega, dvd_neg]

/-- **Which dates have the factor at their offset**: all where the factors step by days or by months, and those where single
weeks rounded towards the base date come out as whole periods rounded down. -/
theorem picks_iff (self : MultiplicativePriceSeasonality K) (date : Date) : self.Picks date ↔ self.Aligned date := by
  have hmultiple := self.multiple
  have hpermitted := self.permitted
  unfold Aligned
  cases hf : self.frequency with
  | daily  => exact iff_of_true (picks_days (by rw [hf]; rfl)) trivial
  | weekly =>
    rw [hf] at hmultiple
    rw [picks_weeks (n := 1) (by rw [hf]; rfl)]
    exact weekly_iff hmultiple _
  | biweekly =>
    rw [picks_weeks (n := 2) (by rw [hf]; rfl)]
    exact biweekly_iff _ _
  | semiannual | everyFourthMonth | quarterly | bimonthly | monthly =>
    exact picks_months (by rw [hf]; decide) (by rw [hf]; rfl)
  | noFrequency | once | annual | everyFourthWeek | otherFrequency =>
    rw [hf] at hpermitted
    exact absurd hpermitted (by decide)

end Lookup

/-- Twenty-six factors, one for every two weeks from 1 January 2007. -/
def biweekly : MultiplicativePriceSeasonality ℚ where
  seasonalityBaseDate := ⟨39083, by decide⟩
  frequency := .biweekly
  seasonalityFactors := (List.range 26).map (fun i => 1 + (i : ℚ) / 1000)
  permitted := by decide
  nonempty := by decide
  multiple := by decide

/-- **Two weeks after the base date** the factor is the third one, of index 2, and not the second. -/
theorem not_picks_biweekly : ¬ biweekly.Picks ⟨39097, by decide⟩ := by
  rw [picks_weeks (n := 2) rfl]
  decide

end MultiplicativePriceSeasonality
end Itofin
