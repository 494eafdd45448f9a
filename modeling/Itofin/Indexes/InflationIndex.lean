import Itofin.Indexes.InflationPeriod
import Itofin.Settings
import Itofin.Types
/-!
# InflationIndex — one figure for every day of its period

The fixings of a `ZeroInflationIndex` of `indexes/inflationindex.rs`, in the store of `Itofin.Settings`.  A figure is stored
on each day of its period and read on the first.  What the calls leave is one pair a period, the first figure and the one on
record (`Figures`, with `Recorded` between it and the store): a figure that is close to the one on record replaces it, so
that only where the replacements stay close to the first figure is that one still read (`covers_iff`).
-/
namespace Itofin

open Settings (FixingStore Duplicated)
open Floats (ofNat)
open Inflation Date

/-- How an operation on the fixings of an index fails. -/
inductive FixingError (ρ : Type) where
  | stop (stop : Stop)
  | duplicated (error : Duplicated Date ρ)
  /-- "no fixings stored for {name}" -/
  | noFixings (name : String)
  /-- "no evaluation date set: an index fixing needs a reference date" -/
  | noEvaluationDate
  /-- "Missing {name} fixing for {first}" -/
  | missing (name : String) (first : Date)
  /-- "{name} index fixing at base date {base_date} is not available" -/
  | baseNotAvailable (name : String) (baseDate : Date)

/-- What the inflation index reads of a zero inflation curve. -/
structure ZeroInflationCurve (ρ : Type) where
  tryBaseDate : Except Stop Date
  zeroRateDate : Date → Bool → Except Stop ρ
  requireDayCounter : Except Stop (Date → Date → ρ)

/-- `term_structure` is what dereferencing the handle gives. -/
structure ZeroInflationIndex (ρ : Type) where
  name : String
  frequency : Frequency
  availabilityLag : Period
  termStructure : Except Stop (ZeroInflationCurve ρ)

variable {K ρ : Type} [DecidableEq K]

/-- `Settings::last_fixing_date`; the keys of a history are in the order of the dates. -/
def Settings.lastFixingDate (fixingKey : String → K) (store : FixingStore K Date ρ) (name : String) : Option Date :=
  (store.lookup (fixingKey name)).bind (fun history => history.keys.max?)

/-- `(0..days).map(|i| (first + i, value))` -/
def periodFixings (first last : Date) (value : ρ) : Option (List (Date × ρ)) :=
  (List.range (last.serialNumber - first.serialNumber + 1).toNat).mapM fun (i : ℕ) => (first.addDays i).map (·, value)

/-- `date - period`; the null date has no month. -/
def Date.minusPeriod (date : Date) (p : Period) : Option Date :=
  if date = null ∧ (p.units = .months ∨ p.units = .years) then none else date.subPeriod p

/-- `inflation_year_fraction` for an index that is not interpolated. -/
def inflationYearFraction (frequency : Frequency) (dayCounter : Date → Date → ρ) (d1 d2 : Date) : Except Stop ρ := do
  let firstOfD1 ← inflationPeriod d1 frequency
  let firstOfD2 ← inflationPeriod d2 frequency
  return dayCounter firstOfD1.1 firstOfD2.1

namespace ZeroInflationIndex

variable (index : ZeroInflationIndex ρ) (fixingKey : String → K)

section Store

variable (close : ρ → ρ → Bool) (store : FixingStore K Date ρ)

/-- `InflationIndexBase::add_fixing`: the result, and the store after it. -/
def addFixing (fixingDate : Date) (value : ρ) : Except (FixingError ρ) Unit × FixingStore K Date ρ :=
  match inflationPeriod fixingDate index.frequency with
  | .error e          => (.error (.stop e), store)
  | .ok (first, last) =>
    match periodFixings first last value with
    | none          => (.error (.stop .panic), store)
    | some fixings =>
      let (result, store) := Settings.addFixings close fixingKey store index.name fixings
      (result.mapError .duplicated, store)

def pastFixing (fixingDate : Date) : Except (FixingError ρ) (Option ρ) :=
  match inflationPeriod fixingDate index.frequency with
  | .error e       => .error (.stop e)
  | .ok (first, _) => .ok (Settings.fixing fixingKey store index.name first)

def lastFixingDate : Except (FixingError ρ) Date :=
  match Settings.lastFixingDate fixingKey store index.name with
  | none      => .error (.noFixings index.name)
  | some last =>
    match inflationPeriod last index.frequency with
    | .error e       => .error (.stop e)
    | .ok (first, _) => .ok first

/-- The latest period that could have been published by today. -/
def latestPossible (today : Date) : Except Stop (Date × Date) :=
  match today.minusPeriod index.availabilityLag with
  | none         => .error .panic
  | some horizon => inflationPeriod horizon index.frequency

def needsForecast (evaluationDate : Option Date) (fixingDate : Date) : Except (FixingError ρ) Bool :=
  match evaluationDate with
  | none       => .error .noEvaluationDate
  | some today => do
    let latestPossible ← (index.latestPossible today).mapError .stop
    let (latestNeededDate, _) ← (inflationPeriod fixingDate index.frequency).mapError .stop
    if latestNeededDate < latestPossible.1 then return false
    else if latestPossible.2 < latestNeededDate then return true
    else return (Settings.fixing fixingKey store index.name latestNeededDate).isNone

/-- `fixing` of a date that needs no forecast. -/
def historicalFixing (fixingDate : Date) : Except (FixingError ρ) ρ := do
  let (first, _) ← (inflationPeriod fixingDate index.frequency).mapError .stop
  match ← index.pastFixing fixingKey store fixingDate with
  | some fixing => return fixing
  | none        => .error (.missing index.name first)

variable [Floats ρ] [Neg ρ] (powf : ρ → ρ → ρ)

/-- The base date has just been seen to need no forecast, when its fixing is read. -/
def forecastFixing (evaluationDate : Option Date) (fixingDate : Date) : Except (FixingError ρ) ρ := do
  let curve ← index.termStructure.mapError .stop
  let baseDate ← curve.tryBaseDate.mapError .stop
  if ← index.needsForecast fixingKey store evaluationDate baseDate then .error (.baseNotAvailable index.name baseDate)
  else
    let baseFixing ← index.historicalFixing fixingKey store baseDate
    let (firstDateInPeriod, _) ← (inflationPeriod fixingDate index.frequency).mapError .stop
    let z1 ← (curve.zeroRateDate firstDateInPeriod false).mapError .stop
    let dayCounter ← curve.requireDayCounter.mapError .stop
    let t1 ← (inflationYearFraction index.frequency dayCounter baseDate firstDateInPeriod).mapError .stop
    if Floats.le z1 (-ofNat 1) then return 0
    else return baseFixing * powf (ofNat 1 + z1) t1

def fixing (evaluationDate : Option Date) (fixingDate : Date) : Except (FixingError ρ) ρ := do
  if ← index.needsForecast fixingKey store evaluationDate fixingDate then
    index.forecastFixing fixingKey store powf evaluationDate fixingDate
  else index.historicalFixing fixingKey store fixingDate

end Store

/-- A sequence of calls of `add_fixing`: those that succeeded, and the store after them. -/
def addAll (close : ρ → ρ → Bool) : FixingStore K Date ρ → List (Date × ρ) → List (Date × ρ) × FixingStore K Date ρ
  | store, []                    => ([], store)
  | store, (date, value) :: rest =>
    let (result, store) := index.addFixing fixingKey close store date value
    let (added, store) := addAll close store rest
    (if result.isOk then (date, value) :: added else added, store)

end ZeroInflationIndex

/-! ## The days of a period -/

theorem mapM_mem {α β : Type} {g : α → Option β} : ∀ {l : List α}, (∀ x ∈ l, (g x).isSome) →
    ∃ ys, l.mapM g = some ys ∧ ∀ y, y ∈ ys ↔ ∃ x ∈ l, g x = some y
  | [], _     => ⟨[], rfl, fun y => by simp⟩
  | x :: l, h => by
    obtain ⟨y, hy⟩ := Option.isSome_iff_exists.1 (h x List.mem_cons_self)
    obtain ⟨ys, hys, hmem⟩ := mapM_mem (fun x' hx' => h x' (List.mem_cons_of_mem _ hx'))
    refine ⟨y :: ys, ?_, fun z => ?_⟩
    · rw [List.mapM_cons, hy, hys]
      rfl
    · rw [List.mem_cons, hmem, List.exists_mem_cons_iff, hy, Option.some.injEq, eq_comm]

theorem periodFixings_spec {first : Date} (last : Date) (hfirst : first ≠ null) (value : ρ) : ∃ fixings,
    periodFixings first last value = some fixings ∧ ∀ e, e ∈ fixings ↔ (first ≤ e.1 ∧ e.1 ≤ last) ∧ e.2 = value := by
  have hlow := (serial_bounds hfirst).1
  have hhigh : last.serialNumber ≤ 109574 := by
    rcases last.inRange with h | h
    · omega
    · exact h.2
  have hdays : ∀ i ∈ List.range (last.serialNumber - first.serialNumber + 1).toNat,
      ((first.addDays (i : ℕ)).map (·, value)).isSome := by
    intro i hi
    rw [List.mem_range] at hi
    rw [Option.isSome_map, Option.isSome_iff_ne_none, Ne, addDays_eq_none]
    omega
  obtain ⟨fixings, hfixings, hmem⟩ := mapM_mem hdays
  refine ⟨fixings, hfixings, fun e => ?_⟩
  rw [hmem, le_iff, le_iff]
  constructor
  · rintro ⟨i, hi, he⟩
    obtain ⟨date, hdate, rfl⟩ := Option.map_eq_some_iff.1 he
    have hserial := (addDays_eq_some.1 hdate).2
    rw [List.mem_range] at hi
    exact ⟨⟨by dsimp only; omega, by dsimp only; omega⟩, rfl⟩
  · rintro ⟨⟨hle, hge⟩, hvalue⟩
    have hne : e.1 ≠ null := by
      rintro h
      rw [h] at hle
      change first.serialNumber ≤ 0 at hle
      omega
    refine ⟨(e.1.serialNumber - first.serialNumber).toNat, List.mem_range.2 (by omega), ?_⟩
    rw [addDays_eq_some.2 ⟨hne, by omega⟩, Option.map_some, ← hvalue]

/-! ## What a call leaves -/

theorem latest_const {value : ρ} {date : Date} : ∀ {fixings : List (Date × ρ)} {stored : Date → Option ρ},
    (∀ e ∈ fixings, e.2 = value) →
    Settings.latest stored fixings date = if ∃ e ∈ fixings, e.1 = date then some value else stored date
  | [], stored, _             => by simp [Settings.latest]
  | (d, v) :: rest, stored, h => by
    obtain ⟨rfl, hrest⟩ := List.forall_mem_cons.1 h
    rw [Settings.latest, latest_const hrest]
    by_cases hmem : ∃ e ∈ rest, e.1 = date
    · rw [if_pos hmem, if_pos (List.exists_mem_cons_of_exists hmem)]
    · rw [if_neg hmem]
      by_cases hd : d = date
      · subst hd
        rw [Function.update_self, if_pos ⟨_, List.mem_cons_self, rfl⟩]
      · rw [Function.update_of_ne (Ne.symm hd), if_neg]
        rw [List.exists_mem_cons_iff]
        exact fun h' => h'.elim hd hmem

namespace ZeroInflationIndex

/-- The first figure of each period, and the one on record. -/
abbrev Figures (ρ : Type) := ℤ → Option (ρ × ρ)

variable (close : ρ → ρ → Bool) (f : Frequency)

/-- The figure is the first of its period, or close to the one on record. -/
def Figures.Accepts (figures : Figures ρ) (date : Date) (value : ρ) : Prop :=
  date ≠ null ∧ (figures (periodIndex f date)).all (fun pair => close pair.2 value) = true

instance (figures : Figures ρ) (date : Date) (value : ρ) : Decidable (figures.Accepts close f date value) :=
  inferInstanceAs (Decidable (_ ∧ _))

/-- The first figure of the period of a date, after a figure for it. -/
def Figures.firstWith (figures : Figures ρ) (date : Date) (value : ρ) : ρ :=
  ((figures (periodIndex f date)).map Prod.fst).getD value

/-- What a call does to the figures. -/
def Figures.add (figures : Figures ρ) (date : Date) (value : ρ) : Figures ρ :=
  if figures.Accepts close f date value then
    Function.update figures (periodIndex f date) (some (figures.firstWith f date value, value))
  else figures

def Figures.addAll : Figures ρ → List (Date × ρ) → Figures ρ
  | figures, []                    => figures
  | figures, (date, value) :: rest => Figures.addAll (figures.add close f date value) rest

variable {close} {f}
variable {index : ZeroInflationIndex ρ} {fixingKey : String → K} {store : FixingStore K Date ρ}
  {added adds : List (Date × ρ)} {figures : Figures ρ} {date : Date} {value : ρ}

/-- The store holds the figures on the days of their periods. -/
structure Recorded (index : ZeroInflationIndex ρ) (fixingKey : String → K) (added : List (Date × ρ))
    (store : FixingStore K Date ρ) (figures : Figures ρ) : Prop where
  reads : ∀ date, Settings.fixing fixingKey store index.name date =
    if date = null then none else (figures (periodIndex index.frequency date)).map Prod.snd
  first : ∀ p, (added.find? (fun e => periodIndex index.frequency e.1 = p)).map Prod.snd = (figures p).map Prod.fst
  dates : ∀ e ∈ added, e.1 ≠ null

theorem isOk_mapError {ε ε' α : Type} (e : ε → ε') (x : Except ε α) : (x.mapError e).isOk = x.isOk := by
  cases x <;> rfl

/-- **The days that a call stores its figure on** are those of its period. -/
theorem addFixing_days (close : ρ → ρ → Bool) (fixingKey : String → K) (store : FixingStore K Date ρ)
    (hf : Handled index.frequency) (hd : date ≠ null)
    (value : ρ) : ∃ fixings, index.addFixing fixingKey close store date value =
      ((Settings.addFixings close fixingKey store index.name fixings).1.mapError .duplicated,
        (Settings.addFixings close fixingKey store index.name fixings).2) ∧
    (∀ e ∈ fixings, e.1 ≠ null ∧ e.2 = value) ∧ ∀ {day}, day ≠ null → ((∃ e ∈ fixings, e.1 = day) ↔
      periodIndex index.frequency day = periodIndex index.frequency date) := by
  obtain ⟨bounds, hbounds, hb⟩ := inflationPeriod_spec hf hd
  obtain ⟨fixings, hfixings, hmem⟩ := periodFixings_spec bounds.2 hb.first_ne value
  refine ⟨fixings, ?_, fun e he => ⟨?_, ((hmem e).1 he).2⟩, fun {day} hday => ?_⟩
  · unfold addFixing
    rw [hbounds]
    dsimp only
    rw [hfixings]
  · intro heq
    have hle := ((hmem e).1 he).1.1
    rw [heq] at hle
    exact hb.first_ne (le_antisymm hle (null_le _))
  · rw [← hb.mem_iff hf hday]
    constructor
    · rintro ⟨e, he, rfl⟩
      exact ((hmem e).1 he).1
    · intro hin
      exact ⟨(day, value), (hmem _).2 ⟨hin, rfl⟩, rfl⟩

theorem addFixing_null (value : ρ) :
    index.addFixing fixingKey close store null value = (.error (.stop .panic), store) := by
  unfold addFixing inflationPeriod
  rw [if_pos rfl]

/-- **A call succeeds** where its figure is accepted. -/
theorem addFixing_isOk (close : ρ → ρ → Bool) (date : Date) (value : ρ) (hf : Handled index.frequency)
    (h : Recorded index fixingKey added store figures) :
    (index.addFixing fixingKey close store date value).1.isOk = true ↔
      figures.Accepts close index.frequency date value := by
  by_cases hd : date = null
  · subst hd
    rw [addFixing_null]
    exact iff_of_false nofun fun h => h.1 rfl
  obtain ⟨fixings, hcall, hfixings, hdays⟩ := addFixing_days close fixingKey store hf hd value
  rw [hcall, isOk_mapError, Settings.addFixings_isOk]
  unfold Settings.CloseToStored Figures.Accepts
  rw [Option.all_eq_true]
  constructor
  · intro hclose
    refine ⟨hd, fun pair hpair => ?_⟩
    obtain ⟨e, he, rfl⟩ := (hdays hd).2 rfl
    have hvalue := hclose e he pair.2
    rw [h.reads, if_neg hd, hpair, (hfixings e he).2] at hvalue
    exact hvalue rfl
  · rintro ⟨-, hall⟩ e he existing hexisting
    obtain ⟨hne, hvalue⟩ := hfixings e he
    rw [h.reads, if_neg hne, (hdays hne).1 ⟨e, he, rfl⟩] at hexisting
    obtain ⟨pair, hpair, rfl⟩ := Option.map_eq_some_iff.1 hexisting
    rw [hvalue]
    exact hall pair hpair

/-- **A failing call stores nothing.** -/
theorem addFixing_rejected (hf : Handled index.frequency)
    (hfail : (index.addFixing fixingKey close store date value).1.isOk = false) :
    (index.addFixing fixingKey close store date value).2 = store := by
  by_cases hd : date = null
  · rw [hd, addFixing_null]
  · obtain ⟨fixings, hcall, -⟩ := addFixing_days close fixingKey store hf hd value
    rw [hcall] at hfail ⊢
    rw [isOk_mapError] at hfail
    exact Settings.addFixings_rejected hfail

/-- **A call records its figure.** -/
theorem addFixing_recorded (close : ρ → ρ → Bool) (date : Date) (value : ρ) (hf : Handled index.frequency)
    (h : Recorded index fixingKey added store figures) :
    Recorded index fixingKey
      (if (index.addFixing fixingKey close store date value).1.isOk then added ++ [(date, value)] else added)
      (index.addFixing fixingKey close store date value).2 (figures.add close index.frequency date value) := by
  have hiff := addFixing_isOk close date value hf h
  unfold Figures.add
  by_cases hok : (index.addFixing fixingKey close store date value).1.isOk = true
  · have hd := (hiff.1 hok).1
    rw [if_pos hok, if_pos (hiff.1 hok)]
    obtain ⟨fixings, hcall, hfixings, hdays⟩ := addFixing_days close fixingKey store hf hd value
    rw [hcall, isOk_mapError] at hok
    refine ⟨fun day => ?_, fun p => ?_, fun e he => ?_⟩
    · rw [hcall, Settings.fixing_addFixings _ hok fixingKey, if_pos rfl, latest_const (fun e he => (hfixings e he).2), h.reads]
      by_cases hday : day = null
      · subst hday
        rw [if_neg (fun ⟨e, he, heq⟩ => (hfixings e he).1 heq), if_pos rfl, if_pos rfl]
      · rw [if_neg hday, if_neg hday]
        by_cases hp : periodIndex index.frequency day = periodIndex index.frequency date
        · rw [if_pos ((hdays hday).2 hp), hp, Function.update_self]
          rfl
        · rw [if_neg (mt (hdays hday).1 hp), Function.update_of_ne hp]
    · rw [List.find?_append, Option.map_or, h.first]
      by_cases hp : periodIndex index.frequency date = p
      · subst hp
        rw [Function.update_self, List.find?_singleton, if_pos (decide_eq_true rfl)]
        unfold Figures.firstWith
        cases figures (periodIndex index.frequency date) <;> rfl
      · rw [Function.update_of_ne (Ne.symm hp), List.find?_singleton, if_neg (by simpa using hp), Option.map_none,
          Option.or_none]
    · rw [List.mem_append, List.mem_singleton] at he
      rcases he with he | rfl
      · exact h.dates e he
      · exact hd
  · rw [if_neg hok, if_neg (mt hiff.2 hok), addFixing_rejected hf (by simpa using hok)]
    exact h

/-- **The calls** leave the figures that they record one after the other. -/
theorem addAll_recorded (hf : Handled index.frequency) : ∀ (adds : List (Date × ρ)) {added : List (Date × ρ)}
    {store : FixingStore K Date ρ} {figures : Figures ρ}, Recorded index fixingKey added store figures →
    Recorded index fixingKey (added ++ (index.addAll fixingKey close store adds).1)
      (index.addAll fixingKey close store adds).2 (figures.addAll close index.frequency adds)
  | [], added, store, figures, h => by
    rw [addAll, List.append_nil]
    exact h
  | (date, value) :: rest, added, store, figures, h => by
    have hstep := addFixing_recorded close date value hf h
    have ih := addAll_recorded hf rest hstep
    rw [addAll, Figures.addAll]
    dsimp only
    split_ifs at ih ⊢ with hok
    · rw [List.append_assoc] at ih
      exact ih
    · exact ih

/-! ## What the index reads -/

/-- A figure within the tolerance of the first one. -/
def Near (close : ρ → ρ → Bool) (first value : ρ) : Prop := value = first ∨ close first value = true

instance [DecidableEq ρ] (close : ρ → ρ → Bool) (first value : ρ) : Decidable (Near close first value) :=
  inferInstanceAs (Decidable (_ ∨ _))

/-- The figure of the first of the calls for the period of a date. -/
def firstFigure (index : ZeroInflationIndex ρ) (added : List (Date × ρ)) (date : Date) : Option ρ :=
  (added.find? fun e => inflationPeriod e.1 index.frequency = inflationPeriod date index.frequency).map Prod.snd

/-- The first day of the latest period with a figure. -/
def IsLatest (index : ZeroInflationIndex ρ) (added : List (Date × ρ)) (last : Except (FixingError ρ) Date) : Prop :=
  match added with
  | []     => last = .error (.noFixings index.name)
  | _ :: _ => ∃ e ∈ added, ∃ period, inflationPeriod e.1 index.frequency = .ok period ∧ last = .ok period.1 ∧
    ∀ e' ∈ added, ∀ period', inflationPeriod e'.1 index.frequency = .ok period' → period'.1 ≤ period.1

section Reads

variable [Floats ρ] [Neg ρ] (close : ρ → ρ → Bool) (powf : ρ → ρ → ρ) (fixingKey : String → K)
  (index : ZeroInflationIndex ρ)

/-- The dates that are forecast are those of a set. -/
def ForecastsOn (store : FixingStore K Date ρ) (today : Date) (later : Date → Prop) : Prop :=
  ∀ date, date ≠ null →
    (later date → index.needsForecast fixingKey store (some today) date = .ok true ∧
      index.fixing fixingKey store powf (some today) date = index.forecastFixing fixingKey store powf (some today) date) ∧
    (¬ later date → index.needsForecast fixingKey store (some today) date = .ok false ∧
      index.fixing fixingKey store powf (some today) date = index.historicalFixing fixingKey store date)

/-- What the calls that succeeded are to leave. -/
structure Covers (added : List (Date × ρ)) (store : FixingStore K Date ρ) : Prop where
  pastFixing : ∀ date, date ≠ null → ∃ figure, index.pastFixing fixingKey store date = .ok figure ∧
    Option.Rel (Near close) (index.firstFigure added date) figure
  failing : ∀ date value, (index.addFixing fixingKey close store date value).1.isOk = false →
    (index.addFixing fixingKey close store date value).2 = store
  lastFixingDate : index.IsLatest added (index.lastFixingDate fixingKey store)
  /-- The boundary is an end of the latest period that could have been published. -/
  forecasts : ∀ today period, index.latestPossible today = .ok period →
    index.ForecastsOn powf fixingKey store today (period.1 ≤ ·) ∨ index.ForecastsOn powf fixingKey store today (period.2 < ·)
  horizon : ∀ today period, index.latestPossible today = .ok period → ∀ date date', period.2 < date → date ≤ date' →
    index.needsForecast fixingKey store (some today) date' = .ok true

end Reads

/-- Each figure that is close to the one on record is near the first one too. -/
def Steady (close : ρ → ρ → Bool) (f : Frequency) : Figures ρ → List (Date × ρ) → Prop
  | _, []                          => True
  | figures, (date, value) :: rest =>
    (figures.Accepts close f date value → Near close (figures.firstWith f date value) value) ∧
      Steady close f (figures.add close f date value) rest

instance Steady.decidable [DecidableEq ρ] (close : ρ → ρ → Bool) (f : Frequency) :
    ∀ (figures : Figures ρ) (adds : List (Date × ρ)), Decidable (Steady close f figures adds)
  | _, []                          => inferInstanceAs (Decidable True)
  | figures, (date, value) :: rest =>
    have := Steady.decidable close f (figures.add close f date value) rest
    inferInstanceAs (Decidable (_ ∧ _))

/-- The figures on record are near the first ones. -/
def Figures.Good (close : ρ → ρ → Bool) (figures : Figures ρ) : Prop :=
  ∀ p pair, figures p = some pair → Near close pair.1 pair.2

variable {close : ρ → ρ → Bool} {f : Frequency} {figures : Figures ρ}

theorem Figures.good_add (hgood : figures.Good close) (date : Date) (value : ρ) :
    (figures.add close f date value).Good close ↔
      (figures.Accepts close f date value → Near close (figures.firstWith f date value) value) := by
  unfold Figures.add
  by_cases haccepts : figures.Accepts close f date value
  · rw [if_pos haccepts]
    constructor
    · intro h _
      exact h (periodIndex f date) _ (Function.update_self _ _ _)
    · intro h p pair hpair
      by_cases hp : p = periodIndex f date
      · subst hp
        rw [Function.update_self, Option.some.injEq] at hpair
        subst hpair
        exact h haccepts
      · rw [Function.update_of_ne hp] at hpair
        exact hgood p pair hpair
  · rw [if_neg haccepts]
    exact iff_of_true hgood fun h => absurd h haccepts

theorem Figures.good_none : Figures.Good close (fun _ => none) := by
  intro p pair h
  cases h

/-- **The figures stay near the first ones** exactly along the calls that are steady. -/
theorem steady_iff : ∀ {adds : List (Date × ρ)} {figures : Figures ρ}, figures.Good close →
    ((∀ before, before <+: adds → (figures.addAll close f before).Good close) ↔ Steady close f figures adds)
  | [], figures, hgood => by
    refine iff_of_true (fun before hbefore => ?_) trivial
    rw [List.prefix_nil.1 hbefore]
    exact hgood
  | (date, value) :: rest, figures, hgood => by
    unfold Steady
    rw [← figures.good_add hgood]
    constructor
    · intro h
      have hfirst : (figures.add close f date value).Good close := h [(date, value)] ⟨rest, rfl⟩
      refine ⟨hfirst, (steady_iff hfirst).1 fun before hbefore => ?_⟩
      exact h ((date, value) :: before) (List.cons_prefix_cons.2 ⟨rfl, hbefore⟩)
    · rintro ⟨hfirst, hrest⟩ before hbefore
      cases before with
      | nil => exact hgood
      | cons e before =>
        obtain ⟨rfl, hprefix⟩ := List.cons_prefix_cons.1 hbefore
        exact (steady_iff hfirst).2 hrest before hprefix

variable {index : ZeroInflationIndex ρ} {fixingKey : String → K} {store : FixingStore K Date ρ}
  {added : List (Date × ρ)} {date : Date} {value : ρ}

theorem exists_added (h : Recorded index fixingKey added store figures) (p : ℤ) :
    (figures p).isSome ↔ ∃ e ∈ added, periodIndex index.frequency e.1 = p := by
  have hfirst := congrArg Option.isSome (h.first p)
  rw [Option.isSome_map, Option.isSome_map] at hfirst
  rw [← hfirst, List.find?_isSome]
  simp only [decide_eq_true_eq]

theorem firstFigure_eq (hf : Handled index.frequency) (h : Recorded index fixingKey added store figures)
    (hdate : date ≠ null) :
    index.firstFigure added date = (figures (periodIndex index.frequency date)).map Prod.fst := by
  rw [← h.first]
  unfold firstFigure
  congr 1
  refine List.find?_congr fun e he => ?_
  rw [decide_eq_decide]
  exact inflationPeriod_eq_iff hf (h.dates e he) hdate

theorem pastFixing_eq (hf : Handled index.frequency) (h : Recorded index fixingKey added store figures) (hdate : date ≠ null) :
    index.pastFixing fixingKey store date = .ok ((figures (periodIndex index.frequency date)).map Prod.snd) := by
  obtain ⟨bounds, hbounds, hb⟩ := inflationPeriod_spec hf hdate
  unfold pastFixing
  rw [hbounds]
  dsimp only
  rw [h.reads, if_neg hb.first_ne, hb.periodIndex_first hf]

theorem pastFixing_iff (hf : Handled index.frequency) (h : Recorded index fixingKey added store figures) :
    (∀ date, date ≠ null → ∃ figure, index.pastFixing fixingKey store date = .ok figure ∧
      Option.Rel (Near close) (index.firstFigure added date) figure) ↔ figures.Good close := by
  constructor
  · intro hpast p pair hpair
    obtain ⟨e, he, rfl⟩ := (exists_added h p).1 (by rw [hpair]; rfl)
    obtain ⟨figure, hfigure, hrel⟩ := hpast e.1 (h.dates e he)
    rw [pastFixing_eq hf h (h.dates e he), hpair] at hfigure
    rw [firstFigure_eq hf h (h.dates e he), hpair, ← Except.ok.inj hfigure] at hrel
    cases hrel with
    | some hnear => exact hnear
  · intro hgood date hdate
    refine ⟨_, pastFixing_eq hf h hdate, ?_⟩
    rw [firstFigure_eq hf h hdate]
    cases hpair : figures (periodIndex index.frequency date) with
    | none      => exact .none
    | some pair => exact .some (hgood _ pair hpair)

theorem lastFixingDate_cases (fixingKey : String → K) (store : FixingStore K Date ρ) (name : String) :
    (Settings.lastFixingDate fixingKey store name = none ∧ ∀ day, Settings.fixing fixingKey store name day = none) ∨
    ∃ last, Settings.lastFixingDate fixingKey store name = some last ∧
      (Settings.fixing fixingKey store name last).isSome ∧
      ∀ day, (Settings.fixing fixingKey store name day).isSome → day ≤ last := by
  unfold Settings.lastFixingDate Settings.fixing
  cases store.lookup (fixingKey name) with
  | none         => exact .inl ⟨rfl, fun _ => rfl⟩
  | some history =>
    simp only [Option.bind_some]
    cases hmax : history.keys.max? with
    | none =>
      refine .inl ⟨rfl, fun day => AList.lookup_eq_none.2 fun hday => ?_⟩
      rw [List.max?_eq_none_iff] at hmax
      rw [AList.mem_keys, hmax] at hday
      exact absurd hday List.not_mem_nil
    | some last =>
      obtain ⟨hmem, hle⟩ := List.max?_eq_some_iff.1 hmax
      exact .inr ⟨last, rfl, AList.lookup_isSome.2 hmem, fun day hday => hle day (AList.lookup_isSome.1 hday)⟩

/-- **The last date on record** is in the latest period with a figure. -/
theorem isLatest_lastFixingDate (hf : Handled index.frequency) (h : Recorded index fixingKey added store figures) :
    index.IsLatest added (index.lastFixingDate fixingKey store) := by
  have hstored : ∀ day, (Settings.fixing fixingKey store index.name day).isSome ↔
      day ≠ null ∧ ∃ e ∈ added, periodIndex index.frequency e.1 = periodIndex index.frequency day := by
    intro day
    rw [h.reads, ← exists_added h]
    split_ifs with hday
    · exact iff_of_false nofun fun h => h.1 hday
    · rw [Option.isSome_map]
      exact ⟨fun h => ⟨hday, h⟩, fun h => h.2⟩
  unfold lastFixingDate IsLatest
  rcases lastFixingDate_cases fixingKey store index.name with ⟨hlast, hnone⟩ | ⟨last, hlast, hsome, hle⟩ <;> rw [hlast]
  · cases added with
    | nil       => rfl
    | cons e es =>
      have he : (Settings.fixing fixingKey store index.name e.1).isSome :=
        (hstored e.1).2 ⟨h.dates e List.mem_cons_self, e, List.mem_cons_self, rfl⟩
      rw [hnone] at he
      exact absurd he nofun
  · obtain ⟨hne, e, he, hp⟩ := (hstored last).1 hsome
    obtain ⟨period, hperiod, hb⟩ := inflationPeriod_spec hf hne
    have hown : inflationPeriod e.1 index.frequency = .ok period :=
      ((inflationPeriod_eq_iff hf (h.dates e he) hne).2 hp).trans hperiod
    dsimp only
    rw [hperiod]
    have hlatest : ∀ e' ∈ added, ∀ period', inflationPeriod e'.1 index.frequency = .ok period' → period'.1 ≤ period.1 := by
      intro e' he' period' hperiod'
      obtain ⟨hne', hb'⟩ := bounds_of_ok hf hperiod'
      rw [hb'.first_le_iff hf hb.first_ne, hb.periodIndex_first hf]
      exact periodIndex_mono hf (hle e'.1 ((hstored e'.1).2 ⟨hne', e', he', rfl⟩))
    cases added with
    | nil       => exact absurd he List.not_mem_nil
    | cons _ _  => exact ⟨e, he, period, hown, rfl, hlatest⟩

/-- A date needs a forecast: from the first day of the latest period that could have been published, or after its last. -/
def forecasts (index : ZeroInflationIndex ρ) (fixingKey : String → K) (store : FixingStore K Date ρ) (period : Date × Date)
    (date : Date) : Bool :=
  if (Settings.fixing fixingKey store index.name period.1).isNone then period.1 ≤ date else period.2 < date

theorem bounds_of_latestPossible (hf : Handled index.frequency) {today : Date} {period : Date × Date}
    (hperiod : index.latestPossible today = .ok period) : ∃ p, Bounds index.frequency p period := by
  unfold latestPossible at hperiod
  split at hperiod
  · exact absurd hperiod nofun
  · exact ⟨_, (bounds_of_ok hf hperiod).2⟩

theorem needsForecast_eq (hf : Handled index.frequency) {today : Date} {period : Date × Date}
    (hperiod : index.latestPossible today = .ok period) (hdate : date ≠ null) :
    index.needsForecast fixingKey store (some today) date = .ok (index.forecasts fixingKey store period date) := by
  obtain ⟨own, hown, hb⟩ := inflationPeriod_spec hf hdate
  obtain ⟨p, hlatest⟩ := bounds_of_latestPossible hf hperiod
  have hsplit : index.needsForecast fixingKey store (some today) date =
      if own.1 < period.1 then .ok false else if period.2 < own.1 then .ok true
      else .ok (Settings.fixing fixingKey store index.name own.1).isNone := by
    unfold needsForecast
    dsimp only
    rw [hperiod, hown]
    rfl
  have hfirst := hlatest.first_le_iff hf hb.first_ne
  have hlast := hlatest.last_lt_iff hf hb.first_ne
  rw [hb.periodIndex_first hf] at hfirst hlast
  rw [hsplit]
  unfold forecasts
  rw [decide_eq_decide.2 (hlatest.first_le_iff hf hdate), decide_eq_decide.2 (hlatest.last_lt_iff hf hdate)]
  rcases lt_trichotomy p (periodIndex index.frequency date) with hp | rfl | hp
  · rw [if_neg (not_lt.2 (hfirst.2 hp.le)), if_pos (hlast.2 hp), decide_eq_true hp, decide_eq_true hp.le, ite_self]
  · rw [if_neg (not_lt.2 (hfirst.2 le_rfl)), if_neg (mt hlast.1 (lt_irrefl _)), decide_eq_true le_rfl,
      decide_eq_false (lt_irrefl _), hb.unique hlatest]
    cases (Settings.fixing fixingKey store index.name period.1) <;> rfl
  · rw [if_pos (not_le.1 (mt hfirst.1 (not_le.2 hp))), decide_eq_false (lt_asymm hp), decide_eq_false (not_le.2 hp), ite_self]

theorem recorded_nil (h : ∀ date, Settings.fixing fixingKey store index.name date = none) :
    Recorded index fixingKey [] store fun _ => none :=
  ⟨fun date => by rw [h]; exact (ite_self _).symm, fun _ => rfl, nofun⟩

theorem run_recorded (hf : Handled index.frequency)
    (hempty : ∀ date, Settings.fixing fixingKey store index.name date = none) (adds : List (Date × ρ)) :
    Recorded index fixingKey (index.addAll fixingKey close store adds).1 (index.addAll fixingKey close store adds).2
      (Figures.addAll close index.frequency (fun _ => none) adds) := addAll_recorded hf adds (recorded_nil hempty)

section Covers

variable [Floats ρ] [Neg ρ] {powf : ρ → ρ → ρ}

theorem forecastsOn {today : Date} {later : Date → Prop} [DecidablePred later] (h : ∀ date, date ≠ null →
    index.needsForecast fixingKey store (some today) date = .ok (decide (later date))) :
    index.ForecastsOn powf fixingKey store today later := by
  intro date hdate
  constructor <;> intro hlater
  · have hneeds := h date hdate
    rw [decide_eq_true hlater] at hneeds
    refine ⟨hneeds, ?_⟩
    unfold fixing
    rw [hneeds]
    rfl
  · have hneeds := h date hdate
    rw [decide_eq_false hlater] at hneeds
    refine ⟨hneeds, ?_⟩
    unfold fixing
    rw [hneeds]
    rfl

/-- **What the calls leave** is as it is to be, but for the figures that have moved away from the first ones. -/
theorem covers_of_recorded (hf : Handled index.frequency) (h : Recorded index fixingKey added store figures) :
    Covers close powf fixingKey index added store ↔ figures.Good close := by
  constructor
  · intro hcovers
    exact (pastFixing_iff hf h).1 hcovers.pastFixing
  · intro hgood
    refine ⟨(pastFixing_iff hf h).2 hgood, fun _ _ => addFixing_rejected hf, isLatest_lastFixingDate hf h, ?_, ?_⟩
    · intro today period hperiod
      cases hstored : (Settings.fixing fixingKey store index.name period.1).isNone with
      | true =>
        refine .inl (forecastsOn fun date hdate => ?_)
        rw [needsForecast_eq hf hperiod hdate, forecasts, if_pos hstored]
      | false =>
        refine .inr (forecastsOn fun date hdate => ?_)
        rw [needsForecast_eq hf hperiod hdate, forecasts, if_neg (by rw [hstored]; exact Bool.false_ne_true)]
    · intro today period hperiod date date' hlt hle
      have hne : date' ≠ null := ((null_le _).trans_lt (hlt.trans_le hle)).ne'
      have hlater := hlt.trans_le hle
      rw [needsForecast_eq hf hperiod hne, forecasts, decide_eq_true hlater, decide_eq_true, ite_self]
      obtain ⟨p, hb⟩ := bounds_of_latestPossible hf hperiod
      exact (hb.first_le_last hf).trans hlater.le

/-- **The fixings cover their periods** along the calls whose figures are steady, and only along them. -/
theorem covers_iff (close : ρ → ρ → Bool) (powf : ρ → ρ → ρ) (fixingKey : String → K) (index : ZeroInflationIndex ρ)
    (hf : Handled index.frequency) (store : FixingStore K Date ρ)
    (hempty : ∀ date, Settings.fixing fixingKey store index.name date = none) (adds : List (Date × ρ)) :
    (∀ before, before <+: adds → Covers close powf fixingKey index (index.addAll fixingKey close store before).1
      (index.addAll fixingKey close store before).2) ↔ Steady close index.frequency (fun _ => none) adds := by
  rw [← steady_iff Figures.good_none]
  refine forall₂_congr fun before _ => ?_
  exact covers_of_recorded hf (run_recorded hf hempty before)

end Covers

/-! ## Figures that move away -/

section Drift

local instance exactRates : Floats ℚ where
  lt x y := x < y
  le x y := x ≤ y
  isFinite _ := true
  abs x := |x|
  max x y := Max.max x y
  ofNat n := n
  nan := 0

/-- A monthly index without a curve. -/
def rpi : ZeroInflationIndex ℚ := ⟨"UK RPI", .monthly, ⟨1, .months⟩, .error (.error "empty Handle cannot be dereferenced")⟩

/-- Figures for 15 January 2024, each within the tolerance of the one before it. -/
def drifting : List (Date × ℚ) :=
  [(⟨45306, by decide⟩, 1), (⟨45306, by decide⟩, 1 + 42 * epsilon), (⟨45306, by decide⟩, 1 + 84 * epsilon)]

/-- The figures of two months, one of them given again, and another that the store rejects. -/
theorem covers_iff_rpi :
    Covers Itofin.close (fun x _ => x) id rpi
      (rpi.addAll id Itofin.close ∅ [(⟨45306, by decide⟩, (1 : ℚ)), (⟨45337, by decide⟩, 2), (⟨45316, by decide⟩, 1),
        (⟨45306, by decide⟩, 3)]).1
      (rpi.addAll id Itofin.close ∅ [(⟨45306, by decide⟩, (1 : ℚ)), (⟨45337, by decide⟩, 2), (⟨45316, by decide⟩, 1),
        (⟨45306, by decide⟩, 3)]).2 := by
  refine (covers_iff Itofin.close (fun x _ => x) id rpi (by decide) ∅ (fun _ => rfl) _).2 ?_ _ List.prefix_rfl
  decide +kernel

/-- **The last of the figures is read**, and it is not within the tolerance of the first. -/
theorem not_covers_drifting :
    ¬ Covers Itofin.close (fun x _ => x) id rpi (rpi.addAll id Itofin.close ∅ drifting).1
      (rpi.addAll id Itofin.close ∅ drifting).2 := by
  rw [covers_of_recorded (by decide) (run_recorded (by decide) (fun _ => rfl) drifting)]
  intro hgood
  have hfar : ¬ Near Itofin.close (1 : ℚ) (1 + 84 * epsilon) := by decide +kernel
  refine hfar (hgood (periodIndex .monthly ⟨45306, by decide⟩) (1, 1 + 84 * epsilon) ?_)
  decide +kernel

end Drift

end ZeroInflationIndex
end Itofin
