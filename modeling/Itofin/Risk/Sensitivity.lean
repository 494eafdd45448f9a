import Itofin.Lib.Effect
import Mathlib.Algebra.Field.Rat
import Mathlib.Data.List.Forall2
import Mathlib.Logic.Function.Basic
import Mathlib.Tactic.NormNum
/-!
# Sensitivity — quotes that are bumped and put back

`risk/sensitivity.rs`, in exact arithmetic: an instrument is worth what the quotes make it worth, or fails.  The quotes are
bumped in place, so that a bump is seen by all that read them, and a quote may be listed twice.

A bump writes over the one before it (`setValues_congr`), and the originals put the market back, whatever the valuation
came to (`parallelAnalysis_run`).  So every form leaves the market as it was, and each bucket is measured at markets that
differ from it in one quote.
-/
namespace Itofin
namespace Risk

open Effect

inductive SensitivityAnalysis where
  | oneSide
  | centered
deriving DecidableEq

inductive SensitivityError (ε : Type) where
  /-- "empty SimpleQuote vector", "empty SimpleQuote range" -/
  | emptyQuotes
  /-- "empty instrument vector" -/
  | emptyInstruments
  /-- "invalid SimpleQuote at position .." -/
  | invalidQuote (position : ℕ)
  /-- "shift must be finite and non-zero" -/
  | shift
  /-- "dimension mismatch between instruments (..) and quantities (..)" -/
  | dimension (instruments quantities : ℕ)
  | instrument (e : ε)
  /-- "empty parameters vector" -/
  | emptyParameters
  /-- "invalid SimpleQuote" -/
  | invalidBumpQuote
  /-- "referenceValues has size .., instead of .." -/
  | referenceValues (values parameters : ℕ)
  | parameter (e : ε)
deriving DecidableEq

variable {ι K ε : Type} [DecidableEq ι] [Field K] [DecidableEq K]

/-- The value of each quote, if it has one. -/
abbrev Market (ι K : Type) : Type := ι → Option K

/-- `set_value` of each quote. -/
def setValues (quotes : List ι) (values : List K) (market : Market ι K) : Market ι K :=
  (quotes.zip values).foldl (fun market qv => Function.update market qv.1 (some qv.2)) market

variable (instruments : List (Market ι K → Except ε K)) (quantities : List K)

def aggregateNpv (market : Market ι K) : Except (SensitivityError ε) K :=
  if quantities = [] ∨ quantities = [1] then
    instruments.foldlM (fun npv instrument => ((instrument market).mapError .instrument).map (npv + ·)) 0
  else if quantities.length ≠ instruments.length then .error (.dimension instruments.length quantities.length)
  else (instruments.zip quantities).foldlM (fun npv iq => ((iq.1 market).mapError .instrument).map (npv + iq.2 * ·)) 0

/-- The values of the quotes, from the position on. -/
def originalsFrom (market : Market ι K) : ℕ → List ι → Except (SensitivityError ε) (List K)
  | _, []              => .ok []
  | i, quote :: quotes => match market quote with
    | none       => .error (.invalidQuote i)
    | some value => (originalsFrom market (i + 1) quotes).map (value :: ·)

def prepare (quotes : List ι) (shift : K) (referenceNpv : Option K) (market : Market ι K) :
    Except (SensitivityError ε) (List K × K) :=
  if shift = 0 then .error .shift
  else if instruments = [] then .error .emptyInstruments
  else do
    let originals ← originalsFrom market 0 quotes
    let referenceNpv ← referenceNpv.elim (aggregateNpv instruments quantities market) .ok
    return (originals, referenceNpv)

def finiteDifferences {σ : Type} (shift : K) (kind : SensitivityAnalysis) (referenceNpv : K)
    (npvAt : K → Prog σ (SensitivityError ε) K) : Prog σ (SensitivityError ε) (K × Option K) := do
  let up ← npvAt shift
  match kind with
  | .oneSide  => return ((up - referenceNpv) / shift, none)
  | .centered => do
    let down ← npvAt (-shift)
    return ((up - down) / ((2 : ℕ) * shift), some ((up - (2 : ℕ) * referenceNpv + down) / (shift * shift)))

def parallelAnalysis (quotes : List ι) (shift : K) (kind : SensitivityAnalysis) (referenceNpv : Option K) :
    Prog (Market ι K) (SensitivityError ε) (K × Option K) := do
  .require (quotes ≠ []) .emptyQuotes
  let market ← .get
  let (originals, referenceNpv) ← .lift (prepare instruments quantities quotes shift referenceNpv market)
  let result ← .attempt (finiteDifferences shift kind referenceNpv fun bump => do
    .modify (setValues quotes (originals.map (· + bump)))
    let market ← .get
    .lift (aggregateNpv instruments quantities market))
  .modify (setValues quotes originals)
  .lift result

def bucketAnalysis (quote : ι) (shift : K) (kind : SensitivityAnalysis) (referenceNpv : Option K) :
    Prog (Market ι K) (SensitivityError ε) (K × Option K) :=
  parallelAnalysis instruments quantities [quote] shift kind referenceNpv

def bucketAnalysisVector (quotes : List ι) (shift : K) (kind : SensitivityAnalysis) :
    Prog (Market ι K) (SensitivityError ε) (List K × List (Option K)) := do
  .require (quotes ≠ []) .emptyQuotes
  let market ← .get
  let (_, referenceNpv) ← .lift (prepare instruments quantities quotes shift none market)
  let results ← .collect (fun quote => bucketAnalysis instruments quantities quote shift kind (some referenceNpv)) quotes
  return results.unzip

def bucketAnalysisMatrix (quotes : List (List ι)) (shift : K) (kind : SensitivityAnalysis) :
    Prog (Market ι K) (SensitivityError ε) (List (List K) × List (List (Option K))) := do
  .require (quotes ≠ []) .emptyQuotes
  let market ← .get
  let (_, referenceNpv) ← .lift (prepare instruments quantities quotes.flatten shift none market)
  let results ← .collect (fun row => do
    let results ← .collect (fun quote => bucketAnalysis instruments quantities quote shift kind (some referenceNpv)) row
    return results.unzip) quotes
  return results.unzip

/-- A handle on a quote that is worked out from the market. -/
structure Parameter (ι K ε : Type) where
  currentLink : Except ε Unit
  isValid     : Market ι K → Bool
  value       : Market ι K → Except ε K

variable (parameters : List (Parameter ι K ε))

/-- `current_link()?.value()?` -/
def Parameter.read (parameter : Parameter ι K ε) (market : Market ι K) : Except (SensitivityError ε) K :=
  (parameter.currentLink.bind fun _ => parameter.value market).mapError .parameter

def parameterValues (market : Market ι K) : Except (SensitivityError ε) (List (Option K)) :=
  parameters.mapM fun parameter => do
    parameter.currentLink.mapError .parameter
    if parameter.isValid market then (parameter.read market).map some else return none

def parameterDifferences (quote : ι) (original : K) (referenceValues : List (Option K)) (shift : K)
    (kind : SensitivityAnalysis) : Prog (Market ι K) (SensitivityError ε) (List (Option K) × List (Option K)) := do
  let up ← valuesAt shift
  match kind with
  | .oneSide  => return ((up.zip referenceValues).map fun p => Option.map₂ (fun up r => (up - r) / shift) p.1 p.2,
      .replicate parameters.length none)
  | .centered => do
    let down ← valuesAt (-shift)
    return (((up.zip down).zip referenceValues).map fun (p : (Option K × Option K) × Option K) => match p with
      | ((some up, some down), some reference) =>
        (some ((up - down) / ((2 : ℕ) * shift)), some ((up - (2 : ℕ) * reference + down) / (shift * shift)))
      | _ => (none, none)).unzip
where
  valuesAt (bump : K) : Prog (Market ι K) (SensitivityError ε) (List (Option K)) := do
    .modify (Function.update · quote (some (original + bump)))
    let market ← .get
    .lift ((parameters.zip referenceValues).mapM fun p => match p.2 with
      | none   => .ok none
      | some _ => (p.1.read market).map some)

def parameterSensitivity (quote : ι) (referenceValues : Option (List (Option K))) (shift : K) (kind : SensitivityAnalysis) :
    Prog (Market ι K) (SensitivityError ε) (List (Option K) × List (Option K)) := do
  .require (shift ≠ 0) .shift
  .require (parameters ≠ []) .emptyParameters
  let market ← .get
  match market quote with
  | none          => .fail .invalidBumpQuote
  | some original => do
    let referenceValues ← .lift (match referenceValues with
      | some values => if values.length = parameters.length then .ok values
          else .error (.referenceValues values.length parameters.length)
      | none        => parameterValues parameters market)
    let result ← .attempt (parameterDifferences parameters quote original referenceValues shift kind)
    .modify (Function.update · quote (some original))
    .lift result

def parameterSensitivityVector (quotes : List ι) (shift : K) (kind : SensitivityAnalysis) :
    Prog (Market ι K) (SensitivityError ε) (List (List (Option K)) × List (List (Option K))) := do
  .require (quotes ≠ []) .emptyQuotes
  .require (parameters ≠ []) .emptyParameters
  let market ← .get
  let referenceValues ← .lift (parameterValues parameters market)
  let results ← .collect (fun quote => parameterSensitivity parameters quote (some referenceValues) shift kind) quotes
  return results.unzip

/-! ## Bumps -/

variable {quotes : List ι} {values originals : List K} {market market' : Market ι K} {q : ι} {shift : K}
variable {instruments quantities} {kind : SensitivityAnalysis} {referenceNpv : Option K}

omit [Field K] [DecidableEq K] in
theorem setValues_of_notMem (h : q ∉ quotes) (values : List K) : setValues quotes values market q = market q := by
  unfold setValues
  induction quotes generalizing values market with
  | nil => rfl
  | cons quote quotes ih =>
    cases values with
    | nil => rfl
    | cons value values =>
      simp only [List.mem_cons, not_or] at h
      rw [List.zip_cons_cons, List.foldl_cons, ih h.2, Function.update_of_ne h.1]

omit [Field K] [DecidableEq K] in
/-- **What is set does not depend on what was there.** -/
theorem setValues_congr (hlength : quotes.length ≤ values.length) (h : ∀ q, q ∉ quotes → market q = market' q) :
    setValues quotes values market = setValues quotes values market' := by
  unfold setValues
  induction quotes generalizing values market market' with
  | nil => exact funext fun q => h q List.not_mem_nil
  | cons quote quotes ih =>
    cases values with
    | nil => simp at hlength
    | cons value values =>
      apply ih (by simpa using hlength)
      intro q hq
      by_cases hquote : q = quote
      · simp [hquote]
      · simpa [hquote] using h q (by simp [hquote, hq])

omit [DecidableEq ι] [Field K] [DecidableEq K] in
theorem originalsFrom_length : ∀ {quotes : List ι} {i : ℕ} {originals : List K},
    (originalsFrom market i quotes : Except (SensitivityError ε) _) = .ok originals → originals.length = quotes.length
  | [], i, _, h              => by
    cases h
    rfl
  | quote :: quotes, i, _, h => by
    unfold originalsFrom at h
    split at h
    · cases h
    · obtain ⟨rest, hrest, rfl⟩ := map_eq_ok.1 h
      simp [originalsFrom_length hrest]

omit [Field K] [DecidableEq K] in
/-- The originals change nothing. -/
theorem setValues_originals : ∀ {quotes : List ι} {i : ℕ} {originals : List K},
    (originalsFrom market i quotes : Except (SensitivityError ε) _) = .ok originals → setValues quotes originals market = market
  | [], i, _, h              => by
    cases h
    rfl
  | quote :: quotes, i, _, h => by
    unfold originalsFrom at h
    split at h
    · cases h
    · rename_i value hvalue
      obtain ⟨rest, hrest, rfl⟩ := map_eq_ok.1 h
      have hself : Function.update market quote (some value) = market := by rw [← hvalue, Function.update_eq_self]
      have hrest' := setValues_originals hrest
      unfold setValues at hrest' ⊢
      rw [List.zip_cons_cons, List.foldl_cons, hself, hrest']

/-! ## The market after -/

/-- The market that differs from another in the quotes alone. -/
def Off (quotes : List ι) (market market' : Market ι K) : Prop := ∀ q, q ∉ quotes → market' q = market q

/-- The differences of what the bumps come to. -/
def differences (shift : K) (kind : SensitivityAnalysis) (referenceNpv : K)
    (npvAt : K → Except (SensitivityError ε) K) : Except (SensitivityError ε) (K × Option K) := do
  let up ← npvAt shift
  match kind with
  | .oneSide  => return ((up - referenceNpv) / shift, none)
  | .centered => do
    let down ← npvAt (-shift)
    return ((up - down) / ((2 : ℕ) * shift), some ((up - (2 : ℕ) * referenceNpv + down) / (shift * shift)))

omit [DecidableEq K] in
/-- Where each bump comes to the same from wherever the others have left off, the differences are those of the bumps. -/
theorem finiteDifferences_run {σ : Type} (I : σ → Prop) (npvAt : K → Prog σ (SensitivityError ε) K)
    (value : K → Except (SensitivityError ε) K) (h : ∀ bump s, I s → (npvAt bump s).1 = value bump ∧ I (npvAt bump s).2)
    (shift reference : K) (kind : SensitivityAnalysis) {s : σ} (hs : I s) : (finiteDifferences shift kind reference npvAt s).1 =
      differences shift kind reference value ∧ I (finiteDifferences shift kind reference npvAt s).2 := by
  obtain ⟨hup, hs'⟩ := h shift s hs
  unfold finiteDifferences differences
  rw [Prog.run_bind, ← hup]
  rcases hx : npvAt shift s with ⟨e | up, s'⟩ <;> rw [hx] at hs'
  · exact ⟨rfl, hs'⟩
  cases kind with
  | oneSide  => exact ⟨rfl, hs'⟩
  | centered =>
    obtain ⟨hdown, hs''⟩ := h (-shift) s' hs'
    simp only [Prog.run_bind]
    rw [← hdown]
    rcases hy : npvAt (-shift) s' with ⟨e | down, s''⟩ <;> rw [hy] at hs'' <;> exact ⟨rfl, hs''⟩

/-- What a parallel analysis comes to at a market. -/
def parallelValue (instruments : List (Market ι K → Except ε K)) (quantities : List K) (quotes : List ι) (shift : K)
    (kind : SensitivityAnalysis) (referenceNpv : Option K) (market : Market ι K) :
    Except (SensitivityError ε) (K × Option K) :=
  if quotes = [] then .error .emptyQuotes
  else do
    let (originals, referenceNpv) ← prepare instruments quantities quotes shift referenceNpv market
    differences shift kind referenceNpv fun bump =>
      aggregateNpv instruments quantities (setValues quotes (originals.map (· + bump)) market)

omit [DecidableEq ι] in
theorem prepare_eq_ok {reference : K}
    (h : prepare instruments quantities quotes shift referenceNpv market = .ok (originals, reference)) :
    (originalsFrom market 0 quotes : Except (SensitivityError ε) _) = .ok originals ∧
      referenceNpv.elim (aggregateNpv instruments quantities market) .ok = .ok reference := by
  unfold prepare at h
  split at h
  · cases h
  split at h
  · cases h
  obtain ⟨_, horiginals, h⟩ := bind_eq_ok.1 h
  obtain ⟨_, hreference, ⟨⟩⟩ := bind_eq_ok.1 h
  exact ⟨horiginals, hreference⟩

/-- **A parallel analysis leaves the market as it was**, with a result or an error; the result is that of the bumps, each
from the market as it was. -/
theorem parallelAnalysis_run (instruments : List (Market ι K → Except ε K)) (quantities : List K) (quotes : List ι) (shift : K)
    (kind : SensitivityAnalysis) (referenceNpv : Option K) (market : Market ι K) :
    parallelAnalysis instruments quantities quotes shift kind referenceNpv market =
      (parallelValue instruments quantities quotes shift kind referenceNpv market, market) := by
  unfold parallelAnalysis parallelValue
  by_cases hquotes : quotes = []
  · simp [hquotes, Prog.require, Prog.run_bind, Prog.fail]
  rw [if_neg hquotes]
  cases hprepare : prepare instruments quantities quotes shift referenceNpv market with
  | error e =>
    simp only [Prog.run_bind, Prog.run_require, hquotes, not_false_eq_true, if_true, Prog.run_get, Prog.run_lift, hprepare, ne_eq]
    rfl
  | ok p    =>
    obtain ⟨originals, reference⟩ := p
    have horiginals := (prepare_eq_ok hprepare).1
    have hlength := originalsFrom_length horiginals
    -- each bump writes over the one before
    have hbump : ∀ bump (s : Market ι K), Off quotes market s →
        setValues quotes (originals.map (· + bump)) s = setValues quotes (originals.map (· + bump)) market :=
      fun bump s hs => setValues_congr (by simp [hlength]) hs
    obtain ⟨hvalue, hoff⟩ := finiteDifferences_run (Off quotes market) (fun bump => do
        .modify (setValues quotes (originals.map (· + bump)))
        let market ← .get
        .lift (aggregateNpv instruments quantities market))
      (fun bump => aggregateNpv instruments quantities (setValues quotes (originals.map (· + bump)) market))
      (fun bump s hs => ⟨by simp [Prog.run_bind, hbump bump s hs], fun q hq => by
        simp [Prog.run_bind, setValues_of_notMem hq, hs q hq]⟩) shift reference kind fun _ _ => rfl
    have hrestore := (setValues_congr hlength.ge hoff).trans (setValues_originals horiginals)
    simp only [Prog.run_bind, Prog.run_require, hquotes, not_false_eq_true, if_true, Prog.run_get, Prog.run_lift, hprepare,
      Prog.attempt, Prog.run_modify, hvalue, hrestore, ne_eq]
    rfl

/-- A program that leaves the market as it was. -/
def Restores {α : Type} (x : Prog (Market ι K) (SensitivityError ε) α) : Prop := ∀ market, Keeps (· = market) x

theorem bucketAnalysis_restores (instruments : List (Market ι K → Except ε K)) (quantities : List K) (quote : ι) (shift : K)
    (kind : SensitivityAnalysis) (referenceNpv : Option K) :
    Restores (bucketAnalysis instruments quantities quote shift kind referenceNpv) := by
  rintro _ market rfl
  rw [bucketAnalysis, parallelAnalysis_run]

theorem parameterSensitivity_restores (parameters : List (Parameter ι K ε)) (quote : ι)
    (referenceValues : Option (List (Option K))) (shift : K) (kind : SensitivityAnalysis) :
    Restores (parameterSensitivity parameters quote referenceValues shift kind) := by
  rintro _ market rfl
  have hvalues : ∀ original values bump, Keeps (Off [quote] market)
      (parameterDifferences.valuesAt parameters quote original values bump) := fun original values bump =>
    Keeps.bind (Keeps.modify fun s hs q hq => by simp [Function.update_of_ne (List.mem_singleton.not.1 hq), hs q hq]) fun _ =>
      Keeps.bind Keeps.get fun _ => Keeps.lift _
  have hdifferences : ∀ original values, Keeps (Off [quote] market)
      (parameterDifferences parameters quote original values shift kind) := fun original values => by
    apply Keeps.bind (hvalues original values shift)
    intro up
    cases kind with
    | oneSide  => exact Keeps.pure _
    | centered => exact Keeps.bind (hvalues original values (-shift)) fun _ => Keeps.pure _
  unfold parameterSensitivity
  simp only [Prog.run_bind, Prog.run_require, Prog.run_get]
  by_cases hshift : shift = 0
  · simp [hshift]
  by_cases hparameters : parameters = []
  · simp [hshift, hparameters]
  cases hquote : market quote with
  | none          => simp [hshift, hparameters, hquote, Prog.fail]
  | some original =>
    simp only [ne_eq, hshift, hparameters, not_false_eq_true, if_true, hquote, Prog.run_bind, Prog.run_lift]
    split
    · rename_i values s' hs'
      obtain ⟨-, rfl⟩ := Prod.mk.inj hs'
      have hoff := hdifferences original values market fun _ _ => rfl
      simp only [Prog.attempt]
      -- the quote has its value back, and no other has lost its own
      funext q
      by_cases hq : q = quote
      · simp [hq, hquote]
      · simpa [hq] using hoff q (by simpa using hq)
    · rename_i hs'
      exact (Prod.mk.inj hs').2.symm

/-- **Every form leaves the market as it was**, with a result or an error. -/
theorem analysis_restores (instruments : List (Market ι K → Except ε K)) (quantities : List K)
    (parameters : List (Parameter ι K ε)) (shift : K) (kind : SensitivityAnalysis) :
    (∀ quotes referenceNpv, Restores (parallelAnalysis instruments quantities quotes shift kind referenceNpv)) ∧
      (∀ quotes, Restores (bucketAnalysisVector instruments quantities quotes shift kind)) ∧
      (∀ quotes, Restores (bucketAnalysisMatrix instruments quantities quotes shift kind)) ∧
      (∀ quote values, Restores (parameterSensitivity parameters quote values shift kind)) ∧
      ∀ quotes, Restores (parameterSensitivityVector parameters quotes shift kind) := by
  have hrow : ∀ (row : List ι) (reference : K), Restores
      (.collect (fun quote => bucketAnalysis instruments quantities quote shift kind (some reference)) row) :=
    fun row reference market => Keeps.collect row fun quote _ =>
      bucketAnalysis_restores instruments quantities quote shift kind (some reference) market
  refine ⟨fun quotes referenceNpv => ?_, fun quotes market => ?_, fun quotes market => ?_,
    fun quote values => parameterSensitivity_restores parameters quote values shift kind, fun quotes market => ?_⟩
  · rintro _ market rfl
    rw [parallelAnalysis_run]
  · unfold bucketAnalysisVector
    exact Keeps.bind (Keeps.require _ _) fun _ => Keeps.bind Keeps.get fun _ => Keeps.bind (Keeps.lift _) fun p =>
      Keeps.bind (hrow quotes p.2 market) fun _ => Keeps.pure _
  · unfold bucketAnalysisMatrix
    exact Keeps.bind (Keeps.require _ _) fun _ => Keeps.bind Keeps.get fun _ => Keeps.bind (Keeps.lift _) fun p => Keeps.bind (Keeps.collect quotes fun row _ =>
      Keeps.bind (hrow row p.2 market) fun _ => Keeps.pure _) fun _ => Keeps.pure _
  · unfold parameterSensitivityVector
    exact Keeps.bind (Keeps.require _ _) fun _ => Keeps.bind (Keeps.require _ _) fun _ => Keeps.bind Keeps.get fun _ => Keeps.bind (Keeps.lift _) fun values =>
      Keeps.bind (Keeps.collect quotes fun quote _ =>
        parameterSensitivity_restores parameters quote (some values) shift kind market) fun _ => Keeps.pure _

theorem bucketAnalysis_row (instruments : List (Market ι K → Except ε K)) (quantities : List K) (shift : K)
    (kind : SensitivityAnalysis) (referenceNpv : Option K) (market : Market ι K) (row : List ι) :
    Prog.collect (fun quote => bucketAnalysis instruments quantities quote shift kind referenceNpv) row market =
      (row.mapM fun quote => parallelValue instruments quantities [quote] shift kind referenceNpv market, market) :=
  Prog.collect_run fun quote _ => parallelAnalysis_run instruments quantities [quote] shift kind referenceNpv market

theorem parallelValue_singleton {quote : ι} {reference : K} {result : K × Option K}
    (h : parallelValue instruments quantities [quote] shift kind (some reference) market = .ok result) :
    ∃ value, market quote = some value ∧ differences shift kind reference (fun bump => aggregateNpv instruments quantities
      (Function.update market quote (some (value + bump)))) = .ok result := by
  unfold parallelValue at h
  rw [if_neg (List.cons_ne_nil _ _)] at h
  obtain ⟨⟨originals, reference'⟩, hprepare, h⟩ := bind_eq_ok.1 h
  obtain ⟨horiginals, hreference⟩ := prepare_eq_ok hprepare
  cases hreference
  unfold originalsFrom at horiginals
  split at horiginals
  · cases horiginals
  · rename_i value hvalue
    cases horiginals
    exact ⟨value, hvalue, h⟩

/-- **Each bucket is measured from the market as it was**, by its own quote alone, against one reference. -/
theorem bucketAnalysisVector_eq_ok (instruments : List (Market ι K → Except ε K)) (quantities : List K) (quotes : List ι)
    (shift : K) (kind : SensitivityAnalysis) (market : Market ι K) (first : List K) (second : List (Option K))
    (h : (bucketAnalysisVector instruments quantities quotes shift kind market).1 = .ok (first, second)) :
    ∃ reference, aggregateNpv instruments quantities market = .ok reference ∧
      List.Forall₂ (fun quote result => ∃ value, market quote = some value ∧
        differences shift kind reference (fun bump => aggregateNpv instruments quantities
          (Function.update market quote (some (value + bump)))) = .ok result) quotes (first.zip second) ∧
      first.length = quotes.length ∧ second.length = quotes.length := by
  unfold bucketAnalysisVector at h
  by_cases hquotes : quotes = []
  · simp [hquotes] at h
  simp only [Prog.run_bind, Prog.run_require, ne_eq, hquotes, not_false_eq_true, if_true, Prog.run_get, Prog.run_lift] at h
  cases hprepare : prepare instruments quantities quotes shift none market with
  | error e => simp [hprepare] at h
  | ok p    =>
    simp only [hprepare, bucketAnalysis_row] at h
    cases hresults : quotes.mapM fun quote =>
        parallelValue instruments quantities [quote] shift kind (some p.2) market with
    | error e    => simp [hresults] at h
    | ok results =>
      simp only [hresults, Prog.run_pure, Except.ok.injEq] at h
      obtain ⟨rfl, rfl⟩ : results.unzip.1 = first ∧ results.unzip.2 = second := by simp [h]
      refine ⟨p.2, (prepare_eq_ok hprepare).2, ?_, ?_, ?_⟩
      · rw [List.zip_unzip]
        exact (forall₂_of_mapM_eq_ok hresults).imp fun _ _ => parallelValue_singleton
      · simp [List.unzip_eq_map, length_of_mapM_eq_ok hresults]
      · simp [List.unzip_eq_map, length_of_mapM_eq_ok hresults]

/-- An instrument that is worth one quote by the other. -/
def crossed (market : Market Bool ℚ) : Except Unit ℚ := .ok ((market true).getD 0 * (market false).getD 0)

theorem bucketAnalysisVector_eq_ok_crossed : ∃ reference, aggregateNpv [crossed] [] (fun _ => some 3) = .ok reference ∧
    List.Forall₂ (fun quote result => ∃ value, (fun _ => some 3 : Market Bool ℚ) quote = some value ∧
      differences 1 .centered reference (fun bump => aggregateNpv [crossed] []
        (Function.update (fun _ => some 3) quote (some (value + bump)))) = .ok result) [true, false]
      ([3, 3].zip [some 0, some 0]) ∧ [(3 : ℚ), 3].length = 2 ∧ [some (0 : ℚ), some 0].length = 2 :=
  bucketAnalysisVector_eq_ok [crossed] [] [true, false] 1 .centered (fun _ => some 3) [3, 3] [some 0, some 0] (by decide +kernel)

theorem mapM_flatten {α β : Type} (g : β → Except ε α) : ∀ rows : List (List β),
    rows.flatten.mapM g = (rows.mapM fun (row : List β) => row.mapM g).map List.flatten
  | []          => rfl
  | row :: rows => by
    rw [List.flatten_cons, List.mapM_append, mapM_flatten g rows, List.mapM_cons]
    cases row.mapM g <;> cases rows.mapM (fun row => row.mapM g) <;> rfl

theorem mapM_map {α β γ : Type} (g : β → Except ε α) (f : α → γ) : ∀ l : List β,
    l.mapM (fun b => (g b).map f) = (l.mapM g).map (List.map f)
  | []     => rfl
  | b :: l => by
    rw [List.mapM_cons, List.mapM_cons, mapM_map g f l]
    cases g b <;> cases l.mapM g <;> rfl

/-- **The matrix is the vector of its rows put end to end**, with its results or its error. -/
theorem bucketAnalysisMatrix_flatten (instruments : List (Market ι K → Except ε K)) (quantities : List K)
    (quotes : List (List ι)) (shift : K) (kind : SensitivityAnalysis) (market : Market ι K) (hquotes : quotes.flatten ≠ []) :
    (bucketAnalysisMatrix instruments quantities quotes shift kind market).1.map (fun r => (r.1.flatten, r.2.flatten)) =
      (bucketAnalysisVector instruments quantities quotes.flatten shift kind market).1 := by
  have hrows : quotes ≠ [] := by
    rintro rfl
    exact hquotes rfl
  unfold bucketAnalysisMatrix bucketAnalysisVector
  simp only [Prog.run_bind, Prog.run_require, hrows, hquotes, ne_eq, not_false_eq_true, if_true, Prog.run_get, Prog.run_lift]
  cases hprepare : prepare instruments quantities quotes.flatten shift none market with
  | error e => rfl
  | ok p    =>
    simp only [bucketAnalysis_row, mapM_flatten]
    have hrow := Prog.collect_run (l := quotes) (s := market)
      (f := fun row => do
        let results ← .collect (fun quote => bucketAnalysis instruments quantities quote shift kind (some p.2)) row
        return results.unzip)
      (g := fun row => (row.mapM fun quote => parallelValue instruments quantities [quote] shift kind (some p.2) market).map
        List.unzip) fun row _ => by
          simp only [Prog.run_bind, bucketAnalysis_row]
          cases row.mapM fun quote => parallelValue instruments quantities [quote] shift kind (some p.2) market <;> rfl
    rw [hrow, mapM_map]
    cases quotes.mapM fun row => row.mapM fun quote =>
        parallelValue instruments quantities [quote] shift kind (some p.2) market with
    | error e => rfl
    | ok rows => simp [Except.map, List.unzip_eq_map, List.map_flatten, List.map_map, Function.comp_def]

theorem bucketAnalysisMatrix_flatten_crossed :
    (bucketAnalysisMatrix [crossed] [] [[true], [], [false]] 1 .oneSide fun _ => some 3).1.map
      (fun r => (r.1.flatten, r.2.flatten)) = (bucketAnalysisVector [crossed] [] [true, false] 1 .oneSide fun _ => some 3).1 :=
  bucketAnalysisMatrix_flatten [crossed] [] [[true], [], [false]] 1 .oneSide (fun _ => some 3) (by simp)

end Risk
end Itofin
