import Mathlib.Data.Rat.Floor
import Itofin.Lib.Double
import Itofin.Lib.Effect
import Itofin.Math.Statistics
/-!
# McSimulation — sampling until the error is small

`MonteCarloModel` of `methods/montecarlo/montecarlomodel.rs` and `McSimulation` of `mcsimulation.rs`.  A generator draws
paths, a pricer prices them and an accumulator takes the prices; generator, pricer and accumulator are any, as long as a
price that is taken is one sample.  What the sums, products and quotients of machine numbers are rounded to is left open.

`Tests` says with which count and error, and in which state, the loop of `value` tests its condition; what holds there
decides whether the loop goes on as it should (`value_stops_iff`).
-/
namespace Itofin

open Effect

namespace GeneralStatistics

/-! ## Stored samples of machine numbers -/

namespace Machine

open Double (literal)

variable {K : Type} [LinearOrder K] [Double.Arithmetic K] (sqrt : Double K → Double K)

/-- `check_sample` -/
def checkSample (value weight : Double K) : Except (Failure (Double K)) Unit := do
  Itofin.require (value.val ≠ .nan) "sample value must not be NaN"
  if literal 0 ≤ weight then .ok () else .error (.negativeWeight weight)

def addWeighted (g : GeneralStatistics (Double K)) (value weight : Double K) :
    Except (Failure (Double K)) (GeneralStatistics (Double K)) := do
  checkSample value weight
  .ok ⟨g.samples ++ [(value, weight)], false⟩

/-- `expectation_value(f, |_| true)` of samples that are there. -/
def expectation (g : GeneralStatistics (Double K)) (f : Double K → Double K) : Double K :=
  let sums := g.samples.foldl (fun s p => (s.1 + f p.1 * p.2, s.2 + p.2)) (literal 0, literal 0)
  sums.1 / sums.2

def mean (g : GeneralStatistics (Double K)) : Except (Failure (Double K)) (Double K) := do
  Itofin.require (0 < g.samples.length) "empty sample set"
  .ok (expectation g fun x => x)

def variance (g : GeneralStatistics (Double K)) : Except (Failure (Double K)) (Double K) := do
  Itofin.require (1 < g.samples.length) "sample number <= 1: insufficient"
  let n : Double K := literal g.samples.length
  let mean ← mean g
  let s2 := expectation g fun x => (x - mean) * (x - mean)
  .ok (s2 * n / (n - literal 1))

def errorEstimate (g : GeneralStatistics (Double K)) : Except (Failure (Double K)) (Double K) := do
  let variance ← variance g
  .ok (sqrt (variance / literal g.samples.length))

end Machine

end GeneralStatistics

namespace MonteCarlo

/-- A path with its weight. -/
structure Sample (P F : Type) where
  value  : P
  weight : F

structure PathGen (G P F E : Type) where
  next       : Prog G E (Sample P F)
  antithetic : Prog G E (Sample P F)

/-- What a simulation uses of `Statistics`: a datum that is taken is one sample. -/
structure Statistics (S F E : Type) where
  samples       : S → ℕ
  errorEstimate : S → Except E F
  mean          : S → Except E F
  addWeighted   : S → F → F → Except E S
  samples_add   : ∀ s value weight s', addWeighted s value weight = .ok s' → samples s' = samples s + 1

/-- A model, but for the states of its generator and its accumulator. -/
structure MonteCarloModel (G P S F E : Type) where
  pathGenerator     : PathGen G P F E
  pathPricer        : P → F
  statistics        : Statistics S F E
  antitheticVariate : Bool
  /-- The pricer of the control variate and its analytic value. -/
  control           : Option ((P → F) × F)

structure ModelState (G S : Type) where
  pathGenerator     : G
  sampleAccumulator : S

inductive McError (F E : Type) where
  /-- "Monte Carlo model not initialized" -/
  | notInitialized
  /-- "control variate not supported" -/
  | controlVariate
  /-- "neither tolerance nor number of samples set" -/
  | nothingSet
  /-- "max number of samples ({max_samples}) reached, while error ({error}) is still above tolerance ({tolerance})" -/
  | maxSamples (maxSamples : ℕ) (error tolerance : F)
  /-- "number of already simulated samples ({sample_number}) greater than requested samples ({samples})" -/
  | alreadySimulated (sampleNumber samples : ℕ)
  /-- An error of the generator or of the accumulator. -/
  | inner (e : E)

/-- `DEFAULT_MIN_SAMPLES` -/
def defaultMinSamples : ℕ := 1023

/-- The model with its state, when it is built. -/
structure McSimulation (G P S F E : Type) where
  model             : Option (MonteCarloModel G P S F E × ModelState G S)
  antitheticVariate : Bool
  controlVariate    : Bool

variable {G P S E K : Type} [Field K] [LinearOrder K] [Double.Arithmetic K]

/-- The default accumulator; a datum that it takes is one sample. -/
def generalStatistics (sqrt : Double K → Double K) :
    Statistics (GeneralStatistics (Double K)) (Double K) (Failure (Double K)) where
  samples g     := g.samples.length
  errorEstimate := GeneralStatistics.Machine.errorEstimate sqrt
  mean          := GeneralStatistics.Machine.mean
  addWeighted   := GeneralStatistics.Machine.addWeighted
  samples_add s value weight s' h := by
    obtain ⟨_, _, hs⟩ := bind_eq_ok.1 h
    cases hs
    exact List.length_append

namespace MonteCarloModel

open Double (literal ofSize toSize)

variable (self : MonteCarloModel G P S (Double K) E)

def pricePath (path : P) : Double K :=
  let price := self.pathPricer path
  match self.control with
  | some (cvPricer, cvValue) => price + (cvValue - cvPricer path)
  | none                     => price

def samples (s : ModelState G S) : ℕ := self.statistics.samples s.sampleAccumulator

def draw (x : Prog G E (Sample P (Double K))) : Prog (ModelState G S) (McError (Double K) E) (Sample P (Double K)) :=
  (Prog.zoom ModelState.pathGenerator (fun g s => { s with pathGenerator := g }) x).mapError .inner

def accumulate (value weight : Double K) : Prog (ModelState G S) (McError (Double K) E) Unit := fun s =>
  match self.statistics.addWeighted s.sampleAccumulator value weight with
  | .ok a    => (.ok (), { s with sampleAccumulator := a })
  | .error e => (.error (.inner e), s)

def addSample : Prog (ModelState G S) (McError (Double K) E) Unit := do
  let sample ← draw self.pathGenerator.next
  let price := self.pricePath sample.value
  if self.antitheticVariate then do
    let antithetic ← draw self.pathGenerator.antithetic
    let price2 := self.pricePath antithetic.value
    self.accumulate ((price + price2) / literal 2) sample.weight
  else self.accumulate price sample.weight

def addSamples : ℕ → Prog (ModelState G S) (McError (Double K) E) Unit
  | 0           => pure ()
  | samples + 1 => do
    self.addSample
    addSamples samples

def sampleNumber : Prog (ModelState G S) (McError (Double K) E) ℕ := fun s => (.ok (self.samples s), s)

def errorEstimate : Prog (ModelState G S) (McError (Double K) E) (Double K) := fun s =>
  ((self.statistics.errorEstimate s.sampleAccumulator).mapError .inner, s)

def mean : Prog (ModelState G S) (McError (Double K) E) (Double K) := fun s =>
  ((self.statistics.mean s.sampleAccumulator).mapError .inner, s)

/-! ## The loop -/

variable [FloorRing K] (tolerance : Double K) (maxSamples minSamples : ℕ)

/-- `sample_number as Real * order * 0.8 - sample_number as Real` -/
def ideal (sampleNumber : ℕ) (error : Double K) : Double K :=
  let order := error * error / tolerance / tolerance
  ofSize sampleNumber * order * literal (4 / 5) - ofSize sampleNumber

def nextBatch (sampleNumber : ℕ) (error : Double K) : ℕ :=
  min (toSize (Double.max (ideal tolerance sampleNumber error) (ofSize minSamples))) (maxSamples - sampleNumber)

/-- What comes before the loop: the count and the error that it starts with. -/
def prepare : Prog (ModelState G S) (McError (Double K) E) (ℕ × Double K) := do
  let drawn ← self.sampleNumber
  let sampleNumber ← (if drawn < minSamples then do
      self.addSamples (minSamples - drawn)
      self.sampleNumber
    else pure drawn)
  let error ← self.errorEstimate
  pure (sampleNumber, error)

/-- A test of the condition of the loop, and a pass when it is met. -/
def pass (p : ℕ × Double K) : Prog (ModelState G S) (McError (Double K) E) (Unit ⊕ (ℕ × Double K)) :=
  if tolerance < p.2 then do
    Prog.require (p.1 < maxSamples) (.maxSamples maxSamples p.2 tolerance)
    self.addSamples (nextBatch tolerance maxSamples minSamples p.1 p.2)
    let error ← self.errorEstimate
    pure (.inr (p.1 + nextBatch tolerance maxSamples minSamples p.1 p.2, error))
  else pure (.inl ())

/-- The mean, after a loop that ended. -/
def finish : Option Unit → Prog (ModelState G S) (McError (Double K) E) (Option (Double K))
  | none    => pure none
  | some () => do
    let mean ← self.mean
    pure (some mean)

/-- `value` of a model that is built, with a bound on the turns of its loop; `none` is that they did not do. -/
def value (turns : ℕ) : Prog (ModelState G S) (McError (Double K) E) (Option (Double K)) := do
  let p ← self.prepare minSamples
  let ended ← Prog.loop (self.pass tolerance maxSamples minSamples) turns p
  self.finish ended

omit [FloorRing K] in
def valueWithSamples (samples : ℕ) : Prog (ModelState G S) (McError (Double K) E) (Double K) := do
  let sampleNumber ← self.sampleNumber
  Prog.require (sampleNumber ≤ samples) (.alreadySimulated sampleNumber samples)
  self.addSamples (samples - sampleNumber)
  self.mean

/-! ## Counting samples -/

section Counting

variable {self} {s s' : ModelState G S} {p p' : ℕ × Double K}

omit [Field K] [LinearOrder K] [Double.Arithmetic K] [FloorRing K] in
theorem draw_keeps (x : Prog G E (Sample P (Double K))) (c : ℕ) :
    Triple (fun s => self.samples s = c) (draw x) (fun _ s => self.samples s = c) (fun _ s => self.samples s = c) := by
  intro s hs
  unfold draw Prog.mapError Prog.zoom
  dsimp only
  cases (x s.pathGenerator).1 <;> exact hs

omit [Field K] [LinearOrder K] [Double.Arithmetic K] [FloorRing K] in
theorem accumulate_counts (value weight : Double K) (c : ℕ) :
    Triple (fun s => self.samples s = c) (self.accumulate value weight) (fun _ s => self.samples s = c + 1)
      (fun _ s => self.samples s = c) := by
  intro s hs
  unfold accumulate
  cases h : self.statistics.addWeighted s.sampleAccumulator value weight with
  | ok a    => exact (self.statistics.samples_add _ _ _ _ h).trans (congrArg Nat.succ hs)
  | error e => exact hs

omit [Field K] [LinearOrder K] [FloorRing K] in
/-- A path that is priced is one sample, and one that is not is none. -/
theorem addSample_counts (c : ℕ) :
    Triple (fun s => self.samples s = c) self.addSample (fun _ s => self.samples s = c + 1) (fun _ s => self.samples s = c) := by
  unfold addSample
  refine Triple.bind (draw_keeps _ c) (fun sample => ?_)
  dsimp only
  split
  · refine Triple.bind (draw_keeps _ c) (fun antithetic => ?_)
    exact accumulate_counts _ _ c
  · exact accumulate_counts _ _ c

omit [Field K] [LinearOrder K] [FloorRing K] in
theorem addSamples_counts : ∀ (samples c : ℕ),
    Triple (fun s => self.samples s = c) (self.addSamples samples) (fun _ s => self.samples s = c + samples)
      (fun _ s => self.samples s ≤ c + samples)
  | 0, c           => Triple.pure _ (fun _ hs => hs)
  | samples + 1, c => by
    have hfirst : Triple (fun s => self.samples s = c) self.addSample (fun _ s => self.samples s = c + 1)
        (fun _ s => self.samples s ≤ c + (samples + 1)) := (self.addSample_counts c).onError (fun _ s hs => by omega)
    refine Triple.bind hfirst (fun _ => ?_)
    have hrest := addSamples_counts samples (c + 1)
    exact (hrest.weaken (fun _ hs => hs) (fun _ s hs => by omega)).onError (fun _ s hs => by omega)

/-- The loop tests its condition with a count and an error, in a state. -/
inductive Tests (self : MonteCarloModel G P S (Double K) E) (tolerance : Double K) (maxSamples minSamples : ℕ)
    (s : ModelState G S) : ℕ × Double K → ModelState G S → Prop
  | start {p : ℕ × Double K} {s' : ModelState G S} : self.prepare minSamples s = (.ok p, s') →
      Tests self tolerance maxSamples minSamples s p s'
  | pass {p p' : ℕ × Double K} {s' s'' : ModelState G S} : Tests self tolerance maxSamples minSamples s p s' →
      self.pass tolerance maxSamples minSamples p s' = (.ok (.inr p'), s'') → Tests self tolerance maxSamples minSamples s p' s''

/-- What the loop tests its condition with is the count and the error of the samples that there are. -/
def Current (self : MonteCarloModel G P S (Double K) E) (p : ℕ × Double K) (s : ModelState G S) : Prop :=
  self.samples s = p.1 ∧ self.statistics.errorEstimate s.sampleAccumulator = .ok p.2

omit [Field K] [LinearOrder K] [Double.Arithmetic K] [FloorRing K] in
theorem errorEstimate_reads (n : ℕ) {R : McError (Double K) E → ModelState G S → Prop}
    (hR : ∀ e s, self.samples s = n → R e s) :
    Triple (fun s => self.samples s = n) self.errorEstimate (fun error s => Current self (n, error) s) R := by
  intro s hs
  unfold errorEstimate
  cases h : self.statistics.errorEstimate s.sampleAccumulator with
  | ok error => exact ⟨hs, h⟩
  | error e  => exact hR _ s hs

omit [Field K] [LinearOrder K] [FloorRing K] in
/-- Before the loop there are at least the minimum of samples, and no more than that or those that there were. -/
theorem prepare_counts (c : ℕ) :
    Triple (fun s => self.samples s = c) (self.prepare minSamples)
      (fun p s => Current self p s ∧ p.1 = max c minSamples) (fun _ s => self.samples s ≤ max c minSamples) := by
  unfold prepare
  have hread : Triple (fun s => self.samples s = c) self.sampleNumber (fun drawn s => self.samples s = c ∧ drawn = c)
      (fun _ s => self.samples s ≤ max c minSamples) := fun s hs => ⟨hs, hs⟩
  refine Triple.bind hread (fun drawn => Triple.of_fact ?_)
  rintro rfl
  have hfill : Triple (fun s => self.samples s = drawn)
      (if drawn < minSamples then do
        self.addSamples (minSamples - drawn)
        self.sampleNumber
      else pure drawn : Prog (ModelState G S) (McError (Double K) E) ℕ)
      (fun n s => self.samples s = max drawn minSamples ∧ n = max drawn minSamples)
      (fun _ s => self.samples s ≤ max drawn minSamples) := by
    refine Triple.ite (fun hlt => ?_) (fun hge => Triple.pure _ (fun s hs => by omega))
    refine Triple.bind ((self.addSamples_counts _ drawn).onError (fun _ s hs => by omega)) (fun _ => ?_)
    intro s hs
    exact ⟨by omega, by omega⟩
  refine Triple.bind hfill (fun n => Triple.of_fact ?_)
  rintro rfl
  refine Triple.bind (errorEstimate_reads _ (fun _ s hs => hs.le)) (fun error => ?_)
  exact Triple.pure _ (fun s hs => ⟨hs, rfl⟩)

/-- **A pass adds its batch**, and the count stays within the maximum. -/
theorem pass_counts (p : ℕ × Double K) :
    Triple (Current self p) (self.pass tolerance maxSamples minSamples p)
      (fun r s => match r with
        | .inl _  => Current self p s ∧ ¬ tolerance < p.2
        | .inr p' => Current self p' s ∧ p'.1 ≤ maxSamples ∧ p.1 < maxSamples ∧ tolerance < p.2 ∧
          p'.1 = p.1 + nextBatch tolerance maxSamples minSamples p.1 p.2)
      (fun _ s => self.samples s ≤ max p.1 maxSamples) := by
  unfold pass
  refine Triple.ite (fun hlt => ?_) (fun hge => Triple.pure _ (fun s hs => ⟨hs, hge⟩))
  refine Triple.bind (Q := fun _ s => self.samples s = p.1 ∧ p.1 < maxSamples) ?_ (fun _ => Triple.of_fact fun hmax => ?_)
  · intro s hs
    rw [Prog.run_require]
    by_cases hmax : p.1 < maxSamples
    · rw [if_pos hmax]
      exact ⟨hs.1, hmax⟩
    · rw [if_neg hmax]
      exact hs.1.le.trans (le_max_left _ _)
  · have hbatch : p.1 + nextBatch tolerance maxSamples minSamples p.1 p.2 ≤ maxSamples := by
      have := Nat.min_le_right (toSize (Double.max (ideal tolerance p.1 p.2) (ofSize minSamples))) (maxSamples - p.1)
      unfold nextBatch
      omega
    refine Triple.bind ((self.addSamples_counts _ p.1).onError fun _ s hs => (hs.trans hbatch).trans (le_max_right _ _))
      (fun _ => ?_)
    refine Triple.bind (errorEstimate_reads _ fun _ s hs => (hs.le.trans hbatch).trans (le_max_right _ _)) (fun error => ?_)
    exact Triple.pure _ (fun s hs => ⟨hs, hbatch, hmax, hlt, rfl⟩)

theorem Tests.current (h : Tests self tolerance maxSamples minSamples s p s') : Current self p s' := by
  induction h with
  | start h                    =>
    have := self.prepare_counts minSamples (self.samples s) s rfl
    rw [h] at this
    exact this.1
  | @pass p p' s' s'' _ hpass ih =>
    have := pass_counts tolerance maxSamples minSamples p s' ih
    rw [hpass] at this
    exact this.1

/-! ## Whether the loop goes on as it should -/

/-- What `value` is to do from a state. -/
structure Stops (m : MonteCarloModel G P S (Double K) E) (tolerance : Double K) (maxSamples minSamples : ℕ)
    (s : ModelState G S) : Prop where
  terminates : ∃ turns, (m.value tolerance maxSamples minSamples turns s).1 ≠ .ok none
  /-- Every pass of the loop adds a sample. -/
  progress   : ∀ p s' p' s'', Tests m tolerance maxSamples minSamples s p s' →
    m.pass tolerance maxSamples minSamples p s' = (.ok (.inr p'), s'') → m.samples s' < m.samples s''
  bounded    : ∀ turns, m.samples (m.value tolerance maxSamples minSamples turns s).2 ≤
    max (max maxSamples minSamples) (m.samples s)
  converged  : ∀ turns mean s', m.value tolerance maxSamples minSamples turns s = (.ok (some mean), s') →
    ∃ error, m.statistics.errorEstimate s'.sampleAccumulator = .ok error ∧ error ≤ tolerance

/-- What decides it where the loop tests its condition. -/
structure Proceeds (m : MonteCarloModel G P S (Double K) E) (tolerance : Double K) (maxSamples minSamples : ℕ)
    (p : ℕ × Double K) (s : ModelState G S) : Prop where
  /-- While the error is above the tolerance and samples are left, there is a minimum or the ideal number asks for one. -/
  batch  : tolerance < p.2 → p.1 < maxSamples → 1 ≤ minSamples ∨ 1 ≤ toSize (ideal tolerance p.1 p.2)
  /-- An error that is not above the tolerance is a number, unless there is no mean. -/
  number : ¬ tolerance < p.2 → p.2 ≤ tolerance ∨ ∃ e, m.statistics.mean s.sampleAccumulator = .error e

/-- The loop of `value` as it goes on from a test of its condition. -/
theorem Tests.run (h : Tests self tolerance maxSamples minSamples s p s') : ∃ k, ∀ turns,
    self.value tolerance maxSamples minSamples (k + turns) s =
      (Prog.loop (self.pass tolerance maxSamples minSamples) turns p >>= self.finish) s' := by
  induction h with
  | start h                      =>
    refine ⟨0, fun turns => ?_⟩
    rw [value, Prog.run_bind, h, Nat.zero_add]
  | @pass p p' s' s'' _ hpass ih =>
    obtain ⟨k, hk⟩ := ih
    refine ⟨k + 1, fun turns => ?_⟩
    rw [Nat.add_assoc, Nat.add_comm 1, hk, Prog.loop, Prog.run_bind, Prog.run_bind, hpass, Prog.run_bind]

theorem value_bounded (turns : ℕ) (s : ModelState G S) :
    self.samples (self.value tolerance maxSamples minSamples turns s).2 ≤
      max (max maxSamples minSamples) (self.samples s) := by
  let bound := max (max maxSamples minSamples) (self.samples s)
  have hbound : bound = max (max maxSamples minSamples) (self.samples s) := rfl
  have hprepare : Triple (fun t => self.samples t = self.samples s) (self.prepare minSamples)
      (fun p t => Current self p t ∧ p.1 = max (self.samples s) minSamples) (fun _ t => self.samples t ≤ bound) :=
    (self.prepare_counts minSamples (self.samples s)).onError (fun _ s hs => by omega)
  have hloop : ∀ p, Triple (fun s => Current self p s ∧ p.1 ≤ bound)
      (Prog.loop (self.pass tolerance maxSamples minSamples) turns p) (fun _ s => self.samples s ≤ bound)
      (fun _ s => self.samples s ≤ bound) := by
    intro p
    refine (Triple.loop_always (fun p s => Current self p s ∧ p.1 ≤ bound) (Q := fun _ s => self.samples s ≤ bound)
      (fun p => ?_) turns p).weaken (fun _ h => h) (fun r s hs => ?_)
    · intro s hs
      have := pass_counts tolerance maxSamples minSamples p s hs.1
      rcases hpass : self.pass tolerance maxSamples minSamples p s with ⟨e | r | p', s'⟩ <;> rw [hpass] at this
      · exact this.trans (max_le hs.2 (by omega))
      · exact this.1.1.le.trans hs.2
      · exact ⟨this.1, this.2.1.trans (by omega)⟩
    · cases r with
      | some _ => exact hs
      | none   =>
        obtain ⟨p, hp, hle⟩ := hs
        exact hp.1.le.trans hle
  have hfinish : ∀ ended, Triple (fun s => self.samples s ≤ bound) (self.finish ended) (fun _ s => self.samples s ≤ bound)
      (fun _ s => self.samples s ≤ bound) := by
    intro ended
    cases ended with
    | none   => exact Triple.pure _ (fun _ hs => hs)
    | some _ =>
      refine Triple.bind (Q := fun _ s => self.samples s ≤ bound) (fun s hs => ?_) (fun _ => Triple.pure _ (fun _ hs => hs))
      unfold mean
      dsimp only
      cases self.statistics.mean s.sampleAccumulator <;> exact hs
  have hvalue : Triple (fun s' => self.samples s' = self.samples s) (self.value tolerance maxSamples minSamples turns)
      (fun _ s => self.samples s ≤ bound) (fun _ s => self.samples s ≤ bound) := by
    refine Triple.bind hprepare (fun p => Triple.bind ((hloop p).weaken (fun s hs => ⟨hs.1, by omega⟩) (fun _ _ h => h)) hfinish)
  exact hvalue.after rfl

variable {tolerance maxSamples minSamples}

theorem pass_again (hp : Current self p s) (hlt : tolerance < p.2) (hmax : p.1 < maxSamples)
    (hbatch : nextBatch tolerance maxSamples minSamples p.1 p.2 = 0) :
    self.pass tolerance maxSamples minSamples p s = (.ok (.inr p), s) := by
  unfold pass
  rw [if_pos hlt, Prog.run_bind, Prog.run_require, if_pos hmax]
  dsimp only
  rw [hbatch, addSamples, Prog.run_bind, Prog.run_pure]
  dsimp only
  rw [Prog.run_bind, errorEstimate, hp.2]
  rfl

theorem loop_again (hp : Current self p s) (hlt : tolerance < p.2) (hmax : p.1 < maxSamples)
    (hbatch : nextBatch tolerance maxSamples minSamples p.1 p.2 = 0) : ∀ turns,
    Prog.loop (self.pass tolerance maxSamples minSamples) turns p s = (.ok none, s)
  | 0         => rfl
  | turns + 1 => by
    rw [Prog.loop, Prog.run_bind, pass_again hp hlt hmax hbatch]
    exact loop_again hp hlt hmax hbatch turns

omit [Field K] [LinearOrder K] [FloorRing K] in
/-- With the minimum of samples there already, nothing comes before the loop. -/
theorem prepare_eq {error : Double K} (hmin : minSamples ≤ self.samples s)
    (herror : self.statistics.errorEstimate s.sampleAccumulator = .ok error) :
    self.prepare minSamples s = (.ok (self.samples s, error), s) := by
  simp [prepare, sampleNumber, errorEstimate, herror, Nat.not_lt.2 hmin, Except.mapError]

theorem nextBatch_pos [IsStrictOrderedRing K] {n : ℕ} {error : Double K} (hmax : n < maxSamples) :
    1 ≤ nextBatch tolerance maxSamples minSamples n error ↔ 1 ≤ minSamples ∨ 1 ≤ toSize (ideal tolerance n error) := by
  rw [nextBatch, Nat.le_min, Double.one_le_toSize_max]
  exact and_iff_left (by omega)

omit [Field K] [LinearOrder K] [Double.Arithmetic K] [FloorRing K] in
theorem finish_ok {mean : Double K} (h : self.statistics.mean s.sampleAccumulator = .ok mean) :
    self.finish (some ()) s = (.ok (some mean), s) := by
  simp [finish, MonteCarloModel.mean, h, Except.mapError]

omit [Field K] [LinearOrder K] [Double.Arithmetic K] [FloorRing K] in
theorem finish_error {e : E} (h : self.statistics.mean s.sampleAccumulator = .error e) :
    self.finish (some ()) s = (.error (.inner e), s) := by
  simp [finish, MonteCarloModel.mean, h, Except.mapError]

theorem value_terminates [IsStrictOrderedRing K]
    (h : ∀ p s', Tests self tolerance maxSamples minSamples s p s' → tolerance < p.2 → p.1 < maxSamples →
      1 ≤ minSamples ∨ 1 ≤ toSize (ideal tolerance p.1 p.2)) :
    (self.value tolerance maxSamples minSamples (maxSamples + 2) s).1 ≠ .ok none := by
  let inv (k : ℕ) (p : ℕ × Double K) (s' : ModelState G S) : Prop :=
    Tests self tolerance maxSamples minSamples s p s' ∧ k ≤ p.1 ∧ (k = 0 ∨ p.1 ≤ maxSamples)
  have hlimit : ∀ k p s', inv k p s' → k < maxSamples + 2 := by
    rintro k p s' ⟨_, hk, hmax⟩
    omega
  have hvalue : Triple (· = s) (self.value tolerance maxSamples minSamples (maxSamples + 2)) (fun r _ => r ≠ none)
      (fun _ _ => True) := by
    refine Triple.bind (Q := fun p s' => self.prepare minSamples s = (.ok p, s')) ?_ (fun p => ?_)
    · intro s₀ hs
      rw [hs]
      rcases self.prepare minSamples s with ⟨_ | p, s'⟩ <;> trivial
    have hloop : Triple (inv 0 p) (Prog.loop (self.pass tolerance maxSamples minSamples) (maxSamples + 2) p)
        (fun r _ => ∃ u, r = some u ∧ True) (fun _ _ => True) := by
      refine Triple.loop (maxSamples + 2) inv hlimit (fun k p => ?_) (maxSamples + 2) 0 p (by omega)
      intro s' hs
      have := pass_counts tolerance maxSamples minSamples p s' hs.1.current
      rcases hpass : self.pass tolerance maxSamples minSamples p s' with ⟨e | r | p', s''⟩ <;> rw [hpass] at this
      · trivial
      · trivial
      · obtain ⟨hp', hle, hmax, hlt, hcount⟩ := this
        have hbatch := (nextBatch_pos hmax).2 (h p s' hs.1 hlt hmax)
        have hk := hs.2.1
        exact ⟨hs.1.pass hpass, by omega, .inr hle⟩
    refine Triple.bind (hloop.weaken (fun s' hs => ⟨.start hs, Nat.zero_le _, .inl rfl⟩) (fun _ _ h => h)) (fun ended => ?_)
    rintro s' ⟨_, rfl, _⟩
    cases hmean : self.statistics.mean s'.sampleAccumulator with
    | ok mean =>
      rw [finish_ok hmean]
      exact fun h => by cases h
    | error e =>
      rw [finish_error hmean]
      trivial
  intro hnone
  have := hvalue s rfl
  rcases hrun : self.value tolerance maxSamples minSamples (maxSamples + 2) s with ⟨_ | r, s'⟩ <;> rw [hrun] at this hnone
  · cases hnone
  · exact this (Except.ok.inj hnone)

theorem value_mean {turns : ℕ} {mean : Double K}
    (h : self.value tolerance maxSamples minSamples turns s = (.ok (some mean), s')) :
    ∃ p, Tests self tolerance maxSamples minSamples s p s' ∧ ¬ tolerance < p.2 ∧
      self.statistics.mean s'.sampleAccumulator = .ok mean := by
  have hloop : ∀ p, Triple (Tests self tolerance maxSamples minSamples s p)
      (Prog.loop (self.pass tolerance maxSamples minSamples) turns p)
      (fun r s' => r = some () → ∃ p, Tests self tolerance maxSamples minSamples s p s' ∧ ¬ tolerance < p.2)
      (fun _ _ => True) := by
    intro p
    refine (Triple.loop_always (Tests self tolerance maxSamples minSamples s)
      (Q := fun _ s' => ∃ p, Tests self tolerance maxSamples minSamples s p s' ∧ ¬ tolerance < p.2)
      (fun p => ?_) turns p).weaken (fun _ h => h) (fun r s' hs => ?_)
    · intro s' hs
      have := pass_counts tolerance maxSamples minSamples p s' hs.current
      rcases hpass : self.pass tolerance maxSamples minSamples p s' with ⟨e | r | p', s''⟩ <;> rw [hpass] at this
      · trivial
      · have hsame : s'' = s' := by
          unfold pass at hpass
          rw [if_neg this.2] at hpass
          exact (Prod.mk.inj hpass).2.symm
        exact ⟨p, hsame ▸ hs, this.2⟩
      · exact hs.pass hpass
    · rintro rfl
      exact hs
  have hvalue : Triple (· = s) (self.value tolerance maxSamples minSamples turns)
      (fun r s' => ∀ mean, r = some mean → ∃ p, Tests self tolerance maxSamples minSamples s p s' ∧ ¬ tolerance < p.2 ∧
        self.statistics.mean s'.sampleAccumulator = .ok mean) (fun _ _ => True) := by
    refine Triple.bind (Q := fun p s' => self.prepare minSamples s = (.ok p, s')) ?_ (fun p => ?_)
    · intro s₀ hs
      rw [hs]
      rcases self.prepare minSamples s with ⟨_ | p, s'⟩ <;> trivial
    refine Triple.bind ((hloop p).weaken (fun _ hs => .start hs) (fun _ _ h => h)) (fun ended => ?_)
    cases ended with
    | none   => exact Triple.pure _ (fun s' _ mean h => by cases h)
    | some _ =>
      intro s' hs
      obtain ⟨p, hp, hle⟩ := hs rfl
      cases hmean : self.statistics.mean s'.sampleAccumulator with
      | error e =>
        rw [finish_error hmean]
        trivial
      | ok m    =>
        rw [finish_ok hmean]
        intro mean hm
        cases hm
        exact ⟨p, hp, hle, hmean⟩
  have := hvalue s rfl
  rw [h] at this
  exact this mean rfl

/-- **When `value` stops as it should**: just when every test of its condition proceeds. -/
theorem value_stops_iff [IsStrictOrderedRing K] (self : MonteCarloModel G P S (Double K) E) (tolerance : Double K)
    (maxSamples minSamples : ℕ) (s : ModelState G S) :
    Stops self tolerance maxSamples minSamples s ↔
      ∀ p s', Tests self tolerance maxSamples minSamples s p s' → Proceeds self tolerance maxSamples minSamples p s' := by
  constructor
  · intro h p s' ht
    refine ⟨fun hlt hmax => ?_, fun hle => ?_⟩
    · rw [← nextBatch_pos hmax]
      by_contra hnone
      exact lt_irrefl _ (h.progress p s' p s' ht (pass_again ht.current hlt hmax (by omega)))
    · cases hmean : self.statistics.mean s'.sampleAccumulator with
      | error e => exact .inr ⟨e, rfl⟩
      | ok mean =>
        obtain ⟨k, hk⟩ := ht.run
        have hone : self.value tolerance maxSamples minSamples (k + 1) s = (.ok (some mean), s') := by
          rw [hk, Prog.loop, Prog.run_bind, Prog.run_bind, pass, if_neg hle, Prog.run_pure]
          exact finish_ok hmean
        obtain ⟨error, herror, hnumber⟩ := h.converged _ _ _ hone
        rw [ht.current.2] at herror
        cases herror
        exact .inl hnumber
  · intro h
    refine ⟨⟨_, value_terminates fun p s' ht => (h p s' ht).batch⟩, fun p s' p' s'' ht hpass => ?_, fun turns => value_bounded _ _ _ turns s,
      fun turns mean s' hrun => ?_⟩
    · have := pass_counts tolerance maxSamples minSamples p s' ht.current
      rw [hpass] at this
      obtain ⟨hp', _, hmax, hlt, hcount⟩ := this
      have hbatch := (nextBatch_pos hmax).2 ((h p s' ht).batch hlt hmax)
      rw [ht.current.1, hp'.1]
      omega
    · obtain ⟨p, ht, hle, hmean⟩ := value_mean hrun
      refine ⟨p.2, ht.current.2, ((h p s' ht).number hle).resolve_right ?_⟩
      rintro ⟨e, he⟩
      rw [hmean] at he
      cases he

/-- With a minimum of samples `value` always comes to an end. -/
theorem value_terminates_of_min [IsStrictOrderedRing K] (hmin : 1 ≤ minSamples) :
    (self.value tolerance maxSamples minSamples (maxSamples + 2) s).1 ≠ .ok none :=
  value_terminates fun _ _ _ _ _ => .inl hmin

end Counting

/-! ## A model that is stuck -/

section Stuck

local instance exactArithmetic : Double.Arithmetic ℚ := Double.Arithmetic.exact ℚ

/-- The root of a square. -/
def rationalRoot (x : Double ℚ) : Double ℚ :=
  match x.val with
  | .finite q => ⟨.finite (Nat.sqrt q.num.toNat / Nat.sqrt q.den), false⟩
  | _         => x

/-- Paths without a value, all of price 1. -/
def constant : MonteCarloModel Unit Unit (GeneralStatistics (Double ℚ)) (Double ℚ) (Failure (Double ℚ)) where
  pathGenerator     := ⟨pure ⟨(), ⟨.finite 1, false⟩⟩, pure ⟨(), ⟨.finite 1, false⟩⟩⟩
  pathPricer _      := ⟨.finite 1, false⟩
  statistics        := generalStatistics rationalRoot
  antitheticVariate := false
  control           := none

/-- Two samples, 0 and 2: the mean is 1 and its error 1. -/
def twoSamples : ModelState Unit (GeneralStatistics (Double ℚ)) :=
  ⟨(), ⟨[(⟨.finite 0, false⟩, ⟨.finite 1, false⟩), (⟨.finite 2, false⟩, ⟨.finite 1, false⟩)], false⟩⟩

/-- An error of 1 is above the tolerance 19/20, but not by enough for one more sample. -/
theorem value_stuck :
    ¬ Stops constant ⟨.finite (19 / 20), false⟩ 10 0 twoSamples ∧
      ∀ turns, (constant.value ⟨.finite (19 / 20), false⟩ 10 0 turns twoSamples).1 = .ok none := by
  let tolerance : Double ℚ := ⟨.finite (19 / 20), false⟩
  let one : Double ℚ := ⟨.finite 1, false⟩
  have herror : constant.statistics.errorEstimate twoSamples.sampleAccumulator = .ok one := by decide +kernel
  have hlt : tolerance < one := by decide +kernel
  have hbatch : nextBatch tolerance 10 0 2 one = 0 := by decide +kernel
  have hstart : constant.prepare 0 twoSamples = (.ok (2, one), twoSamples) := prepare_eq (Nat.zero_le _) herror
  have hcurrent : Current constant (2, one) twoSamples := ⟨rfl, herror⟩
  refine ⟨fun h => ?_, fun turns => ?_⟩
  · exact lt_irrefl _ (h.progress _ _ _ _ (.start hstart) (pass_again hcurrent hlt (by decide) hbatch))
  · have hloop := loop_again hcurrent hlt (by decide) hbatch turns
    change ((constant.prepare 0 >>= fun p => Prog.loop (constant.pass tolerance 10 0) turns p >>= constant.finish)
      twoSamples).1 = .ok none
    rw [Prog.run_bind, hstart]
    dsimp only
    rw [Prog.run_bind, hloop]
    rfl

/-- An error of 1 that is not above the tolerance. -/
theorem value_stops_two : Stops constant ⟨.finite 1, false⟩ 10 0 twoSamples := by
  let one : Double ℚ := ⟨.finite 1, false⟩
  have herror : constant.statistics.errorEstimate twoSamples.sampleAccumulator = .ok one := by decide +kernel
  have hstart : constant.prepare 0 twoSamples = (.ok (2, one), twoSamples) := prepare_eq (Nat.zero_le _) herror
  have hle : ¬ one < one := by decide +kernel
  have honly : ∀ p s', Tests constant one 10 0 twoSamples p s' → p = (2, one) ∧ s' = twoSamples := by
    intro p s' ht
    induction ht with
    | start h          =>
      rw [hstart] at h
      cases h
      exact ⟨rfl, rfl⟩
    | pass _ hpass ih =>
      obtain ⟨rfl, rfl⟩ := ih
      rw [pass, if_neg hle] at hpass
      cases hpass
  refine (value_stops_iff constant one 10 0 twoSamples).2 fun p s' ht => ?_
  obtain ⟨rfl, rfl⟩ := honly p s' ht
  exact ⟨fun hlt => absurd hlt hle, fun _ => .inl (by decide +kernel)⟩

end Stuck

end MonteCarloModel

/-! ## The simulation -/

namespace McSimulation

variable [FloorRing K] (turns : ℕ) (tolerance : Double K) (maxSamples minSamples : ℕ)

def value : Prog (McSimulation G P S (Double K) E) (McError (Double K) E) (Option (Double K)) := fun sim =>
  match sim.model with
  | none            => (.error .notInitialized, sim)
  | some (model, s) =>
    let r := model.value tolerance maxSamples minSamples turns s
    (r.1, { sim with model := some (model, r.2) })

omit [FloorRing K] in
def valueWithSamples (samples : ℕ) : Prog (McSimulation G P S (Double K) E) (McError (Double K) E) (Double K) := fun sim =>
  match sim.model with
  | none            => (.error .notInitialized, sim)
  | some (model, s) =>
    let r := model.valueWithSamples samples s
    (r.1, { sim with model := some (model, r.2) })

/-- `none` is that the turns did not do. -/
def finishCalculate (model : MonteCarloModel G P S (Double K) E) (s : ModelState G S)
    (requiredTolerance : Option (Double K)) (requiredSamples maxSamples : Option ℕ) :
    Prog (McSimulation G P S (Double K) E) (McError (Double K) E) (Option Unit) := do
  Prog.require (requiredTolerance.isSome ∨ requiredSamples.isSome) .nothingSet
  Prog.modify (fun sim => { sim with model := some (model, s) })
  match requiredTolerance with
  | some tolerance => do
    let mean ← value turns tolerance (maxSamples.getD Double.sizeMax) defaultMinSamples
    pure (mean.map fun _ => ())
  | none           => do
    let _ ← valueWithSamples (requiredSamples.getD 0)
    pure (some ())

/-- `calculate`, with the accumulator that the simulation starts from. -/
def calculate (pathGenerator : PathGen G P (Double K) E) (generator : G) (pathPricer : P → Double K)
    (statistics : Statistics S (Double K) E) (accumulator : S) (requiredTolerance : Option (Double K))
    (requiredSamples maxSamples : Option ℕ) : Prog (McSimulation G P S (Double K) E) (McError (Double K) E) (Option Unit) := do
  let sim ← Prog.get
  Prog.require (sim.controlVariate = false) .controlVariate
  finishCalculate turns ⟨pathGenerator, pathPricer, statistics, sim.antitheticVariate, none⟩ ⟨generator, accumulator⟩
    requiredTolerance requiredSamples maxSamples

/-- **A calculation comes to an end**: its minimum of samples is not nothing. -/
theorem finishCalculate_terminates [IsStrictOrderedRing K] (model : MonteCarloModel G P S (Double K) E) (s : ModelState G S)
    (requiredTolerance : Option (Double K)) (requiredSamples maxSamples : Option ℕ) (sim : McSimulation G P S (Double K) E) :
    (finishCalculate (maxSamples.getD Double.sizeMax + 2) model s requiredTolerance requiredSamples maxSamples sim).1 ≠
      .ok none := by
  unfold finishCalculate
  rw [Prog.run_bind, Prog.run_require]
  split_ifs
  · dsimp only
    rw [Prog.run_bind, Prog.run_modify]
    dsimp only
    cases requiredTolerance with
    | some tolerance =>
      have hends : (model.value tolerance (maxSamples.getD Double.sizeMax) defaultMinSamples
          (maxSamples.getD Double.sizeMax + 2) s).1 ≠ .ok none :=
        MonteCarloModel.value_terminates_of_min (show 1 ≤ defaultMinSamples by decide)
      dsimp only
      rw [Prog.run_bind, value]
      dsimp only
      rcases hrun : model.value tolerance (maxSamples.getD Double.sizeMax) defaultMinSamples
        (maxSamples.getD Double.sizeMax + 2) s with ⟨e | _ | mean, s'⟩ <;> rw [hrun] at hends
      · exact fun h => by cases h
      · exact absurd rfl hends
      · exact fun h => by cases h
    | none           =>
      dsimp only
      rw [Prog.run_bind]
      rcases valueWithSamples (requiredSamples.getD 0) { sim with model := some (model, s) } with ⟨e | mean, sim'⟩
      · exact fun h => by cases h
      · exact fun h => by cases h
  · exact fun h => by cases h

local instance : Double.Arithmetic ℚ := MonteCarloModel.exactArithmetic

theorem finishCalculate_terminates_constant : (finishCalculate (10 + 2) MonteCarloModel.constant MonteCarloModel.twoSamples
    (some (Double.literal 1)) none (some 10) ⟨none, false, false⟩).1 ≠ .ok none :=
  finishCalculate_terminates _ _ _ none (some 10) _

end McSimulation

end MonteCarlo

end Itofin
