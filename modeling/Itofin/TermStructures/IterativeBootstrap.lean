import Mathlib.Data.List.Chain
import Mathlib.Data.List.TakeWhile
import Itofin.Lib.Effect
import Itofin.Types
import Itofin.Time.Date
/-!
# IterativeBootstrap — the pillars, the passes and the retry

`IterativeBootstrap::calculate` of `termstructures/iterativebootstrap.rs` and the node storage it writes, `CurveData` of
`termstructures/bootstraptraits.rs`.  The floating-point numbers are any type with the operations used (`Floats`, without
laws), and a root finder is any strategy that asks for values of the error and ends with a root or an error (`Search`):
every value it asks for is written into the curve before the helper is repriced.

`attempt` is a bootstrap after the pillars are installed.  `attempt_spec` says what it keeps: the pillars, the nodes set
so far, and a curve marked invalid until the end.  A failed solve from cached data starts `calculate` once more, and the
values left are forgotten then (`install_fresh`).  `calculate_spec` is the result for every run.
-/
namespace Itofin

open Effect

open Floats (isFinite)

inductive BootstrapError (K : Type) where
  /-- "no bootstrap helpers given" -/
  | noHelpers
  /-- "all instruments expired" -/
  | allExpired
  /-- "not enough alive instruments: .. provided, .. required" -/
  | notEnough (alive required : ℕ)
  /-- "more than one instrument with pillar .." -/
  | duplicatePillar (pillar : Date)
  /-- "instrument with pillar .. has latest-relevant date .. before or equal to a previous instrument's (..)" -/
  | notAdvancing (pillar latestRelevant maxDate : Date)
  /-- "invalid bootstrap accuracy" -/
  | invalidAccuracy
  /-- "invalid bootstrap bracket [.., ..]" -/
  | invalidBracket (min max : K)
  /-- "nonfinite bootstrap quote error" -/
  | nonfiniteQuoteError
  /-- "nonfinite bootstrap solver root" -/
  | nonfiniteRoot
  /-- "nonfinite bootstrap fallback error" -/
  | nonfiniteFallback
  /-- "bootstrap failed at pillar .. (maturity ..): .." -/
  | failedAt (pillar maturity : Date) (error : BootstrapError K)
  /-- "convergence not reached after .. iterations; last improvement .., required accuracy .." -/
  | notConverged (iteration : ℕ) (change accuracy : K)
  /-- An error of a helper, of the curve, of the interpolation or of a solver. -/
  | other (message : String)

def Increasing {K : Type} [Floats K] (x : List K) : Prop := x.IsChain (fun a b => Floats.lt a b = true)

/-- An interpolation factory.  Every one refuses nodes that do not increase. -/
structure Interpolator (K I : Type) [Floats K] where
  isGlobal : Bool
  requiredPoints : ℕ
  interpolate : List K → List K → Except (BootstrapError K) I
  increasing : ∀ x y f, interpolate x y = .ok f → Increasing x

def rateUpdateGuess {K : Type} (data : List K) (value : K) (i : ℕ) : List K :=
  let data := data.set i value
  if i = 1 then data.set 0 value else data

/-- The conventions of a curve; `mirrored` are those whose first node takes the value of the second. -/
structure BootstrapTraits (K : Type) where
  guess : ℕ → List K → List K → Bool → K
  minValueAfter : ℕ → List K → List K → Bool → K
  maxValueAfter : ℕ → List K → List K → Bool → K
  mirrored : Bool
  maxIterations : ℕ
  maxIterations_pos : 0 < maxIterations

def BootstrapTraits.updateGuess {K : Type} (traits : BootstrapTraits K) (data : List K) (value : K) (i : ℕ) : List K :=
  if traits.mirrored then rateUpdateGuess data value i else data.set i value

/-- The node storage; `I` are the interpolations. -/
structure CurveData (K I : Type) where
  dates : List Date
  times : List K
  data : List K
  interpolation : Option I
  maxDate : Option Date
  valid : Bool

/-- A helper, whose error is read off the curve. -/
structure Helper (K I : Type) where
  pillarDate : Date
  latestRelevantDate : Date
  maturityDate : Date
  quoteValue : Except (BootstrapError K) Unit
  quoteError : CurveData K I → Except (BootstrapError K) K

structure PiecewiseCurve (K I : Type) [Floats K] where
  instruments : List (Helper K I)
  interpolator : Interpolator K I
  traits : BootstrapTraits K
  accuracy : K
  initialDate : Except (BootstrapError K) Date
  initialValue : Except (BootstrapError K) K
  timeFromReference : Date → Except (BootstrapError K) K
  termStructureShared : Except (BootstrapError K) Unit

structure IterativeBootstrapOptions (K : Type) where
  accuracy : Option K
  minValue : Option K
  maxValue : Option K
  maxAttempts : ℕ
  maxFactor : K
  minFactor : K
  dontThrow : Bool
  dontThrowSteps : ℕ
  maxEvaluations : ℕ

/-- What a root finder does: it asks for the function at a point, or it ends. -/
inductive Search (K : Type) where
  | done (result : Except (BootstrapError K) K)
  | eval (x : K) (next : K → Search K)

/-- `solve_bracketed` of the two solvers, for the evaluation limit, the accuracy, the guess and the bracket. -/
structure Solvers (K : Type) where
  brent : ℕ → K → K → K → K → Search K
  newtonSafe : ℕ → K → K → K → K → Search K

/-- How an attempt ends early: to be retried from fresh data, with an error, or out of passes. -/
inductive Exit (K : Type) where
  | retry
  | failed (error : BootstrapError K)
  | unfinished

variable {K I : Type} [Floats K]

def Search.run {σ : Type} (f : K → σ → K × σ) : Search K → σ → Except (BootstrapError K) K × σ
  | .done result, s => (result, s)
  | .eval x next, s => (next (f x s).1).run f (f x s).2

/-! ## The pillars -/

structure Pillars (K : Type) where
  dates : List Date
  times : List K
  maxDate : Date
  loopRequired : Bool

/-- What `calculate` finds before it touches the curve. -/
structure Setup (K I : Type) where
  helpers : List (Helper K I)
  pillars : Pillars K
  initialValue : K

namespace IterativeBootstrap

/-- A turn of the loop over the alive helpers. -/
def addPillar (curve : PiecewiseCurve K I) (pillars : Pillars K) (helper : Helper K I) :
    Except (BootstrapError K) (Pillars K) := do
  let pillar := helper.pillarDate
  let latestRelevant := helper.latestRelevantDate
  if pillars.dates.getLast? = some pillar then .error (.duplicatePillar pillar)
  else if ¬ pillars.maxDate < latestRelevant then .error (.notAdvancing pillar latestRelevant pillars.maxDate)
  else
    let time ← curve.timeFromReference pillar
    .ok {
      dates := pillars.dates ++ [pillar]
      times := pillars.times ++ [time]
      maxDate := max pillar latestRelevant
      loopRequired := pillars.loopRequired || decide (pillar < latestRelevant) }

def prepare (curve : PiecewiseCurve K I) : Except (BootstrapError K) (Setup K I) :=
  let helpers := curve.instruments.mergeSort (fun left right => left.pillarDate ≤ right.pillarDate)
  match helpers.getLast? with
  | none      => .error .noHelpers
  | some last => do
    let firstDate ← curve.initialDate
    let initialValue ← curve.initialValue
    if ¬ firstDate < last.pillarDate then .error .allExpired
    else
      let alive := helpers.dropWhile (fun helper => helper.pillarDate ≤ firstDate)
      let required := curve.interpolator.requiredPoints
      if alive.length + 1 < required then .error (.notEnough alive.length (required - 1))
      else
        let time ← curve.timeFromReference firstDate
        let pillars ← alive.foldlM (addPillar curve) ⟨[firstDate], [time], firstDate, curve.interpolator.isGlobal⟩
        .ok ⟨alive, pillars, initialValue⟩

/-- Whether the previous solution can seed the passes. -/
def reusable (setup : Setup K I) (cd : CurveData K I) : Bool := cd.valid && cd.data.length == setup.helpers.length + 1

/-- The pillars are installed, and the values reset unless they are reused. -/
def install (setup : Setup K I) (cd : CurveData K I) : CurveData K I where
  dates := setup.pillars.dates
  times := setup.pillars.times
  data := if reusable setup cd then cd.data else List.replicate (setup.helpers.length + 1) setup.initialValue
  interpolation := none
  maxDate := some setup.pillars.maxDate
  valid := false

/-! ## The nodes -/

section

variable (curve : PiecewiseCurve K I) (options : IterativeBootstrapOptions K) (solvers : Solvers K) (setup : Setup K I)
  (cachedValid : Bool)

/-- `accuracy.unwrap_or_else(|| curve.accuracy())` -/
def accuracy : K := options.accuracy.getD curve.accuracy

/-- `update_guess` on the values of the curve. -/
def writeGuess (value : K) (i : ℕ) (cd : CurveData K I) : CurveData K I :=
  { cd with data := curve.traits.updateGuess cd.data value i }

/-- `rebuild`: the interpolation over the nodes up to `upto`. -/
def rebuild (upto : ℕ) : Prog (CurveData K I) (BootstrapError K) Unit := do
  let cd ← Prog.get
  let interpolation ← Prog.lift (curve.interpolator.interpolate (cd.times.take (upto + 1)) (cd.data.take (upto + 1)))
  Prog.modify (fun cd => { cd with interpolation := some interpolation })

def nodeError (i upto : ℕ) (helper : Helper K I) (guess : K) : Prog (CurveData K I) (BootstrapError K) K := do
  Prog.modify (writeGuess curve guess i)
  rebuild curve upto
  let cd ← Prog.get
  Prog.lift (helper.quoteError cd)

/-- The closure `error`: an error and a number that is not finite go to the slot, and the solver sees a NaN. -/
def trial (i upto : ℕ) (helper : Helper K I) (g : K) (s : CurveData K I × Option (BootstrapError K)) :
    K × CurveData K I × Option (BootstrapError K) :=
  match nodeError curve i upto helper g s.1 with
  | (.ok value, cd) => if isFinite value then (value, cd, s.2) else (Floats.nan, cd, some .nonfiniteQuoteError)
  | (.error e, cd)  => (Floats.nan, cd, some e)

/-- The guess of the traits, moved inside the bracket. -/
def clampGuess (min max guess : K) : K :=
  if Floats.le max guess then max - (max - min) / Floats.ofNat 5
  else if Floats.le guess min then min + (max - min) / Floats.ofNat 5
  else guess

/-- A call of the solver; what the slot holds comes before its result. -/
def solve (validData : Bool) (i upto : ℕ) (helper : Helper K I) (min max : K) :
    Prog (CurveData K I) (BootstrapError K) K := fun cd =>
  let guess := clampGuess min max (curve.traits.guess i cd.times cd.data validData)
  let solver := if validData then solvers.newtonSafe else solvers.brent
  let search := solver options.maxEvaluations (accuracy curve options) guess min max
  match search.run (trial curve i upto helper) (cd, none) with
  | (_, cd, some e)    => (.error e, cd)
  | (result, cd, none) => (result, cd)

/-- The loop of `fallback`, over so many steps. -/
def scan (error : K → Prog (CurveData K I) (BootstrapError K) K) (step : K) : ℕ → K → K → K →
    Prog (CurveData K I) (BootstrapError K) K
  | 0, best, _, _                     => pure best
  | steps + 1, best, bestError, value => do
    let value := value + step
    let currentError ← error value
    let currentError := Floats.abs currentError
    Prog.require (isFinite currentError = true) .nonfiniteFallback
    if Floats.lt currentError bestError then scan error step steps value currentError value
    else scan error step steps best bestError value

def fallback (error : K → Prog (CurveData K I) (BootstrapError K) K) (min max : K) (steps : ℕ) :
    Prog (CurveData K I) (BootstrapError K) K := do
  let bestError ← error min
  let bestError := Floats.abs bestError
  Prog.require (isFinite bestError = true) .nonfiniteFallback
  scan error ((max - min) / Floats.ofNat steps) steps min bestError min

def bracketOk (min max : K) : Bool := isFinite min && isFinite max && Floats.lt min max && isFinite (max - min)

/-- A turn of the attempts at a node, without what happens when the solver fails. -/
def tryOnce (validData : Bool) (i upto : ℕ) (helper : Helper K I) (min max : K)
    (onFailure : BootstrapError K → Prog (CurveData K I) (Exit K) (K × Bool)) :
    Prog (CurveData K I) (Exit K) (K × Bool) := do
  Prog.require (bracketOk min max = true) (if cachedValid then .retry else .failed (.invalidBracket min max))
  let solved ← (solve curve options solvers validData i upto helper min max).attempt
  match solved with
  | .ok root => do
    Prog.require (isFinite root = true) (.failed .nonfiniteRoot)
    pure (root, false)
  | .error e => if cachedValid then Prog.fail .retry else onFailure e

/-- The attempts at a node, so many of them after this one: the value, and whether it is a fallback. -/
def attempts (validData : Bool) (i upto : ℕ) (helper : Helper K I) : ℕ → K → K →
    Prog (CurveData K I) (Exit K) (K × Bool)
  | 0, min, max             => tryOnce curve options solvers cachedValid validData i upto helper min max (fun e =>
    if options.dontThrow then do
      let value ← (fallback (nodeError curve i upto helper) min max options.dontThrowSteps).mapError .failed
      pure (value, true)
    else Prog.fail (.failed (.failedAt helper.pillarDate helper.maturityDate e)))
  | remaining + 1, min, max => tryOnce curve options solvers cachedValid validData i upto helper min max (fun _ =>
    attempts validData i upto helper remaining
      (if Floats.lt min 0 then min * options.minFactor else min / options.minFactor)
      (if Floats.lt 0 max then max * options.maxFactor else max / options.maxFactor))

/-- A turn of the loop over the pillars. -/
def solveNode (validData : Bool) (i : ℕ) (helper : Helper K I) : Prog (CurveData K I) (Exit K) Unit := do
  let cd ← Prog.get
  let min := options.minValue.getD (curve.traits.minValueAfter i cd.times cd.data validData)
  let max := options.maxValue.getD (curve.traits.maxValueAfter i cd.times cd.data validData)
  let upto := if validData then setup.helpers.length else i
  let (root, usedFallback) ← attempts curve options solvers cachedValid validData i upto helper
    (options.maxAttempts - 1) min max
  Prog.modify (fun cd => if usedFallback then { cd with data := cd.data.set i root } else writeGuess curve root i cd)
  (rebuild curve upto).mapError .failed

/-! ## The passes -/

def largestMove (data previousData : List K) : K :=
  (List.range setup.helpers.length).foldl
    (fun change k => Floats.max change (Floats.abs (data.getD (k + 1) 0 - previousData.getD (k + 1) 0))) 0

/-- `for iteration in 0.. { .. }`, with so many passes allowed. -/
def converge : ℕ → ℕ → Bool → List K → Prog (CurveData K I) (Exit K) Unit
  | 0, _, _, _                                      => Prog.fail .unfinished
  | passes + 1, iteration, validData, previousData => do
    let cd ← Prog.get
    let previousData := if setup.pillars.loopRequired && validData then cd.data else previousData
    Prog.each 1 setup.helpers (solveNode curve options solvers setup cachedValid validData)
    if ¬ setup.pillars.loopRequired then pure ()
    else
      let cd ← Prog.get
      let change := if validData then largestMove setup cd.data previousData else 0
      if validData && Floats.le change (accuracy curve options) then pure ()
      else if iteration = curve.traits.maxIterations - 1 ∧ options.dontThrow then pure ()
      else
        Prog.require (iteration ≠ curve.traits.maxIterations - 1)
          (.failed (.notConverged iteration change (accuracy curve options)))
        converge passes (iteration + 1) true previousData

/-- What `calculate` does after the pillars are installed. -/
def attempt (passes : ℕ) : Prog (CurveData K I) (Exit K) Unit := do
  (Prog.lift curve.termStructureShared).mapError .failed
  Prog.each 1 setup.helpers (fun _ helper => (Prog.lift helper.quoteValue).mapError .failed)
  Prog.require (isFinite (accuracy curve options) = true ∧ Floats.lt 0 (accuracy curve options) = true)
    (.failed .invalidAccuracy)
  converge curve options solvers setup cachedValid passes 0 cachedValid []
  Prog.modify (fun cd => { cd with valid := true })

end

/-- `calculate`, with so many retries and so many passes in each attempt allowed. -/
def calculate (curve : PiecewiseCurve K I) (options : IterativeBootstrapOptions K) (solvers : Solvers K) (passes : ℕ) :
    ℕ → CurveData K I → Option (Except (BootstrapError K) Unit × CurveData K I)
  | retries, cd => match prepare curve with
    | .error e  => some (.error e, cd)
    | .ok setup => match attempt curve options solvers setup (reusable setup cd) passes (install setup cd) with
      | (.ok (), cd)             => some (.ok (), cd)
      | (.error (.failed e), cd) => some (.error e, cd)
      | (.error .unfinished, _)  => none
      | (.error .retry, cd)      => match retries with
        | 0           => none
        | retries + 1 => calculate curve options solvers passes retries cd

/-! ## The dates -/

section

variable {curve : PiecewiseCurve K I} {setup : Setup K I} {first : Date} {pillars pillars' : Pillars K}
  {helpers : List (Helper K I)} {helper : Helper K I}

/-- The dates increase, from the first on, and every date has its time. -/
structure Ordered (curve : PiecewiseCurve K I) (first : Date) (pillars : Pillars K) : Prop where
  head : pillars.dates.head? = some first
  increasing : pillars.dates.Pairwise (· < ·)
  times : pillars.dates.map curve.timeFromReference = pillars.times.map .ok

theorem addPillar_spec (h : Ordered curve first pillars) (hle : ∀ d ∈ pillars.dates, d ≤ helper.pillarDate)
    (hadd : addPillar curve pillars helper = .ok pillars') :
    Ordered curve first pillars' ∧ pillars'.dates = pillars.dates ++ [helper.pillarDate] := by
  rw [addPillar] at hadd
  split at hadd
  · cases hadd
  rename_i hlast
  split at hadd
  · cases hadd
  obtain ⟨time, ht, hadd⟩ := bind_eq_ok.mp hadd
  obtain rfl := Except.ok.inj hadd
  refine ⟨⟨?_, ?_, ?_⟩, rfl⟩
  · rw [List.head?_append, h.head]
    rfl
  · refine List.pairwise_append.mpr ⟨h.increasing, List.pairwise_singleton _ _, fun d hd p hp => ?_⟩
    rw [List.mem_singleton.mp hp]
    refine lt_of_le_of_ne (hle d hd) (fun he => hlast ?_)
    obtain ⟨init, l, hl⟩ := pillars.dates.eq_nil_or_concat'.resolve_left (List.ne_nil_of_mem hd)
    have hl' : l ≤ helper.pillarDate := hle l (by rw [hl]; exact List.mem_concat_self)
    have hinc := h.increasing
    rw [hl] at hd hinc
    rw [hl, List.getLast?_concat]
    rcases List.mem_append.mp hd with hd | hd
    · have hlt := (List.pairwise_append.mp hinc).2.2 d hd l List.mem_cons_self
      exact absurd (he ▸ hlt) (not_lt.mpr hl')
    · rw [← he, List.mem_singleton.mp hd]
  · rw [List.map_append, List.map_append, h.times, List.map_singleton, List.map_singleton, ht]

/-- **The loop over the alive helpers** adds their pillars, in increasing order. -/
theorem addPillars_spec (first : Date) : ∀ {helpers : List (Helper K I)} {pillars pillars' : Pillars K},
    Ordered curve first pillars → (∀ d ∈ pillars.dates, ∀ h ∈ helpers, d ≤ h.pillarDate) →
    helpers.Pairwise (fun a b => a.pillarDate ≤ b.pillarDate) →
    helpers.foldlM (addPillar curve) pillars = .ok pillars' →
      Ordered curve first pillars' ∧ pillars'.dates = pillars.dates ++ helpers.map Helper.pillarDate
  | [], pillars, _, ho, _, _, h              => by
    cases h
    exact ⟨ho, by rw [List.map_nil, List.append_nil]⟩
  | helper :: helpers, pillars, _, ho, hle, hs, h => by
    rw [List.foldlM_cons] at h
    obtain ⟨pillars₁, hadd, h⟩ := bind_eq_ok.mp h
    obtain ⟨hhead, htail⟩ := List.pairwise_cons.mp hs
    obtain ⟨ho₁, hd₁⟩ := addPillar_spec ho (fun d hd => hle d hd helper List.mem_cons_self) hadd
    have hle₁ : ∀ d ∈ pillars₁.dates, ∀ h ∈ helpers, d ≤ h.pillarDate := fun d hd h hh => by
      rw [hd₁] at hd
      rcases List.mem_append.mp hd with hd | hd
      · exact hle d hd h (List.mem_cons_of_mem helper hh)
      · rw [List.mem_singleton.mp hd]
        exact hhead h hh
    obtain ⟨ho', hd'⟩ := addPillars_spec first ho₁ hle₁ htail h
    exact ⟨ho', by rw [hd', hd₁, List.append_assoc, List.map_cons, List.singleton_append]⟩

omit [Floats K] in
theorem alive_spec (first : Date) : ∀ {helpers : List (Helper K I)},
    helpers.Pairwise (fun a b => a.pillarDate ≤ b.pillarDate) →
      ∀ h ∈ helpers.dropWhile (fun helper => helper.pillarDate ≤ first), first < h.pillarDate
  | [], _, h, hh                => absurd hh List.not_mem_nil
  | helper :: helpers, hs, h, hh => by
    obtain ⟨hhead, htail⟩ := List.pairwise_cons.mp hs
    by_cases he : helper.pillarDate ≤ first
    · rw [List.dropWhile_cons, if_pos (decide_eq_true he)] at hh
      exact alive_spec first htail h hh
    · rw [List.dropWhile_cons, if_neg (by rwa [decide_eq_true_eq])] at hh
      rcases List.mem_cons.mp hh with rfl | hh
      · exact not_le.mp he
      · exact lt_of_lt_of_le (not_le.mp he) (hhead h hh)

/-- **The pillars** are the initial date and the dates of the helpers alive after it, in strictly increasing order. -/
theorem prepare_spec (h : prepare curve = .ok setup) : ∃ first, curve.initialDate = .ok first ∧
    Ordered curve first setup.pillars ∧ setup.pillars.dates = first :: setup.helpers.map Helper.pillarDate ∧
      setup.helpers ≠ [] := by
  rw [prepare] at h
  have hsorted : (curve.instruments.mergeSort (fun a b => a.pillarDate ≤ b.pillarDate)).Pairwise
      (fun a b => a.pillarDate ≤ b.pillarDate) := by
    refine (List.pairwise_mergeSort (fun a b c hab hbc => ?_) (fun a b => ?_) curve.instruments).imp of_decide_eq_true
    · exact decide_eq_true (le_trans (of_decide_eq_true hab) (of_decide_eq_true hbc))
    · rw [Bool.or_eq_true, decide_eq_true_eq, decide_eq_true_eq]
      exact le_total _ _
  generalize curve.instruments.mergeSort (fun a b => a.pillarDate ≤ b.pillarDate) = helpers at h hsorted
  dsimp only at h
  split at h
  · cases h
  rename_i last hlast
  obtain ⟨first, hfirst, h⟩ := bind_eq_ok.mp h
  obtain ⟨initialValue, -, h⟩ := bind_eq_ok.mp h
  split at h
  · cases h
  rename_i halive
  split at h
  · cases h
  obtain ⟨time, htime, h⟩ := bind_eq_ok.mp h
  obtain ⟨pillars, hp, h⟩ := bind_eq_ok.mp h
  obtain rfl := Except.ok.inj h
  have hlater := alive_spec first hsorted
  have hsub := hsorted.sublist (List.dropWhile_sublist (fun helper => decide (helper.pillarDate ≤ first)))
  have hhead : Ordered curve first ⟨[first], [time], first, curve.interpolator.isGlobal⟩ :=
    ⟨rfl, List.pairwise_singleton _ _, by rw [List.map_singleton, List.map_singleton, htime]⟩
  obtain ⟨ho, hd⟩ := addPillars_spec first hhead
    (fun d hd h hh => (List.mem_singleton.mp hd).symm ▸ (hlater h hh).le) hsub hp
  refine ⟨first, hfirst, ho, hd, fun hnil => ?_⟩
  have := List.dropWhile_eq_nil_iff.mp hnil last (List.mem_of_getLast? hlast)
  exact absurd (of_decide_eq_true this) (not_le.mpr (not_not.mp halive))

end

/-! ## What an attempt keeps -/

section

variable (curve : PiecewiseCurve K I) (options : IterativeBootstrapOptions K) (solvers : Solvers K) (setup : Setup K I)
  (cachedValid : Bool)

/-- **A value that the solver found, or a permitted fallback.** -/
inductive SetBy (i : ℕ) (helper : Helper K I) (value : K) : Prop where
  | solver (validData : Bool) (upto : ℕ) (min max : K) (cd cd' : CurveData K I)
      (root : solve curve options solvers validData i upto helper min max cd = (.ok value, cd'))
      (finite : isFinite value = true)
  | fallback (upto : ℕ) (min max : K) (cd cd' : CurveData K I) (permitted : options.dontThrow = true)
      (best : fallback (nodeError curve i upto helper) min max options.dontThrowSteps cd = (.ok value, cd'))

/-- The pillars are installed, the curve is marked invalid, and the nodes in `S`, counted after the first, are set. -/
structure Nodes (S : ℕ → Prop) (cd : CurveData K I) : Prop where
  dates : cd.dates = setup.pillars.dates
  times : cd.times = setup.pillars.times
  length : cd.data.length = setup.helpers.length + 1
  invalid : cd.valid = false
  set : ∀ k helper, S k → setup.helpers[k]? = some helper →
    ∃ value, cd.data[k + 1]? = some value ∧ SetBy curve options solvers (k + 1) helper value

/-- The failures that are returned also from cached data: none is a failed solve or a bracket that cannot be used. -/
inductive Unretried : BootstrapError K → Prop where
  | termStructure {e} (failed : curve.termStructureShared = .error e) : Unretried e
  | quote {e} (helper : Helper K I) (alive : helper ∈ setup.helpers) (failed : helper.quoteValue = .error e) :
      Unretried e
  | accuracy : Unretried .invalidAccuracy
  | root : Unretried .nonfiniteRoot
  | interpolation {e} (x y : List K) (failed : curve.interpolator.interpolate x y = .error e) : Unretried e
  | passes (change accuracy : K) : Unretried (.notConverged (curve.traits.maxIterations - 1) change accuracy)

/-- How an attempt may end early: with the curve marked invalid, and from cached data with a retry unless the failure is
returned also then. -/
def Ends (e : Exit K) (cd : CurveData K I) : Prop :=
  (cd.dates = setup.pillars.dates ∧ cd.times = setup.pillars.times ∧ cd.valid = false) ∧
    match e with
    | .retry      => cachedValid = true
    | .failed e   => cachedValid = true → Unretried curve setup e
    | .unfinished => False

/-- **A finished bootstrap**: the times increase, the curve is valid, and every node after the first was set. -/
structure Solved (cd : CurveData K I) : Prop where
  increasing : Increasing cd.times
  valid : cd.valid = true
  set : ∀ k helper, setup.helpers[k]? = some helper →
    ∃ value, cd.data[k + 1]? = some value ∧ SetBy curve options solvers (k + 1) helper value

variable {curve options solvers setup cachedValid}

variable {S : ℕ → Prop} {cd : CurveData K I} {i k upto : ℕ} {helper : Helper K I} {value : K}

theorem Nodes.weaken {S' : ℕ → Prop} (h : Nodes curve options solvers setup S cd) (hS : ∀ k, S' k → S k) :
    Nodes curve options solvers setup S' cd :=
  { h with set := fun k helper hk => h.set k helper (hS k hk) }

theorem Nodes.ends {e : BootstrapError K} (h : Nodes curve options solvers setup S cd)
    (he : cachedValid = true → Unretried curve setup e) : Ends curve setup cachedValid (.failed e) cd :=
  ⟨⟨h.dates, h.times, h.invalid⟩, he⟩

omit [Floats K] in
theorem updateGuess_length (traits : BootstrapTraits K) (data : List K) (value : K) (i : ℕ) :
    (traits.updateGuess data value i).length = data.length := by
  unfold BootstrapTraits.updateGuess rateUpdateGuess
  split
  · dsimp only
    split
    · rw [List.length_set, List.length_set]
    · rw [List.length_set]
  · rw [List.length_set]

omit [Floats K] in
theorem updateGuess_other (traits : BootstrapTraits K) (data : List K) (value : K) (h : i ≠ k + 1) :
    (traits.updateGuess data value i)[k + 1]? = data[k + 1]? := by
  unfold BootstrapTraits.updateGuess rateUpdateGuess
  split
  · dsimp only
    split
    · rw [List.getElem?_set_ne (Nat.succ_ne_zero k).symm, List.getElem?_set_ne h]
    · rw [List.getElem?_set_ne h]
  · rw [List.getElem?_set_ne h]

omit [Floats K] in
theorem updateGuess_self (traits : BootstrapTraits K) (data : List K) (value : K) (h : k + 1 < data.length) :
    (traits.updateGuess data value (k + 1))[k + 1]? = some value := by
  unfold BootstrapTraits.updateGuess rateUpdateGuess
  split
  · dsimp only
    split
    · rw [List.getElem?_set_ne (Nat.succ_ne_zero k).symm, List.getElem?_set_self h]
    · rw [List.getElem?_set_self h]
  · rw [List.getElem?_set_self h]

theorem Nodes.writeGuess (h : Nodes curve options solvers setup S cd) (hk : ¬ S k) (value : K) :
    Nodes curve options solvers setup S (writeGuess curve value (k + 1) cd) where
  dates := h.dates
  times := h.times
  length := (updateGuess_length _ _ _ _).trans h.length
  invalid := h.invalid
  set j helper hj hh := by
    obtain ⟨v, hv, hset⟩ := h.set j helper hj hh
    refine ⟨v, ?_, hset⟩
    have hne : k + 1 ≠ j + 1 := fun he => hk (Nat.succ.inj he ▸ hj)
    exact (updateGuess_other _ _ _ hne).trans hv

theorem rebuild_spec (upto : ℕ) : Triple (Nodes curve options solvers setup S) (rebuild curve upto)
    (fun _ cd => Nodes curve options solvers setup S cd ∧ Increasing (setup.pillars.times.take (upto + 1)))
    (fun e cd => Nodes curve options solvers setup S cd ∧ Unretried curve setup e) := by
  refine Triple.bind (Triple.get _) (fun cd => ?_)
  refine Triple.bind (Q := fun f cd => Nodes curve options solvers setup S cd ∧
    Increasing (setup.pillars.times.take (upto + 1))) (Triple.lift ?_ ?_) (fun f => Triple.modify ?_)
  · rintro f s hf ⟨rfl, h⟩
    exact ⟨h, h.times ▸ curve.interpolator.increasing _ _ f hf⟩
  · rintro e s he ⟨-, h⟩
    exact ⟨h, .interpolation _ _ he⟩
  · rintro s ⟨h, hinc⟩
    exact ⟨{ h with }, hinc⟩

theorem nodeError_spec (hk : ¬ S k) (upto : ℕ) (helper : Helper K I) (guess : K) :
    Triple (Nodes curve options solvers setup S) (nodeError curve (k + 1) upto helper guess)
      (fun _ => Nodes curve options solvers setup S) (fun _ => Nodes curve options solvers setup S) := by
  refine Triple.bind (Triple.modify (fun cd h => h.writeGuess hk guess)) (fun _ => ?_)
  refine Triple.bind ((rebuild_spec upto).onError (fun _ _ hs => hs.1)) (fun _ => ?_)
  refine Triple.bind (Triple.get _) (fun cd => Triple.lift ?_ ?_)
  · rintro a s - ⟨-, h, -⟩
    exact h
  · rintro e s - ⟨-, h, -⟩
    exact h

omit [Floats K] in
theorem run_keeps {σ : Type} {f : K → σ → K × σ} {inv : σ → Prop} (h : ∀ x s, inv s → inv (f x s).2) :
    ∀ (search : Search K) (s : σ), inv s → inv (search.run f s).2
  | .done _, _, hs      => hs
  | .eval x next, s, hs => run_keeps h (next (f x s).1) (f x s).2 (h x s hs)

theorem trial_keeps (hk : ¬ S k) (g : K) (s : CurveData K I × Option (BootstrapError K))
    (hs : Nodes curve options solvers setup S s.1) :
    Nodes curve options solvers setup S (trial curve (k + 1) upto helper g s).2.1 := by
  have := nodeError_spec hk upto helper g s.1 hs
  rw [trial]
  rcases h : nodeError curve (k + 1) upto helper g s.1 with ⟨e | v, cd⟩ <;> rw [h] at this
  · exact this
  · dsimp only
    split <;> exact this

theorem solve_spec (hk : ¬ S k) (validData : Bool) (min max : K) : Triple (Nodes curve options solvers setup S)
    (solve curve options solvers validData (k + 1) upto helper min max)
    (fun _ => Nodes curve options solvers setup S) (fun _ => Nodes curve options solvers setup S) := by
  refine Triple.of_keeps (fun cd hcd => ?_)
  have hrun (search : Search K) (r) (hr : search.run (trial curve (k + 1) upto helper) (cd, none) = r) :
      Nodes curve options solvers setup S r.2.1 := hr ▸ run_keeps (trial_keeps hk) search (cd, none) hcd
  rw [solve]
  split
  · rename_i heq
    exact hrun _ _ heq
  · rename_i heq
    exact hrun _ _ heq

theorem scan_spec {error : K → Prog (CurveData K I) (BootstrapError K) K}
    (h : ∀ g, Triple (Nodes curve options solvers setup S) (error g) (fun _ => Nodes curve options solvers setup S)
      (fun _ => Nodes curve options solvers setup S)) (step : K) : ∀ (steps : ℕ) (best bestError value : K),
    Triple (Nodes curve options solvers setup S) (scan error step steps best bestError value)
      (fun _ => Nodes curve options solvers setup S) (fun _ => Nodes curve options solvers setup S)
  | 0, best, _, _                         => Triple.pure best (fun _ hs => hs)
  | steps + 1, best, bestError, value => by
    refine Triple.bind (h _) (fun currentError => Triple.bind (Triple.require (fun _ _ hs => hs)) (fun _ => ?_))
    split
    · exact (scan_spec h step steps _ _ _).weaken (fun _ hs => hs.2) (fun _ _ hs => hs)
    · exact (scan_spec h step steps _ _ _).weaken (fun _ hs => hs.2) (fun _ _ hs => hs)

theorem fallback_spec {error : K → Prog (CurveData K I) (BootstrapError K) K}
    (h : ∀ g, Triple (Nodes curve options solvers setup S) (error g) (fun _ => Nodes curve options solvers setup S)
      (fun _ => Nodes curve options solvers setup S)) (min max : K) (steps : ℕ) :
    Triple (Nodes curve options solvers setup S) (fallback error min max steps)
      (fun _ => Nodes curve options solvers setup S) (fun _ => Nodes curve options solvers setup S) := by
  refine Triple.bind (h min) (fun bestError => Triple.bind (Triple.require (fun _ _ hs => hs)) (fun _ => ?_))
  exact (scan_spec h _ steps _ _ _).weaken (fun _ hs => hs.2) (fun _ _ hs => hs)

/-- A turn ends with a root of the solver, asks for a retry from cached data only, or goes on after a failure. -/
theorem tryOnce_spec (hk : ¬ S k) (validData : Bool) (min max : K)
    {onFailure : BootstrapError K → Prog (CurveData K I) (Exit K) (K × Bool)}
    (hfail : cachedValid = false → ∀ e, Triple (Nodes curve options solvers setup S) (onFailure e)
      (fun r cd => Nodes curve options solvers setup S cd ∧ SetBy curve options solvers (k + 1) helper r.1)
      (Ends curve setup cachedValid)) :
    Triple (Nodes curve options solvers setup S)
      (tryOnce curve options solvers cachedValid validData (k + 1) upto helper min max onFailure)
      (fun r cd => Nodes curve options solvers setup S cd ∧ SetBy curve options solvers (k + 1) helper r.1)
      (Ends curve setup cachedValid) := by
  refine Triple.bind (Triple.require (fun _ s hs => ?_)) (fun _ => ?_)
  · cases hc : cachedValid
    · exact hs.ends (fun h => by cases h)
    · exact ⟨⟨hs.dates, hs.times, hs.invalid⟩, rfl⟩
  refine Triple.bind (Triple.attempt ((solve_spec hk validData min max).with_run.weaken (fun _ hs => hs.2)
    (fun _ _ hs => hs))) (fun solved => ?_)
  cases solved with
  | ok root =>
    refine Triple.bind (Triple.require (fun _ s hs => hs.1.ends (fun _ => .root))) (fun _ => Triple.pure _ ?_)
    rintro s ⟨hfinite, hs, cd, hroot⟩
    exact ⟨hs, .solver validData upto min max cd s hroot hfinite⟩
  | error e =>
    dsimp only
    cases hc : cachedValid
    · rw [if_neg Bool.false_ne_true]
      exact hc ▸ hfail hc e
    · rw [if_pos rfl]
      exact Triple.fail _ (fun s hs => ⟨⟨hs.dates, hs.times, hs.invalid⟩, rfl⟩)

theorem attempts_spec (hk : ¬ S k) (validData : Bool) : ∀ (remaining : ℕ) (min max : K),
    Triple (Nodes curve options solvers setup S)
      (attempts curve options solvers cachedValid validData (k + 1) upto helper remaining min max)
      (fun r cd => Nodes curve options solvers setup S cd ∧ SetBy curve options solvers (k + 1) helper r.1)
      (Ends curve setup cachedValid)
  | 0, min, max             => by
    refine tryOnce_spec hk validData min max (fun hc e => ?_)
    by_cases hthrow : options.dontThrow = true
    · rw [if_pos hthrow]
      refine Triple.bind (Triple.mapError (((fallback_spec (fun g => nodeError_spec hk upto helper g) min max
        options.dontThrowSteps).with_run).onError (fun e s hs => hs.ends (fun h => by rw [hc] at h; cases h))))
        (fun value => Triple.pure _ ?_)
      rintro s ⟨hs, cd, hvalue⟩
      exact ⟨hs, .fallback upto min max cd s hthrow hvalue⟩
    · rw [if_neg hthrow]
      exact Triple.fail _ (fun s hs => hs.ends (fun h => by rw [hc] at h; cases h))
  | remaining + 1, min, max => tryOnce_spec hk validData min max (fun _ _ => attempts_spec hk validData remaining _ _)

theorem Nodes.pin (h : Nodes curve options solvers setup S cd) (hk : ¬ S k) (hh : setup.helpers[k]? = some helper)
    (hset : SetBy curve options solvers (k + 1) helper value) {data : List K} (hlength : data.length = cd.data.length)
    (hself : data[k + 1]? = some value) (hother : ∀ j, k + 1 ≠ j + 1 → data[j + 1]? = cd.data[j + 1]?) :
    Nodes curve options solvers setup (fun j => S j ∨ j = k) { cd with data := data } where
  dates := h.dates
  times := h.times
  length := hlength.trans h.length
  invalid := h.invalid
  set j helper' hj hh' := by
    rcases hj with hj | rfl
    · obtain ⟨v, hv, hset⟩ := h.set j helper' hj hh'
      exact ⟨v, (hother j (fun he => hk (Nat.succ.inj he ▸ hj))).trans hv, hset⟩
    · cases hh.symm.trans hh'
      exact ⟨value, hself, hset⟩

/-- **A turn over the pillars** sets its node, keeps the nodes set before, and checks the times up to it. -/
theorem solveNode_spec (hk : ¬ S k) (hh : setup.helpers[k]? = some helper) (validData : Bool) :
    Triple (Nodes curve options solvers setup S)
      (solveNode curve options solvers setup cachedValid validData (k + 1) helper)
      (fun _ cd => Nodes curve options solvers setup (fun j => S j ∨ j = k) cd ∧
        Increasing (setup.pillars.times.take (k + 2)))
      (Ends curve setup cachedValid) := by
  refine Triple.bind (Triple.get _) (fun cd => ?_)
  refine Triple.bind ((attempts_spec hk validData _ _ _).weaken (fun _ hs => hs.2) (fun _ _ hs => hs)) (fun r => ?_)
  obtain ⟨root, usedFallback⟩ := r
  have hlt : k < setup.helpers.length := (List.getElem?_eq_some_iff.mp hh).1
  refine Triple.bind (Q := fun _ => Nodes curve options solvers setup (fun j => S j ∨ j = k)) (Triple.modify ?_) ?_
  · rintro cd ⟨hs, hset⟩
    have hlen : k + 1 < cd.data.length := by
      rw [hs.length]
      omega
    cases usedFallback
    · exact hs.pin hk hh hset (updateGuess_length _ _ _ _) (updateGuess_self _ _ _ hlen)
        (fun j hj => updateGuess_other _ _ _ hj)
    · exact hs.pin hk hh hset List.length_set (List.getElem?_set_self hlen) (fun j hj => List.getElem?_set_ne hj)
  · refine fun _ => Triple.mapError (((rebuild_spec _).weaken (fun _ hs => hs) (fun _ cd hs => ⟨hs.1, ?_⟩)).onError
      (fun e cd hs => hs.1.ends (fun _ => hs.2)))
    have hinc := hs.2.take (k + 2)
    rw [List.take_take, Nat.min_eq_left] at hinc
    · exact hinc
    · cases validData
      · exact le_refl _
      · rw [if_pos rfl]
        omega

/-- **A pass** sets every node and checks all the times. -/
theorem pass_spec (validData : Bool) : Triple (Nodes curve options solvers setup (fun _ => False))
    (Prog.each 1 setup.helpers (solveNode curve options solvers setup cachedValid validData))
    (fun _ cd => Nodes curve options solvers setup (· < setup.helpers.length) cd ∧
      Increasing (setup.pillars.times.take (setup.helpers.length + 1)))
    (Ends curve setup cachedValid) := by
  have hloop := Triple.each (R := Ends curve setup cachedValid)
    (fun k cd => Nodes curve options solvers setup (· < k) cd ∧ Increasing (setup.pillars.times.take (k + 1)))
    setup.helpers 1 0 (f := solveNode curve options solvers setup cachedValid validData) (fun k helper hh => by
      rw [Nat.zero_add, Nat.add_comm 1 k]
      refine (solveNode_spec (S := (· < k)) (lt_irrefl k) hh validData).weaken (fun _ hs => hs.1) (fun _ cd hs => ?_)
      exact ⟨hs.1.weaken (fun j hj => Nat.lt_succ_iff_lt_or_eq.mp hj), hs.2⟩)
  simp only [Nat.zero_add] at hloop
  refine hloop.weaken (fun cd hs => ⟨hs.weaken (fun k hk => absurd hk (Nat.not_lt_zero k)), ?_⟩) (fun _ _ hs => hs)
  cases setup.pillars.times with
  | nil       => exact List.IsChain.nil
  | cons t ts => exact List.IsChain.singleton t

/-- **The passes**: they end before they run out, with every node set. -/
theorem converge_spec : ∀ (passes iteration : ℕ) (validData : Bool) (previousData : List K),
    iteration < curve.traits.maxIterations → curve.traits.maxIterations ≤ iteration + passes →
      Triple (Nodes curve options solvers setup (fun _ => False))
        (converge curve options solvers setup cachedValid passes iteration validData previousData)
        (fun _ cd => Nodes curve options solvers setup (· < setup.helpers.length) cd ∧
          Increasing (setup.pillars.times.take (setup.helpers.length + 1)))
        (Ends curve setup cachedValid)
  | 0, iteration, _, _, hlt, hle                                 => absurd hle (not_le.mpr hlt)
  | passes + 1, iteration, validData, previousData, hlt, hle => by
    refine Triple.bind (Triple.get _) (fun cd => ?_)
    refine Triple.bind ((pass_spec validData).weaken (fun _ hs => hs.2) (fun _ _ hs => hs)) (fun _ => ?_)
    split
    · exact Triple.pure () (fun _ hs => hs)
    refine Triple.bind (Triple.get _) (fun cd' => ?_)
    dsimp only
    generalize (if validData = true then largestMove setup cd'.data _ else 0) = change
    split
    · exact Triple.pure () (fun _ hs => hs.2)
    split
    · exact Triple.pure () (fun _ hs => hs.2)
    refine Triple.bind (Triple.require (fun hlast s hs => hs.2.1.ends (fun _ => ?_))) (fun _ => ?_)
    · rw [not_not.mp hlast]
      exact .passes _ _
    by_cases hlast : iteration = curve.traits.maxIterations - 1
    · exact fun s hs => absurd hlast hs.1
    · refine (converge_spec passes (iteration + 1) true _ (by omega) (by omega)).weaken (fun cd hs => ?_)
        (fun _ _ hs => hs)
      exact hs.2.2.1.weaken (fun _ h => h.elim)

/-! ## The outcome -/

theorem attempt_spec (options : IterativeBootstrapOptions K) (solvers : Solvers K) (cachedValid : Bool)
    (htimes : setup.pillars.times.length = setup.helpers.length + 1) {passes : ℕ}
    (hpasses : curve.traits.maxIterations ≤ passes) : Triple (Nodes curve options solvers setup (fun _ => False))
      (attempt curve options solvers setup cachedValid passes)
      (fun _ cd => cd.dates = setup.pillars.dates ∧ cd.times = setup.pillars.times ∧
        Solved curve options solvers setup cd)
      (Ends curve setup cachedValid) := by
  have hlift (x : Except (BootstrapError K) Unit) (hx : ∀ e, x = .error e → Unretried curve setup e) :
      Triple (Nodes curve options solvers setup (fun _ => False)) ((Prog.lift x).mapError .failed)
        (fun _ => Nodes curve options solvers setup (fun _ => False)) (Ends curve setup cachedValid) :=
    Triple.mapError (Triple.lift (fun _ _ _ hs => hs) (fun e _ he hs => hs.ends (fun _ => hx e he)))
  have hquotes := Triple.each (fun _ => Nodes curve options solvers setup (fun _ => False)) setup.helpers 1 0
    (f := fun _ helper => (Prog.lift helper.quoteValue).mapError Exit.failed)
    (fun _ helper hh => hlift _ (fun _ he => .quote helper (List.mem_of_getElem? hh) he))
  refine Triple.bind (hlift _ (fun _ he => .termStructure he)) (fun _ => Triple.bind hquotes (fun _ => ?_))
  refine Triple.bind (Triple.require (fun _ s hs => hs.ends (fun _ => .accuracy))) (fun _ => ?_)
  refine Triple.bind ((converge_spec passes 0 _ _ curve.traits.maxIterations_pos (by omega)).weaken (fun _ hs => hs.2)
    (fun _ _ hs => hs)) (fun _ => Triple.modify (fun cd hs => ⟨hs.1.dates, hs.1.times, ?_⟩))
  obtain ⟨hs, hinc⟩ := hs
  rw [← htimes, List.take_length, ← hs.times] at hinc
  exact ⟨hinc, rfl, fun k helper hh => hs.set k helper (List.getElem?_eq_some_iff.mp hh).1 hh⟩

/-- Passes beyond `max_iterations` are not made. -/
theorem converge_passes : ∀ (passes iteration : ℕ) (validData : Bool) (previousData : List K),
    iteration < curve.traits.maxIterations → curve.traits.maxIterations ≤ iteration + passes →
      converge curve options solvers setup cachedValid passes iteration validData previousData =
        converge curve options solvers setup cachedValid (curve.traits.maxIterations - iteration) iteration validData
          previousData
  | 0, _, _, _, hlt, hle                                         => absurd hle (not_le.mpr hlt)
  | passes + 1, iteration, validData, previousData, hlt, hle => by
    obtain ⟨n, hn⟩ : ∃ n, curve.traits.maxIterations - iteration = n + 1 :=
      ⟨curve.traits.maxIterations - (iteration + 1), by omega⟩
    rw [hn, converge, converge]
    by_cases hlast : iteration = curve.traits.maxIterations - 1
    · simp only [Prog.require_neg (not_not.mpr hlast)]
    · have ih (previousData : List K) := converge_passes passes (iteration + 1) true previousData (by omega) (by omega)
      rw [show curve.traits.maxIterations - (iteration + 1) = n by omega] at ih
      simp only [ih]

theorem attempt_passes {passes : ℕ} (h : curve.traits.maxIterations ≤ passes) :
    attempt curve options solvers setup cachedValid passes =
      attempt curve options solvers setup cachedValid curve.traits.maxIterations := by
  rw [attempt, attempt, converge_passes passes 0 _ _ curve.traits.maxIterations_pos (by omega), Nat.sub_zero]

omit [Floats K] in
theorem reusable_invalid (h : cd.valid = false) : reusable setup cd = false := by
  rw [reusable, h, Bool.false_and]

omit [Floats K] in
/-- **The old values are forgotten** where they are not reused. -/
theorem install_fresh {cd' : CurveData K I} (h : reusable setup cd = false) (h' : reusable setup cd' = false) :
    install setup cd = install setup cd' := by
  rw [install, install, h, h', if_neg Bool.false_ne_true, if_neg Bool.false_ne_true]

theorem install_nodes (cd : CurveData K I) : Nodes curve options solvers setup (fun _ => False) (install setup cd) where
  dates := rfl
  times := rfl
  invalid := rfl
  length := by
    rw [install]
    dsimp only
    split
    · rename_i h
      rw [reusable, Bool.and_eq_true, beq_iff_eq] at h
      exact h.2
    · exact List.length_replicate
  set _ _ h := h.elim

end

/-! ## The outcome -/

section

variable (curve : PiecewiseCurve K I) (options : IterativeBootstrapOptions K) (solvers : Solvers K)

/-- **An outcome of `calculate` after the pillars were installed**: the pillars are the initial date and the dates of the
alive helpers, increasing, each with its time; the curve is solved, or it is marked invalid. -/
structure Finished (setup : Setup K I) (result : Except (BootstrapError K) Unit) (cd : CurveData K I) : Prop where
  dates : ∃ first, curve.initialDate = .ok first ∧ cd.dates = first :: setup.helpers.map Helper.pillarDate
  increasing : cd.dates.Pairwise (· < ·)
  times : cd.dates.map curve.timeFromReference = cd.times.map .ok
  solved : result = .ok () → Solved curve options solvers setup cd
  invalid : ∀ e, result = .error e → cd.valid = false

variable {curve options solvers} {setup : Setup K I} {cachedValid : Bool} {passes : ℕ} {cd cd' : CurveData K I}

/-- **How an attempt ends**: with an outcome, or with a retry from cached data, which leaves no data to reuse. -/
theorem attempt_outcome (options : IterativeBootstrapOptions K) (solvers : Solvers K) (cachedValid : Bool)
    (hp : prepare curve = .ok setup) (hpasses : curve.traits.maxIterations ≤ passes)
    (cd : CurveData K I) : (∃ result cd', Finished curve options solvers setup result cd' ∧
        (cachedValid = true → ∀ e, result = .error e → Unretried curve setup e) ∧
        attempt curve options solvers setup cachedValid passes (install setup cd) = (result.mapError .failed, cd')) ∨
      (∃ cd', cachedValid = true ∧ reusable setup cd' = false ∧
        attempt curve options solvers setup cachedValid passes (install setup cd) = (.error .retry, cd')) := by
  obtain ⟨first, hfirst, ho, hdates, -⟩ := prepare_spec hp
  have hlength : setup.pillars.times.length = setup.helpers.length + 1 := by
    have := congrArg List.length ho.times
    rw [List.length_map, List.length_map, hdates, List.length_cons, List.length_map] at this
    exact this.symm
  have hspec := attempt_spec options solvers cachedValid hlength hpasses _ (install_nodes cd)
  rcases hrun : attempt curve options solvers setup cachedValid passes (install setup cd) with ⟨e | u, cd'⟩
  · rw [hrun] at hspec
    obtain ⟨⟨hd, ht, hinvalid⟩, he⟩ := hspec
    cases e with
    | retry      => exact .inr ⟨cd', he, reusable_invalid hinvalid, rfl⟩
    | failed e   =>
      refine .inl ⟨.error e, cd', ⟨⟨first, hfirst, hd.trans hdates⟩, hd ▸ ho.increasing, ?_, ?_, ?_⟩, ?_, rfl⟩
      · rw [hd, ht]
        exact ho.times
      · exact fun h => by cases h
      · exact fun _ _ => hinvalid
      · rintro hc _ ⟨⟩
        exact he hc
    | unfinished => exact he.elim
  · rw [hrun] at hspec
    obtain ⟨hd, ht, hsolved⟩ := hspec
    refine .inl ⟨.ok (), cd', ⟨⟨first, hfirst, hd.trans hdates⟩, hd ▸ ho.increasing, ?_, ?_, ?_⟩, ?_, rfl⟩
    · rw [hd, ht]
      exact ho.times
    · exact fun _ => hsolved
    · exact fun _ h => by cases h
    · exact fun _ _ h => by cases h

theorem calculate_finished {retries : ℕ} {result : Except (BootstrapError K) Unit} (hp : prepare curve = .ok setup)
    (hrun : attempt curve options solvers setup (reusable setup cd) passes (install setup cd) =
      (result.mapError .failed, cd')) : calculate curve options solvers passes retries cd = some (result, cd') := by
  rw [calculate.eq_def, hp]
  dsimp only
  rw [hrun]
  cases result <;> rfl

/-- **A bootstrap from scratch** has one outcome, whatever the data that are not reused, and needs no retry. -/
theorem calculate_scratch (options : IterativeBootstrapOptions K) (solvers : Solvers K)
    (hp : prepare curve = .ok setup) :
    ∃ result cd', Finished curve options solvers setup result cd' ∧
      ∀ cd, reusable setup cd = false → ∀ retries passes, curve.traits.maxIterations ≤ passes →
        calculate curve options solvers passes retries cd = some (result, cd') := by
  rcases attempt_outcome options solvers false hp
    (le_refl _) ⟨[], [], [], none, none, false⟩ with ⟨result, cd', hfinished, -, hrun⟩ | ⟨_, hc, -⟩
  · refine ⟨result, cd', hfinished, fun cd hcd retries passes hpasses => calculate_finished hp ?_⟩
    have hempty : reusable setup ⟨[], [], [], none, none, false⟩ = false := reusable_invalid rfl
    rw [hcd, attempt_passes hpasses, install_fresh hcd hempty]
    exact hrun
  · cases hc

/-- A bootstrap of a curve with pillars ends, as one from scratch where nothing that was cached decides. -/
theorem calculate_ends (options : IterativeBootstrapOptions K) (solvers : Solvers K) (hp : prepare curve = .ok setup)
    (cd : CurveData K I) : ∃ result cd',
      (∀ retries passes, curve.traits.maxIterations ≤ passes →
        calculate curve options solvers passes (retries + 1) cd = some (result, cd')) ∧
      Finished curve options solvers setup result cd' ∧
      ((∀ scratch, reusable setup scratch = false →
          calculate curve options solvers curve.traits.maxIterations 0 scratch = some (result, cd')) ∨
        (reusable setup cd = true ∧ ∀ e, result = .error e → Unretried curve setup e)) := by
  obtain ⟨result, cd', hfinished, hscratch⟩ := calculate_scratch options solvers hp
  have hfresh (scratch) (hs : reusable setup scratch = false) := hscratch scratch hs 0 _ (le_refl _)
  by_cases hr : reusable setup cd = true
  · rcases attempt_outcome options solvers (reusable setup cd) hp (le_refl _) cd with
      ⟨result', cd'', hfinished', hunretried, hrun⟩ | ⟨cd'', -, hinvalid, hrun⟩
    · exact ⟨result', cd'', fun retries passes hpasses => calculate_finished hp (attempt_passes hpasses ▸ hrun),
        hfinished', .inr ⟨hr, hunretried hr⟩⟩
    · -- the retry starts from the data that the first attempt marked invalid
      refine ⟨result, cd', fun retries passes hpasses => ?_, hfinished, .inl hfresh⟩
      rw [calculate, hp]
      dsimp only
      rw [attempt_passes hpasses, hrun]
      exact hscratch cd'' hinvalid retries passes hpasses
  · rw [Bool.not_eq_true] at hr
    exact ⟨result, cd', fun retries passes => hscratch cd hr (retries + 1) passes, hfinished, .inl hfresh⟩

/-- **The bootstrap, over every run**: it ends, with at most one retry and at most `max_iterations` passes an attempt.
Without pillars the curve stays as it was; with them the outcome is `Finished`.  It is that of a bootstrap from scratch,
unless cached data were reused and the first attempt succeeded or failed otherwise than by a solve. -/
theorem calculate_spec (curve : PiecewiseCurve K I) (options : IterativeBootstrapOptions K) (solvers : Solvers K)
    (cd : CurveData K I) : ∃ result cd',
      (∀ retries passes, curve.traits.maxIterations ≤ passes →
        calculate curve options solvers passes (retries + 1) cd = some (result, cd')) ∧
      match prepare curve with
      | .error e  => result = .error e ∧ cd' = cd
      | .ok setup => Finished curve options solvers setup result cd' ∧
        ((∀ scratch, reusable setup scratch = false →
            calculate curve options solvers curve.traits.maxIterations 0 scratch = some (result, cd')) ∨
          (reusable setup cd = true ∧ ∀ e, result = .error e → Unretried curve setup e)) := by
  cases hp : prepare curve with
  | error e  =>
    refine ⟨.error e, cd, fun retries passes _ => ?_, rfl, rfl⟩
    rw [calculate, hp]
  | ok setup => exact calculate_ends options solvers hp cd

end

/-! ## Runs in fixed-point numbers -/

/-- A number of 1/36000s, or a NaN. -/
def Fixed : Type := Option ℤ

namespace Fixed

instance : DecidableEq Fixed := inferInstanceAs (DecidableEq (Option ℤ))

def ofParts (n : ℤ) : Fixed := some n

def map₂ (f : ℤ → ℤ → ℤ) : Fixed → Fixed → Fixed
  | some x, some y => some (f x y)
  | _, _           => none

def test (r : ℤ → ℤ → Bool) : Fixed → Fixed → Bool
  | some x, some y => r x y
  | _, _           => false

instance : Floats Fixed where
  zero := some 0
  add := map₂ (fun x y => x + y)
  sub := map₂ (fun x y => x - y)
  mul := map₂ (fun x y => x * y / 36000)
  div x y := if y = ofParts 0 then none else map₂ (fun x y => x * 36000 / y) x y
  lt := test (fun x y => decide (x < y))
  le := test (fun x y => decide (x ≤ y))
  isFinite := Option.isSome
  abs := Option.map (fun x => max x (-x))
  max x y := if test (fun x y => decide (x ≤ y)) x y then y else x
  ofNat n := some (36000 * n)
  nan := none

instance (x : List Fixed) : Decidable (Increasing x) := inferInstanceAs (Decidable (List.IsChain _ x))

/-- A local interpolation that accepts the nodes that increase. -/
def linear : Interpolator Fixed Unit where
  isGlobal := false
  requiredPoints := 2
  interpolate x _ := if Increasing x then .ok () else .error (.other "x values must be strictly increasing")
  increasing x y f h := by
    by_cases hx : Increasing x
    · exact hx
    · rw [if_neg hx] at h
      cases h

/-- A quote of the rate at a node. -/
def rateHelper (date : Date) (node : ℕ) (quote : ℤ) : Helper Fixed Unit where
  pillarDate := date
  latestRelevantDate := date
  maturityDate := date
  quoteValue := .ok ()
  quoteError cd := .ok (cd.data.getD node none - ofParts quote)

/-- A curve of rates from 1 January 2025, its times counted as 30E/360 within the month. -/
def januaryCurve (instruments : List (Helper Fixed Unit)) : PiecewiseCurve Fixed Unit where
  instruments := instruments
  interpolator := linear
  traits := {
    guess := fun _ _ _ _ => some 1800
    minValueAfter := fun _ _ _ _ => some (-36000)
    maxValueAfter := fun _ _ _ _ => some 36000
    mirrored := false
    maxIterations := 100
    maxIterations_pos := by decide }
  accuracy := some 1
  initialDate := .ok ⟨45658, by decide⟩
  initialValue := .ok (some 1800)
  timeFromReference date := .ok (some (100 * (min (date.serialNumber - 45657) 30 - 1)))
  termStructureShared := .ok ()

def defaultOptions : IterativeBootstrapOptions Fixed where
  accuracy := none
  minValue := none
  maxValue := none
  maxAttempts := 1
  maxFactor := some 72000
  minFactor := some 72000
  dontThrow := false
  dontThrowSteps := 10
  maxEvaluations := 100

/-- A step from the guess, and from cached data a root that is no number. -/
def stepSolvers : Solvers Fixed where
  brent _ _ guess _ _ := .eval guess (fun value => .done (.ok (guess - value)))
  newtonSafe _ _ _ _ _ := .done (.ok none)

/-- 30 and 31 January. -/
def monthEndCurve : PiecewiseCurve Fixed Unit :=
  januaryCurve [rateHelper ⟨45687, by decide⟩ 1 1080, rateHelper ⟨45688, by decide⟩ 2 1440]

/-- 15 January. -/
def midMonthCurve : PiecewiseCurve Fixed Unit := januaryCurve [rateHelper ⟨45672, by decide⟩ 1 1080]

def noData : CurveData Fixed Unit := ⟨[], [], [], none, none, false⟩

def cachedData : CurveData Fixed Unit where
  dates := [⟨45658, by decide⟩, ⟨45672, by decide⟩]
  times := [some 0, some 1400]
  data := [some 1800, some 1080]
  interpolation := some ()
  maxDate := some ⟨45672, by decide⟩
  valid := true

end Fixed

open Fixed in
/-- Times that do not increase, refused at the second of them; a failure from cached data without a retry, where a
bootstrap from scratch succeeds; and a first node that keeps the initial value. -/
theorem not_always_increasing_nor_fresh :
    (∃ e cd, calculate monthEndCurve defaultOptions stepSolvers 100 1 noData = some (.error e, cd) ∧
      cd.times = [some 0, some 2900, some 2900]) ∧
    (∃ e cd cd', calculate midMonthCurve defaultOptions stepSolvers 100 1 cachedData = some (.error e, cd) ∧
      calculate midMonthCurve defaultOptions stepSolvers 100 1 noData = some (.ok (), cd') ∧
      cd'.data = [some 1800, some 1080]) := by
  refine ⟨⟨.failedAt ⟨45688, by decide⟩ ⟨45688, by decide⟩ (.other "x values must be strictly increasing"), ?_⟩,
    .nonfiniteRoot, ?_⟩
  · rw [calculate.eq_def, prepare, List.mergeSort_of_pairwise (by decide)]
    exact ⟨_, rfl, rfl⟩
  · rw [calculate.eq_def, calculate.eq_def _ _ _ _ _ noData, prepare, List.mergeSort_of_pairwise (by decide)]
    exact ⟨_, _, rfl, rfl, rfl⟩

end IterativeBootstrap
end Itofin
