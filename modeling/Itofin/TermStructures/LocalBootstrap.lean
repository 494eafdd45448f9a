import Mathlib.Data.List.Forall2
import Itofin.TermStructures.GlobalBootstrap
/-!
# LocalBootstrap — a window of nodes, fitted to a window of helpers

`LocalBootstrap::calculate` of `termstructures/localbootstrap.rs`.  A subtraction of sizes that would be negative and an
index outside its vector are panics, and nothing else is: the helpers, the interpolation and the minimizer are any that end
with a value or an error.  A calculation leaves a trace of its trial points and its solutions.

`Inv` is what holds between steps: the nodes before the window have the values of the solutions they were last in.  A trial
point keeps it (`tryValues_spec`), and a step passes it on to the next (`step_spec`).
-/
namespace Itofin

open Effect

/-- A helper, whose error is read off the curve. -/
structure LocalHelper (K I : Type) where
  pillarDate : Date
  latestRelevantDate : Date
  maturityDate : Date
  quoteValue : Except String K
  quoteError : CurveData K I → Except String K

/-- An interpolation that grows.  The adjustment is 0, or 1 for the convex-monotone one. -/
structure LocalInterpolator (K I : Type) where
  requiredPoints : ℕ
  dataSizeAdjustment : ℕ
  adjustment_le : dataSizeAdjustment ≤ 1
  localInterpolate : List K → List K → ℕ → Option I → ℕ → Except String I

/-- The curve, as a calculation finds it. -/
structure LocalCurve (K I : Type) where
  instruments : List (LocalHelper K I)
  interpolator : LocalInterpolator K I
  traits : BootstrapTraits K
  accuracy : K
  initialDate : Except String Date
  initialValue : Except String K
  timeFromReference : Date → Except String K
  termStructureShared : Except String Unit

structure LocalBootstrap (K : Type) where
  localisation : ℕ
  forcePositive : Bool
  accuracy : Option K

/-- A minimizer for an accuracy, a constraint and a first candidate, whose trial points are of the size of that. -/
structure LocalSolver (K : Type) where
  endCriteria : K → Except String Unit
  minimize : K → (List K → Bool) → List K → Minimizer K
  sized : ∀ accuracy constraint start, (minimize accuracy constraint start).Sized start.length

namespace LocalBootstrap

inductive Event (K I : Type) where
  /-- A trial point of step `iInst`, with the curve on which the helpers were priced and their errors. -/
  | trial (iInst : ℕ) (x : List K) (cd : CurveData K I) (penalties : List K)
  /-- The solution of a step. -/
  | pinned (iInst : ℕ) (solution : List K)

structure Growing (K I : Type) where
  cd : CurveData K I
  events : List (Event K I)

section Sizes

variable {σ α : Type}

/-- A subtraction of sizes. -/
def sub (a b : ℕ) : Prog σ Stop ℕ := if b ≤ a then pure (a - b) else Prog.fail .panic

/-- `l[i]` -/
def index (l : List α) (i : ℕ) : Prog σ Stop α :=
  match l[i]? with
  | some a => pure a
  | none   => Prog.fail .panic

/-- `l[a..b]` -/
def slice (l : List α) (a b : ℕ) : Prog σ Stop (List α) :=
  if a ≤ b ∧ b ≤ l.length then pure ((l.take b).drop a) else Prog.fail .panic

end Sizes

/-! ## The layout -/

structure Layout (K I : Type) where
  helpers : List (LocalHelper K I)
  dates : List Date
  times : List K
  maxDate : Date
  initialValue : K

variable {K I : Type}

def checkPillars : List (LocalHelper K I) → Except String Unit
  | h :: h' :: hs =>
    if h.pillarDate = h'.pillarDate then
      .error ("two instruments have the same pillar date (" ++ String.ofList h.pillarDate.display ++ ")")
    else checkPillars (h' :: hs)
  | _             => .ok ()

def checkQuotes : ℕ → List (LocalHelper K I) → Except String Unit
  | _, []      => .ok ()
  | i, h :: hs =>
    match h.quoteValue with
    | .ok _    => checkQuotes (i + 1) hs
    | .error _ => .error ("instrument " ++ toString (i + 1) ++ " (maturity: " ++ String.ofList h.maturityDate.display ++
        ", pillar: " ++ String.ofList h.pillarDate.display ++ ") has an invalid quote")

/-- What `calculate` finds before it touches the curve. -/
def prepare (B : LocalBootstrap K) (C : LocalCurve K I) : Except String (Layout K I) :=
  let nInsts := C.instruments.length
  let required := C.interpolator.requiredPoints
  if nInsts < required then
    .error ("not enough instruments: " ++ toString nInsts ++ " provided, " ++ toString required ++ " required")
  else if nInsts ≤ B.localisation then
    .error ("not enough instruments: " ++ toString nInsts ++ " provided, " ++ toString B.localisation ++ " required.")
  else do
    let helpers := C.instruments.mergeSort (fun left right => left.pillarDate ≤ right.pillarDate)
    checkPillars helpers
    checkQuotes 0 helpers
    C.termStructureShared
    let firstDate ← C.initialDate
    let initialValue ← C.initialValue
    let time ← C.timeFromReference firstDate
    let times ← helpers.mapM (fun helper => C.timeFromReference helper.pillarDate)
    let maxDate := helpers.foldl (fun d helper => max d (max helper.pillarDate helper.latestRelevantDate)) firstDate
    .ok ⟨helpers, firstDate :: helpers.map LocalHelper.pillarDate, time :: times, maxDate, initialValue⟩

/-- All the nodes are laid out, with the initial value. -/
def install (layout : Layout K I) (cd : CurveData K I) : CurveData K I :=
  { (cd.setPillars layout.dates layout.times).resetData layout.initialValue (layout.helpers.length + 1) with
    maxDate := some layout.maxDate }

/-! ## A step -/

section Step

variable [SqrtFloats K] (B : LocalBootstrap K) (C : LocalCurve K I) (layout : Layout K I)

/-- A step on the nodes. -/
def onNodes {α : Type} (x : Prog (CurveData K I) Stop α) : Prog (Growing K I) Stop α :=
  x.zoom Growing.cd (fun cd s => { s with cd := cd })

def log (event : Event K I) : Prog (Growing K I) Stop Unit :=
  Prog.modify (fun s => { s with events := s.events ++ [event] })

/-- `update_guess` for every coordinate, counted from a node. -/
def writeWindow : ℕ → List K → Prog (CurveData K I) Stop Unit
  | _, []      => pure ()
  | i, x :: xs => do
    let cd ← Prog.get
    Prog.require (i < cd.data.length) .panic
    Prog.modify (fun cd => { cd with data := C.traits.updateGuess cd.data x i })
    writeWindow (i + 1) xs

/-- `local_interpolate` over the nodes up to `i_inst + 1`. -/
def localInterpolate (iInst : ℕ) (stepPrev : Option I) : Prog (CurveData K I) Stop I := do
  let cd ← Prog.get
  let x ← slice cd.times 0 (iInst + 2)
  let y ← slice cd.data 0 (iInst + 2)
  Prog.lift ((C.interpolator.localInterpolate x y B.localisation stepPrev (layout.helpers.length + 1)).mapError .error)

def setInterpolation (interpolation : I) : Prog (CurveData K I) Stop Unit :=
  Prog.modify (fun cd => { cd with interpolation := some interpolation })

/-- `penalties[k] = helper.quote_error()?`, counted from `k`. -/
def penalties (cd : CurveData K I) : ℕ → List (LocalHelper K I) → Prog (Growing K I) Stop (List K)
  | _, []           => pure []
  | k, helper :: hs => do
    let error ← Prog.lift ((helper.quoteError cd).mapError .error)
    Prog.require (k < B.localisation) .panic
    let errors ← penalties cd (k + 1) hs
    return error :: errors

/-- What a cost function is made of, besides the curve. -/
structure LocalCost (K I : Type) where
  window : List (LocalHelper K I)
  initialDataPt : ℕ
  iInst : ℕ
  stepPrev : Option I

def tryValues (cost : LocalCost K I) (x : List K) : Prog (Growing K I) Stop (List K) := do
  onNodes (writeWindow C cost.initialDataPt x)
  let interpolation ← onNodes (localInterpolate B C layout cost.iInst cost.stepPrev)
  onNodes (setInterpolation interpolation)
  let cd ← onNodes Prog.get
  let errors ← penalties B cd 0 cost.window
  let values := errors ++ List.replicate (B.localisation - errors.length) 0
  log (.trial cost.iInst x cd values)
  return values

/-- The curve, and the parked error of a cost function. -/
structure Parked (K I : Type) where
  growing : Growing K I
  error : Option String

/-- `LocalCost::values`: the first error is parked, and the residuals are NaNs. -/
def values (cost : LocalCost K I) (x : List K) : Prog (Parked K I) Stop (List K) := fun c =>
  match tryValues B C layout cost x c.growing with
  | (.ok values, s)        => (.ok values, ⟨s, c.error⟩)
  | (.error .panic, s)     => (.error .panic, ⟨s, c.error⟩)
  | (.error (.error e), s) => (.ok (List.replicate B.localisation Floats.nan), ⟨s, c.error.or (some e)⟩)

/-- The solve: the parked error, how the minimizer ended, and its solution. -/
def minimize (cost : LocalCost K I) (minimizer : Minimizer K) (start : List K) :
    Prog (Growing K I) Stop (Option String × Except String EndCriteriaType × List K) := fun s =>
  match Problem.minimize (.ofValues (values B C layout cost)) minimizer ⟨start, 0⟩ ⟨s, none⟩ with
  | (.ok (ended, problem), c) => (.ok (c.error, ended, problem.currentValue), c.growing)
  | (.error e, c)             => (.error e, c.growing)

/-- The constraint of `force_positive`. -/
def constraint (x : List K) : Bool := !B.forcePositive || x.all (fun p => Floats.lt 0 p)

def stopAccuracy : K := B.accuracy.getD C.accuracy

/-- The last element of the start point; the traits read the node before `i_inst`, and its time. -/
def lastGuess (iInst : ℕ) (cd : CurveData K I) : Prog (Growing K I) Stop K :=
  if B.localisation ≤ iInst then do
    Prog.require (0 < iInst ∧ iInst < cd.times.length ∧ iInst ≤ cd.data.length) .panic
    pure (C.traits.guess iInst cd.times cd.data false)
  else index cd.data 0

/-- The start point of a step. -/
def startArray (iInst initialDataPt : ℕ) (cd : CurveData K I) : Prog (Growing K I) Stop (List K) := do
  let size ← sub (B.localisation + 1) C.interpolator.dataSizeAdjustment
  let last ← sub size 1
  let nodes ← Prog.collect (fun j => index cd.data (initialDataPt + j)) (List.range last)
  let place ← sub B.localisation C.interpolator.dataSizeAdjustment
  Prog.require (place < size) .panic
  let guess ← lastGuess B C iInst cd
  return (nodes ++ [0]).set place guess

/-- A turn of the grow loop: the interpolation of the next step. -/
def step (solver : LocalSolver K) (iInst : ℕ) (stepPrev : Option I) : Prog (Growing K I) Stop I := do
  let before ← sub (iInst + 1) B.localisation
  let initialDataPt := before + C.interpolator.dataSizeAdjustment
  let entry ← onNodes (localInterpolate B C layout iInst stepPrev)
  let cd ← onNodes Prog.get
  let start ← startArray B C iInst initialDataPt cd
  onNodes (setInterpolation entry)
  let window ← slice layout.helpers before (iInst + 1)
  let (parked, ended, solution) ← minimize B C layout ⟨window, initialDataPt, iInst, stepPrev⟩
    (solver.minimize (stopAccuracy B C) (constraint B) start) start
  match parked with
  | some inner => Prog.fail (.error inner)
  | none       => do
    let endType ← Prog.lift (ended.mapError .error)
    Prog.require (endType.succeeded = true)
      (.error ("Unable to strip yieldcurve to required accuracy: " ++ endType.display))
    onNodes (writeWindow C initialDataPt solution)
    let forCurve ← onNodes (localInterpolate B C layout iInst stepPrev)
    let nextPrev ← onNodes (localInterpolate B C layout iInst stepPrev)
    onNodes (setInterpolation forCurve)
    log (.pinned iInst solution)
    return nextPrev

/-- The grow loop. -/
def grow (solver : LocalSolver K) (iInst : ℕ) : Prog (Growing K I) Stop (Option Unit) :=
  Prog.loop (fun (s : ℕ × Option I) => do
      let next ← step B C layout solver s.1 s.2
      if layout.helpers.length ≤ s.1 + 1 then pure (.inl ()) else pure (.inr (s.1 + 1, some next)))
    (layout.helpers.length + 1) (iInst, none)

end Step

def calculate [SqrtFloats K] (B : LocalBootstrap K) (C : LocalCurve K I) (solver : LocalSolver K) :
    Prog (Growing K I) Stop Unit := do
  let layout ← Prog.lift ((prepare B C).mapError .error)
  onNodes (Prog.modify (install layout))
  Prog.lift ((solver.endCriteria (stopAccuracy B C)).mapError .error)
  let iInst ← sub B.localisation 1
  let ended ← grow B C layout solver iInst
  Prog.require (ended.isSome = true) .panic

/-! ## Windows -/

section Windows

variable (B : LocalBootstrap K) (C : LocalCurve K I) (layout : Layout K I)

/-- The nodes of step `k`, up to the newest one. -/
def InWindow (k j : ℕ) : Prop := k + C.interpolator.dataSizeAdjustment ≤ j ∧ j ≤ k + B.localisation

/-- The helpers of step `k`, up to that of the newest node. -/
def window (k : ℕ) : List (LocalHelper K I) := (layout.helpers.take (k + B.localisation)).drop k

def solutions : List (Event K I) → List (ℕ × List K) :=
  List.filterMap fun
    | .pinned iInst solution => some (iInst, solution)
    | .trial ..              => none

/-- The nodes from the first one on have the values of a point; the reference node may mirror the next. -/
def Holds (first : ℕ) (x data : List K) : Prop := ∀ t < x.length, first + t ≠ 0 → data[first + t]? = x[t]?

/-- The interpolation is the one over so many nodes. -/
def Covers (m : ℕ) (cd : CurveData K I) : Prop := ∃ prev f, cd.interpolation = some f ∧
  C.interpolator.localInterpolate (cd.times.take m) (cd.data.take m) B.localisation prev
    (layout.helpers.length + 1) = .ok f

/-- **A trial fits its window**: the point is at the nodes of the window and interpolated, and the residuals are the errors
of the helpers of the window on that curve. -/
def Fits (k : ℕ) (x : List K) (cd : CurveData K I) (penalties : List K) : Prop :=
  Holds (k + C.interpolator.dataSizeAdjustment) x cd.data ∧ Covers B C layout (k + B.localisation + 1) cd ∧
    List.Forall₂ (fun helper error => helper.quoteError cd = .ok error) (window B layout k) penalties

/-- The nodes before the window of step `k` are the first coordinates of the solutions of the steps before. -/
def Frozen (k : ℕ) (points : List (ℕ × List K)) (data : List K) : Prop :=
  ∀ j, 1 ≤ j → j < k + C.interpolator.dataSizeAdjustment →
    data[j]? = (points[j - C.interpolator.dataSizeAdjustment]?).bind (fun p => p.2[0]?)

/-- The nodes beyond the newest one of step `k` have the initial value. -/
def Ahead (k : ℕ) (data : List K) : Prop :=
  ∀ j, k + B.localisation < j → j ≤ layout.helpers.length → data[j]? = some layout.initialValue

/-- What a trace is made of, given the solutions so far. -/
inductive Traced (points : List (ℕ × List K)) : Event K I → Prop where
  | trial (k : ℕ) {iInst x cd penalties} (step : iInst + 1 = k + B.localisation) (started : k ≤ points.length)
      (bound : k + B.localisation ≤ layout.helpers.length)
      (size : x.length = B.localisation + 1 - C.interpolator.dataSizeAdjustment) (fits : Fits B C layout k x cd penalties)
      (frozen : Frozen C k points cd.data) (ahead : Ahead B layout k cd.data) : Traced points (.trial iInst x cd penalties)
  | pinned (iInst : ℕ) (solution : List K) : Traced points (.pinned iInst solution)

/-- **What holds before step `k`.** -/
structure Inv (k : ℕ) (s : Growing K I) : Prop where
  times : s.cd.times = layout.times
  length : s.cd.data.length = layout.helpers.length + 1
  steps : (solutions s.events).map Prod.fst = (List.range k).map (· + (B.localisation - 1))
  sizes : ∀ p ∈ solutions s.events, p.2.length = B.localisation + 1 - C.interpolator.dataSizeAdjustment
  frozen : Frozen C k (solutions s.events) s.cd.data
  ahead : Ahead B layout k s.cd.data
  traced : ∀ e ∈ s.events, Traced B C layout (solutions s.events) e

end Windows

variable {B : LocalBootstrap K} {C : LocalCurve K I} {layout : Layout K I} {k iInst first m : ℕ} {x data data' : List K}
  {s s' : Growing K I} {cd : CurveData K I} {e : Event K I} {points : List (ℕ × List K)} {α : Type}

theorem Inv.points_length (h : Inv B C layout k s) : (solutions s.events).length = k := by
  have := congrArg List.length h.steps
  simpa using this

theorem Inv.congr (h : Inv B C layout k s) (htimes : s'.cd.times = s.cd.times) (hdata : s'.cd.data = s.cd.data)
    (hevents : s'.events = s.events) : Inv B C layout k s' := by
  constructor
  · exact htimes.trans h.times
  · exact (congrArg List.length hdata).trans h.length
  · rw [hevents]
    exact h.steps
  · rw [hevents]
    exact h.sizes
  · rw [hevents, hdata]
    exact h.frozen
  · rw [hdata]
    exact h.ahead
  · rw [hevents]
    exact h.traced

theorem Frozen.append (h : Frozen C k points data) (hk : k ≤ points.length) (more : List (ℕ × List K)) :
    Frozen C k (points ++ more) data := by
  intro j hj hlt
  have hle := C.interpolator.adjustment_le
  rw [h j hj hlt, List.getElem?_append_left (by omega)]

theorem Traced.append (h : Traced B C layout points e) (more : List (ℕ × List K)) :
    Traced B C layout (points ++ more) e := by
  cases h with
  | pinned => exact .pinned _ _
  | trial k step started bound size fits frozen ahead =>
    refine .trial k step ?_ bound size fits (frozen.append started more) ahead
    rw [List.length_append]
    exact Nat.le_add_right_of_le started

/-! ## The writes -/

/-- What a write of a point to the nodes from `first` on does. -/
structure Written (first : ℕ) (x data data' : List K) : Prop where
  length : data'.length = data.length
  holds : Holds first x data'
  other : ∀ j, 1 ≤ j → j < first ∨ first + x.length ≤ j → data'[j]? = data[j]?

theorem Written.nil (first : ℕ) (data : List K) : Written first [] data data := ⟨rfl, nofun, fun _ _ _ => rfl⟩

theorem Written.cons {value : K} (hfirst : first < data.length)
    (h : Written (first + 1) x (C.traits.updateGuess data value first) data') : Written first (value :: x) data data' where
  length := h.length.trans (IterativeBootstrap.updateGuess_length _ _ _ _)
  holds t ht hne := by
    cases t with
    | zero   =>
      obtain ⟨j, rfl⟩ := Nat.exists_eq_succ_of_ne_zero hne
      exact (h.other (j + 1) (by omega) (.inl (by omega))).trans (IterativeBootstrap.updateGuess_self _ _ _ hfirst)
    | succ t =>
      have ht' : t < x.length := by simpa using ht
      have := h.holds t ht' (by omega)
      rwa [show first + 1 + t = first + (t + 1) by omega] at this
  other j hj hout := by
    rw [List.length_cons] at hout
    obtain ⟨j, rfl⟩ := Nat.exists_eq_succ_of_ne_zero (show j ≠ 0 by omega)
    rw [h.other (j + 1) hj (by omega)]
    exact IterativeBootstrap.updateGuess_other _ _ _ (by omega)

theorem writeWindow_run : ∀ (x : List K) (first : ℕ) (cd : CurveData K I), first + x.length ≤ cd.data.length →
    ∃ data, writeWindow C first x cd = (.ok (), { cd with data := data }) ∧ Written first x cd.data data
  | [], first, cd, _         => ⟨cd.data, rfl, .nil first cd.data⟩
  | value :: x, first, cd, h => by
    rw [List.length_cons] at h
    have hfirst : first < cd.data.length := by omega
    have hlen : first + 1 + x.length ≤ (C.traits.updateGuess cd.data value first).length := by
      rw [IterativeBootstrap.updateGuess_length]
      omega
    obtain ⟨data, hrun, hwritten⟩ := writeWindow_run x (first + 1)
      { cd with data := C.traits.updateGuess cd.data value first } hlen
    refine ⟨data, ?_, hwritten.cons hfirst⟩
    simp only [writeWindow, Prog.run_bind, Prog.run_get, Prog.run_require, if_pos hfirst, Prog.run_modify]
    exact hrun

theorem onNodes_run {p : Prog (CurveData K I) Stop α} {r : Except Stop α} (h : p s.cd = (r, cd)) :
    onNodes p s = (r, { s with cd := cd }) := by
  simp only [onNodes, Prog.zoom, h]

/-- **A write in the window** keeps the nodes before it and those beyond. -/
theorem Inv.write (h : Inv B C layout k s) (hk : k + B.localisation ≤ layout.helpers.length)
    (hx : x.length = B.localisation + 1 - C.interpolator.dataSizeAdjustment)
    (ha : C.interpolator.dataSizeAdjustment ≤ B.localisation) :
    ∃ data, onNodes (writeWindow C (k + C.interpolator.dataSizeAdjustment) x) s =
        (.ok (), { s with cd := { s.cd with data := data } }) ∧
      Inv B C layout k { s with cd := { s.cd with data := data } } ∧ Holds (k + C.interpolator.dataSizeAdjustment) x data := by
  obtain ⟨data, hrun, hwritten⟩ := writeWindow_run (C := C) x (k + C.interpolator.dataSizeAdjustment) s.cd (by
    rw [h.length]
    omega)
  refine ⟨data, onNodes_run hrun, ⟨h.times, hwritten.length.trans h.length, h.steps, h.sizes, ?_, ?_, h.traced⟩, hwritten.holds⟩
  · intro j hj hlt
    rw [← h.frozen j hj hlt]
    exact hwritten.other j hj (.inl hlt)
  · intro j hj hle
    rw [← h.ahead j hj hle]
    exact hwritten.other j (by omega) (.inr (by omega))

section Sized

variable {σ : Type} {Q : σ → Prop} {R : Stop → σ → Prop} {l : List α} {a b i : ℕ}

theorem sub_spec (h : b ≤ a) : Triple Q (sub a b) (fun n s => Q s ∧ n = a - b) R := by
  rw [sub, if_pos h]
  exact Triple.pure _ fun _ hs => ⟨hs, rfl⟩

theorem index_spec (h : i < l.length) : Triple Q (index l i) (fun _ => Q) R := by
  rw [index, List.getElem?_eq_getElem h]
  exact Triple.pure _ fun _ hs => hs

theorem slice_spec (h : a ≤ b ∧ b ≤ l.length) : Triple Q (slice l a b) (fun r s => Q s ∧ r = (l.take b).drop a) R := by
  rw [slice, if_pos h]
  exact Triple.pure _ fun _ hs => ⟨hs, rfl⟩

end Sized

/-! ## A trial point -/

section Steps

variable {P : Growing K I → Prop} {stepPrev : Option I}

theorem Inv.localInterpolate (h : Inv B C layout k s) (htimes : layout.times.length = layout.helpers.length + 1)
    (hstep : iInst + 1 = k + B.localisation) (hk : k + B.localisation ≤ layout.helpers.length) :
    onNodes (localInterpolate B C layout iInst stepPrev) s =
      ((C.interpolator.localInterpolate (s.cd.times.take (k + B.localisation + 1))
        (s.cd.data.take (k + B.localisation + 1)) B.localisation stepPrev (layout.helpers.length + 1)).mapError .error, s) := by
  have hx : k + B.localisation + 1 ≤ s.cd.times.length := by
    rw [h.times, htimes]
    omega
  have hy : k + B.localisation + 1 ≤ s.cd.data.length := by
    rw [h.length]
    omega
  have hsize : iInst + 2 = k + B.localisation + 1 := by omega
  apply onNodes_run
  simp only [LocalBootstrap.localInterpolate, slice, hsize, hx, hy, Nat.zero_le, and_self, if_true, Prog.run_bind,
    Prog.run_get, Prog.run_pure, Prog.run_lift, List.drop_zero]

/-- Interpolating fails with an error only, or gives what covers the nodes up to the newest. -/
theorem localInterpolate_spec (htimes : layout.times.length = layout.helpers.length + 1)
    (hstep : iInst + 1 = k + B.localisation) (hk : k + B.localisation ≤ layout.helpers.length)
    (hP : ∀ s, P s → Inv B C layout k s) : Triple P (onNodes (localInterpolate B C layout iInst stepPrev))
      (fun f s => P s ∧ C.interpolator.localInterpolate (s.cd.times.take (k + B.localisation + 1))
        (s.cd.data.take (k + B.localisation + 1)) B.localisation stepPrev (layout.helpers.length + 1) = .ok f)
      (fun e s => P s ∧ e ≠ .panic) := by
  intro s hs
  rw [(hP s hs).localInterpolate htimes hstep hk]
  cases hrun : C.interpolator.localInterpolate (s.cd.times.take (k + B.localisation + 1))
    (s.cd.data.take (k + B.localisation + 1)) B.localisation stepPrev (layout.helpers.length + 1) with
  | error e => exact ⟨hs, nofun⟩
  | ok f    => exact ⟨hs, hrun⟩

theorem penalties_spec (cd : CurveData K I) : ∀ (helpers : List (LocalHelper K I)) (k : ℕ),
    k + helpers.length ≤ B.localisation → Triple P (penalties B cd k helpers)
      (fun errors s => P s ∧ List.Forall₂ (fun helper error => helper.quoteError cd = .ok error) helpers errors)
      (fun e s => P s ∧ e ≠ .panic)
  | [], _, _           => Triple.pure _ fun _ hs => ⟨hs, .nil⟩
  | helper :: hs, k, h => by
    rw [List.length_cons] at h
    have hquote : Triple P (Prog.lift ((helper.quoteError cd).mapError Stop.error))
        (fun error s => P s ∧ helper.quoteError cd = .ok error) (fun e s => P s ∧ e ≠ Stop.panic) := by
      refine Triple.lift (fun error s herror ht => ⟨ht, mapError_eq_ok.1 herror⟩) (fun e s herror ht => ⟨ht, ?_⟩)
      rintro rfl
      cases hq : helper.quoteError cd <;> rw [hq] at herror <;> cases herror
    refine Triple.bind hquote (fun error => Triple.of_fact fun herror => ?_)
    refine Triple.bind (Triple.require fun hlt => absurd (by omega) hlt) (fun _ => ?_)
    refine Triple.bind ((penalties_spec cd hs (k + 1) (by omega)).weaken (fun _ ht => ht.2) fun _ _ ht => ht)
      (fun errors => Triple.of_fact fun herrors => Triple.pure _ fun _ ht => ⟨ht, .cons herror herrors⟩)

theorem window_length (hk : k + B.localisation ≤ layout.helpers.length) : (window B layout k).length = B.localisation := by
  rw [window, List.length_drop, List.length_take, min_eq_left hk]
  omega

theorem Inv.trial {values : List K} (h : Inv B C layout k s) (hstep : iInst + 1 = k + B.localisation)
    (hk : k + B.localisation ≤ layout.helpers.length)
    (hx : x.length = B.localisation + 1 - C.interpolator.dataSizeAdjustment) (hfits : Fits B C layout k x s.cd values) :
    Inv B C layout k { s with events := s.events ++ [.trial iInst x s.cd values] } := by
  have hpoints : solutions (s.events ++ [.trial iInst x s.cd values]) = solutions s.events := by
    simp [solutions]
  refine ⟨h.times, h.length, ?_, ?_, ?_, h.ahead, ?_⟩
  · exact hpoints ▸ h.steps
  · exact hpoints ▸ h.sizes
  · exact hpoints ▸ h.frozen
  · intro e he
    rw [hpoints]
    rcases List.mem_append.1 he with he | he
    · exact h.traced e he
    · rw [List.mem_singleton.1 he]
      exact .trial k hstep h.points_length.ge hk hx hfits h.frozen h.ahead

variable [SqrtFloats K] (htimes : layout.times.length = layout.helpers.length + 1) (hstep : iInst + 1 = k + B.localisation)
  (hk : k + B.localisation ≤ layout.helpers.length) (ha : C.interpolator.dataSizeAdjustment ≤ B.localisation)
include htimes hstep hk ha

variable (stepPrev) in
/-- **A trial point** keeps what holds before the step, and leaves a trace that fits. -/
theorem tryValues_spec (hx : x.length = B.localisation + 1 - C.interpolator.dataSizeAdjustment) :
    Triple (Inv B C layout k) (tryValues B C layout
      ⟨window B layout k, k + C.interpolator.dataSizeAdjustment, iInst, stepPrev⟩ x)
      (fun v s => Inv B C layout k s ∧ v.length = B.localisation) (fun e s => Inv B C layout k s ∧ e ≠ .panic) := by
  have hwrite : Triple (Inv B C layout k) (onNodes (writeWindow C (k + C.interpolator.dataSizeAdjustment) x))
      (fun _ s => Inv B C layout k s ∧ Holds (k + C.interpolator.dataSizeAdjustment) x s.cd.data)
      (fun e s => Inv B C layout k s ∧ e ≠ .panic) := by
    intro s hs
    obtain ⟨data, hrun, hinv, hholds⟩ := hs.write hk hx ha
    rw [hrun]
    exact ⟨hinv, hholds⟩
  refine Triple.bind hwrite (fun _ => ?_)
  refine Triple.bind ((localInterpolate_spec htimes hstep hk fun s hs => hs.1).onError
    fun e s he => ⟨he.1.1, he.2⟩) (fun f => ?_)
  refine Triple.bind (Q := fun _ s => (Inv B C layout k s ∧ Holds (k + C.interpolator.dataSizeAdjustment) x s.cd.data) ∧
    Covers B C layout (k + B.localisation + 1) s.cd) ?_ (fun _ => ?_)
  · intro s hs
    exact ⟨⟨hs.1.1.congr rfl rfl rfl, hs.1.2⟩, stepPrev, f, rfl, hs.2⟩
  refine Triple.bind (Q := fun cd s => ((Inv B C layout k s ∧ Holds (k + C.interpolator.dataSizeAdjustment) x s.cd.data) ∧
    Covers B C layout (k + B.localisation + 1) s.cd) ∧ s.cd = cd) (fun s hs => ⟨hs, rfl⟩) (fun cd => ?_)
  refine Triple.bind ((penalties_spec cd (window B layout k) 0 (by rw [window_length hk, Nat.zero_add])).onError
    fun e s he => ⟨he.1.1.1.1, he.2⟩) (fun errors => Triple.of_fact fun herrors => ?_)
  have hlength : errors.length = B.localisation := herrors.length_eq.symm.trans (window_length hk)
  have hvalues : errors ++ List.replicate (B.localisation - errors.length) 0 = errors := by
    rw [hlength, Nat.sub_self, List.replicate_zero, List.append_nil]
  rw [hvalues]
  refine Triple.bind (Q := fun _ => Inv B C layout k) ?_ (fun _ => Triple.pure _ fun s hs => ⟨hs, hlength⟩)
  rintro s ⟨⟨⟨hinv, hholds⟩, hcovers⟩, rfl⟩
  exact hinv.trial hstep hk hx ⟨hholds, hcovers, herrors⟩

variable (stepPrev) in
theorem values_spec (hx : x.length = B.localisation + 1 - C.interpolator.dataSizeAdjustment) :
    Triple (fun c => Inv B C layout k c.growing) (values B C layout
      ⟨window B layout k, k + C.interpolator.dataSizeAdjustment, iInst, stepPrev⟩ x)
      (fun v c => Inv B C layout k c.growing ∧ v.length = B.localisation) (fun _ _ => False) := by
  intro c hc
  have htry := tryValues_spec stepPrev htimes hstep hk ha hx c.growing hc
  unfold values
  rcases hrun : tryValues B C layout ⟨window B layout k, k + C.interpolator.dataSizeAdjustment, iInst, stepPrev⟩ x
    c.growing with ⟨(e | _) | v, s⟩ <;> rw [hrun] at htry
  · exact ⟨htry.1, List.length_replicate⟩
  · exact absurd rfl htry.2
  · exact htry

/-- The solve never ends early, and its solution is of the size of its start. -/
theorem minimize_spec (hpos : 0 < B.localisation) {minimizer : Minimizer K} {start : List K}
    (hsized : minimizer.Sized start.length)
    (hstart : start.length = B.localisation + 1 - C.interpolator.dataSizeAdjustment) :
    Triple (Inv B C layout k) (minimize B C layout
      ⟨window B layout k, k + C.interpolator.dataSizeAdjustment, iInst, stepPrev⟩ minimizer start)
      (fun r s => Inv B C layout k s ∧ r.2.2.length = start.length) (fun _ _ => False) := by
  intro s hs
  have hvalues (x : List K) (hx : x.length = start.length) :=
    values_spec stepPrev htimes hstep hk ha (hx.trans hstart)
  have hvalue (x : List K) (hx : x.length = start.length) : Triple (fun c => Inv B C layout k c.growing)
      ((CostFunction.ofValues (values B C layout
        ⟨window B layout k, k + C.interpolator.dataSizeAdjustment, iInst, stepPrev⟩)).value x)
      (fun _ c => Inv B C layout k c.growing) (fun _ _ => False) := by
    refine Triple.bind (hvalues x hx) (fun v => Triple.of_fact fun hv => ?_)
    refine Triple.bind (Triple.require fun hne => absurd ?_ hne) (fun _ => Triple.pure _ fun _ hs => hs.2)
    rw [List.isEmpty_eq_false_iff]
    exact List.ne_nil_of_length_pos (hv ▸ hpos)
  have hrun := Problem.minimize_sized hvalue (fun x hx => (hvalues x hx).weaken (fun _ hs => hs) fun _ _ hs => hs.1)
    minimizer ⟨start, 0⟩ hsized rfl ⟨s, none⟩ hs
  unfold minimize
  rcases h : Problem.minimize (CostFunction.ofValues (values B C layout
    ⟨window B layout k, k + C.interpolator.dataSizeAdjustment, iInst, stepPrev⟩)) minimizer ⟨start, 0⟩ ⟨s, none⟩
    with ⟨e | ⟨ended, problem⟩, c⟩ <;> rw [h] at hrun <;> exact hrun

/-! ## A step -/

variable (hpos : 0 < B.localisation)
include hpos

theorem startArray_spec {Q : Growing K I → Prop} {R : Stop → Growing K I → Prop}
    (htimes' : cd.times = layout.times) (hdata : cd.data.length = layout.helpers.length + 1) :
    Triple Q (startArray B C iInst (k + C.interpolator.dataSizeAdjustment) cd)
      (fun start s => Q s ∧ start.length = B.localisation + 1 - C.interpolator.dataSizeAdjustment) R := by
  refine Triple.bind (sub_spec (by omega)) (fun size => Triple.of_fact ?_)
  rintro rfl
  refine Triple.bind (sub_spec (by omega)) (fun last => Triple.of_fact ?_)
  rintro rfl
  refine Triple.bind ((Triple.collect _ (fun _ => Q) fun _ j hj => index_spec ?_)) (fun nodes => ?_)
  · have := List.mem_range.1 hj
    omega
  refine Triple.bind (sub_spec ha) (fun place => Triple.of_fact ?_)
  rintro rfl
  refine Triple.bind (Triple.require fun hlt => absurd (by omega) hlt) (fun _ => ?_)
  have hguess : Triple (fun s => nodes.length =
      (List.range (B.localisation + 1 - C.interpolator.dataSizeAdjustment - 1)).length ∧ Q s) (lastGuess B C iInst cd)
      (fun _ s => nodes.length = (List.range (B.localisation + 1 - C.interpolator.dataSizeAdjustment - 1)).length ∧ Q s)
      R := by
    refine Triple.ite (fun hle => ?_) (fun _ => index_spec (by omega))
    refine Triple.bind (Triple.require fun hnot => absurd ?_ hnot) (fun _ => Triple.pure _ fun _ hs => hs.2)
    rw [htimes', htimes, hdata]
    omega
  refine Triple.bind (hguess.weaken (fun s hs => ?_) fun _ _ hs => hs) (fun guess => Triple.pure _ fun s hs => ⟨hs.2, ?_⟩)
  · exact hs.2
  · rw [List.length_set, List.length_append, hs.1, List.length_range, List.length_singleton]
    omega

omit [SqrtFloats K] htimes hk ha in
/-- **The solution of a step is pinned**: its first coordinate freezes. -/
theorem Inv.pin {solution : List K} (h : Inv B C layout k s)
    (hx : solution.length = B.localisation + 1 - C.interpolator.dataSizeAdjustment)
    (ha : C.interpolator.dataSizeAdjustment ≤ B.localisation)
    (hholds : Holds (k + C.interpolator.dataSizeAdjustment) solution s.cd.data) :
    Inv B C layout (k + 1) { s with events := s.events ++ [.pinned iInst solution] } := by
  have hpoints : solutions (s.events ++ [.pinned iInst solution]) = solutions s.events ++ [(iInst, solution)] := by
    simp [solutions]
  have hlast : (solutions s.events ++ [(iInst, solution)])[k]? = some (iInst, solution) := by
    rw [List.getElem?_append_right h.points_length.le, h.points_length, Nat.sub_self]
    rfl
  refine ⟨h.times, h.length, ?_, ?_, ?_, ?_, ?_⟩
  · rw [hpoints, List.map_append, h.steps, List.range_succ, List.map_append]
    congr 1
    simp only [List.map_cons, List.map_nil]
    congr 1
    omega
  · intro p hp
    rw [hpoints] at hp
    rcases List.mem_append.1 hp with hp | hp
    · exact h.sizes p hp
    · rw [List.mem_singleton.1 hp]
      exact hx
  · rw [hpoints]
    intro j hj hlt
    by_cases hjk : j < k + C.interpolator.dataSizeAdjustment
    · exact h.frozen.append h.points_length.ge _ j hj hjk
    · obtain rfl : j = k + C.interpolator.dataSizeAdjustment := by omega
      have h₀ := hholds 0 (by omega) (by omega)
      rw [Nat.add_sub_cancel, hlast]
      exact h₀
  · intro j hj hle
    exact h.ahead j (by omega) hle
  · intro e he
    rw [hpoints]
    rcases List.mem_append.1 he with he | he
    · exact (h.traced e he).append _
    · rw [List.mem_singleton.1 he]
      exact .pinned _ _

/-- What is left of a step: its solution is at the nodes of its window, and all the nodes so far are interpolated. -/
def Fresh (B : LocalBootstrap K) (C : LocalCurve K I) (layout : Layout K I) (k : ℕ) (s : Growing K I) : Prop :=
  ∃ iInst solution, (solutions s.events)[k]? = some (iInst, solution) ∧
    Holds (k + C.interpolator.dataSizeAdjustment) solution s.cd.data ∧ Covers B C layout (k + B.localisation + 1) s.cd

variable (stepPrev) in
/-- **A step passes on what holds before it to the next one.** -/
theorem step_spec (solver : LocalSolver K) : Triple (Inv B C layout k) (step B C layout solver iInst stepPrev)
    (fun _ s => Inv B C layout (k + 1) s ∧ Fresh B C layout k s) (fun e s => Inv B C layout k s ∧ e ≠ .panic) := by
  have hbefore : iInst + 1 - B.localisation = k := by omega
  refine Triple.bind (sub_spec (by omega)) (fun before => Triple.of_fact ?_)
  rintro rfl
  rw [hbefore]
  refine Triple.bind (localInterpolate_spec htimes hstep hk fun _ hs => hs) (fun entry => ?_)
  refine Triple.bind (Q := fun cd s => Inv B C layout k s ∧ s.cd = cd) (fun s hs => ⟨hs.1, rfl⟩) (fun cd => ?_)
  refine Triple.bind (Q := fun start s => Inv B C layout k s ∧
    start.length = B.localisation + 1 - C.interpolator.dataSizeAdjustment) ?_ (fun start => Triple.of_fact fun hstart => ?_)
  · rintro s ⟨hs, rfl⟩
    exact startArray_spec htimes hstep hk ha hpos hs.times hs.length s hs
  refine Triple.bind (Q := fun _ => Inv B C layout k) (fun s hs => hs.congr rfl rfl rfl) (fun _ => ?_)
  refine Triple.bind (slice_spec (by omega)) (fun helpers => Triple.of_fact ?_)
  rintro rfl
  rw [hstep]
  refine Triple.bind ((minimize_spec htimes hstep hk ha hpos (solver.sized _ _ _) hstart).onError
    fun _ _ he => he.elim) (fun r => Triple.of_fact fun hr => ?_)
  obtain ⟨parked, ended, solution⟩ := r
  have hsolution := hr.trans hstart
  cases parked with
  | some inner => exact Triple.fail _ fun s hs => ⟨hs, nofun⟩
  | none       =>
    have hended : Triple (Inv B C layout k) (Prog.lift (ended.mapError Stop.error)) (fun _ => Inv B C layout k)
        (fun e s => Inv B C layout k s ∧ e ≠ .panic) := by
      refine Triple.lift (fun _ _ _ hs => hs) (fun e s he hs => ⟨hs, ?_⟩)
      rintro rfl
      cases ended <;> cases he
    refine Triple.bind hended (fun endType => ?_)
    refine Triple.bind (Triple.require fun _ s hs => ⟨hs, nofun⟩) (fun _ => ?_)
    have hwrite : Triple (fun s => endType.succeeded = true ∧ Inv B C layout k s)
        (onNodes (writeWindow C (k + C.interpolator.dataSizeAdjustment) solution))
        (fun _ s => Inv B C layout k s ∧ Holds (k + C.interpolator.dataSizeAdjustment) solution s.cd.data)
        (fun e s => Inv B C layout k s ∧ e ≠ .panic) := by
      intro s hs
      obtain ⟨data, hrun, hinv, hholds⟩ := hs.2.write hk hsolution ha
      rw [hrun]
      exact ⟨hinv, hholds⟩
    refine Triple.bind hwrite (fun _ => ?_)
    refine Triple.bind ((localInterpolate_spec htimes hstep hk fun s hs => hs.1).onError
      fun e s he => ⟨he.1.1, he.2⟩) (fun forCurve => ?_)
    refine Triple.bind ((localInterpolate_spec htimes hstep hk fun s hs => hs.1.1).onError
      fun e s he => ⟨he.1.1.1, he.2⟩) (fun nextPrev => ?_)
    refine Triple.bind (Q := fun _ s => (Inv B C layout k s ∧ Holds (k + C.interpolator.dataSizeAdjustment) solution s.cd.data) ∧
      Covers B C layout (k + B.localisation + 1) s.cd) ?_ (fun _ => ?_)
    · intro s hs
      exact ⟨⟨hs.1.1.1.congr rfl rfl rfl, hs.1.1.2⟩, stepPrev, forCurve, rfl, hs.1.2⟩
    refine Triple.bind (Q := fun _ s => Inv B C layout (k + 1) s ∧ Fresh B C layout k s) ?_
      (fun _ => Triple.pure _ fun _ hs => hs)
    rintro s ⟨⟨hinv, hholds⟩, hcovers⟩
    refine ⟨hinv.pin hstep hpos hsolution ha hholds, iInst, solution, ?_, hholds, hcovers⟩
    simp [solutions, ← hinv.points_length]

omit hstep hk in
/-- **The grow loop** ends after the last window. -/
theorem grow_spec (solver : LocalSolver K) (hn : B.localisation < layout.helpers.length) :
    Triple (Inv B C layout 0) (grow B C layout solver (B.localisation - 1))
      (fun ended s => ended = some () ∧ Inv B C layout (layout.helpers.length - B.localisation + 1) s ∧
        Fresh B C layout (layout.helpers.length - B.localisation) s)
      (fun e s => (∃ k, Inv B C layout k s) ∧ e ≠ .panic) := by
  unfold grow
  refine Triple.weaken (Triple.loop (Q := fun _ s => Inv B C layout (layout.helpers.length - B.localisation + 1) s ∧
      Fresh B C layout (layout.helpers.length - B.localisation) s) (layout.helpers.length + 1)
    (fun k (a : ℕ × Option I) s => (a.1 + 1 = k + B.localisation ∧ k + B.localisation ≤ layout.helpers.length) ∧
      Inv B C layout k s) (fun k a s h => by omega) (fun k a => ?_) (layout.helpers.length + 1) 0
    (B.localisation - 1, none) (by omega)) (fun s hs => ⟨by omega, hs⟩) ?_
  · rintro s ⟨⟨hstep, hk⟩, hs⟩
    have hrun : Triple (Inv B C layout k) (step B C layout solver a.1 a.2)
        (fun _ s => Inv B C layout (k + 1) s ∧ Fresh B C layout k s) (fun e s => (∃ k, Inv B C layout k s) ∧ e ≠ .panic) :=
      (step_spec a.2 htimes hstep hk ha hpos solver).onError fun e s he => ⟨⟨k, he.1⟩, he.2⟩
    refine Triple.bind hrun (fun next => ?_) s hs
    refine Triple.ite (fun hend => Triple.pure _ fun s hs => ?_) (fun hgo => Triple.pure _ fun s hs => ⟨?_, hs.1⟩)
    · obtain rfl : k = layout.helpers.length - B.localisation := by omega
      exact hs
    · omega
  · rintro _ s ⟨_, rfl, hs⟩
    exact ⟨rfl, hs⟩

end Steps

/-! ## A calculation -/

section Calculation

variable (B C layout)

/-- The last window that a node is in. -/
def LastWindow (k j : ℕ) : Prop :=
  k + B.localisation ≤ layout.helpers.length ∧ InWindow B C k j ∧
    ∀ k', k < k' → k' + B.localisation ≤ layout.helpers.length → ¬ InWindow B C k' j

/-- **What an `Ok` leaves**: a solution for every window; every node after the first as the last window that it is in left
it, and as every trial after that window found it; and an interpolation over all the nodes. -/
structure Complete (s : Growing K I) : Prop where
  steps : (solutions s.events).map Prod.fst =
    (List.range (layout.helpers.length - B.localisation + 1)).map (· + (B.localisation - 1))
  written : ∀ j, 1 ≤ j → j ≤ layout.helpers.length → ∃ k, LastWindow B C layout k j ∧ ∃ p value,
    (solutions s.events)[k]? = some p ∧ p.2[j - (k + C.interpolator.dataSizeAdjustment)]? = some value ∧
      s.cd.data[j]? = some value
  settled : ∀ iInst x cd penalties, Event.trial iInst x cd penalties ∈ s.events → ∀ k j, LastWindow B C layout k j →
    1 ≤ j → k + B.localisation < iInst + 1 → cd.data[j]? = s.cd.data[j]?
  sizes : s.cd.times.length = layout.helpers.length + 1 ∧ s.cd.data.length = layout.helpers.length + 1
  covers : ∃ prev f, s.cd.interpolation = some f ∧ C.interpolator.localInterpolate s.cd.times s.cd.data B.localisation
    prev (layout.helpers.length + 1) = .ok f

/-- Every trial of a trace fits the window of its step. -/
def FitsWindows (s : Growing K I) : Prop :=
  ∀ iInst x cd penalties, Event.trial iInst x cd penalties ∈ s.events → ∃ k, iInst + 1 = k + B.localisation ∧
    k + B.localisation ≤ layout.helpers.length ∧ x.length = B.localisation + 1 - C.interpolator.dataSizeAdjustment ∧
      Fits B C layout k x cd penalties

/-- **What a calculation is to be**: no index or size goes wrong, every trial fits its window, and an `Ok` is complete. -/
def Windows [SqrtFloats K] (solver : LocalSolver K) (cd : CurveData K I) : Prop :=
  let run := calculate B C solver ⟨cd, []⟩
  run.1 ≠ .error .panic ∧ ∀ layout, prepare B C = .ok layout →
    FitsWindows B C layout run.2 ∧ (run.1 = .ok () → Complete B C layout run.2)

end Calculation

theorem Inv.fitsWindows (h : Inv B C layout k s) : FitsWindows B C layout s := by
  intro iInst x cd penalties he
  cases h.traced _ he with
  | trial k step started bound size fits frozen ahead => exact ⟨k, step, bound, size, fits⟩

theorem LastWindow.eq {j : ℕ} (h : LastWindow B C layout k j) : k = layout.helpers.length - B.localisation ∨
    k < layout.helpers.length - B.localisation ∧ j = k + C.interpolator.dataSizeAdjustment := by
  obtain ⟨hk, hin, hlast⟩ := h
  by_cases hend : k = layout.helpers.length - B.localisation
  · exact .inl hend
  · have hnext := hlast (k + 1) (Nat.lt_succ_self k) (by omega)
    unfold InWindow at hin hnext
    exact .inr ⟨by omega, by omega⟩

theorem exists_lastWindow (hn : B.localisation < layout.helpers.length)
    (ha : C.interpolator.dataSizeAdjustment ≤ B.localisation) {j : ℕ} (hj : 1 ≤ j) (hle : j ≤ layout.helpers.length) :
    LastWindow B C layout (min (layout.helpers.length - B.localisation) (j - C.interpolator.dataSizeAdjustment)) j := by
  have hadjust := C.interpolator.adjustment_le
  refine ⟨by omega, ⟨by omega, by omega⟩, fun k' hlt hk' hin => ?_⟩
  unfold InWindow at hin
  omega

/-- **After the last window everything is in place.** -/
theorem Inv.complete (h : Inv B C layout (layout.helpers.length - B.localisation + 1) s)
    (hfresh : Fresh B C layout (layout.helpers.length - B.localisation) s)
    (htimes : layout.times.length = layout.helpers.length + 1) (hn : B.localisation < layout.helpers.length)
    (ha : C.interpolator.dataSizeAdjustment ≤ B.localisation) : Complete B C layout s := by
  have hadjust := C.interpolator.adjustment_le
  obtain ⟨last, solution, hlast, hholds, prev, f, hf, hcovers⟩ := hfresh
  have hsolution := h.sizes _ (List.mem_of_getElem? hlast)
  have hwritten : ∀ k j, LastWindow B C layout k j → 1 ≤ j → ∃ p value, (solutions s.events)[k]? = some p ∧
      p.2[j - (k + C.interpolator.dataSizeAdjustment)]? = some value ∧ s.cd.data[j]? = some value := by
    intro k j hlastWindow hj
    have hin := hlastWindow.2.1
    unfold InWindow at hin
    rcases hlastWindow.eq with rfl | ⟨hlt, hjk⟩
    · have hbound : j - (layout.helpers.length - B.localisation + C.interpolator.dataSizeAdjustment) < solution.length := by
        dsimp only at hsolution
        omega
      have hvalue := hholds _ hbound (by omega)
      rw [show layout.helpers.length - B.localisation + C.interpolator.dataSizeAdjustment +
        (j - (layout.helpers.length - B.localisation + C.interpolator.dataSizeAdjustment)) = j by omega] at hvalue
      rw [List.getElem?_eq_getElem hbound] at hvalue
      exact ⟨_, _, hlast, List.getElem?_eq_getElem hbound, hvalue⟩
    · have hbound : k < (solutions s.events).length := by
        rw [h.points_length]
        omega
      have hfrozen := h.frozen j hj (by omega)
      rw [hjk, Nat.add_sub_cancel, List.getElem?_eq_getElem hbound, Option.bind_some] at hfrozen
      have hpos : 0 < ((solutions s.events)[k]).2.length := by
        rw [h.sizes _ (List.getElem_mem hbound)]
        omega
      rw [List.getElem?_eq_getElem hpos] at hfrozen
      subst hjk
      refine ⟨_, _, List.getElem?_eq_getElem hbound, ?_, hfrozen⟩
      rw [Nat.sub_self]
      exact List.getElem?_eq_getElem hpos
  have hlengths : s.cd.times.length = layout.helpers.length + 1 := by rw [h.times, htimes]
  refine ⟨h.steps, fun j hj hle => ?_, ?_, ⟨hlengths, h.length⟩, prev, f, hf, ?_⟩
  · exact ⟨_, exists_lastWindow hn ha hj hle, hwritten _ j (exists_lastWindow hn ha hj hle) hj⟩
  · intro iInst x cd penalties he k j hlastWindow hj hlater
    cases h.traced _ he with
    | trial k' step started bound size fits frozen ahead =>
      have hin := hlastWindow.2.1
      have hbefore : ¬ InWindow B C k' j := hlastWindow.2.2 k' (by omega) bound
      unfold InWindow at hin hbefore
      rw [frozen j hj (by omega), h.frozen j hj (by omega)]
  · rw [show layout.helpers.length - B.localisation + B.localisation + 1 = layout.helpers.length + 1 by omega] at hcovers
    rwa [← hlengths, List.take_length, hlengths, ← h.length, List.take_length, h.length] at hcovers

/-- What the layout is: more helpers than the window has, and a time for every node. -/
theorem prepare_spec (h : prepare B C = .ok layout) :
    B.localisation < layout.helpers.length ∧ layout.times.length = layout.helpers.length + 1 := by
  unfold prepare at h
  dsimp only at h
  split_ifs at h with hrequired hn
  obtain ⟨-, -, h⟩ := bind_eq_ok.1 h
  obtain ⟨-, -, h⟩ := bind_eq_ok.1 h
  obtain ⟨-, -, h⟩ := bind_eq_ok.1 h
  obtain ⟨firstDate, -, h⟩ := bind_eq_ok.1 h
  obtain ⟨initialValue, -, h⟩ := bind_eq_ok.1 h
  obtain ⟨time, -, h⟩ := bind_eq_ok.1 h
  obtain ⟨times, htimes, h⟩ := bind_eq_ok.1 h
  cases h
  constructor
  · rw [List.length_mergeSort]
    exact not_le.1 hn
  · exact congrArg (· + 1) (length_of_mapM_eq_ok htimes)

theorem install_inv (layout : Layout K I) (cd : CurveData K I) : Inv B C layout 0 ⟨install layout cd, []⟩ where
  times := rfl
  length := List.length_replicate
  steps := rfl
  sizes := nofun
  frozen j hj hlt := by
    have hadjust := C.interpolator.adjustment_le
    omega
  ahead j _ hle := List.getElem?_replicate_of_lt (Nat.lt_succ_of_le hle)
  traced := nofun

variable [SqrtFloats K] {solver : LocalSolver K}

variable (solver) in
theorem calculation_spec (hlayout : prepare B C = .ok layout) (hpos : 0 < B.localisation) :
    Triple (fun s => s.events = []) (calculate B C solver)
      (fun _ s => FitsWindows B C layout s ∧ Complete B C layout s) (fun e s => FitsWindows B C layout s ∧ e ≠ .panic) := by
  obtain ⟨hn, htimes⟩ := prepare_spec hlayout
  have ha : C.interpolator.dataSizeAdjustment ≤ B.localisation := C.interpolator.adjustment_le.trans hpos
  unfold calculate
  rw [hlayout]
  refine Triple.bind (Q := fun l s => s.events = [] ∧ l = layout) (fun s hs => ⟨hs, rfl⟩) (fun l => Triple.of_fact ?_)
  rintro rfl
  refine Triple.bind (Q := fun _ => Inv B C l 0) ?_ (fun _ => ?_)
  · rintro ⟨cd, events⟩ rfl
    exact install_inv l cd
  have hcriteria : Triple (Inv B C l 0) (Prog.lift ((solver.endCriteria (stopAccuracy B C)).mapError Stop.error))
      (fun _ => Inv B C l 0) (fun e s => FitsWindows B C l s ∧ e ≠ .panic) := by
    refine Triple.lift (fun _ _ _ hs => hs) (fun e s he hs => ⟨hs.fitsWindows, ?_⟩)
    rintro rfl
    cases hend : solver.endCriteria (stopAccuracy B C) <;> rw [hend] at he <;> cases he
  refine Triple.bind hcriteria (fun _ => ?_)
  refine Triple.bind (sub_spec hpos) (fun iInst => Triple.of_fact ?_)
  rintro rfl
  refine Triple.bind ((grow_spec htimes ha hpos solver hn).onError fun e s he => ⟨he.1.choose_spec.fitsWindows, he.2⟩)
    (fun ended => ?_)
  intro s hs
  obtain ⟨rfl, hinv, hfresh⟩ := hs
  exact ⟨hinv.fitsWindows, hinv.complete hfresh htimes hn ha⟩

theorem calculate_empty (hlayout : prepare B C = .ok layout) (hcriteria : solver.endCriteria (stopAccuracy B C) = .ok ())
    (hzero : B.localisation = 0) (s : Growing K I) : (calculate B C solver s).1 = .error .panic := by
  simp only [calculate, hlayout, hcriteria, hzero, sub]
  rfl

/-- **The windows line up exactly when a window has a node.** -/
theorem windows_iff (B : LocalBootstrap K) (C : LocalCurve K I) (solver : LocalSolver K) (cd : CurveData K I) :
    Windows B C solver cd ↔ ∀ layout, prepare B C = .ok layout → solver.endCriteria (stopAccuracy B C) = .ok () →
      0 < B.localisation := by
  constructor
  · rintro ⟨hpanic, -⟩ layout hlayout hcriteria
    refine Nat.pos_of_ne_zero fun hzero => hpanic ?_
    exact calculate_empty hlayout hcriteria hzero _
  · intro hpos
    unfold Windows
    cases hlayout : prepare B C with
    | error e   =>
      refine ⟨?_, fun l hl => by cases hl⟩
      simp only [calculate, hlayout]
      intro he
      cases he
    | ok layout =>
      cases hcriteria : solver.endCriteria (stopAccuracy B C) with
      | error e =>
        have hrun : calculate B C solver ⟨cd, []⟩ = (.error (.error e), ⟨install layout cd, []⟩) := by
          simp only [calculate, hlayout, hcriteria]
          rfl
        refine ⟨?_, fun l _ => ?_⟩
        · rw [hrun]
          intro he
          cases he
        · rw [hrun]
          exact ⟨fun _ _ _ _ he => (by cases he), fun he => (by cases he)⟩
      | ok _    =>
        have hrun := calculation_spec solver hlayout (hpos layout hlayout hcriteria) ⟨cd, []⟩ rfl
        generalize calculate B C solver ⟨cd, []⟩ = run at hrun ⊢
        obtain ⟨e | _, s⟩ := run
        · refine ⟨fun he => hrun.2 (Except.error.inj he), fun l hl => ?_⟩
          obtain rfl := Except.ok.inj hl
          exact ⟨hrun.1, fun he => by cases he⟩
        · refine ⟨fun he => (by cases he), fun l hl => ?_⟩
          obtain rfl := Except.ok.inj hl
          exact ⟨hrun.1, fun _ => hrun.2⟩

open MultiCurveBootstrap (Whole)

/-- A window of no nodes. -/
def emptyWindow : LocalBootstrap Whole := ⟨0, true, none⟩

theorem january1 : (45658 : ℤ) = 0 ∨ (minimumSerialNumber ≤ 45658 ∧ 45658 ≤ maximumSerialNumber) := by decide

theorem january15 : (45672 : ℤ) = 0 ∨ (minimumSerialNumber ≤ 45672 ∧ 45672 ≤ maximumSerialNumber) := by decide

theorem maxIterations_pos : 0 < 100 := by decide

def oneHelper : LocalCurve Whole Unit where
  instruments := [⟨⟨45672, january15⟩, ⟨45672, january15⟩, ⟨45672, january15⟩, .ok (Floats.ofNat 0), fun _ => .ok (Floats.ofNat 0)⟩]
  interpolator := ⟨1, 1, le_rfl, fun _ _ _ _ _ => .ok ()⟩
  traits := ⟨fun _ _ _ _ => Floats.ofNat 0, fun _ _ _ _ => Floats.ofNat 0, fun _ _ _ _ => Floats.ofNat 0, false, 100, maxIterations_pos⟩
  accuracy := Floats.ofNat 0
  initialDate := .ok ⟨45658, january1⟩
  initialValue := .ok (Floats.ofNat 0)
  timeFromReference _ := .ok (Floats.ofNat 0)
  termStructureShared := .ok ()

def idle : LocalSolver Whole := ⟨fun _ => .ok (), fun _ _ _ => .done (.ok .stationaryPoint), fun _ _ _ => trivial⟩

/-- **A window of no nodes passes the guards and panics.** -/
theorem windows_empty : ¬ Windows emptyWindow oneHelper idle ⟨[], [], [], none, none, false⟩ := by
  have hsort : oneHelper.instruments.mergeSort (fun left right => left.pillarDate ≤ right.pillarDate) =
      oneHelper.instruments := List.mergeSort_singleton _
  have hlayout : ∃ layout, prepare emptyWindow oneHelper = .ok layout := by
    unfold prepare
    rw [hsort]
    exact ⟨_, rfl⟩
  obtain ⟨layout, hlayout⟩ := hlayout
  have hcriteria : idle.endCriteria (stopAccuracy emptyWindow oneHelper) = .ok () := rfl
  exact fun h => h.1 (calculate_empty hlayout hcriteria rfl _)

end LocalBootstrap

end Itofin
