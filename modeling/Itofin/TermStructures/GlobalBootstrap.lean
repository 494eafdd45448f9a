import Mathlib.Data.List.Destutter
import Mathlib.Data.List.Sort
import Itofin.TermStructures.IterativeBootstrap
import Itofin.TermStructures.MultiCurveBootstrap
import Itofin.Utilities.DateParser
/-!
# GlobalBootstrap — one least-squares solve over all the nodes

`GlobalBootstrap` of `termstructures/globalbootstrap.rs`, alone (`calculate`) and as a contributor to a joint solve, on the
node storage of `IterativeBootstrap`.  The helpers, the penalties and the additional variables are any functions of the
nodes and of the world outside the curve, which they can change; the minimizer is any strategy.  None of them writes the
nodes: only `install`, the seeds, the trial points and the solution do.
-/
namespace Itofin

open Effect

open MultiCurveBootstrap (Curves Steps Joint Event Succeeds)

/-- A helper, whose quote is read in the world outside the curve. -/
structure RateHelper (K I W : Type) where
  pillarDate : Date
  latestRelevantDate : Date
  maturityDate : Date
  quoteValue : W → Except String K
  quoteError : CurveData K I → Prog W Stop K

structure AdditionalBootstrapVariables (K W : Type) where
  /-- `initialize` -/
  initializeGuesses : Bool → Prog W Stop (List K)
  update : List K → Prog W Stop Unit

/-- The conventions of a yield curve.  Every one takes the node itself for the guess on valid data. -/
structure YieldBootstrapTraits (K : Type) extends BootstrapTraits K where
  transformDirect : K → K → K
  transformInverse : K → K → K
  guess_valid : ∀ i times data value, data[i]? = some value → guess i times data true = value

/-- The curve and its bootstrap, as a calculation finds them. -/
structure GlobalBootstrap (K I W : Type) where
  instruments : List (RateHelper K I W)
  requiredPoints : ℕ
  interpolate : List K → List K → Except Stop I
  traits : YieldBootstrapTraits K
  initialDate : Except Stop Date
  initialValue : Except Stop K
  timeFromReference : Date → Except Stop K
  termStructureShared : Except Stop Unit
  additionalHelpers : List (RateHelper K I W)
  additionalDates : Option (Except Stop (List Date))
  /-- The outcome of `EndCriteria::new`, where no criteria are given. -/
  endCriteria : Except String Unit
  instrumentWeights : List K
  penalties : Option (List K → List K → Prog W Stop (List K))
  additionalVariables : Option (AdditionalBootstrapVariables K W)

structure GlobalBootstrapState (K I W : Type) where
  alive : List (RateHelper K I W)
  aliveWeights : List K
  /-- The number of interior nodes. -/
  interior : ℕ

/-- The nodes of the curve, the cells of its bootstrap, and the world outside. -/
structure Bootstrapped (K I W : Type) where
  cd : CurveData K I
  state : Option (GlobalBootstrapState K I W)
  penaltyLen : ℕ
  outer : W

section

variable {K I W α : Type}

/-- A step on the nodes. -/
def onNodes (x : Prog (CurveData K I) Stop α) : Prog (Bootstrapped K I W) Stop α :=
  fun s => ((x s.cd).1, { s with cd := (x s.cd).2 })

/-- A callback, which reads the nodes. -/
def callback (x : CurveData K I → Prog W Stop α) : Prog (Bootstrapped K I W) Stop α :=
  fun s => ((x s.cd s.outer).1, { s with outer := (x s.cd s.outer).2 })

namespace CurveData

def setPillars (dates : List Date) (times : List K) (cd : CurveData K I) : CurveData K I :=
  { cd with dates := dates, times := times, interpolation := none }

def resetData (initialValue : K) (len : ℕ) (cd : CurveData K I) : CurveData K I :=
  { cd with data := List.replicate len initialValue, valid := false }

end CurveData

end

variable {K I W : Type} [SqrtFloats K]

namespace GlobalBootstrap

/-! ## The setup -/

/-- What `setup` finds before it touches the curve. -/
structure Grid (K I W : Type) where
  alive : List (RateHelper K I W)
  aliveWeights : List K
  aliveAdditional : List (RateHelper K I W)
  dates : List Date
  times : List K
  maxDate : Date
  initialValue : K

section

variable (G : GlobalBootstrap K I W)

def grid : Except Stop (Grid K I W) := do
  let n := G.instruments.length
  if ¬ (G.instrumentWeights = [] ∨ G.instrumentWeights.length = n) then
    .error (.error ("GlobalBootstrap: number of instrument weights (" ++ toString G.instrumentWeights.length ++
      ") must match number of instruments (" ++ toString n ++ ")"))
  else
    let weights := if G.instrumentWeights = [] then List.replicate n (Floats.ofNat 1) else G.instrumentWeights
    let firstDate ← G.initialDate
    let alive := (G.instruments.zip weights).filter (fun p => firstDate < p.1.pillarDate)
    let aliveAdditional := G.additionalHelpers.filter (fun helper => firstDate < helper.pillarDate)
    let additionalDates ← G.additionalDates.getD (.ok [])
    let dates := ((firstDate :: alive.map (fun p => p.1.pillarDate) ++
      additionalDates.filter (firstDate < ·)).insertionSort (· ≤ ·)).destutter (· ≠ ·)
    if dates.length < G.requiredPoints then
      .error (.error ("GlobalBootstrap: not enough curve points (" ++ toString dates.length ++
        ") for interpolation requiring at least " ++ toString G.requiredPoints))
    else
      let times ← dates.mapM G.timeFromReference
      let maxDate := (alive.map Prod.fst ++ aliveAdditional).foldl (fun d helper => max d helper.latestRelevantDate)
        (dates.getLastD firstDate)
      let initialValue ← G.initialValue
      .ok ⟨alive.map Prod.fst, alive.map Prod.snd, aliveAdditional, dates, times, maxDate, initialValue⟩

/-- Whether the previous solution can seed the solve. -/
def reusable (grid : Grid K I W) (cd : CurveData K I) : Bool := cd.valid && cd.data.length == grid.dates.length

/-- The pillars are installed, and the values reset unless they are reused. -/
def install (grid : Grid K I W) (cd : CurveData K I) : CurveData K I :=
  let reuse := reusable grid cd
  let cd := cd.setPillars grid.dates grid.times
  let cd := if reuse then cd else cd.resetData grid.initialValue grid.dates.length
  { cd with maxDate := some grid.maxDate }

/-- Every alive helper is given the curve; a quote that is not valid ends the setup. -/
def handOver (grid : Grid K I W) : Prog (Bootstrapped K I W) Stop Unit := do
  Prog.lift G.termStructureShared
  let s ← Prog.get
  Prog.each 0 grid.alive (fun _ helper => Prog.require ((helper.quoteValue s.outer).isOk = true)
    (.error ("instrument (maturity: " ++ String.ofList helper.maturityDate.display ++ ", pillar: " ++
      String.ofList helper.pillarDate.display ++ ") has an invalid quote")))
  Prog.each 0 grid.aliveAdditional (fun _ helper => Prog.require ((helper.quoteValue s.outer).isOk = true)
    (.error ("additional instrument (maturity: " ++ String.ofList helper.maturityDate.display ++
      ") has an invalid quote")))

/-- `update_guess` on the nodes. -/
def writeNode (value : K) (i : ℕ) (cd : CurveData K I) : CurveData K I :=
  { cd with data := G.traits.updateGuess cd.data value i }

/-- The loop over the interior nodes, each guessed from those before it, with the guesses in optimizer space. -/
def seed (validData : Bool) : List ℕ → CurveData K I → CurveData K I × List K
  | [], cd      => (cd, [])
  | i :: is, cd =>
    let cd := G.writeNode (G.traits.guess (i + 1) cd.times cd.data validData) (i + 1) cd
    let guess := G.traits.transformInverse (cd.data.getD (i + 1) 0) (cd.times.getD (i + 1) 0)
    let (cd, guesses) := seed validData is cd
    (cd, guess :: guesses)

/-- `rebuild` -/
def rebuild (upto : ℕ) : Prog (CurveData K I) Stop Unit := do
  let cd ← Prog.get
  let interpolation ← Prog.lift (G.interpolate (cd.times.take (upto + 1)) (cd.data.take (upto + 1)))
  Prog.modify (fun cd => { cd with interpolation := some interpolation })

/-- `initialize` of the additional variables, if there are any. -/
def initializeVariables (validData : Bool) : Prog (Bootstrapped K I W) Stop (List K) :=
  match G.additionalVariables with
  | some vs => callback (fun _ => vs.initializeGuesses validData)
  | none    => pure []

/-- What `setup` does after the grid is installed. -/
def start (grid : Grid K I W) (validData : Bool) :
    Prog (Bootstrapped K I W) Stop (GlobalBootstrapState K I W × List K) := do
  let interior := grid.dates.length - 1
  G.handOver grid
  let additionalGuesses ← G.initializeVariables validData
  let s ← Prog.get
  let (cd, guesses) := G.seed validData (List.range interior) s.cd
  onNodes (Prog.modify (fun _ => cd))
  onNodes (G.rebuild interior)
  return (⟨grid.alive, grid.aliveWeights, interior⟩, guesses ++ additionalGuesses)

def setup : Prog (Bootstrapped K I W) Stop (GlobalBootstrapState K I W × List K) := do
  let grid ← Prog.lift G.grid
  let s ← Prog.get
  onNodes (Prog.modify (install grid))
  G.start grid (reusable grid s.cd)

/-! ## The trial points -/

/-- The loop over the coordinates, counted from `i`. -/
def writeNodes : ℕ → List K → CurveData K I → CurveData K I
  | _, [], cd      => cd
  | i, x :: xs, cd => writeNodes (i + 1) xs
    (G.writeNode (G.traits.transformDirect x (cd.times.getD (i + 1) 0)) (i + 1) cd)

/-- The nodes take the point, and the interpolation is rebuilt. -/
def place (interior : ℕ) (x : List K) : Prog (CurveData K I) Stop Unit := do
  Prog.require (interior ≤ x.length) .panic
  Prog.modify (G.writeNodes 0 (x.take interior))
  G.rebuild interior

/-- `update` of the additional variables, if there are any. -/
def updateVariables (x : List K) : Prog (Bootstrapped K I W) Stop Unit :=
  match G.additionalVariables with
  | some vs => callback (fun _ => vs.update x)
  | none    => pure ()

def setArgument (state : GlobalBootstrapState K I W) (x : List K) : Prog (Bootstrapped K I W) Stop Unit := do
  onNodes (G.place state.interior x)
  G.updateVariables (x.drop state.interior)

/-- The loop over the alive helpers and their weights. -/
def quoteErrors : List (RateHelper K I W × K) → Prog (Bootstrapped K I W) Stop (List K)
  | []                     => pure []
  | (helper, weight) :: hs => do
    let error ← callback helper.quoteError
    let errors ← quoteErrors hs
    return error * weight :: errors

def evaluate (state : GlobalBootstrapState K I W) : Prog (Bootstrapped K I W) Stop (List K) := do
  let penaltyErrors ← match G.penalties with
    | some penalties => callback (fun cd => penalties cd.times cd.data)
    | none           => pure []
  Prog.modify (fun s => { s with penaltyLen := penaltyErrors.length })
  let errors ← quoteErrors (state.alive.zip state.aliveWeights)
  return errors ++ penaltyErrors

/-- The part of `set_to_valid` that writes the curve. -/
def pin (interior : ℕ) (solution : List K) : Prog (CurveData K I) Stop Unit := do
  G.place interior solution
  Prog.modify (fun cd => { cd with valid := true })

def setToValid (state : GlobalBootstrapState K I W) (solution : List K) : Prog (Bootstrapped K I W) Stop Unit := do
  onNodes (G.pin state.interior solution)
  G.updateVariables (solution.drop state.interior)

/-! ## The calculation -/

/-- `GlobalCost`: the curve and the parked error. -/
structure GlobalCost (K I W : Type) where
  curve : Bootstrapped K I W
  error : Option String

def tryValues (state : GlobalBootstrapState K I W) (x : List K) : Prog (Bootstrapped K I W) Stop (List K) := do
  G.setArgument state x
  G.evaluate state

/-- `GlobalCost::values`: the first error is parked, and the residuals are NaNs. -/
def values (state : GlobalBootstrapState K I W) (x : List K) : Prog (GlobalCost K I W) Stop (List K) := fun c =>
  match G.tryValues state x c.curve with
  | (.ok values, s)        => (.ok values, ⟨s, c.error⟩)
  | (.error .panic, s)     => (.error .panic, ⟨s, c.error⟩)
  | (.error (.error e), s) =>
    (.ok (List.replicate (state.alive.length + s.penaltyLen) Floats.nan), ⟨s, c.error.or (some e)⟩)

/-- The solve: the parked error, how the minimizer ended, and its solution. -/
def minimize (state : GlobalBootstrapState K I W) (minimizer : Minimizer K) (guess : List K) :
    Prog (Bootstrapped K I W) Stop (Option String × Except String EndCriteriaType × List K) := fun s =>
  match Problem.minimize (.ofValues (G.values state)) minimizer ⟨guess, 0⟩ ⟨{ s with penaltyLen := 0 }, none⟩ with
  | (.ok (ended, problem), c) => (.ok (c.error, ended, problem.currentValue), c.curve)
  | (.error e, c)             => (.error e, c.curve)

/-- `calculate` of a curve without a parent. -/
def calculate (method : List K → Minimizer K) : Prog (Bootstrapped K I W) Stop Unit := do
  let (state, guess) ← G.setup
  Prog.lift (G.endCriteria.mapError .error)
  let (parked, ended, solution) ← G.minimize state (method guess) guess
  match parked with
  | some inner => Prog.fail (.error inner)
  | none       => do
    let endType ← Prog.lift (ended.mapError .error)
    Prog.require (endType.succeeded = true)
      (.error ("global bootstrap failed to minimize to required accuracy: " ++ endType.display))
    G.setToValid state solution

end

/-! ## The contributor -/

section

/-- The other contributors and the observers of a joint solve; they read the nodes of the curve. -/
structure Companions (K I W : Type) where
  setupCostFunction       : ℕ → CurveData K I → Prog (Curves W) Stop (List K)
  setCostFunctionArgument : ℕ → List K → CurveData K I → Prog (Curves W) Stop Unit
  evaluateCostFunction    : ℕ → CurveData K I → Prog (Curves W) Stop (List K)
  setToValid              : ℕ → List K → CurveData K I → Prog (Curves W) Stop Unit
  observers               : Curves (Bootstrapped K I W) → List ℕ
  update                  : ℕ → CurveData K I → Curves W → Curves W

/-- The curves without the cells of this one. -/
def besides (c : Curves (Bootstrapped K I W)) : Curves W := ⟨c.marked, c.world.outer⟩

def withBesides (c : Curves (Bootstrapped K I W)) (b : Curves W) : Curves (Bootstrapped K I W) :=
  ⟨b.marked, { c.world with outer := b.world }⟩

/-- A step of another contributor. -/
def beside {α : Type} (x : CurveData K I → Prog (Curves W) Stop α) : Prog (Curves (Bootstrapped K I W)) Stop α :=
  fun c => ((x c.world.cd (besides c)).1, withBesides c (x c.world.cd (besides c)).2)

/-- A step of this curve. -/
def inside {α : Type} (x : Prog (Bootstrapped K I W) Stop α) : Prog (Curves (Bootstrapped K I W)) Stop α :=
  fun c => ((x c.world).1, { c with world := (x c.world).2 })

/-- A step after the setup, which left its state. -/
def withState {α : Type} (step : String) (x : GlobalBootstrapState K I W → Prog (Bootstrapped K I W) Stop α) :
    Prog (Curves (Bootstrapped K I W)) Stop α := do
  let c ← Prog.get
  match c.world.state with
  | none       => Prog.fail (.error ("multi-curve contributor has no state: " ++ step ++ " ran before setup_cost_function"))
  | some state => inside (x state)

variable (G : GlobalBootstrap K I W)

/-- The curve is marked calculated before the setup can fail. -/
def setupCostFunction (curve : ℕ) : Prog (Curves (Bootstrapped K I W)) Stop (List K) := do
  Prog.modify (fun c => { c with marked := Function.update c.marked curve true })
  let (state, guess) ← inside G.setup
  Prog.modify (fun c => { c with world := { c.world with state := some state } })
  return guess

/-- The contributors of a joint solve, this curve by its number. -/
def contributor (others : Companions K I W) (curve : ℕ) : Steps K (Bootstrapped K I W) where
  setupCostFunction i         := if i = curve then G.setupCostFunction curve else beside (others.setupCostFunction i)
  setCostFunctionArgument i x := if i = curve then withState "set_cost_function_argument" (fun s => G.setArgument s x)
    else beside (others.setCostFunctionArgument i x)
  evaluateCostFunction i      := if i = curve then withState "evaluate_cost_function" G.evaluate
    else beside (others.evaluateCostFunction i)
  setToValid i x              := if i = curve then withState "set_to_valid" (fun s => G.setToValid s x)
    else beside (others.setToValid i x)
  observers                   := others.observers
  update o c                  := withBesides c (others.update o c.world.cd (besides c))

end

/-! ## What the steps do to the nodes -/

/-- On mirrored conventions the first node has the value of the second. -/
def Mirrored (traits : YieldBootstrapTraits K) (data : List K) : Prop :=
  traits.mirrored = true → ∀ value, data[1]? = some value → data[0]? = some value

def MarkedAs (traits : YieldBootstrapTraits K) (valid : Bool) (cd : CurveData K I) : Prop :=
  Mirrored traits cd.data ∧ cd.valid = valid

/-- The curve is as valid as it was, with the same values, or it is not valid. -/
def Restarted (cd cd' : CurveData K I) : Prop := (cd'.valid = cd.valid ∧ cd'.data = cd.data) ∨ cd'.valid = false

/-- A calculation would start from the values of the curve. -/
def Warm (G : GlobalBootstrap K I W) (cd : CurveData K I) : Prop :=
  ∃ grid, G.grid = .ok grid ∧ reusable grid cd = true

section

omit [SqrtFloats K]

theorem Restarted.trans {a b c : CurveData K I} (h : Restarted a b) (h' : Restarted b c) : Restarted a c := by
  rcases h' with ⟨hv, hd⟩ | hf
  · rcases h with ⟨hv', hd'⟩ | hf
    · exact .inl ⟨hv.trans hv', hd.trans hd'⟩
    · exact .inr (hv.trans hf)
  · exact .inr hf

theorem Restarted.invalid {a b : CurveData K I} (h : Restarted a b) (ha : a.valid = false) : b.valid = false := by
  rcases h with ⟨hv, -⟩ | hf
  · exact hv.trans ha
  · exact hf

theorem set_own {α : Type} {l : List α} {i : ℕ} {a : α} (h : l[i]? = some a) : l.set i a = l := by
  obtain ⟨hi, rfl⟩ := List.getElem?_eq_some_iff.1 h
  exact List.set_getElem_self hi

theorem mirrored_replicate (traits : YieldBootstrapTraits K) (value : K) (len : ℕ) :
    Mirrored traits (List.replicate len value) := by
  intro _ v hv
  obtain ⟨h, rfl⟩ := List.getElem?_eq_some_iff.1 hv
  rw [List.length_replicate] at h
  simp [Nat.lt_of_succ_lt h]

variable {G : GlobalBootstrap K I W} {cd : CurveData K I}

theorem writeNode_mirrored (h : Mirrored G.traits cd.data) (value : K) (i : ℕ) :
    Mirrored G.traits (G.writeNode value (i + 1) cd).data := by
  intro hm v
  have := h hm
  simp only [writeNode, BootstrapTraits.updateGuess, hm, if_true, rateUpdateGuess]
  cases i with
  | zero   =>
    intro hv
    by_cases hlen : 1 < cd.data.length
    · simpa [List.getElem?_set, hlen, Nat.lt_of_succ_lt hlen] using hv
    · simp [hlen] at hv
  | succ i => simpa using this v

/-- A node that takes its own value leaves the nodes as they are. -/
theorem writeNode_self (h : Mirrored G.traits cd.data) {value : K} {i : ℕ} (hi : cd.data[i + 1]? = some value) :
    G.writeNode value (i + 1) cd = cd := by
  have hset : cd.data.set (i + 1) value = cd.data := set_own hi
  unfold writeNode BootstrapTraits.updateGuess rateUpdateGuess
  split
  · rename_i hm
    cases i with
    | zero   => simp [hset, set_own (h hm value hi)]
    | succ i => simp [hset]
  · simp [hset]

/-- The nodes are reused, or they are reset and the curve is not valid. -/
theorem install_spec (grid : Grid K I W) (h : Mirrored G.traits cd.data) :
    Mirrored G.traits (install grid cd).data ∧ if reusable grid cd = true
      then (install grid cd).valid = true ∧ (install grid cd).data = cd.data else (install grid cd).valid = false := by
  by_cases hr : reusable grid cd = true
  · have hv := (Bool.and_eq_true _ _ ▸ hr).1
    simp only [install, hr, if_true]
    exact ⟨h, hv, rfl⟩
  · simp only [install, hr]
    exact ⟨mirrored_replicate _ _ _, rfl⟩

end

section

variable {G : GlobalBootstrap K I W}

theorem writeNodes_keeps : ∀ (i : ℕ) (xs : List K) (cd : CurveData K I), Mirrored G.traits cd.data →
    Mirrored G.traits (G.writeNodes i xs cd).data ∧ (G.writeNodes i xs cd).valid = cd.valid
  | _, [], _, h      => ⟨h, rfl⟩
  | i, _ :: xs, _, h => writeNodes_keeps (i + 1) xs _ (writeNode_mirrored h _ i)

theorem seed_keeps (validData : Bool) : ∀ (is : List ℕ) (cd : CurveData K I), Mirrored G.traits cd.data →
    Mirrored G.traits (G.seed validData is cd).1.data ∧ (G.seed validData is cd).1.valid = cd.valid
  | [], _, h      => ⟨h, rfl⟩
  | i :: is, _, h => seed_keeps validData is _ (writeNode_mirrored h _ i)

theorem seed_valid : ∀ (is : List ℕ) (cd : CurveData K I), Mirrored G.traits cd.data →
    (∀ i ∈ is, i + 1 < cd.data.length) → (G.seed true is cd).1 = cd
  | [], _, _, _        => rfl
  | i :: is, cd, h, his => by
    have hi := List.getElem?_eq_getElem (his i List.mem_cons_self)
    simp only [seed, G.traits.guess_valid _ _ _ _ hi, writeNode_self h hi]
    exact seed_valid is cd h (fun k hk => his k (List.mem_cons_of_mem _ hk))

end

/-! The callbacks leave the nodes alone. -/

section

omit [SqrtFloats K]

variable {α : Type} {P : CurveData K I → Prop} {R : List K → Bool → Prop} {G : GlobalBootstrap K I W}

theorem onNodes_keeps {x : Prog (CurveData K I) Stop α} (h : Keeps P x) :
    Keeps (fun s : Bootstrapped K I W => P s.cd) (onNodes x) := fun s hs => h s.cd hs

theorem callback_keeps (x : CurveData K I → Prog W Stop α) :
    Keeps (fun s : Bootstrapped K I W => P s.cd) (callback x) := fun _ hs => hs

theorem updateVariables_keeps (x : List K) : Keeps (fun s : Bootstrapped K I W => P s.cd) (G.updateVariables x) := by
  unfold updateVariables
  split
  · exact callback_keeps _
  · exact Keeps.pure ()

theorem initializeVariables_keeps (validData : Bool) :
    Keeps (fun s : Bootstrapped K I W => P s.cd) (G.initializeVariables validData) := by
  unfold initializeVariables
  split
  · exact callback_keeps _
  · exact Keeps.pure []

theorem checkQuotes_keeps {P : Bootstrapped K I W → Prop} (w : W) (message : RateHelper K I W → Stop) :
    ∀ (i : ℕ) (helpers : List (RateHelper K I W)), Keeps P (Prog.each i helpers
      (fun _ helper => Prog.require ((helper.quoteValue w).isOk = true) (message helper)))
  | _, []      => Keeps.pure ()
  | i, _ :: hs => Keeps.bind (Keeps.require _ _) fun _ => checkQuotes_keeps w message (i + 1) hs

theorem handOver_keeps {P : Bootstrapped K I W → Prop} (grid : Grid K I W) : Keeps P (G.handOver grid) := by
  refine Keeps.bind (Keeps.lift _) fun _ => Keeps.bind Keeps.get fun s => ?_
  exact Keeps.bind (checkQuotes_keeps s.outer _ 0 _) fun _ => checkQuotes_keeps s.outer _ 0 _

theorem rebuild_keeps (upto : ℕ) : Keeps (fun cd => R cd.data cd.valid) (G.rebuild upto) := by
  refine Keeps.bind Keeps.get fun cd => Keeps.bind (Keeps.lift _) fun interpolation => ?_
  exact Keeps.modify fun cd hcd => hcd

end

section

variable {G : GlobalBootstrap K I W} {P : CurveData K I → Prop}

theorem place_keeps (valid : Bool) (interior : ℕ) (x : List K) :
    Keeps (MarkedAs G.traits valid) (G.place interior x) := by
  refine Keeps.bind (Keeps.require _ _) fun _ => Keeps.bind (Keeps.modify fun cd hcd => ?_) fun _ => ?_
  · obtain ⟨hm, hv⟩ := writeNodes_keeps 0 (x.take interior) cd hcd.1
    exact ⟨hm, hv.trans hcd.2⟩
  · exact rebuild_keeps (R := fun data v => Mirrored G.traits data ∧ v = valid) interior

theorem setArgument_keeps (valid : Bool) (state : GlobalBootstrapState K I W) (x : List K) :
    Keeps (fun s => MarkedAs G.traits valid s.cd) (G.setArgument state x) :=
  Keeps.bind (onNodes_keeps (place_keeps valid _ x)) fun _ => updateVariables_keeps _

theorem quoteErrors_keeps : ∀ (helpers : List (RateHelper K I W × K)),
    Keeps (fun s => P s.cd) (quoteErrors helpers)
  | []              => Keeps.pure []
  | (helper, _) :: hs => by
    refine Keeps.bind (callback_keeps helper.quoteError) fun error => ?_
    exact Keeps.bind (quoteErrors_keeps hs) fun errors => Keeps.pure _

theorem evaluate_keeps (state : GlobalBootstrapState K I W) : Keeps (fun s => P s.cd) (G.evaluate state) := by
  have hrest (penaltyErrors : List K) : Keeps (fun s : Bootstrapped K I W => P s.cd) (do
      Prog.modify (fun s => { s with penaltyLen := penaltyErrors.length })
      let errors ← quoteErrors (state.alive.zip state.aliveWeights)
      return errors ++ penaltyErrors) :=
    Keeps.bind (Keeps.modify fun s hs => hs) fun _ => Keeps.bind (quoteErrors_keeps _) fun _ => Keeps.pure _
  unfold evaluate
  split
  · exact Keeps.bind (callback_keeps _) hrest
  · exact Keeps.bind (Keeps.pure []) hrest

/-- The old values are reused, or the curve is not valid. -/
def Installed (traits : YieldBootstrapTraits K) (grid : Grid K I W) (old : CurveData K I) (data : List K) (valid : Bool) :
    Prop :=
  Mirrored traits data ∧ if reusable grid old = true then valid = true ∧ data = old.data else valid = false

theorem start_keeps (grid : Grid K I W) (old : CurveData K I) :
    Keeps (fun s => Installed G.traits grid old s.cd.data s.cd.valid) (G.start grid (reusable grid old)) := by
  let P := fun cd : CurveData K I => Installed G.traits grid old cd.data cd.valid
  refine Keeps.bind (handOver_keeps (P := fun s => P s.cd) grid) fun _ => ?_
  refine Keeps.bind (initializeVariables_keeps (P := P) _) fun additionalGuesses => ?_
  intro s ⟨hm, hif⟩
  have hseed : P (G.seed (reusable grid old) (List.range (grid.dates.length - 1)) s.cd).1 := by
    obtain ⟨hm', hv⟩ := seed_keeps (reusable grid old) (List.range (grid.dates.length - 1)) s.cd hm
    refine ⟨hm', ?_⟩
    split
    · rename_i hr
      rw [if_pos hr] at hif
      have hlen : s.cd.data.length = grid.dates.length := by
        rw [reusable, Bool.and_eq_true, beq_iff_eq] at hr
        rw [hif.2, hr.2]
      rw [hr, seed_valid _ s.cd hm (fun i hi => by rw [List.mem_range] at hi; omega)]
      exact hif
    · rename_i hr
      rw [if_neg hr] at hif
      exact hv.trans hif
  exact Keeps.bind (onNodes_keeps (rebuild_keeps (R := Installed G.traits grid old) _)) (fun _ => Keeps.pure _) _ hseed

/-- **The setup** restarts the nodes; unless they are reused, the curve is not valid after it. -/
theorem setup_spec (s : Bootstrapped K I W) (h : Mirrored G.traits s.cd.data) :
    Mirrored G.traits (G.setup s).2.cd.data ∧ Restarted s.cd (G.setup s).2.cd ∧
      ((∃ r, (G.setup s).1 = .ok r) → ¬ Warm G s.cd → (G.setup s).2.cd.valid = false) := by
  cases hgrid : G.grid with
  | error e =>
    simp only [setup, Prog.run_bind, Prog.run_lift, hgrid]
    exact ⟨h, .inl ⟨rfl, rfl⟩, by simp⟩
  | ok grid =>
    simp only [setup, Prog.run_bind, Prog.run_lift, hgrid, Prog.run_get, onNodes, Prog.run_modify]
    obtain ⟨hm, hif⟩ := start_keeps grid s.cd { s with cd := install grid s.cd } (install_spec grid h)
    refine ⟨hm, ?_, ?_⟩
    · split at hif
      · rename_i hr
        rw [reusable, Bool.and_eq_true] at hr
        exact .inl ⟨hif.1.trans hr.1.symm, hif.2⟩
      · exact .inr hif
    · intro _ hwarm
      rwa [if_neg (fun hr => hwarm ⟨grid, hgrid, hr⟩)] at hif

theorem pin_spec (interior : ℕ) (solution : List K) (cd : CurveData K I) (h : Mirrored G.traits cd.data) :
    match G.pin interior solution cd with
    | (.ok (), cd')   => Mirrored G.traits cd'.data
    | (.error _, cd') => Mirrored G.traits cd'.data ∧ cd'.valid = cd.valid := by
  have hplace := place_keeps cd.valid interior solution cd ⟨h, rfl⟩
  simp only [pin, Prog.run_bind]
  rcases hrun : G.place interior solution cd with ⟨e | u, cd'⟩ <;> rw [hrun] at hplace
  · exact hplace
  · exact hplace.1

/-- A solution that is not taken: either the pin refuses it, and the curve keeps its mark, or the variables do. -/
theorem setToValid_spec (state : GlobalBootstrapState K I W) (solution : List K) (s : Bootstrapped K I W)
    (h : Mirrored G.traits s.cd.data) :
    match G.setToValid state solution s with
    | (.ok (), s')   => Mirrored G.traits s'.cd.data
    | (.error e, s') => Mirrored G.traits s'.cd.data ∧
      (((G.pin state.interior solution s.cd).1 = .error e ∧ s'.cd.valid = s.cd.valid) ∨
        ∃ t, onNodes (G.pin state.interior solution) s = (.ok (), t) ∧
          (G.updateVariables (solution.drop state.interior) t).1 = .error e) := by
  have hpin := pin_spec (G := G) state.interior solution s.cd h
  simp only [setToValid, Prog.run_bind]
  rcases hrun : G.pin state.interior solution s.cd with ⟨e | u, cd'⟩ <;> rw [hrun] at hpin
  · have hpinned : onNodes (G.pin state.interior solution) s = (.error e, { s with cd := cd' }) := by
      simp only [onNodes, hrun]
    rw [hpinned]
    exact ⟨hpin.1, .inl ⟨rfl, hpin.2⟩⟩
  · have hpinned : onNodes (G.pin state.interior solution) s = (.ok (), { s with cd := cd' }) := by
      simp only [onNodes, hrun]
    have hvariables := updateVariables_keeps (G := G) (P := fun cd => Mirrored G.traits cd.data)
      (solution.drop state.interior) { s with cd := cd' } hpin
    rw [hpinned]
    rcases hupdate : G.updateVariables (solution.drop state.interior) { s with cd := cd' } with ⟨e | u, t⟩ <;>
      rw [hupdate] at hvariables <;> dsimp only
    · rw [hupdate]
      exact ⟨hvariables, .inr ⟨_, rfl, congrArg Prod.fst hupdate⟩⟩
    · rw [hupdate]
      exact hvariables

/-! ## The calculation of a curve alone -/

theorem values_spec (valid : Bool) (state : GlobalBootstrapState K I W) (x : List K) :
    Triple (fun c => MarkedAs G.traits valid c.curve.cd) (G.values state x)
      (fun _ c => MarkedAs G.traits valid c.curve.cd) (fun e _ => e = .panic) := by
  intro c hc
  have htry : MarkedAs G.traits valid (G.tryValues state x c.curve).2.cd := by
    refine Keeps.bind (setArgument_keeps valid state x) (fun _ => ?_) c.curve hc
    exact evaluate_keeps (P := MarkedAs G.traits valid) state
  unfold values
  rcases hrun : G.tryValues state x c.curve with ⟨(e | _) | v, s⟩ <;> rw [hrun] at htry
  · exact htry
  · exact htry

theorem minimize_spec (valid : Bool) (state : GlobalBootstrapState K I W) (minimizer : Minimizer K) (guess : List K) :
    Triple (fun s => MarkedAs G.traits valid s.cd) (G.minimize state minimizer guess)
      (fun _ s => MarkedAs G.traits valid s.cd) (fun e _ => e = .panic) := by
  intro s hs
  have hvalues := values_spec (G := G) valid state
  have hvalue (x : List K) : Triple (fun c => MarkedAs G.traits valid c.curve.cd)
      ((CostFunction.ofValues (G.values state)).value x) (fun _ c => MarkedAs G.traits valid c.curve.cd)
      (fun e _ => e = .panic) := by
    refine Triple.bind (hvalues x) fun v => ?_
    exact Triple.bind (Triple.require (fun _ _ _ => rfl)) (fun _ => Triple.pure _ (fun _ hs => hs.2))
  have hrun := Problem.minimize_keeps hvalue hvalues minimizer ⟨guess, 0⟩ ⟨{ s with penaltyLen := 0 }, none⟩ hs
  unfold minimize
  rcases h : Problem.minimize (CostFunction.ofValues (G.values state)) minimizer ⟨guess, 0⟩
    ⟨{ s with penaltyLen := 0 }, none⟩ with ⟨e | ⟨ended, problem⟩, c⟩ <;> rw [h] at hrun <;> exact hrun

end

/-- **The exits that leave a valid curve with other values.**  A solve that reused the values fails at its trial points, or
its solution has no interpolation; or the additional variables refuse the solution once it is marked valid. -/
inductive Spoiled (G : GlobalBootstrap K I W) (method : List K → Minimizer K) (s : Bootstrapped K I W) : Prop where
  | search {state guess s₁ parked ended solution s₂} (setup : G.setup s = (.ok (state, guess), s₁))
      (criteria : G.endCriteria = .ok ())
      (run : G.minimize state (method guess) guess s₁ = (.ok (parked, ended, solution), s₂))
      (warm : Warm G s.cd) (failed : ¬ Succeeds parked ended)
  | pin {state guess s₁ parked ended solution s₂ e} (setup : G.setup s = (.ok (state, guess), s₁))
      (criteria : G.endCriteria = .ok ())
      (run : G.minimize state (method guess) guess s₁ = (.ok (parked, ended, solution), s₂))
      (warm : Warm G s.cd) (succeeds : Succeeds parked ended)
      (refusal : (G.pin state.interior solution s₂.cd).1 = .error (.error e))
  | refused {state guess s₁ parked ended solution s₂ s₃ e} (setup : G.setup s = (.ok (state, guess), s₁))
      (criteria : G.endCriteria = .ok ())
      (run : G.minimize state (method guess) guess s₁ = (.ok (parked, ended, solution), s₂))
      (succeeds : Succeeds parked ended) (pinned : onNodes (G.pin state.interior solution) s₂ = (.ok (), s₃))
      (refusal : (G.updateVariables (solution.drop state.interior) s₃).1 = .error (.error e))

/-- **A calculation alone**: one that fails restarts the nodes, unless it takes one of the exits that spoil them. -/
theorem calculate_restarts (G : GlobalBootstrap K I W) (method : List K → Minimizer K) (s : Bootstrapped K I W)
    (h : Mirrored G.traits s.cd.data) (hspoiled : ¬ Spoiled G method s) :
    match G.calculate method s with
    | (.ok (), s')            => Mirrored G.traits s'.cd.data
    | (.error (.error _), s') => Mirrored G.traits s'.cd.data ∧ Restarted s.cd s'.cd
    | (.error .panic, _)      => True := by
  obtain ⟨hm₁, hrestarted, hcold⟩ := setup_spec s h
  unfold calculate
  simp only [Prog.run_bind]
  rcases hsetup : G.setup s with ⟨e | ⟨state, guess⟩, s₁⟩ <;> rw [hsetup] at hm₁ hrestarted hcold <;>
    dsimp only at hm₁ hrestarted hcold ⊢
  · cases e with
    | panic   => trivial
    | error e => exact ⟨hm₁, hrestarted⟩
  cases hcriteria : G.endCriteria with
  | error e => exact ⟨hm₁, hrestarted⟩
  | ok u    =>
    simp only [Except.mapError, Prog.run_lift]
    have hmin := minimize_spec (G := G) s₁.cd.valid state (method guess) guess s₁ ⟨hm₁, rfl⟩
    rcases hrun : G.minimize state (method guess) guess s₁ with ⟨e | ⟨parked, ended, solution⟩, s₂⟩ <;>
      rw [hrun] at hmin <;> dsimp only at hmin ⊢
    · subst hmin
      trivial
    obtain ⟨hm₂, hv₂⟩ := hmin
    have hfailed (h : ¬ Succeeds parked ended) : Mirrored G.traits s₂.cd.data ∧ Restarted s.cd s₂.cd :=
      ⟨hm₂, .inr (hv₂.trans (hcold ⟨_, rfl⟩ (fun hwarm => hspoiled (.search hsetup hcriteria hrun hwarm h))))⟩
    cases parked with
    | some inner => exact hfailed (by simp [Succeeds])
    | none       =>
      cases ended with
      | error e    => exact hfailed (by simp [Succeeds])
      | ok endType =>
        by_cases hsucceeded : endType.succeeded = true
        · have hsucceeds : Succeeds none (.ok endType) := ⟨rfl, endType, rfl, hsucceeded⟩
          have hvalid := setToValid_spec (G := G) state solution s₂ hm₂
          simp only [Prog.run_bind, Prog.run_lift, Prog.run_require, hsucceeded, if_true]
          rcases hset : G.setToValid state solution s₂ with ⟨(e | _) | u, s₃⟩ <;> rw [hset] at hvalid
          · obtain ⟨hm₃, ⟨hrefused, hv₃⟩ | ⟨t, hpinned, hrefused⟩⟩ := hvalid
            · refine ⟨hm₃, .inr (hv₃.trans (hv₂.trans (hcold ⟨_, rfl⟩ fun hwarm => ?_)))⟩
              exact hspoiled (.pin hsetup hcriteria hrun hwarm hsucceeds hrefused)
            · exact absurd (.refused hsetup hcriteria hrun hsucceeds hpinned hrefused) hspoiled
          · trivial
          · exact hvalid
        · simp only [Prog.run_bind, Prog.run_lift, Prog.run_require, hsucceeded]
          exact hfailed (by simp [Succeeds, hsucceeded])

/-! ## The calculation of a curve with a parent -/

section

variable {G : GlobalBootstrap K I W} {others : Companions K I W} {curve : ℕ} {α : Type} {R : CurveData K I → Prop}

omit [SqrtFloats K] in
theorem beside_keeps (x : CurveData K I → Prog (Curves W) Stop α) :
    Keeps (fun c : Curves (Bootstrapped K I W) => R c.world.cd) (beside x) := fun _ hc => hc

omit [SqrtFloats K] in
theorem withState_keeps {step : String} {x : GlobalBootstrapState K I W → Prog (Bootstrapped K I W) Stop α}
    (h : ∀ state, Keeps (fun s => R s.cd) (x state)) : Keeps (fun c => R c.world.cd) (withState step x) := by
  refine Keeps.bind Keeps.get fun c => ?_
  split
  · exact fun _ hc => hc
  · exact fun c hc => h _ c.world hc

theorem setupCostFunction_keeps (old : CurveData K I) :
    Keeps (fun c => Mirrored G.traits c.world.cd.data ∧ Restarted old c.world.cd) (G.setupCostFunction curve) := by
  refine Keeps.bind (Keeps.modify fun c hc => hc) fun _ => ?_
  refine Keeps.bind (fun c hc => ?_) fun ⟨state, guess⟩ => Keeps.bind (Keeps.modify fun c hc => hc) fun _ => Keeps.pure _
  obtain ⟨hm, hrestarted, -⟩ := setup_spec c.world hc.1
  exact ⟨hm, hc.2.trans hrestarted⟩

theorem setToValid_keeps (state : GlobalBootstrapState K I W) (x : List K) :
    Keeps (fun s => Mirrored G.traits s.cd.data) (G.setToValid state x) := by
  intro s hs
  have h := setToValid_spec state x s hs
  rcases hrun : G.setToValid state x s with ⟨e | u, s'⟩ <;> rw [hrun] at h
  · exact h.1
  · exact h

omit [SqrtFloats K] in
/-- A step of the contributors: that of the curve, or one that leaves its nodes alone. -/
theorem step_keeps {i : ℕ} {own : Prog (Curves (Bootstrapped K I W)) Stop α}
    (h : i = curve → Keeps (fun c => R c.world.cd) own) (other : CurveData K I → Prog (Curves W) Stop α) :
    Keeps (fun c => R c.world.cd) (if i = curve then own else beside other) := by
  split
  · rename_i hi
    exact h hi
  · exact beside_keeps other

variable (G others curve) in
theorem search_keeps (valid : Bool) (cs : List ℕ) :
    MultiCurveBootstrap.SearchKeeps (G.contributor others curve) cs (fun c => MarkedAs G.traits valid c.world.cd) where
  set _ _ x      := step_keeps (fun _ => withState_keeps fun state => setArgument_keeps valid state x) _
  update _ _ hc  := hc
  evaluate _ _   := step_keeps (fun _ => withState_keeps fun state => evaluate_keeps state) _

variable (G others) in
theorem solve_keeps_besides (endCriteria : Except String Unit) (method : List K → Minimizer K) {cs : List ℕ}
    (h : curve ∉ cs) : Keeps (fun j => R j.curves.world.cd)
      (MultiCurveBootstrap.solve (G.contributor others curve) endCriteria method cs) := by
  have hne {i : ℕ} (hi : i ∈ cs) (he : i = curve) : False := h (he ▸ hi)
  refine MultiCurveBootstrap.solve_keeps (R := fun c : Curves (Bootstrapped K I W) => R c.world.cd)
    (fun i hi => ?_) ⟨fun i hi x => ?_, ?_, fun i hi => ?_⟩ (fun i hi x => ?_)
  · exact step_keeps (fun he => (hne hi he).elim) _
  · exact step_keeps (fun he => (hne hi he).elim) _
  · exact fun _ _ hc => hc
  · exact step_keeps (fun he => (hne hi he).elim) _
  · exact step_keeps (fun he => (hne hi he).elim) _

variable (G others curve) in
theorem setup_keeps (old : CurveData K I) (cs : List ℕ) :
    Keeps (fun j => Mirrored G.traits j.curves.world.cd.data ∧ Restarted old j.curves.world.cd)
      (MultiCurveBootstrap.setup (G.contributor others curve) cs) := by
  let Q (c : Curves (Bootstrapped K I W)) : Prop := Mirrored G.traits c.world.cd.data ∧ Restarted old c.world.cd
  refine MultiCurveBootstrap.setup_keeps (R := Q) fun i _ => ?_
  exact step_keeps (R := fun cd => Mirrored G.traits cd.data ∧ Restarted old cd) (fun _ => setupCostFunction_keeps old) _

omit [SqrtFloats K] in
theorem logged_triple {event : Except Stop α → MultiCurveBootstrap.Event K} {step : Prog (Curves W) Stop α} {P : Curves W → Prop}
    {Q : α → Curves W → Prop} {E : Stop → Curves W → Prop} (h : Triple P step Q E) :
    Triple (fun j : Joint K W => P j.curves) (MultiCurveBootstrap.logged event step) (fun a j => Q a j.curves)
      (fun e j => E e j.curves) := by
  intro j hj
  have := h j.curves hj
  unfold MultiCurveBootstrap.logged
  rcases hrun : step j.curves with ⟨e | a, c⟩ <;> rw [hrun] at this <;> exact this

theorem setupCostFunction_cold : Triple (fun c => Mirrored G.traits c.world.cd.data ∧ ¬ Warm G c.world.cd)
    (G.setupCostFunction curve) (fun _ c => MarkedAs G.traits false c.world.cd) (fun _ _ => True) := by
  intro c hc
  have hspec := setup_spec c.world hc.1
  simp only [setupCostFunction, Prog.run_bind, Prog.run_modify, inside]
  rcases hrun : G.setup c.world with ⟨e | ⟨state, guess⟩, s⟩ <;> rw [hrun] at hspec
  · trivial
  · exact ⟨hspec.1, hspec.2.2 ⟨_, rfl⟩ hc.2⟩

/-- Once the curve was set up, it is not valid unless its values are reused. -/
theorem setup_cold (others : Companions K I W) : ∀ (cs : List ℕ), curve ∈ cs →
    Triple (fun j => Mirrored G.traits j.curves.world.cd.data ∧ ¬ Warm G j.curves.world.cd)
      (MultiCurveBootstrap.setup (G.contributor others curve) cs) (fun _ j => j.curves.world.cd.valid = false)
      (fun _ _ => True)
  | [], hi      => absurd hi List.not_mem_nil
  | i :: cs, hi => by
    refine Triple.bind (Triple.modify (Q := fun j => Mirrored G.traits j.curves.world.cd.data ∧
      ¬ Warm G j.curves.world.cd) fun j hj => hj) fun _ => ?_
    by_cases hic : i = curve
    · have hown : Triple (fun c => Mirrored G.traits c.world.cd.data ∧ ¬ Warm G c.world.cd)
          ((G.contributor others curve).setupCostFunction i) (fun _ c => MarkedAs G.traits false c.world.cd)
          (fun _ _ => True) := by
        simpa [contributor, hic] using setupCostFunction_cold
      have hrest : Triple (fun j => MarkedAs G.traits false j.curves.world.cd)
          (MultiCurveBootstrap.setup (G.contributor others curve) cs) (fun _ j => j.curves.world.cd.valid = false)
          (fun _ _ => True) := by
        intro j hj
        have hkeeps := setup_keeps G others curve j.curves.world.cd cs j
          ⟨hj.1, .inl ⟨rfl, rfl⟩⟩
        rcases hrun : MultiCurveBootstrap.setup (G.contributor others curve) cs j with ⟨e | blocks, j'⟩ <;>
          rw [hrun] at hkeeps
        · trivial
        · exact hkeeps.2.invalid hj.2
      refine Triple.bind (logged_triple hown) fun block => ?_
      exact Triple.bind hrest fun blocks => Triple.pure _ fun _ hs => hs
    · have hother : Keeps (fun c => Mirrored G.traits c.world.cd.data ∧ ¬ Warm G c.world.cd)
          ((G.contributor others curve).setupCostFunction i) :=
        step_keeps (R := fun cd => Mirrored G.traits cd.data ∧ ¬ Warm G cd) (fun he => absurd he hic) _
      refine Triple.bind (logged_triple (hother.triple.onError fun _ _ _ => trivial)) fun block => ?_
      have hi' := (List.mem_cons.1 hi).resolve_left (fun he => hic he.symm)
      exact Triple.bind (setup_cold others cs hi') fun blocks => Triple.pure _ fun _ hs => hs

/-- **The sweep has marked the curve valid**: it took its slice, or its variables refused theirs after the pin. -/
def Exposed (G : GlobalBootstrap K I W) (curve : ℕ) (j : Joint K (Bootstrapped K I W)) (calls : List (MultiCurveBootstrap.Event K)) : Prop :=
  (∃ slice, .valid curve slice (.ok ()) ∈ calls) ∨
    ∃ slice e state, .valid curve slice (.error (.error e)) ∈ calls ∧ j.curves.world.state = some state ∧
      (G.pin state.interior slice j.curves.world.cd).1 = .ok ()

theorem Exposed.cons {j j' : Joint K (Bootstrapped K I W)} {calls : List (MultiCurveBootstrap.Event K)} (h : Exposed G curve j' calls)
    (hcd : j'.curves.world.cd = j.curves.world.cd) (hstate : j'.curves.world.state = j.curves.world.state)
    {e : MultiCurveBootstrap.Event K} : Exposed G curve j (e :: calls) := by
  rcases h with ⟨slice, h⟩ | ⟨slice, e', state, h, hs, hpin⟩
  · exact .inl ⟨slice, List.mem_cons_of_mem _ h⟩
  · exact .inr ⟨slice, e', state, List.mem_cons_of_mem _ h, hstate ▸ hs, hcd ▸ hpin⟩

omit [SqrtFloats K] in
theorem setToValid_some {c : Curves (Bootstrapped K I W)} {state : GlobalBootstrapState K I W}
    (h : c.world.state = some state) (step : String) (x : GlobalBootstrapState K I W → Prog (Bootstrapped K I W) Stop α) :
    withState step x c = inside (x state) c := by
  simp [withState, h]

omit [SqrtFloats K] in
theorem setToValid_none {c : Curves (Bootstrapped K I W)} (h : c.world.state = none) (step : String)
    (x : GlobalBootstrapState K I W → Prog (Bootstrapped K I W) Stop α) : ∃ e, withState step x c = (.error (.error e), c) := by
  simp only [withState, Prog.run_bind, Prog.run_get, h]
  exact ⟨_, rfl⟩

/-- **The sweep**: where it fails before it exposes the curve, the curve keeps its mark. -/
theorem sweep_spec (others : Companions K I W) (curve : ℕ) (x : List K) : ∀ (cs sizes : List ℕ) (offset : ℕ) (j : Joint K (Bootstrapped K I W)),
    Mirrored G.traits j.curves.world.cd.data →
    match MultiCurveBootstrap.handOut .valid (G.contributor others curve).setToValid x (cs.zip sizes) offset j with
    | (.error (.error _), j') => ∃ calls, j'.log = j.log ++ calls ∧
      (Exposed G curve j calls ∨ j'.curves.world.cd.valid = j.curves.world.cd.valid)
    | _                       => True
  | [], _, _, _, _                       => trivial
  | _ :: _, [], _, _, _                  => trivial
  | i :: cs, size :: sizes, offset, j, h => by
    by_cases hle : offset + size ≤ x.length
    · simp only [List.zip_cons_cons, MultiCurveBootstrap.handOut, Prog.run_bind, Prog.run_lift,
        MultiCurveBootstrap.logged, MultiCurveBootstrap.slice, if_pos hle]
      by_cases hic : i = curve
      · subst i
        have hstep (slice : List K) : (G.contributor others curve).setToValid curve slice j.curves =
            withState "set_to_valid" (fun s => G.setToValid s slice) j.curves := by
          simp [contributor]
        rw [hstep]
        cases hstate : j.curves.world.state with
        | none       =>
          obtain ⟨e, he⟩ := setToValid_none hstate "set_to_valid"
            (fun s => G.setToValid s ((x.drop offset).take size))
          rw [he]
          exact ⟨_, rfl, .inr rfl⟩
        | some state =>
          rw [setToValid_some hstate, inside]
          have hvalid := setToValid_spec (G := G) state ((x.drop offset).take size) j.curves.world h
          rcases hrun : G.setToValid state ((x.drop offset).take size) j.curves.world with ⟨(e | _) | u, w⟩ <;>
            rw [hrun] at hvalid <;> dsimp only
          · refine ⟨_, rfl, ?_⟩
            obtain ⟨-, ⟨-, hv⟩ | ⟨t, hpinned, -⟩⟩ := hvalid
            · exact .inr hv
            · exact .inl (.inr ⟨_, e, state, List.mem_cons_self, hstate, congrArg Prod.fst hpinned⟩)
          · have ih := sweep_spec others curve x cs sizes (offset + size) ⟨{ j.curves with world := w }, j.setUp,
              j.log ++ [.valid curve ((x.drop offset).take size) (.ok ())]⟩ hvalid
            rcases hrest : MultiCurveBootstrap.handOut _ _ _ _ _ _ with ⟨(e | _) | u, j'⟩ <;> rw [hrest] at ih
            · obtain ⟨calls, hlog, -⟩ := ih
              refine ⟨.valid curve ((x.drop offset).take size) (.ok ()) :: calls, by simp [hlog], ?_⟩
              exact .inl (.inl ⟨_, List.mem_cons_self⟩)
            · trivial
            · trivial
      · have hstep (slice : List K) : (G.contributor others curve).setToValid i slice = beside (others.setToValid i slice) := by
          simp [contributor, hic]
        rw [hstep]
        rcases hrun : beside (others.setToValid i ((x.drop offset).take size)) j.curves with ⟨(e | _) | u, c⟩ <;>
          dsimp only
        · have hcd : c.world.cd = j.curves.world.cd := congrArg (fun r => r.2.world.cd) hrun.symm
          exact ⟨_, rfl, .inr (by rw [hcd])⟩
        · have hcd : c.world.cd = j.curves.world.cd := congrArg (fun r => r.2.world.cd) hrun.symm
          have hst : c.world.state = j.curves.world.state := congrArg (fun r => r.2.world.state) hrun.symm
          have ih := sweep_spec others curve x cs sizes (offset + size) ⟨c, j.setUp,
            j.log ++ [.valid i ((x.drop offset).take size) (.ok ())]⟩ (hcd ▸ h)
          rcases hrest : MultiCurveBootstrap.handOut _ _ _ _ _ _ with ⟨(e | _) | u, j'⟩ <;> rw [hrest] at ih
          · obtain ⟨calls, hlog, hexposed⟩ := ih
            refine ⟨.valid i ((x.drop offset).take size) (.ok ()) :: calls, by simp [hlog], ?_⟩
            exact hexposed.imp (fun h => h.cons hcd hst) (fun h => h.trans (by rw [hcd]))
          · trivial
          · trivial
    · simp [MultiCurveBootstrap.handOut, MultiCurveBootstrap.slice, hle]

variable {endCriteria : Except String Unit} {method : List K → Minimizer K} {cs : List ℕ}

/-- **The exits of a joint solve that leave the curve valid with other values.**  A solve that reused its values fails at
the trial points, or in the sweep; or the sweep fails once it has exposed the curve. -/
inductive JointSpoiled (G : GlobalBootstrap K I W) (others : Companions K I W) (curve : ℕ)
    (endCriteria : Except String Unit) (method : List K → Minimizer K) (cs : List ℕ)
    (j : Joint K (Bootstrapped K I W)) : Prop where
  | search {blocks j₁ parked ended solution j₂} (member : curve ∈ cs)
      (setup : MultiCurveBootstrap.setup (G.contributor others curve) cs j = (.ok blocks, j₁))
      (criteria : endCriteria = .ok ())
      (run : MultiCurveBootstrap.minimize (G.contributor others curve) cs (blocks.map List.length)
        (method blocks.flatten) blocks.flatten j₁ = (.ok (parked, ended, solution), j₂))
      (warm : Warm G j.curves.world.cd) (failed : ¬ Succeeds parked ended)
  | sweep {blocks j₁ endType solution j₂ e j₃ calls} (member : curve ∈ cs)
      (setup : MultiCurveBootstrap.setup (G.contributor others curve) cs j = (.ok blocks, j₁))
      (criteria : endCriteria = .ok ())
      (run : MultiCurveBootstrap.minimize (G.contributor others curve) cs (blocks.map List.length)
        (method blocks.flatten) blocks.flatten j₁ = (.ok (none, .ok endType, solution), j₂))
      (succeeded : endType.succeeded = true)
      (sweep : MultiCurveBootstrap.setToValidAll (G.contributor others curve) solution
        (cs.zip (blocks.map List.length)) 0 j₂ = (.error (.error e), j₃))
      (sweeps : j₃.log = j₂.log ++ calls) (exposed : Warm G j.curves.world.cd ∨ Exposed G curve j₂ calls)

theorem setToValid_step_keeps (i : ℕ) (x : List K) :
    Keeps (fun c => Mirrored G.traits c.world.cd.data) ((G.contributor others curve).setToValid i x) :=
  step_keeps (R := fun cd => Mirrored G.traits cd.data) (fun _ => withState_keeps (R := fun cd => Mirrored G.traits cd.data)
    fun state => setToValid_keeps state x) _

/-- **A joint solve**: one that fails restarts the nodes of the curve, unless it takes one of the exits that spoil them. -/
theorem solve_spec (j : Joint K (Bootstrapped K I W)) (h : Mirrored G.traits j.curves.world.cd.data)
    (hspoiled : ¬ JointSpoiled G others curve endCriteria method cs j) :
    match MultiCurveBootstrap.solve (G.contributor others curve) endCriteria method cs j with
    | (.ok (), j')            => Mirrored G.traits j'.curves.world.cd.data
    | (.error (.error _), j') => Mirrored G.traits j'.curves.world.cd.data ∧ Restarted j.curves.world.cd j'.curves.world.cd
    | (.error .panic, _)      => True := by
  by_cases hmem : curve ∈ cs
  · have hsetup := setup_keeps G others curve j.curves.world.cd cs j ⟨h, .inl ⟨rfl, rfl⟩⟩
    have hends := MultiCurveBootstrap.solve_ends (G.contributor others curve) endCriteria method cs j
    generalize MultiCurveBootstrap.solve (G.contributor others curve) endCriteria method cs j = r at hends
    -- unless the values are reused, the curve is not valid after the setups, and the search keeps it so
    have hcold {blocks : List (List K)} {j₁ : Joint K (Bootstrapped K I W)}
        (hset : MultiCurveBootstrap.setup (G.contributor others curve) cs j = (.ok blocks, j₁))
        (hwarm : ¬ Warm G j.curves.world.cd) : j₁.curves.world.cd.valid = false := by
      have := setup_cold others cs hmem j ⟨h, hwarm⟩
      rwa [hset] at this
    have hkept {sizes : List ℕ} {minimizer : Minimizer K} {guess : List K} {j₁ j₂ : Joint K (Bootstrapped K I W)} {r}
        (hm : Mirrored G.traits j₁.curves.world.cd.data)
        (hrun : MultiCurveBootstrap.minimize (G.contributor others curve) cs sizes minimizer guess j₁ = (r, j₂)) :
        MarkedAs G.traits j₁.curves.world.cd.valid j₂.curves.world.cd := by
      have := MultiCurveBootstrap.minimize_keeps sizes (search_keeps G others curve j₁.curves.world.cd.valid cs)
        minimizer guess j₁ ⟨hm, rfl⟩
      rwa [hrun] at this
    cases hends with
    | @setup e j₁ hset =>
      rw [hset] at hsetup
      cases e with
      | panic   => trivial
      | error e => exact hsetup
    | criteria hset _ =>
      rw [hset] at hsetup
      exact hsetup
    | @stopped blocks _ j₁ _ _ _ hrun =>
      have hpanic := MultiCurveBootstrap.minimize_spec (G.contributor others curve) cs
        (blocks.map List.length) (method blocks.flatten) blocks.flatten j₁
      rw [hrun] at hpanic
      subst hpanic
      trivial
    | failed hset hcriteria hrun hfailed =>
      rw [hset] at hsetup
      obtain ⟨hm₂, hv₂⟩ := hkept hsetup.1 hrun
      refine ⟨hm₂, .inr (hv₂.trans (hcold hset fun hwarm => ?_))⟩
      exact hspoiled (.search hmem hset hcriteria hrun hwarm hfailed)
    | @swept blocks endType solution _ j₁ j₂ hset hcriteria hrun hsucceeded hsweep =>
      rw [hset] at hsetup
      obtain ⟨hm₂, hv₂⟩ := hkept hsetup.1 hrun
      have hmirrored : Mirrored G.traits r.2.curves.world.cd.data := by
        rw [← hsweep]
        exact MultiCurveBootstrap.handOut_keeps (R := fun c => Mirrored G.traits c.world.cd.data) 0
          (fun p _ => setToValid_step_keeps p.1) j₂ hm₂
      have hspec := sweep_spec others curve solution cs (blocks.map List.length) 0 j₂ hm₂
      change MultiCurveBootstrap.handOut _ _ _ _ _ _ = _ at hsweep
      rw [hsweep] at hspec
      rcases r with ⟨(e | _) | u, j₃⟩
      · obtain ⟨calls, hlog, hexposed⟩ := hspec
        have hne (hexposed : Warm G j.curves.world.cd ∨ Exposed G curve j₂ calls) : False :=
          hspoiled (.sweep hmem hset hcriteria hrun hsucceeded hsweep hlog hexposed)
        refine ⟨hmirrored, .inr ?_⟩
        rw [hexposed.resolve_left (fun he => hne (.inr he)), hv₂]
        exact hcold hset (fun hwarm => hne (.inl hwarm))
      · trivial
      · exact hmirrored
  · have hkeeps := solve_keeps_besides G others (R := (· = j.curves.world.cd)) endCriteria method hmem j rfl
    rcases hrun : MultiCurveBootstrap.solve (G.contributor others curve) endCriteria method cs j with
      ⟨(e | _) | u, j'⟩ <;> rw [hrun] at hkeeps <;> dsimp only at hkeeps ⊢
    · rw [hkeeps]
      exact ⟨h, .inl ⟨rfl, rfl⟩⟩
    · rwa [hkeeps]

/-- **A run of the parent**, likewise. -/
theorem run_restarts {contributors : List (Option ℕ)} (j : Joint K (Bootstrapped K I W))
    (h : Mirrored G.traits j.curves.world.cd.data) (hspoiled : ∀ cs, contributors = cs.map some →
      ¬ JointSpoiled G others curve endCriteria method cs { j with setUp := 0 }) :
    match MultiCurveBootstrap.run (G.contributor others curve) endCriteria method contributors j with
    | (.ok (), j')            => Mirrored G.traits j'.curves.world.cd.data
    | (.error (.error _), j') => Mirrored G.traits j'.curves.world.cd.data ∧ Restarted j.curves.world.cd j'.curves.world.cd
    | (.error .panic, _)      => True := by
  have hends := MultiCurveBootstrap.run_ends (G.contributor others curve) endCriteria method contributors j
  generalize MultiCurveBootstrap.run (G.contributor others curve) endCriteria method contributors j = r at hends
  cases hends with
  | dropped                                    => exact ⟨h, .inl ⟨rfl, rfl⟩⟩
  | @solved cs j₁ hcs hsolved                  =>
    have hsolve := solve_spec { j with setUp := 0 } h (hspoiled cs hcs)
    rw [hsolved] at hsolve
    exact hsolve
  | stopped                                    => trivial
  | @failed cs e j₁ j₂ hcs hfailed hinvalidate =>
    have hsolve := solve_spec { j with setUp := 0 } h (hspoiled cs hcs)
    have hworld := MultiCurveBootstrap.invalidateAll_keeps (R := (· = j₁.curves.world)) (cs.take j₁.setUp) j₁ rfl
    rw [hfailed] at hsolve
    rw [hinvalidate] at hworld
    dsimp only at hworld ⊢
    rw [hworld]
    exact hsolve

end

end GlobalBootstrap
end Itofin
