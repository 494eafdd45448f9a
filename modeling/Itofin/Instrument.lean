import Mathlib.Algebra.Ring.Int.Defs
import Itofin.Patterns.Stack
import Itofin.Patterns.LazyObject
/-!
# Instrument — cached results among re-entrant observers

An instrument of `instrument.rs`, the inputs it is registered with, its pricing engine and the thread they notify on.
The environment is every observer and every caller: it writes inputs, asks for a calculation, freezes, swaps engines
and notifies, at the top level or from inside an update, and while the engine calculates.  `Updater::update` and the
functions that notify stand on the stack while their notification runs (`Point`); code that has the instrument mutably
borrowed is a `caller` frame, and nothing else can reach the instrument below it (`free`).

`no_stale_cache` is the guarantee: with no notification and no calculation in progress, calculated results are those of
a calculation from the current inputs.  `Updater::update` does nothing while the guard of an update is alive, so a
write from inside the instrument's own notification is lost on results recalculated there: the guarantee is for runs
whose writes and swaps come while the guard is down or the results are not calculated (`heeded`).
-/
namespace Itofin

/-- What every instrument fetches back from its engine. -/
structure InstrumentResults (ρ δ τ : Type) where
  value : Option ρ
  errorEstimate : Option ρ
  valuationDate : Option δ
  additionalResults : List (String × τ)
deriving DecidableEq, Repr

/-- `setup_expired`: zero value, cleared extras. -/
def setupExpired {ρ δ τ : Type} [Zero ρ] : InstrumentResults ρ δ τ :=
  { value := some 0, errorEstimate := some 0, valuationDate := none, additionalResults := [] }

/-- The virtuals of an instrument and of the engines it is priced with: `ι` names its inputs and `V` is what they hold,
`E` is what an engine reads of its own, `A` its argument bundle and `B` its result bundle. -/
structure Instrument (ι V E A B ρ δ τ : Type) where
  isExpired : (ι → V) → Except String Bool
  setupArguments : (ι → V) → Except String A
  validate : A → Except String Unit
  calculateEngine : E → A → Except String B
  asInstrumentResults : B → Option (InstrumentResults ρ δ τ)

namespace Instrument

variable {ι V E A B ρ δ τ : Type}

def fetchResults (inst : Instrument ι V E A B ρ δ τ) (results : B) : Except String (InstrumentResults ρ δ τ) :=
  match inst.asInstrumentResults results with
  | none         => .error "no results returned from pricing engine"
  | some results => .ok results

def performCalculations (inst : Instrument ι V E A B ρ δ τ) (inputs : ι → V) (engine : Option E) :
    Except String (InstrumentResults ρ δ τ) :=
  match engine with
  | none        => .error "null pricing engine"
  | some engine => do
    let arguments ← inst.setupArguments inputs
    inst.validate arguments
    let results ← inst.calculateEngine engine arguments
    inst.fetchResults results

/-- **What a calculation from these inputs would leave**: the expired values, or what the engine computes. -/
def recomputed [Zero ρ] (inst : Instrument ι V E A B ρ δ τ) (inputs : ι → V) (engine : Option E) :
    Except String (InstrumentResults ρ δ τ) := do
  if ← inst.isExpired inputs then pure setupExpired else inst.performCalculations inputs engine

end Instrument

/-- The observables around an instrument: its inputs, the engines, its own and any others. -/
inductive Source (ι ε ο : Type) where
  | input (i : ι)
  | engine (e : ε)
  | lazy
  | other (o : ο)
deriving DecidableEq, Repr

/-- The observers: the instrument's `Updater` and any others. -/
inductive Party (ω : Type) where
  | updater
  | client (x : ω)
deriving DecidableEq, Repr

/-- Where a function waits for the frames above it. -/
inductive Point where
  /-- `Updater::update`, its `DeferredUpdate` alive. -/
  | updating
  /-- `swap_engine`, its `DeferredUpdate` alive. -/
  | swapping
  /-- `unfreeze` and `recalculate`, in their last notification. -/
  | notifying
  /-- `perform_calculations`; whether an input has changed since it began (no function reads it), and the prior frozen
  state when `recalculate` called it. -/
  | calculating (disturbed : Bool) (wasFrozen : Option Bool)
deriving DecidableEq, Repr

/-- A `DeferredUpdate` is alive in the frame. -/
def Frame.guards {ω : Type} : Frame ω Point → Bool
  | .update _ (some _) => true
  | .caller .swapping  => true
  | _                  => false

/-- The calculation in this frame has read an input that has changed since. -/
def Frame.disturb {ω : Type} : Frame ω Point → Frame ω Point
  | .caller (.calculating _ r) => .caller (.calculating true r)
  | f                          => f

structure World (ι ε ο ω V E ρ δ τ : Type) where
  thread : Thread (Source ι ε ο) (Party ω) Point
  lazy : LazyObject
  inputs : ι → V
  engines : ε → E
  engine : Option ε
  results : InstrumentResults ρ δ τ

namespace World

/-- What happens next: the machinery or a waiting function goes on, or the code that runs does something. -/
inductive Act (ι ε ο ω V E ρ δ τ : Type) where
  | resume
  | ret
  | call (c : Call (Source ι ε ο) (Party ω))
  | write (i : ι) (v : V)
  | writeEngine (e : ε) (v : E)
  | calculate
  | recalculate
  /-- `perform_calculations` returns; a calculation whose inputs have changed under it returns `torn`. -/
  | finish (torn : Except String (InstrumentResults ρ δ τ))
  | freeze
  | unfreeze
  | setPricingEngine (e : ε)
  | detachPricingEngine
  | setPricingEngineSilent (e : ε)

variable {ι ε ο ω V E A B ρ δ τ : Type} [DecidableEq ι] [DecidableEq ε] [DecidableEq ο] [DecidableEq ω] [Zero ρ]

/-- An instrument with no engine yet, its updater registered with every input. -/
def initial (inputs : ι → V) (engines : ε → E) (deferReentrantUpdate : Party ω → Bool) :
    World ι ε ο ω V E ρ δ τ :=
  { thread := { Thread.initial deferReentrantUpdate with
      observers := fun
        | .input _ => [⟨.updater, false⟩]
        | _        => [] }
    lazy := .new true, inputs, engines, engine := none, results := ⟨none, none, none, []⟩ }

/-- Code of an observer, of a caller or of the engine runs. -/
def running (w : World ι ε ο ω V E ρ δ τ) : Bool :=
  match w.thread.stack with
  | []                             => true
  | .update (.client _) none :: _  => true
  | .caller (.calculating _ _) :: _ => true
  | _                              => false

/-- The instrument is not mutably borrowed. -/
def free (w : World ι ε ο ω V E ρ δ τ) : Bool := !w.thread.stack.any Frame.isCaller

def push (w : World ι ε ο ω V E ρ δ τ) (f : Frame (Party ω) Point) : World ι ε ο ω V E ρ δ τ :=
  { w with thread := { w.thread with stack := f :: w.thread.stack } }

def notify (w : World ι ε ο ω V E ρ δ τ) (o : Source ι ε ο) : World ι ε ο ω V E ρ δ τ :=
  { w with thread := w.thread.notifyObservers o }

/-- `Updater::update`, in its frame on top of `k`. -/
def update (w : World ι ε ο ω V E ρ δ τ) (k : List (Frame (Party ω) Point)) : World ι ε ο ω V E ρ δ τ :=
  let w' := { w with lazy := w.lazy.deferredUpdate.2, thread := { w.thread with stack := k } }
  if w.lazy.deferredUpdate.1 then (w'.push (.update .updater (some .updating))).notify .lazy else w'

def resume (w : World ι ε ο ω V E ρ δ τ) : Option (World ι ε ο ω V E ρ δ τ) :=
  match w.thread.stack with
  | .update .updater none :: k     => some (w.update k)
  | .update .updater (some _) :: k => some { w with lazy := w.lazy.dropUpdate, thread := { w.thread with stack := k } }
  | .caller .swapping :: k         => some { w with lazy := w.lazy.dropUpdate, thread := { w.thread with stack := k } }
  | .caller .notifying :: k        => some { w with thread := { w.thread with stack := k } }
  | _                              => w.thread.resume.map (fun thread => { w with thread })

/-- The thread, its calculations in progress disturbed. -/
def disturbed (w : World ι ε ο ω V E ρ δ τ) : Thread (Source ι ε ο) (Party ω) Point :=
  { w.thread with stack := w.thread.stack.map Frame.disturb }

/-- A write to an input, which notifies. -/
def write (w : World ι ε ο ω V E ρ δ τ) (i : ι) (v : V) : World ι ε ο ω V E ρ δ τ :=
  { w with inputs := Function.update w.inputs i v, thread := w.disturbed.notifyObservers (.input i) }

/-- A change in what an engine reads, which notifies. -/
def writeEngine (w : World ι ε ο ω V E ρ δ τ) (e : ε) (v : E) : World ι ε ο ω V E ρ δ τ :=
  let thread := if w.engine = some e then w.disturbed else w.thread
  { w with engines := Function.update w.engines e v, thread := thread.notifyObservers (.engine e) }

/-- The end of `calculate`, and of `recalculate` when that called it. -/
def calculated (w : World ι ε ο ω V E ρ δ τ) (wasFrozen : Option Bool) : World ι ε ο ω V E ρ δ τ :=
  match wasFrozen with
  | none           => w
  | some wasFrozen => ({ w with lazy := w.lazy.finishRecalculation wasFrozen }.push (.caller .notifying)).notify .lazy

/-- `Instrument::calculate` up to `perform_calculations`. -/
def calculate (inst : Instrument ι V E A B ρ δ τ) (w : World ι ε ο ω V E ρ δ τ) (wasFrozen : Option Bool) :
    World ι ε ο ω V E ρ δ τ :=
  if w.lazy.calculated then w.calculated wasFrozen
  else match inst.isExpired w.inputs with
    | .error _  => w.calculated wasFrozen
    | .ok true  => { w with results := setupExpired, lazy := w.lazy.markCalculated }.calculated wasFrozen
    | .ok false =>
      let w' := { w with lazy := w.lazy.startCalculation.2 }
      if w.lazy.startCalculation.1 then w'.push (.caller (.calculating false wasFrozen)) else w'.calculated wasFrozen

/-- `Instrument::recalculate` up to its `calculate`, and that. -/
def recalculate (inst : Instrument ι V E A B ρ δ τ) (w : World ι ε ο ω V E ρ δ τ) : World ι ε ο ω V E ρ δ τ :=
  calculate inst { w with lazy := w.lazy.startRecalculation.2 } (some w.lazy.startRecalculation.1)

/-- `perform_calculations` returns `result`, to `calculate` on top of `k`. -/
def finish (w : World ι ε ο ω V E ρ δ τ) (result : Except String (InstrumentResults ρ δ τ)) (wasFrozen : Option Bool)
    (k : List (Frame (Party ω) Point)) : World ι ε ο ω V E ρ δ τ :=
  let w := { w with thread := { w.thread with stack := k }, lazy := w.lazy.finishCalculation result.isOk }
  match result with
  | .ok results => { w with results }.calculated wasFrozen
  | .error _    => w.calculated wasFrozen

def unfreeze (w : World ι ε ο ω V E ρ δ τ) : World ι ε ο ω V E ρ δ τ :=
  let w' := { w with lazy := w.lazy.deferredUnfreeze.2 }
  if w.lazy.deferredUnfreeze.1 then (w'.push (.caller .notifying)).notify .lazy else w'

def unhook (t : Thread (Source ι ε ο) (Party ω) Point) : Option ε → Thread (Source ι ε ο) (Party ω) Point
  | none     => t
  | some old => (t.unregisterObserver (.engine old) .updater).2

def hook (t : Thread (Source ι ε ο) (Party ω) Point) : Option ε → Thread (Source ι ε ο) (Party ω) Point
  | none     => t
  | some new => (t.registerObserver (.engine new) .updater).2

/-- Moves the updater's registration from the old engine to the new one. -/
def rewire (w : World ι ε ο ω V E ρ δ τ) (engine : Option ε) : World ι ε ο ω V E ρ δ τ :=
  { w with thread := hook (unhook w.thread w.engine) engine, engine }

def swapEngine (w : World ι ε ο ω V E ρ δ τ) (engine : Option ε) : World ι ε ο ω V E ρ δ τ :=
  let w := w.rewire engine
  let w' := { w with lazy := w.lazy.deferredUpdate.2 }
  if w.lazy.deferredUpdate.1 then (w'.push (.caller .swapping)).notify .lazy else w'

def setPricingEngineSilent (w : World ι ε ο ω V E ρ δ τ) (e : ε) : World ι ε ο ω V E ρ δ τ :=
  let w := w.rewire (some e)
  { w with lazy := w.lazy.invalidateSilently }

def step (inst : Instrument ι V E A B ρ δ τ) (w : World ι ε ο ω V E ρ δ τ) :
    Act ι ε ο ω V E ρ δ τ → Option (World ι ε ο ω V E ρ δ τ)
  | .resume => w.resume
  | .ret => match w.thread.stack with
    | .update (.client _) none :: k => some { w with thread := { w.thread with stack := k } }
    | _                             => none
  | .call c =>
    if w.running && c.spares .updater then (w.thread.call c).map (fun thread => { w with thread }) else none
  | .write i v => if w.running then some (w.write i v) else none
  | .writeEngine e v => if w.running then some (w.writeEngine e v) else none
  | .calculate => if w.running && w.free then some (calculate inst w none) else none
  | .recalculate => if w.running && w.free then some (recalculate inst w) else none
  | .finish torn => match w.thread.stack with
    | .caller (.calculating disturbed wasFrozen) :: k =>
      let result := if disturbed then torn else inst.performCalculations w.inputs (w.engine.map w.engines)
      some (w.finish result wasFrozen k)
    | _ => none
  | .freeze => if w.running && w.free then some { w with lazy := w.lazy.freeze } else none
  | .unfreeze => if w.running && w.free then some w.unfreeze else none
  | .setPricingEngine e => if w.running && w.free then some (w.swapEngine (some e)) else none
  | .detachPricingEngine => if w.running && w.free then some (w.swapEngine none) else none
  | .setPricingEngineSilent e => if w.running && w.free then some (w.setPricingEngineSilent e) else none

/-- **The guard of an update does not stand over calculated results** when this step changes what they depend on. -/
def heeded (w : World ι ε ο ω V E ρ δ τ) : Act ι ε ο ω V E ρ δ τ → Bool
  | .write _ _           => !(w.lazy.updating && w.lazy.calculated)
  | .writeEngine e _     => !(w.lazy.updating && w.lazy.calculated && decide (w.engine = some e))
  | .setPricingEngine _  => !(w.lazy.updating && w.lazy.calculated)
  | .detachPricingEngine => !(w.lazy.updating && w.lazy.calculated)
  | _                    => true

/-! ## The invariant -/

set_option linter.unusedSectionVars false

/-- The cache is accounted for: the updater is about to invalidate it, or the calculation that fills it is still running
on inputs that have not changed, or it holds the results of the current inputs. -/
def Cached (inst : Instrument ι V E A B ρ δ τ) (w : World ι ε ο ω V E ρ δ τ) : Prop :=
  (w.lazy.updating = false ∧ w.thread.Ahead .updater) ∨
  (∃ r, .caller (.calculating false r) ∈ w.thread.stack) ∨
  ((∀ d r, .caller (.calculating d r) ∉ w.thread.stack) ∧
    inst.recomputed w.inputs (w.engine.map w.engines) = .ok w.results)

structure Inv (inst : Instrument ι V E A B ρ δ τ) (w : World ι ε ο ω V E ρ δ τ) : Prop where
  alwaysForward : w.lazy.alwaysForward = true
  owned : w.thread.owned .updater = true
  held : w.thread.held .updater = false
  inputs : ∀ i, w.thread.Registered (.input i) .updater
  engine : ∀ e, w.engine = some e → w.thread.Registered (.engine e) .updater
  started : .update .updater none ∉ w.thread.stack.tail
  guarded : w.thread.stack.countP Frame.guards = w.lazy.updating.toNat
  borrowed : w.thread.stack.countP Frame.isCaller ≤ 1
  unexpired : ∀ r, .caller (.calculating false r) ∈ w.thread.stack → inst.isExpired w.inputs = .ok false
  cached : w.lazy.calculated = true → w.Cached inst

theorem inv_initial (inst : Instrument ι V E A B ρ δ τ) (inputs : ι → V) (engines : ε → E) (d : Party ω → Bool) :
    (initial inputs engines d : World ι ε ο ω V E ρ δ τ).Inv inst where
  alwaysForward := rfl
  owned := rfl
  held := rfl
  inputs := fun _ => List.mem_singleton.2 rfl
  engine := fun _ h => by cases h
  started := by simp [initial, Thread.initial]
  guarded := rfl
  borrowed := Nat.zero_le 1
  unexpired := fun _ h => by cases h
  cached := fun h => by cases h

section Invariant

variable {inst : Instrument ι V E A B ρ δ τ} {w : World ι ε ο ω V E ρ δ τ}

theorem Inv.live (h : w.Inv inst) : w.thread.live .updater = true := Thread.live_of_owned h.owned

/-- While code runs, the updater is not at the start of its update. -/
theorem Inv.not_started (h : w.Inv inst) (hr : w.running = true) : .update .updater none ∉ w.thread.stack := by
  intro hm
  cases hs : w.thread.stack with
  | nil => rw [hs] at hm; cases hm
  | cons f k =>
    rw [hs] at hm
    rcases List.mem_cons.1 hm with rfl | hk
    · simp [running, hs] at hr
    · exact h.started (by rw [hs]; exact hk)

/-- Changing flags other than the guard keeps the invariant, unless it marks the results calculated. -/
theorem Inv.setLazy (h : w.Inv inst) (lazy : LazyObject) (ha : lazy.alwaysForward = w.lazy.alwaysForward)
    (hu : lazy.updating = w.lazy.updating) (hc : lazy.calculated = true → w.lazy.calculated = true) :
    ({ w with lazy } : World ι ε ο ω V E ρ δ τ).Inv inst :=
  { h with
    alwaysForward := ha.trans h.alwaysForward
    guarded := by rw [hu]; exact h.guarded
    cached := fun hl => by
      rcases h.cached (hc hl) with ⟨hn, had⟩ | hcl
      · exact Or.inl ⟨hu.trans hn, had⟩
      · exact Or.inr hcl }

/-- Frames that hold neither the guard nor the instrument come and go on top. -/
theorem Inv.setThread (h : w.Inv inst) {thread : Thread (Source ι ε ο) (Party ω) Point}
    {p q k : List (Frame (Party ω) Point)} (hs : w.thread.stack = p ++ k) (hs' : thread.stack = q ++ k)
    (hp : ∀ f ∈ p, f.guards = false ∧ f.isCaller = false) (hq : ∀ f ∈ q, f.guards = false ∧ f.isCaller = false)
    (ho : thread.owned .updater = true) (hh : thread.held .updater = false)
    (hreg : ∀ o, w.thread.Registered o .updater → thread.Registered o .updater)
    (hstart : .update .updater none ∉ thread.stack.tail)
    (had : w.lazy.updating = false → w.thread.Ahead .updater → thread.Ahead .updater) :
    ({ w with thread } : World ι ε ο ω V E ρ δ τ).Inv inst := by
  have hcount : ∀ (P : Frame (Party ω) Point → Bool), (∀ f ∈ p, P f = false) → (∀ f ∈ q, P f = false) →
      thread.stack.countP P = w.thread.stack.countP P := by
    intro P hp hq
    have hzero : ∀ l : List (Frame (Party ω) Point), (∀ f ∈ l, P f = false) → l.countP P = 0 :=
      fun l hl => List.countP_eq_zero.2 (fun f hf => by simp [hl f hf])
    rw [hs, hs', List.countP_append, List.countP_append, hzero p hp, hzero q hq]
  have hcaller : ∀ c : Point, .caller c ∈ thread.stack ↔ .caller c ∈ w.thread.stack := by
    intro c
    have hn : ∀ l : List (Frame (Party ω) Point), (∀ f ∈ l, f.guards = false ∧ f.isCaller = false) → .caller c ∉ l :=
      fun l hl hm => by cases (hl _ hm).2
    rw [hs, hs', List.mem_append, List.mem_append, or_iff_right (hn q hq), or_iff_right (hn p hp)]
  exact
    { h with
      owned := ho
      held := hh
      inputs := fun i => hreg _ (h.inputs i)
      engine := fun e he => hreg _ (h.engine e he)
      started := hstart
      guarded := (hcount _ (fun f hf => (hp f hf).1) (fun f hf => (hq f hf).1)).trans h.guarded
      borrowed := hcount _ (fun f hf => (hp f hf).2) (fun f hf => (hq f hf).2) ▸ h.borrowed
      unexpired := fun r hr => h.unexpired r ((hcaller _).1 hr)
      cached := fun hc => by
        rcases h.cached hc with ⟨hn, ha⟩ | ⟨r, hr⟩ | ⟨hn, hf⟩
        · exact Or.inl ⟨hn, had hn ha⟩
        · exact Or.inr (Or.inl ⟨r, (hcaller _).2 hr⟩)
        · exact Or.inr (Or.inr ⟨fun d r hr => hn d r ((hcaller _).1 hr), hf⟩) }

theorem ahead_push {t t' : Thread (Source ι ε ο) (Party ω) Point} (top : List (Frame (Party ω) Point))
    (hs : t'.stack = top ++ t.stack) (hn : .update .updater none ∉ t.stack) (ha : t.Ahead .updater) :
    t'.Ahead .updater := by
  rcases ha with ⟨id, rest, hf, hx⟩ | ⟨k, hk⟩
  · exact Or.inl ⟨id, rest, hs ▸ List.mem_append_right _ hf, hx⟩
  · exact absurd (hk ▸ List.mem_cons_self) hn

theorem Inv.notify (h : w.Inv inst) (hn : .update .updater none ∉ w.thread.stack) (o : Source ι ε ο) :
    (w.notify o).Inv inst :=
  h.setThread (p := []) (q := [_]) (k := w.thread.stack) rfl rfl (by simp)
    (by simp [Frame.guards, Frame.isCaller]) h.owned h.held (fun _ => (Thread.registered_notifyObservers h.live).2)
    (fun hm => hn (by simpa [Thread.notifyObservers] using hm))
    (fun _ => ahead_push [_] rfl hn)

theorem Inv.call (h : w.Inv inst) (hr : w.running = true) {c : Call (Source ι ε ο) (Party ω)}
    (hc : c.spares .updater = true) {thread : Thread (Source ι ε ο) (Party ω) Point}
    (ht : w.thread.call c = some thread) : ({ w with thread } : World ι ε ο ω V E ρ δ τ).Inv inst := by
  have hcalled := Thread.call_shape ht
  obtain ⟨top, hs, htop⟩ := hcalled.stack
  obtain ⟨ho, hh, hreg⟩ := hcalled.spares hc h.owned
  have hn := h.not_started hr
  refine h.setThread (p := []) (q := top) (k := w.thread.stack) rfl hs (by simp) ?_ ho (hh.trans h.held) hreg ?_
    (fun _ => ahead_push top hs hn)
  · rcases htop with rfl | ⟨id, rest, rfl⟩ | ⟨x, rfl, -⟩ <;> simp [Frame.guards, Frame.isCaller]
  · rw [hs]
    rcases htop with rfl | ⟨id, rest, rfl⟩ | ⟨x, rfl, -⟩
    · exact h.started
    · exact hn
    · exact hn

/-- **The machinery goes on**: while the guard is down the updater is not borrowed, so its round starts its update. -/
theorem Inv.machinery (h : w.Inv inst) {thread : Thread (Source ι ε ο) (Party ω) Point}
    (ht : w.thread.resume = some thread) : ({ w with thread } : World ι ε ο ω V E ρ δ τ).Inv inst := by
  obtain ⟨⟨hobs, howned, hheld, -⟩, -, -, f, k, g, top, hs, hf, hs', hlen, -, hg⟩ := Thread.resume_shape ht
  have hplain : ∀ f : Frame (Party ω) Point, f.isMachinery = true → f.guards = false ∧ f.isCaller = false := by
    intro f hf
    refine ⟨?_, Frame.isCaller_machinery hf⟩
    cases f <;> first | rfl | cases hf
  have hk : .update .updater none ∉ k := by simpa [hs] using h.started
  have hgk : .update .updater none ∉ g ++ k := by
    intro hm
    rcases List.mem_append.1 hm with hm | hm
    · cases hg _ hm
    · exact hk hm
  refine h.setThread (p := [f]) (q := top.map (.update · none) ++ g) (k := k) hs (by simp [hs']) ?_ ?_
    (by rw [howned]; exact h.owned) (by rw [hheld]; exact h.held)
    (fun o hr => by simpa only [Thread.Registered, hobs] using hr) ?_ (fun hu ha => ha.resume ?_ ht)
  · intro f' hf'
    rw [List.mem_singleton.1 hf']
    exact hplain f hf
  · intro f' hf'
    rcases List.mem_append.1 hf' with hf' | hf'
    · obtain ⟨x, -, rfl⟩ := List.mem_map.1 hf'
      exact ⟨rfl, rfl⟩
    · exact hplain f' (hg f' hf')
  · rw [hs']
    rcases top with _ | ⟨x, _ | ⟨y, top⟩⟩
    · exact fun hm => hgk (List.mem_of_mem_tail hm)
    · exact hgk
    · simp at hlen
  · have hguards : w.thread.stack.countP Frame.guards = 0 := by rw [h.guarded, hu]; rfl
    rw [Thread.borrowed, h.held, Bool.false_or, List.any_eq_false]
    intro f' hf' hb
    have hng := List.countP_eq_zero.1 hguards f' hf'
    rcases f' with ⟨x, _ | p⟩ | _ | _ | _
    · have hx : x = .updater := by simpa [Frame.borrows] using hb
      rw [hx, hs] at hf'
      rcases List.mem_cons.1 hf' with rfl | hm
      · cases hf
      · exact hk hm
    · exact hng rfl
    all_goals cases hb

/-- A function that was waiting returns, and drops the guard if it held it. -/
theorem Inv.pop (h : w.Inv inst) {f : Frame (Party ω) Point} {k : List (Frame (Party ω) Point)}
    (hs : w.thread.stack = f :: k) (hf : f.guards = true ∨ f = .caller .notifying) {lazy : LazyObject}
    (hl : lazy = if f.guards then w.lazy.dropUpdate else w.lazy) :
    ({ w with lazy, thread := { w.thread with stack := k } } : World ι ε ο ω V E ρ δ τ).Inv inst := by
  have hcount : k.countP Frame.guards + (if f.guards then 1 else 0) = w.lazy.updating.toNat := by
    rw [← h.guarded, hs, List.countP_cons]
  have hguard : f.guards = true → w.lazy.updating = true ∧ k.countP Frame.guards = 0 := by
    intro hg
    rw [if_pos hg] at hcount
    cases hu : w.lazy.updating with
    | true => rw [hu] at hcount; exact ⟨rfl, by simpa using hcount⟩
    | false => rw [hu] at hcount; simp at hcount
  have hfields : lazy.alwaysForward = w.lazy.alwaysForward ∧ lazy.calculated = w.lazy.calculated := by
    rw [hl]; split <;> exact ⟨rfl, rfl⟩
  have hcalc : ∀ d r, f ≠ .caller (.calculating d r) := by
    rintro d r rfl
    rcases hf with hf | hf <;> cases hf
  have hsub : ∀ g ∈ k, g ∈ w.thread.stack := fun g hg => hs ▸ List.mem_cons_of_mem _ hg
  exact
    { h with
      alwaysForward := hfields.1.trans h.alwaysForward
      started := fun hm => h.started (by rw [hs]; exact List.mem_of_mem_tail hm)
      guarded := by
        by_cases hg : f.guards = true
        · simp [hl, hg, LazyObject.dropUpdate, (hguard hg).2]
        · simpa [hl, hg] using hcount
      borrowed := Nat.le_trans (List.Sublist.countP_le (hs ▸ List.sublist_cons_self _ _)) h.borrowed
      unexpired := fun r hr => h.unexpired r (hsub _ hr)
      cached := fun hc => by
        rcases h.cached (hfields.2 ▸ hc) with ⟨hn, ha⟩ | ⟨r, hr⟩ | ⟨hn, hr⟩
        · have hg : ¬f.guards = true := fun hg => by rw [(hguard hg).1] at hn; cases hn
          have hfn : f = .caller .notifying := hf.resolve_left hg
          refine Or.inl ⟨by rw [hl, if_neg hg]; exact hn, ?_⟩
          rcases ha with ⟨id, rest, hm, hx⟩ | ⟨k', hk'⟩
          · rcases List.mem_cons.1 (hs ▸ hm) with he | hm
            · rw [hfn] at he; cases he
            · exact Or.inl ⟨id, rest, hm, hx⟩
          · rw [hs, hfn] at hk'; cases hk'
        · rcases List.mem_cons.1 (hs ▸ hr) with he | hr
          · exact absurd he.symm (hcalc _ _)
          · exact Or.inr (Or.inl ⟨r, hr⟩)
        · exact Or.inr (Or.inr ⟨fun d r hm => hn d r (hsub _ hm), hr⟩) }

/-- **`Updater::update` keeps the invariant**: it invalidates, unless the guard is up. -/
theorem Inv.update (h : w.Inv inst) {k : List (Frame (Party ω) Point)}
    (hs : w.thread.stack = .update .updater none :: k) : (w.update k).Inv inst := by
  have hk : .update .updater none ∉ k := by simpa [hs] using h.started
  have hguarded : k.countP Frame.guards = w.lazy.updating.toNat := by
    rw [← h.guarded, hs]; rfl
  have hcaller : k.countP Frame.isCaller ≤ 1 := by simpa [hs, Frame.isCaller] using h.borrowed
  have hsub : ∀ g ∈ k, g ∈ w.thread.stack := fun g hg => hs ▸ List.mem_cons_of_mem _ hg
  cases hu : w.lazy.updating with
  | true =>
    rw [hu] at hguarded
    simp only [World.update, LazyObject.deferredUpdate_guarded hu, Bool.false_eq_true, if_false]
    exact
      { h with
        started := fun hm => hk (List.mem_of_mem_tail hm)
        guarded := by rw [hu]; exact hguarded
        borrowed := hcaller
        unexpired := fun r hr => h.unexpired r (hsub _ hr)
        cached := fun hc => by
          rcases h.cached hc with ⟨hn, -⟩ | ⟨r, hr⟩ | ⟨hn, hr⟩
          · rw [hu] at hn; cases hn
          · rcases List.mem_cons.1 (hs ▸ hr) with he | hr
            · cases he
            · exact Or.inr (Or.inl ⟨r, hr⟩)
          · exact Or.inr (Or.inr ⟨fun d r hm => hn d r (hsub _ hm), hr⟩) }
  | false =>
    rw [hu] at hguarded
    have hcalc := LazyObject.deferredUpdate_invalidates h.alwaysForward hu
    have hup := LazyObject.deferredUpdate_updating hu
    unfold World.update
    simp only
    split
    · rename_i hd
      refine Inv.notify ?_ (by simpa [push] using hk) _
      exact
        { h with
          alwaysForward := by simpa [push] using h.alwaysForward
          started := hk
          guarded := by simp [push, List.countP_cons, hguarded, hup, hd, Frame.guards]
          borrowed := by simpa [push, Frame.isCaller] using hcaller
          unexpired := fun r hr => h.unexpired r (hsub _ (by simpa [push] using hr))
          cached := fun hc => by simp [push, hcalc] at hc }
    · rename_i hd
      exact
        { h with
          alwaysForward := by simpa using h.alwaysForward
          started := fun hm => hk (List.mem_of_mem_tail hm)
          guarded := by simp [hguarded, hup, hd]
          borrowed := hcaller
          unexpired := fun r hr => h.unexpired r (hsub _ hr)
          cached := fun hc => by simp [hcalc] at hc }

/-- **The frame on top goes on, and keeps the invariant.** -/
theorem Inv.resume {w' : World ι ε ο ω V E ρ δ τ} (h : w.Inv inst) (hr : w.resume = some w') : w'.Inv inst := by
  unfold World.resume at hr
  split at hr
  · rename_i hs
    cases hr; exact h.update hs
  · rename_i hs
    cases hr; exact h.pop hs (Or.inl rfl) rfl
  · rename_i hs
    cases hr; exact h.pop hs (Or.inl rfl) rfl
  · rename_i hs
    cases hr; exact h.pop hs (Or.inr rfl) rfl
  · obtain ⟨thread, ht, rfl⟩ := Option.map_eq_some_iff.1 hr
    exact h.machinery ht

theorem disturb_guards (f : Frame (Party ω) Point) : f.disturb.guards = f.guards := by
  unfold Frame.disturb; split <;> rfl

theorem disturb_isCaller (f : Frame (Party ω) Point) : f.disturb.isCaller = f.isCaller := by
  unfold Frame.disturb; split <;> rfl

theorem disturb_update {f : Frame (Party ω) Point} {x : Party ω} {p : Option Point} (h : f.disturb = .update x p) :
    f = .update x p := by
  unfold Frame.disturb at h
  split at h
  · cases h
  · exact h

/-- No calculation on a disturbed stack has read what the inputs are now. -/
theorem not_mem_disturb (s : List (Frame (Party ω) Point)) (r : Option Bool) :
    .caller (.calculating false r) ∉ s.map Frame.disturb := by
  intro hm
  obtain ⟨f, -, hf⟩ := List.mem_map.1 hm
  unfold Frame.disturb at hf
  split at hf
  · cases hf
  · rename_i hne
    exact hne _ _ hf

theorem countP_disturb {P : Frame (Party ω) Point → Bool} (hP : ∀ f : Frame (Party ω) Point, P f.disturb = P f)
    (s : List (Frame (Party ω) Point)) : (s.map Frame.disturb).countP P = s.countP P := by
  rw [List.countP_map, show P ∘ Frame.disturb = P from funext hP]

/-- **A change of what the calculation reads keeps the invariant**: it disturbs the calculations in progress, and the
notification that follows has the invalidation ahead. -/
theorem Inv.changed (h : w.Inv inst) (hr : w.running = true) (hu : w.lazy.calculated = true → w.lazy.updating = false)
    {o : Source ι ε ο} (ho : w.thread.Registered o .updater) (inputs : ι → V) (engines : ε → E) :
    ({ w with inputs, engines, thread := w.disturbed.notifyObservers o } : World ι ε ο ω V E ρ δ τ).Inv inst := by
  have hn : .update .updater none ∉ w.disturbed.stack := by
    intro hm
    obtain ⟨f, hf, he⟩ := List.mem_map.1 hm
    exact h.not_started hr (disturb_update he ▸ hf)
  have hlive : w.disturbed.live .updater = true := Thread.live_of_owned h.owned
  have hreg : ∀ o', w.thread.Registered o' .updater → (w.disturbed.notifyObservers o).Registered o' .updater :=
    fun o' hr => (Thread.registered_notifyObservers (t := w.disturbed) hlive).2 hr
  exact
    { h with
      inputs := fun i => hreg _ (h.inputs i)
      engine := fun e he => hreg _ (h.engine e he)
      started := hn
      guarded := by
        rw [← h.guarded, ← countP_disturb disturb_guards w.thread.stack]
        exact List.countP_cons_of_neg (by simp [Frame.guards])
      borrowed := by
        have hb := h.borrowed
        rw [← countP_disturb disturb_isCaller w.thread.stack] at hb
        rwa [Thread.notifyObservers, List.countP_cons_of_neg (by simp [Frame.isCaller])]
      unexpired := fun r hm => by
        rcases List.mem_cons.1 hm with hm | hm
        · cases hm
        · exact absurd hm (not_mem_disturb _ r)
      cached := fun hc => Or.inl ⟨hu hc, Thread.Registered.ahead (t := w.disturbed) ho hlive⟩ }

theorem Inv.write (h : w.Inv inst) (hr : w.running = true) (i : ι) (v : V)
    (hu : w.lazy.calculated = true → w.lazy.updating = false) : (w.write i v).Inv inst :=
  h.changed hr hu (h.inputs i) _ w.engines

theorem Inv.writeEngine (h : w.Inv inst) (hr : w.running = true) (e : ε) (v : E)
    (hu : w.engine = some e → w.lazy.calculated = true → w.lazy.updating = false) : (w.writeEngine e v).Inv inst := by
  unfold World.writeEngine
  split
  · rename_i he
    exact h.changed hr (hu he) (h.engine e he) w.inputs _
  · rename_i he
    have heng : w.engine.map (Function.update w.engines e v) = w.engine.map w.engines := by
      cases hw : w.engine with
      | none => rfl
      | some e' =>
        have hne : e' ≠ e := fun hee => he (hee ▸ hw)
        simp [hne]
    refine Inv.notify (w := { w with engines := Function.update w.engines e v }) ?_ (h.not_started hr) _
    exact
      { h with
        cached := fun hc => by
          rcases h.cached hc with hd | hm | ⟨hn, hf⟩
          · exact Or.inl hd
          · exact Or.inr (Or.inl hm)
          · exact Or.inr (Or.inr ⟨hn, heng ▸ hf⟩) }

/-! ## Code that borrows the instrument -/

theorem Inv.countP_free (hf : w.free = true) : w.thread.stack.countP Frame.isCaller = 0 := by
  have hall : ∀ f ∈ w.thread.stack, f.isCaller = false := by simpa [World.free] using hf
  exact List.countP_eq_zero.2 (fun f hm => by simp [hall f hm])

theorem Inv.not_calculating (hf : w.free = true) (p : Point) : .caller p ∉ w.thread.stack :=
  fun hm => List.countP_eq_zero.1 (Inv.countP_free hf) _ hm rfl

theorem Inv.notifying (h : w.Inv inst) (hr : .update .updater none ∉ w.thread.stack)
    (hf : w.thread.stack.countP Frame.isCaller = 0) : ((w.push (.caller .notifying)).notify .lazy).Inv inst := by
  refine Inv.notify ?_ (by simpa [push] using hr) _
  have hmem : ∀ d r, .caller (.calculating d r) ∈ (w.push (.caller .notifying)).thread.stack →
      .caller (.calculating d r) ∈ w.thread.stack := fun d r hm => by simpa [push] using hm
  exact
    { h with
      started := hr
      guarded := by simpa [push, List.countP_cons, Frame.guards] using h.guarded
      borrowed := by simp [push, List.countP_cons, Frame.isCaller, hf]
      unexpired := fun r hm => h.unexpired r (hmem _ r hm)
      cached := fun hc => by
        rcases h.cached hc with ⟨hn, ha⟩ | ⟨r, hm⟩ | ⟨hn, hres⟩
        · exact Or.inl ⟨hn, ahead_push [.caller .notifying] rfl hr ha⟩
        · exact Or.inr (Or.inl ⟨r, List.mem_cons_of_mem _ hm⟩)
        · exact Or.inr (Or.inr ⟨fun d r hm => hn d r (hmem d r hm), hres⟩) }

theorem Inv.calculated (h : w.Inv inst) (hr : .update .updater none ∉ w.thread.stack)
    (hf : w.thread.stack.countP Frame.isCaller = 0) (wasFrozen : Option Bool) : (w.calculated wasFrozen).Inv inst := by
  cases wasFrozen with
  | none => exact h
  | some wasFrozen =>
    exact Inv.notifying (h.setLazy (w.lazy.finishRecalculation wasFrozen) rfl rfl (fun hc => hc)) hr hf

/-- **`calculate` keeps the invariant**: it keeps the cache, fills it with the expired values, or starts a
calculation. -/
theorem Inv.calculate (h : w.Inv inst) (hr : w.running = true) (hf : w.free = true) (wasFrozen : Option Bool) :
    (calculate inst w wasFrozen).Inv inst := by
  have hn := h.not_started hr
  have hz := Inv.countP_free hf
  unfold World.calculate
  split
  · exact h.calculated hn hz wasFrozen
  cases hexp : inst.isExpired w.inputs with
  | error e => exact h.calculated hn hz wasFrozen
  | ok expired =>
    cases expired with
    | true =>
      have hset : ({ w with results := setupExpired, lazy := w.lazy.markCalculated } :
          World ι ε ο ω V E ρ δ τ).Inv inst :=
        { h with
          cached := fun _ => Or.inr (Or.inr ⟨fun d r => Inv.not_calculating hf _, by
            simp only [Instrument.recomputed, hexp]; rfl⟩) }
      exact hset.calculated hn hz wasFrozen
    | false =>
      simp only
      split
      · exact
          { h with
            alwaysForward := by simpa [push] using h.alwaysForward
            started := hn
            guarded := by simpa [push, List.countP_cons, Frame.guards] using h.guarded
            borrowed := by simp [push, List.countP_cons, Frame.isCaller, hz]
            unexpired := fun _ _ => hexp
            cached := fun _ => Or.inr (Or.inl ⟨wasFrozen, List.mem_cons_self⟩) }
      · rename_i hs
        rw [LazyObject.startCalculation_false (by simpa using hs)]
        exact h.calculated hn hz wasFrozen

/-- **A calculation that returns keeps the invariant**: undisturbed, it leaves the results of the current inputs. -/
theorem Inv.finish (h : w.Inv inst) {disturbed : Bool} {wasFrozen : Option Bool} {k : List (Frame (Party ω) Point)}
    (hs : w.thread.stack = .caller (.calculating disturbed wasFrozen) :: k)
    {result : Except String (InstrumentResults ρ δ τ)}
    (hres : disturbed = false → result = inst.performCalculations w.inputs (w.engine.map w.engines)) :
    (w.finish result wasFrozen k).Inv inst := by
  have hz : k.countP Frame.isCaller = 0 := by
    have hb := h.borrowed
    rw [hs, List.countP_cons_of_pos (by rfl)] at hb
    omega
  have hk : .update .updater none ∉ k := by simpa [hs] using h.started
  have hnone : ∀ p, .caller p ∉ k := fun p hm => List.countP_eq_zero.1 hz _ hm rfl
  have hstack : ∀ results, (result = .ok results ∨ result.isOk = false) →
      ({ w with thread := { w.thread with stack := k }, lazy := w.lazy.finishCalculation result.isOk, results } :
        World ι ε ο ω V E ρ δ τ).Inv inst := fun results hresults =>
    { h with
      alwaysForward := by simpa using h.alwaysForward
      started := fun hm => hk (List.mem_of_mem_tail hm)
      guarded := by simpa [hs, Frame.guards] using h.guarded
      borrowed := by simp [hz]
      unexpired := fun r hm => absurd hm (hnone _)
      cached := fun hc => by
        obtain ⟨hok, hcalc⟩ := LazyObject.finishCalculation_calculated hc
        have hr : result = .ok results := hresults.resolve_right (by simp [hok])
        cases disturbed with
        | false =>
          refine Or.inr (Or.inr ⟨fun d r => hnone _, ?_⟩)
          have hexp := h.unexpired wasFrozen (hs ▸ List.mem_cons_self)
          rw [Instrument.recomputed, hexp]
          exact (hres rfl).symm.trans hr
        | true =>
          rcases h.cached hcalc with ⟨hn, ha⟩ | ⟨r, hm⟩ | ⟨hn, -⟩
          · refine Or.inl ⟨by simpa using hn, ?_⟩
            rcases ha with ⟨id, rest, hm, hx⟩ | ⟨k', hk'⟩
            · rcases List.mem_cons.1 (hs ▸ hm) with he | hm
              · cases he
              · exact Or.inl ⟨id, rest, hm, hx⟩
            · rw [hs] at hk'; cases hk'
          · rcases List.mem_cons.1 (hs ▸ hm) with he | hm
            · cases he
            · exact absurd hm (hnone _)
          · exact absurd (hs ▸ List.mem_cons_self) (hn true wasFrozen) }
  unfold World.finish
  cases result with
  | ok results => exact Inv.calculated (hstack results (Or.inl rfl)) hk hz wasFrozen
  | error e => exact Inv.calculated (hstack w.results (Or.inr rfl)) hk hz wasFrozen

theorem Inv.unfreeze (h : w.Inv inst) (hr : w.running = true) (hf : w.free = true) : w.unfreeze.Inv inst := by
  have hlazy := h.setLazy w.lazy.deferredUnfreeze.2 (by simp) (by simp) (by simp)
  unfold World.unfreeze
  simp only
  split
  · exact hlazy.notifying (h.not_started hr) (Inv.countP_free hf)
  · exact hlazy

theorem unhook_same (t : Thread (Source ι ε ο) (Party ω) Point) (engine : Option ε) :
    (unhook t engine).stack = t.stack ∧ (unhook t engine).owned = t.owned ∧ (unhook t engine).held = t.held := by
  cases engine <;> exact ⟨rfl, rfl, rfl⟩

theorem hook_same (t : Thread (Source ι ε ο) (Party ω) Point) (engine : Option ε) :
    (hook t engine).stack = t.stack ∧ (hook t engine).owned = t.owned ∧ (hook t engine).held = t.held := by
  cases engine with
  | none => exact ⟨rfl, rfl, rfl⟩
  | some new =>
    unfold hook Thread.registerObserver
    simp only
    split <;> exact ⟨rfl, rfl, rfl⟩

/-- Moving the registration to another engine keeps the invariant, once the results are not calculated. -/
theorem Inv.rewire (h : w.Inv inst) (hc : w.lazy.calculated = false) (engine : Option ε) :
    (w.rewire engine).Inv inst := by
  obtain ⟨hs, ho, hh⟩ := unhook_same w.thread w.engine
  obtain ⟨hs', ho', hh'⟩ := hook_same (unhook w.thread w.engine) engine
  have hlive : (unhook w.thread w.engine).live .updater = true :=
    Thread.live_of_owned (by rw [ho]; exact h.owned)
  have hinputs : ∀ i, (unhook w.thread w.engine).Registered (.input i) .updater := by
    intro i
    cases w.engine with
    | none => exact h.inputs i
    | some old => exact (Thread.registered_unregisterObserver h.live).2 ⟨h.inputs i, fun he => by cases he.1⟩
  have hstack : (w.rewire engine).thread.stack = w.thread.stack := hs'.trans hs
  exact
    { h with
      owned := (congrFun (ho'.trans ho) _).trans h.owned
      held := (congrFun (hh'.trans hh) _).trans h.held
      inputs := fun i => by
        cases engine with
        | none => exact hinputs i
        | some new => exact (Thread.registered_registerObserver hlive).2 (Or.inl (hinputs i))
      engine := fun e he => by
        cases he
        exact (Thread.registered_registerObserver hlive).2 (Or.inr ⟨rfl, rfl⟩)
      started := hstack ▸ h.started
      guarded := hstack ▸ h.guarded
      borrowed := hstack ▸ h.borrowed
      unexpired := fun r hr => h.unexpired r (hstack ▸ hr)
      cached := fun hc' => by rw [show w.lazy.calculated = true from hc'] at hc; cases hc }

theorem Inv.setPricingEngineSilent (h : w.Inv inst) (e : ε) : (w.setPricingEngineSilent e).Inv inst :=
  (h.setLazy w.lazy.invalidateSilently rfl rfl (fun hc => by cases hc)).rewire rfl (some e)

/-- **Swapping engines keeps the invariant**, once the guard does not stand over calculated results. -/
theorem Inv.swapEngine (h : w.Inv inst) (hr : w.running = true) (hf : w.free = true)
    (hu : w.lazy.calculated = true → w.lazy.updating = false) (engine : Option ε) :
    (w.swapEngine engine).Inv inst := by
  have hw := (h.setLazy w.lazy.invalidateSilently rfl rfl (fun hc => by cases hc)).rewire rfl engine
  have hstack : (w.rewire engine).thread.stack = w.thread.stack := (hook_same _ engine).1.trans (unhook_same _ _).1
  have hcalc : w.lazy.deferredUpdate.2.calculated = false := by
    cases hg : w.lazy.updating with
    | false => exact LazyObject.deferredUpdate_invalidates h.alwaysForward hg
    | true =>
      rw [LazyObject.deferredUpdate_guarded hg]
      cases hc : w.lazy.calculated with
      | false => rfl
      | true => rw [hu hc] at hg; cases hg
  unfold World.swapEngine
  simp only
  split
  · rename_i hd
    have hg : w.lazy.updating = false := by
      cases hg : w.lazy.updating with
      | false => rfl
      | true =>
        have hd : w.lazy.deferredUpdate.1 = true := hd
        rw [LazyObject.deferredUpdate_guarded hg] at hd; cases hd
    have hup : w.lazy.deferredUpdate.2.updating = true := (LazyObject.deferredUpdate_updating hg).trans hd
    have hz : w.thread.stack.countP Frame.guards = 0 := by rw [h.guarded, hg]; rfl
    have hn := h.not_started hr
    refine Inv.notify ?_ (by simpa [push, hstack] using hn) _
    exact
      { hw with
        alwaysForward := by
          have ha := h.alwaysForward
          rwa [← LazyObject.deferredUpdate_alwaysForward] at ha
        started := by simpa [push, hstack] using hn
        guarded := by
          change List.countP Frame.guards (_ :: (w.rewire engine).thread.stack) = w.lazy.deferredUpdate.2.updating.toNat
          rw [hstack, hup, List.countP_cons_of_pos (by rfl), hz]; rfl
        borrowed := by
          change List.countP Frame.isCaller (_ :: (w.rewire engine).thread.stack) ≤ 1
          rw [hstack, List.countP_cons_of_pos (by rfl)]
          exact Nat.succ_le_succ (Nat.le_of_eq (Inv.countP_free hf))
        unexpired := fun r hm => by
          change _ ∈ _ :: (w.rewire engine).thread.stack at hm
          rw [hstack] at hm
          rcases List.mem_cons.1 hm with hm | hm
          · cases hm
          · exact absurd hm (Inv.not_calculating hf _)
        cached := fun hc => by
          rw [show w.lazy.deferredUpdate.2.calculated = true from hc] at hcalc; cases hcalc }
  · rename_i hd
    have hd : w.lazy.deferredUpdate.1 = false := eq_false_of_ne_true hd
    refine hw.setLazy w.lazy.deferredUpdate.2 (by simp [World.rewire, LazyObject.invalidateSilently]) ?_
      (fun hc => by rw [hcalc] at hc; cases hc)
    cases hg : w.lazy.updating with
    | false => exact (LazyObject.deferredUpdate_updating hg).trans (hd.trans hg.symm)
    | true => rw [LazyObject.deferredUpdate_guarded hg]; rfl

/-- **Every step that heeds the guard keeps the invariant.** -/
theorem Inv.step {w' : World ι ε ο ω V E ρ δ τ} {a : Act ι ε ο ω V E ρ δ τ} (h : w.Inv inst)
    (ha : w.heeded a = true) (hs : w.step inst a = some w') : w'.Inv inst := by
  have hheed : ∀ {b : Bool}, (!(w.lazy.updating && w.lazy.calculated && b)) = true → b = true →
      w.lazy.calculated = true → w.lazy.updating = false := by
    intro b hb hbt hc
    simpa [hbt, hc] using hb
  have hheed' : (!(w.lazy.updating && w.lazy.calculated)) = true → w.lazy.calculated = true →
      w.lazy.updating = false := fun hb => hheed (b := true) (by simpa using hb) rfl
  cases a with
  | resume => exact h.resume hs
  | ret =>
    simp only [World.step] at hs
    split at hs
    · rename_i x k hk
      cases hs
      refine h.setThread (p := [_]) (q := []) (k := k) hk rfl (by simp [Frame.guards, Frame.isCaller]) (by simp)
        h.owned h.held (fun _ hr => hr) (fun hm => ?_) (fun _ hah => ?_)
      · exact h.started (by rw [hk]; exact List.mem_of_mem_tail hm)
      · rcases hah with ⟨id, rest, hm, hx⟩ | ⟨k', hk'⟩
        · rcases List.mem_cons.1 (hk ▸ hm) with he | hm
          · cases he
          · exact Or.inl ⟨id, rest, hm, hx⟩
        · rw [hk] at hk'; cases hk'
    · cases hs
  | call c =>
    obtain ⟨⟨hr, hc⟩, thread, ht, rfl⟩ := by simpa [World.step] using hs
    exact h.call hr hc ht
  | write i v =>
    obtain ⟨hr, rfl⟩ := by simpa [World.step] using hs
    exact h.write hr i v (hheed' ha)
  | writeEngine e v =>
    obtain ⟨hr, rfl⟩ := by simpa [World.step] using hs
    exact h.writeEngine hr e v (fun he => hheed ha (by simp [he]))
  | calculate =>
    obtain ⟨⟨hr, hf⟩, rfl⟩ := by simpa [World.step] using hs
    exact h.calculate hr hf none
  | recalculate =>
    obtain ⟨⟨hr, hf⟩, rfl⟩ := by simpa [World.step] using hs
    exact Inv.calculate (h.setLazy w.lazy.startRecalculation.2 rfl rfl (fun hc => by cases hc)) hr hf _
  | finish torn =>
    simp only [World.step] at hs
    split at hs
    · rename_i disturbed wasFrozen k hk
      cases hs
      exact h.finish hk (fun hd => by rw [hd]; rfl)
    · cases hs
  | freeze =>
    obtain ⟨-, rfl⟩ := by simpa [World.step] using hs
    exact h.setLazy _ rfl rfl (fun hc => hc)
  | unfreeze =>
    obtain ⟨⟨hr, hf⟩, rfl⟩ := by simpa [World.step] using hs
    exact h.unfreeze hr hf
  | setPricingEngine e =>
    obtain ⟨⟨hr, hf⟩, rfl⟩ := by simpa [World.step] using hs
    exact h.swapEngine hr hf (hheed' ha) _
  | detachPricingEngine =>
    obtain ⟨⟨hr, hf⟩, rfl⟩ := by simpa [World.step] using hs
    exact h.swapEngine hr hf (hheed' ha) _
  | setPricingEngineSilent e =>
    obtain ⟨-, rfl⟩ := by simpa [World.step] using hs
    exact h.setPricingEngineSilent e

end Invariant

/-! ## The guarantee -/

/-- **No stale cache**: in a run whose writes and swaps heed the guard, whenever no notification and no calculation is
in progress, calculated results are what a calculation from the current inputs would leave. -/
theorem no_stale_cache (inst : Instrument ι V E A B ρ δ τ) {inputs : ι → V} {engines : ε → E} {d : Party ω → Bool}
    {acts : List (Act ι ε ο ω V E ρ δ τ)} {w : World ι ε ο ω V E ρ δ τ}
    (hok : Machine.along (step inst) (fun w a => w.heeded a = true) (initial inputs engines d) acts)
    (hrun : Machine.run (step inst) (initial inputs engines d) acts = some w) (hquiet : w.thread.stack = [])
    (hc : w.lazy.calculated = true) :
    inst.recomputed w.inputs (w.engine.map w.engines) = .ok w.results := by
  have h : w.Inv inst := Machine.run_invariant_along (Inv inst) _ (fun _ _ _ h ha hs => h.step ha hs) acts _ _
    (inv_initial inst inputs engines d) hok hrun
  rcases h.cached hc with ⟨-, ⟨_, _, hm, _⟩ | ⟨_, hk⟩⟩ | ⟨_, hm⟩ | ⟨-, hr⟩
  · rw [hquiet] at hm; cases hm
  · rw [hquiet] at hk; cases hk
  · rw [hquiet] at hm; cases hm
  · exact hr

/-- An instrument worth its only input. -/
def quoted : Instrument Unit Int Unit Int (InstrumentResults Int Unit Unit) Int Unit Unit :=
  { isExpired := fun _ => .ok false, setupArguments := fun inputs => .ok (inputs ()), validate := fun _ => .ok ()
    calculateEngine := fun _ quote => .ok ⟨some quote, none, none, []⟩, asInstrumentResults := some }

/-- An observer registers, an engine is installed, the instrument is calculated, its input is written, and the observer
calculates it again inside the instrument's notification. -/
def recalculated : List (Act Unit Unit Empty Unit Int Unit Int Unit Unit) :=
  [.call (.registerObserver .lazy (.client ())), .setPricingEngineSilent (), .calculate, .finish (.error ""),
   .write () 2, .resume, .resume, .resume, .calculate, .finish (.error "")]

theorem no_stale_cache_recalculated :
    ∃ w : World Unit Unit Empty Unit Int Unit Int Unit Unit,
      Machine.run (step quoted) (initial (fun _ => 1) id fun _ => true)
        (recalculated ++ [.ret, .resume, .resume, .resume, .resume]) = some w ∧
      quoted.recomputed w.inputs (w.engine.map w.engines) = .ok w.results ∧ w.results.value = some 2 := by
  let acts := recalculated ++ [.ret, .resume, .resume, .resume, .resume]
  obtain ⟨w, hw⟩ : ∃ w : World Unit Unit Empty Unit Int Unit Int Unit Unit,
      Machine.run (step quoted) (initial (fun _ => 1) id fun _ => true) acts = some w ∧ w.thread.stack = [] ∧
      w.lazy.calculated = true ∧ w.results.value = some 2 := ⟨_, rfl, rfl, rfl, rfl⟩
  exact ⟨w, hw.1, no_stale_cache quoted (by decide) hw.1 hw.2.1 hw.2.2.1, hw.2.2.2⟩

/-- **A write under the guard is lost on recalculated results**: the observer that calculated the instrument inside its
notification writes the input once more, and the results stay those of the value before. -/
theorem stale_after_guarded_write :
    ∃ w : World Unit Unit Empty Unit Int Unit Int Unit Unit,
      Machine.run (step quoted) (initial (fun _ => 1) id fun _ => true)
        (recalculated ++ [.write () 3, .resume, .resume, .ret, .resume, .resume, .resume, .resume]) = some w ∧
      w.thread.stack = [] ∧ w.lazy.calculated = true ∧ w.lazy.frozen = false ∧ w.results = ⟨some 2, none, none, []⟩ ∧
      quoted.performCalculations w.inputs (w.engine.map w.engines) = .ok ⟨some 3, none, none, []⟩ :=
  ⟨_, rfl, rfl, rfl, rfl, rfl, rfl⟩

end World
end Itofin
