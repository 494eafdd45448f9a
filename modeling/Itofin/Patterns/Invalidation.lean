import Itofin.Lib.Effect
import Itofin.Lib.Machine
import Itofin.Patterns.LazyObject
/-!
# Invalidation — the two paths of an update, and which updates are forwarded

`on_update` is one method; `deferred_update` is the same update split in a decision, a notification that the holder
makes after it released its borrow, and a guard it drops.  Both are programs on the flags and on whatever else the
observers can reach, and the notification is code of the observers (`Reaction`), which may call every method of the
object, come back with an update and panic.  `update_paths_agree` says that they are one program.

`LazyRun` is then the object under any order of calls, its computations and notifications nested as they come, with a
history of what happened, and `first_update_forwarded` says which updates a forward-first object forwards.
-/
namespace Itofin

open Effect (Prog)

/-- A method of a lazy object other than its updates. -/
inductive LazyCall where
  | markCalculated
  | invalidateSilently
  | startCalculation
  | finishCalculation (ok : Bool)
  | startRecalculation
  | finishRecalculation (wasFrozen : Bool)
  | freeze
  | deferredUnfreeze
  | forwardFirstNotificationOnly
  | alwaysForwardNotifications
deriving DecidableEq, Repr

namespace LazyObject

def forwardFirstNotificationOnly (l : LazyObject) : LazyObject := { l with alwaysForward := false }

def alwaysForwardNotifications (l : LazyObject) : LazyObject := { l with alwaysForward := true }

/-- What the call answers (`true` where it answers nothing), and the flags after it. -/
def call (l : LazyObject) : LazyCall → Bool × LazyObject
  | .markCalculated                => (true, l.markCalculated)
  | .invalidateSilently            => (true, l.invalidateSilently)
  | .startCalculation              => l.startCalculation
  | .finishCalculation ok          => (true, l.finishCalculation ok)
  | .startRecalculation            => l.startRecalculation
  | .finishRecalculation wasFrozen => (true, l.finishRecalculation wasFrozen)
  | .freeze                        => (true, l.freeze)
  | .deferredUnfreeze              => l.deferredUnfreeze
  | .forwardFirstNotificationOnly  => (true, l.forwardFirstNotificationOnly)
  | .alwaysForwardNotifications    => (true, l.alwaysForwardNotifications)

/-- An update does nothing, or invalidates under the guard of a notification, or without one while frozen. -/
theorem deferredUpdate_cases (l : LazyObject) :
    l.deferredUpdate = (false, l) ∨
    (l.updating = false ∧ l.frozen = true ∧ l.deferredUpdate = (false, l.invalidateSilently)) ∨
    (l.updating = false ∧ l.frozen = false ∧
      l.deferredUpdate = (true, { l.invalidateSilently with updating := true })) := by
  obtain ⟨calculated, frozen, failed, alwaysForward, updating⟩ := l
  cases updating with
  | true  => exact Or.inl rfl
  | false =>
    by_cases h : (calculated || failed || alwaysForward) = true
    · cases frozen with
      | true  => exact Or.inr (Or.inl ⟨rfl, rfl, by simp [deferredUpdate, h, invalidateSilently]⟩)
      | false => exact Or.inr (Or.inr ⟨rfl, rfl, by simp [deferredUpdate, h, invalidateSilently]⟩)
    · exact Or.inl (by simp [deferredUpdate, h])

/-- **Only an update and its guard write `updating`.** -/
@[simp] theorem call_updating (l : LazyObject) (c : LazyCall) : (l.call c).2.updating = l.updating := by
  cases c with
  | startCalculation     => exact startCalculation_updating l
  | finishCalculation ok => exact finishCalculation_updating l ok
  | deferredUnfreeze     => exact deferredUnfreeze_updating l
  | _                    => rfl

end LazyObject

/-- Code of the observers: work on the rest of the world, calls and updates of the object, and a return or a panic. -/
inductive Reaction (W ε : Type) where
  | done
  | panic (e : ε)
  | work (f : LazyObject × W → W) (next : LazyObject × W → Reaction W ε)
  | call (c : LazyCall) (next : Bool → Reaction W ε)
  | update (next : Bool → Reaction W ε)

section Paths

variable {W ε α : Type}

/-- The code, when an update of the object is `update`. -/
def Reaction.run (update : Prog (LazyObject × W) ε Bool) : Reaction W ε → Prog (LazyObject × W) ε Unit
  | .done        => pure ()
  | .panic e     => Prog.fail e
  | .work f next => fun (l, w) => (next (l, f (l, w))).run update (l, f (l, w))
  | .call c next => fun (l, w) => (next (l.call c).1).run update ((l.call c).2, w)
  | .update next => do
    let notified ← update
    (next notified).run update

/-- A program under the guard of an update, which is dropped on every way out. -/
def guarded (x : Prog (LazyObject × W) ε α) : Prog (LazyObject × W) ε α := fun s =>
  let (r, l, w) := x s
  (r, l.dropUpdate, w)

/-- `on_update`, whether the observers were notified. -/
def onUpdate (notify : Prog (LazyObject × W) ε Unit) : Prog (LazyObject × W) ε Bool := do
  let (l, _) ← Prog.get
  if l.updating then pure false
  else
    Prog.modify (fun (l, w) => ({ l with updating := true }, w))
    guarded do
      if l.calculated || l.failed || l.alwaysForward then
        Prog.modify (fun (l, w) => ({ l with calculated := false, failed := false }, w))
        if !l.frozen then
          notify
          pure true
        else pure false
      else pure false

/-- An update of a holder: `deferred_update`, and the notification it asks for before its guard drops. -/
def deferredPath (notify : Prog (LazyObject × W) ε Unit) : Prog (LazyObject × W) ε Bool := fun (l, w) =>
  let (notifies, l) := l.deferredUpdate
  if notifies then guarded (do notify; pure true) (l, w) else (.ok false, l, w)

/-- **Whatever the notification does, the two paths are one program.** -/
theorem onUpdate_eq (notify : Prog (LazyObject × W) ε Unit) : onUpdate notify = deferredPath notify := by
  funext ⟨⟨calculated, frozen, failed, alwaysForward, updating⟩, w⟩
  cases updating with
  | true  => rfl
  | false => cases calculated <;> cases failed <;> cases alwaysForward <;> cases frozen <;> rfl

theorem deferredPath_guarded (notify : Prog (LazyObject × W) ε Unit) {s : LazyObject × W} (hs : s.1.updating = true) :
    deferredPath notify s = (.ok false, s) := by
  obtain ⟨l, w⟩ := s
  have hs : l.updating = true := hs
  simp only [deferredPath, LazyObject.deferredUpdate_guarded hs, Bool.false_eq_true, if_false]

/-- **Under the guard it does not matter which path an update of the observers takes**, and the guard stays set. -/
theorem Reaction.run_guarded {p q : Prog (LazyObject × W) ε Bool}
    (hp : ∀ s, s.1.updating = true → p s = (.ok false, s)) (hq : ∀ s, s.1.updating = true → q s = (.ok false, s)) :
    ∀ (r : Reaction W ε) (s : LazyObject × W), s.1.updating = true →
      r.run p s = r.run q s ∧ (r.run p s).2.1.updating = true
  | .done, _, hs             => ⟨rfl, hs⟩
  | .panic _, _, hs          => ⟨rfl, hs⟩
  | .work f next, (l, w), hs => run_guarded hp hq (next (l, f (l, w))) (l, f (l, w)) hs
  | .call c next, (l, w), hs =>
    run_guarded hp hq (next (l.call c).1) ((l.call c).2, w) ((LazyObject.call_updating l c).trans hs)
  | .update next, s, hs      => by
    have ih := run_guarded hp hq (next false) s hs
    simp only [Reaction.run, Prog.run_bind, hp s hs, hq s hs]
    exact ih

/-- When the observers are notified: outside the guard, with something to invalidate, and not while frozen. -/
theorem deferredPath_eq (notify : Prog (LazyObject × W) ε Unit) (l : LazyObject) (w : W) :
    deferredPath notify (l, w) =
      if !l.updating && (l.calculated || l.failed || l.alwaysForward) && !l.frozen then
        guarded (do notify; pure true) ({ l with updating := true, calculated := false, failed := false }, w)
      else (.ok false, l.deferredUpdate.2, w) := by
  obtain ⟨calculated, frozen, failed, alwaysForward, updating⟩ := l
  cases updating with
  | true  => rfl
  | false => cases calculated <;> cases failed <;> cases alwaysForward <;> cases frozen <;> rfl

theorem deferredPath_congr {n n' : Prog (LazyObject × W) ε Unit} (h : ∀ s, s.1.updating = true → n s = n' s) :
    deferredPath n = deferredPath n' := by
  funext ⟨l, w⟩
  rw [deferredPath_eq, deferredPath_eq]
  split
  · simp only [guarded, Prog.run_bind]
    rw [h _ rfl]
  · rfl

theorem deferredPath_updating (notify : Prog (LazyObject × W) ε Unit) (l : LazyObject) (w : W) :
    (deferredPath notify (l, w)).2.1.updating = l.updating := by
  cases hu : l.updating with
  | true  => rw [deferredPath_guarded notify hu]; exact hu
  | false =>
    have hd := l.deferredUpdate_updating hu
    simp only [deferredPath]
    split
    · rfl
    · rename_i h
      rw [hd]; simpa using h

end Paths

/-! ## Every order of calls -/

/-- A call of the object that has not returned. -/
inductive LazyFrame where
  /-- `calculate` runs its computation. -/
  | perform
  /-- An update notifies the observers. -/
  | notification
deriving DecidableEq, Repr

inductive LazyEvent where
  /-- A computation started. -/
  | started
  /-- `calculate` returned `Ok`, after a computation of its own or not, with the object frozen or not. -/
  | returned (computed frozen : Bool)
  /-- A computation failed. -/
  | failed
  /-- An update invalidated the object and notified the observers. -/
  | forwarded
  /-- An update invalidated the object while it was frozen. -/
  | absorbed
  /-- An update did nothing. -/
  | ignored (frozen : Bool)
  /-- `invalidate_silently`. -/
  | silenced
  /-- `unfreeze` notified the observers. -/
  | unfroze
deriving DecidableEq, Repr

inductive LazyAct where
  | calculate
  /-- The computation on top ends with `Ok` or an error. -/
  | finish (ok : Bool)
  /-- The computation on top panics. -/
  | unwind
  | update
  /-- The notification on top returns or panics. -/
  | dropUpdate
  | freeze
  | unfreeze
  | invalidateSilently
deriving DecidableEq, Repr

/-- The object, what it has not returned from, and what has happened, latest first: no function reads the last. -/
structure LazyRun where
  lazy : LazyObject
  stack : List LazyFrame
  trace : List LazyEvent
deriving DecidableEq, Repr

namespace LazyRun

def initial : LazyRun := { lazy := LazyObject.new false, stack := [], trace := [] }

def calculate (s : LazyRun) : LazyRun :=
  let (computes, l) := s.lazy.startCalculation
  if computes then { lazy := l, stack := .perform :: s.stack, trace := .started :: s.trace }
  else { s with lazy := l, trace := .returned false l.frozen :: s.trace }

/-- The end of `calculate`, its frame removed. -/
def finish (s : LazyRun) (ok : Bool) : LazyRun :=
  let l := s.lazy.finishCalculation ok
  { s with lazy := l, trace := (if ok then .returned true l.frozen else .failed) :: s.trace }

def update (s : LazyRun) : LazyRun :=
  let (notifies, l) := s.lazy.deferredUpdate
  if notifies then { lazy := l, stack := .notification :: s.stack, trace := .forwarded :: s.trace }
  else { s with lazy := l, trace := (if l = s.lazy then .ignored l.frozen else .absorbed) :: s.trace }

def unfreeze (s : LazyRun) : LazyRun :=
  let (notifies, l) := s.lazy.deferredUnfreeze
  { s with lazy := l, trace := if notifies then .unfroze :: s.trace else s.trace }

/-- One call, or the end of the call on top of the stack. -/
def step (s : LazyRun) : LazyAct → Option LazyRun
  | .calculate          => some s.calculate
  | .finish ok          => match s.stack with
    | .perform :: k => some (({ s with stack := k } : LazyRun).finish ok)
    | _             => none
  | .unwind             => match s.stack with
    | .perform :: k => some { s with stack := k }
    | _             => none
  | .update             => some s.update
  | .dropUpdate         => match s.stack with
    | .notification :: k => some { s with lazy := s.lazy.dropUpdate, stack := k }
    | _                  => none
  | .freeze             => some { s with lazy := s.lazy.freeze }
  | .unfreeze           => some s.unfreeze
  | .invalidateSilently => some { s with lazy := s.lazy.invalidateSilently, trace := .silenced :: s.trace }

end LazyRun

/-! ## What the history says about the flags -/

namespace LazyEvent

/-- An update or `invalidate_silently` has given the value up. -/
def invalidates : LazyEvent → Bool
  | .forwarded => true
  | .absorbed  => true
  | .silenced  => true
  | _          => false

/-- What the event leaves in `calculated`, when it writes it. -/
def calculated : LazyEvent → Option Bool
  | .started => some true
  | .failed  => some false
  | e        => if e.invalidates then some false else none

/-- What the event leaves in `failed`, when it writes it. -/
def failing : LazyEvent → Option Bool
  | .failed          => some true
  | .returned true _ => some false
  | e                => if e.invalidates then some false else none

theorem calculated_eq_true {e : LazyEvent} : e.calculated = some true ↔ e = .started := by
  cases e <;> simp [calculated, invalidates]

theorem calculated_eq_false {e : LazyEvent} : e.calculated = some false ↔ e.invalidates = true ∨ e = .failed := by
  cases e <;> simp [calculated, invalidates]

theorem failing_eq_true {e : LazyEvent} : e.failing = some true ↔ e = .failed := by
  rcases e with _ | ⟨_ | _, _⟩ | _ | _ | _ | _ | _ | _ <;> simp [failing, invalidates]

theorem failing_eq_false {e : LazyEvent} :
    e.failing = some false ↔ e.invalidates = true ∨ ∃ frozen, e = .returned true frozen := by
  rcases e with _ | ⟨_ | _, _⟩ | _ | _ | _ | _ | _ | _ <;> simp [failing, invalidates]

theorem calculated_of_invalidates {e : LazyEvent} (h : e.invalidates = true) : e.calculated = some false :=
  calculated_eq_false.2 (Or.inl h)

theorem failing_of_invalidates {e : LazyEvent} (h : e.invalidates = true) : e.failing = some false :=
  failing_eq_false.2 (Or.inl h)

end LazyEvent

namespace LazyRun

/-- **The value is spent**: since the latest computation started, the object was invalidated and no computation has
failed after that, or a computation failed and an enclosing one has succeeded after that. -/
def Spent (trace : List LazyEvent) : Prop :=
  ∃ newer e older, trace = newer ++ e :: older ∧ .started ∉ newer ∧ .failed ∉ newer ∧
    (e.invalidates = true ∨ e = .failed ∧ ∃ frozen, .returned true frozen ∈ newer)

/-- What a step that logs `event`, if any, does. -/
structure Turn (s s' : LazyRun) (event : Option LazyEvent) : Prop where
  trace : s'.trace = event.toList ++ s.trace
  alwaysForward : s'.lazy.alwaysForward = s.lazy.alwaysForward
  calculated : s'.lazy.calculated = (event.bind LazyEvent.calculated).getD s.lazy.calculated
  failed : s'.lazy.failed = (event.bind LazyEvent.failing).getD s.lazy.failed
  updating : s.stack.count .notification = s.lazy.updating.toNat →
    s'.stack.count .notification = s'.lazy.updating.toNat
  performs : .perform ∈ s'.stack → .perform ∈ s.stack ∨ event = some .started
  returned : ∀ computed, event = some (.returned computed false) → .perform ∈ s.stack ∨ s.lazy.calculated = true
  absorbed : event = some .absorbed → s'.lazy.frozen = true
  thawed : s.lazy.frozen = true → s'.lazy.frozen = true ∨ event = some .unfroze

theorem calculate_turn (s : LazyRun) : ∃ event, s.Turn s.calculate event := by
  obtain ⟨⟨calculated, frozen, failed, alwaysForward, updating⟩, stack, trace⟩ := s
  cases calculated with
  | true  => exact ⟨some (.returned false frozen), rfl, rfl, rfl, rfl, id, Or.inl, fun _ _ => Or.inr rfl, by simp, Or.inl⟩
  | false =>
    cases frozen with
    | true  => exact ⟨some (.returned false true), rfl, rfl, rfl, rfl, id, Or.inl, by simp, by simp, Or.inl⟩
    | false =>
      refine ⟨some .started, rfl, rfl, rfl, rfl, fun h => ?_, fun _ => Or.inr rfl, by simp, by simp, Or.inl⟩
      simpa [LazyRun.calculate, LazyObject.startCalculation] using h

theorem finish_turn {s : LazyRun} {k : List LazyFrame} (hs : s.stack = .perform :: k) (ok : Bool) :
    ∃ event, s.Turn (({ s with stack := k } : LazyRun).finish ok) event := by
  have hperform : .perform ∈ s.stack := hs ▸ List.mem_cons_self
  have hcount : s.stack.count .notification = k.count .notification := by rw [hs, List.count_cons_of_ne (by decide)]
  cases ok with
  | true  =>
    exact ⟨some (.returned true s.lazy.frozen), rfl, rfl, rfl, rfl, fun h => hcount ▸ h,
      fun _ => Or.inl hperform, fun _ _ => Or.inl hperform, by simp, Or.inl⟩
  | false =>
    exact ⟨some .failed, rfl, rfl, rfl, rfl, fun h => hcount ▸ h, fun _ => Or.inl hperform, by simp, by simp, Or.inl⟩

theorem update_turn (s : LazyRun) : ∃ event, s.Turn s.update event := by
  rcases s.lazy.deferredUpdate_cases with hd | ⟨-, hf, hd⟩ | ⟨hu, hf, hd⟩
  · have hs : s.update = { s with trace := .ignored s.lazy.frozen :: s.trace } := by simp [LazyRun.update, hd]
    rw [hs]
    exact ⟨some (.ignored s.lazy.frozen), rfl, rfl, rfl, rfl, id, Or.inl, by simp, by simp, Or.inl⟩
  · by_cases hl : s.lazy.invalidateSilently = s.lazy
    · have hs : s.update = { s with trace := .ignored s.lazy.frozen :: s.trace } := by simp [LazyRun.update, hd, hl]
      rw [hs]
      exact ⟨some (.ignored s.lazy.frozen), rfl, rfl, rfl, rfl, id, Or.inl, by simp, by simp, Or.inl⟩
    · have hs : s.update = { s with lazy := s.lazy.invalidateSilently, trace := .absorbed :: s.trace } := by
        simp [LazyRun.update, hd, hl]
      rw [hs]
      exact ⟨some .absorbed, rfl, rfl, rfl, rfl, id, Or.inl, by simp, fun _ => hf, Or.inl⟩
  · have hs : s.update =
        { lazy := { s.lazy.invalidateSilently with updating := true }
          stack := .notification :: s.stack
          trace := .forwarded :: s.trace } := by simp [LazyRun.update, hd]
    rw [hs]
    refine ⟨some .forwarded, rfl, rfl, rfl, rfl, fun hc => ?_, by simp, by simp, by simp, Or.inl⟩
    rw [List.count_cons_self, hc, hu]
    rfl

theorem step_turn {s s' : LazyRun} {a : LazyAct} (h : s.step a = some s') : ∃ event, s.Turn s' event := by
  cases a with
  | calculate => cases h; exact s.calculate_turn
  | finish ok =>
    simp only [step] at h
    split at h
    · rename_i hs
      cases h; exact finish_turn hs ok
    · cases h
  | unwind =>
    simp only [step] at h
    split at h
    · rename_i k hs
      cases h
      refine ⟨none, rfl, rfl, rfl, rfl, fun hc => ?_, fun hp => Or.inl (hs ▸ List.mem_cons_of_mem _ hp), by simp,
        by simp, Or.inl⟩
      rwa [hs, List.count_cons_of_ne (by decide)] at hc
    · cases h
  | update => cases h; exact s.update_turn
  | dropUpdate =>
    simp only [step] at h
    split at h
    · rename_i k hs
      cases h
      refine ⟨none, rfl, rfl, rfl, rfl, fun hc => ?_, fun hp => Or.inl (hs ▸ List.mem_cons_of_mem _ hp), by simp,
        by simp, Or.inl⟩
      have := s.lazy.updating.toNat_le
      rw [hs, List.count_cons_self] at hc
      simp only [LazyObject.dropUpdate, Bool.toNat_false]
      omega
    · cases h
  | freeze => cases h; exact ⟨none, rfl, rfl, rfl, rfl, id, Or.inl, by simp, by simp, fun _ => Or.inl rfl⟩
  | unfreeze =>
    cases h
    cases hf : s.lazy.frozen with
    | true  =>
      have hs : s.unfreeze = { s with lazy := { s.lazy with frozen := false }, trace := .unfroze :: s.trace } := by
        simp [LazyRun.unfreeze, LazyObject.deferredUnfreeze, hf]
      rw [hs]
      exact ⟨some .unfroze, rfl, rfl, rfl, rfl, id, Or.inl, by simp, by simp, fun _ => Or.inr rfl⟩
    | false =>
      have hs : s.unfreeze = s := by simp [LazyRun.unfreeze, LazyObject.deferredUnfreeze, hf]
      rw [hs]
      exact ⟨none, rfl, rfl, rfl, rfl, id, Or.inl, by simp, by simp, Or.inl⟩
  | invalidateSilently =>
    cases h
    exact ⟨some .silenced, rfl, rfl, rfl, rfl, id, Or.inl, by simp, by simp, Or.inl⟩

/-- **What every reachable state of a forward-first object satisfies.** -/
structure Inv (s : LazyRun) : Prop where
  forwardFirst : s.lazy.alwaysForward = false
  updating : s.stack.count .notification = s.lazy.updating.toNat
  calculated : s.lazy.calculated = (s.trace.findSome? LazyEvent.calculated).getD false
  failed : s.lazy.failed = (s.trace.findSome? LazyEvent.failing).getD false
  performs : .perform ∈ s.stack → .started ∈ s.trace
  returned : ∀ computed, .returned computed false ∈ s.trace → .started ∈ s.trace
  absorbed : ∀ newer older, s.trace = newer ++ .absorbed :: older → s.lazy.frozen = true ∨ .unfroze ∈ newer

theorem inv_initial : Inv initial where
  forwardFirst := rfl
  updating := rfl
  calculated := rfl
  failed := rfl
  performs := fun h => by cases h
  returned := fun _ h => by cases h
  absorbed := fun newer _ h => by cases newer <;> cases h

theorem findSome?_event {f : LazyEvent → Option Bool} {b : Bool} (event : Option LazyEvent) (trace : List LazyEvent)
    (hb : b = (trace.findSome? f).getD false) :
    (event.bind f).getD b = ((event.toList ++ trace).findSome? f).getD false := by
  cases event with
  | none   => exact hb
  | some e =>
    simp only [Option.bind_some, Option.toList_some, List.cons_append, List.nil_append, List.findSome?_cons]
    cases f e with
    | none   => exact hb
    | some c => rfl

theorem Inv.started {s : LazyRun} (h : s.Inv) (hc : s.lazy.calculated = true) : .started ∈ s.trace := by
  rw [h.calculated] at hc
  cases hf : s.trace.findSome? LazyEvent.calculated with
  | none   => rw [hf] at hc; cases hc
  | some b =>
    obtain ⟨e, he, heb⟩ := List.exists_of_findSome?_eq_some hf
    rw [hf] at hc
    obtain rfl : b = true := hc
    cases e with
    | started => exact he
    | returned _ _ | failed | forwarded | absorbed | ignored _ | silenced | unfroze => cases heb

/-- **Every step keeps the invariant.** -/
theorem Inv.turn {s s' : LazyRun} {event : Option LazyEvent} (h : s.Inv) (ht : s.Turn s' event) : s'.Inv where
  forwardFirst := ht.alwaysForward.trans h.forwardFirst
  updating := ht.updating h.updating
  calculated := by rw [ht.calculated, ht.trace]; exact findSome?_event event _ h.calculated
  failed := by rw [ht.failed, ht.trace]; exact findSome?_event event _ h.failed
  performs := fun hp => by
    rw [ht.trace]
    rcases ht.performs hp with hp | rfl
    · exact List.mem_append_right _ (h.performs hp)
    · exact List.mem_append_left _ (by simp)
  returned := fun computed hr => by
    rw [ht.trace] at hr ⊢
    rcases List.mem_append.1 hr with hr | hr
    · have he : event = some (.returned computed false) := by simpa using hr
      exact List.mem_append_right _ ((ht.returned computed he).elim h.performs h.started)
    · exact List.mem_append_right _ (h.returned computed hr)
  absorbed := fun newer older heq => by
    rw [ht.trace] at heq
    have hold : ∀ mid, newer = event.toList ++ mid → s.trace = mid ++ .absorbed :: older →
        s'.lazy.frozen = true ∨ .unfroze ∈ newer := by
      intro mid hn hm
      rcases h.absorbed mid older hm with hf | hu
      · exact (ht.thawed hf).imp id (fun he => by simp [hn, he])
      · exact Or.inr (hn ▸ List.mem_append_right _ hu)
    cases event with
    | none   => exact hold newer rfl heq
    | some e =>
      cases newer with
      | nil => exact Or.inl (ht.absorbed (by rw [(List.cons.inj heq).1]))
      | cons e' mid =>
        obtain ⟨rfl, hm⟩ := List.cons.inj heq
        exact hold mid rfl hm

theorem run_inv {acts : List LazyAct} {s : LazyRun} (h : Machine.run step initial acts = some s) : s.Inv := by
  refine Machine.run_invariant Inv (fun s a s' hs ha => ?_) acts _ s inv_initial h
  obtain ⟨event, ht⟩ := step_turn ha
  exact hs.turn ht

/-! ## Which updates are forwarded -/

/-- An update is forwarded when there is something to invalidate, outside the guard and not while frozen. -/
theorem update_forwards {s : LazyRun} (hf : s.lazy.frozen = false) (hu : s.lazy.updating = false)
    (ha : s.lazy.alwaysForward = false) :
    s.update.trace = .forwarded :: s.trace ↔ s.lazy.calculated = true ∨ s.lazy.failed = true := by
  have hd : s.lazy.deferredUpdate.1 = (s.lazy.calculated || s.lazy.failed) := by
    cases hc : s.lazy.calculated <;> cases hfl : s.lazy.failed <;> simp [LazyObject.deferredUpdate, hf, hu, ha, hc, hfl]
  rw [← Bool.or_eq_true, ← hd]
  simp only [LazyRun.update]
  cases s.lazy.deferredUpdate.1 with
  | true  => simp
  | false =>
    simp only [Bool.false_eq_true, if_false, List.cons.injEq, and_true, iff_false]
    split <;> simp

theorem findSome?_newer {f : LazyEvent → Option Bool} {newer older : List LazyEvent} {e : LazyEvent}
    (hn : ∀ x ∈ newer, f x ≠ some true) (he : newer.findSome? f ≠ none ∨ f e = some false) :
    ((newer ++ e :: older).findSome? f).getD false = false := by
  rw [List.findSome?_append]
  cases h : newer.findSome? f with
  | none   =>
    have he : f e = some false := he.resolve_left (fun hne => hne h)
    simp [he]
  | some b =>
    obtain ⟨x, hx, hb⟩ := List.exists_of_findSome?_eq_some h
    cases b with
    | false => rfl
    | true  => exact absurd hb (hn x hx)

/-- **The value is spent exactly when the object has nothing to invalidate**, once a computation has started. -/
theorem Inv.spent_iff {s : LazyRun} (h : s.Inv) (hs : .started ∈ s.trace) :
    Spent s.trace ↔ s.lazy.calculated = false ∧ s.lazy.failed = false := by
  rw [h.calculated, h.failed]
  constructor
  · rintro ⟨newer, e, older, htrace, hstart, hfail, he⟩
    rw [htrace]
    constructor
    · refine findSome?_newer (fun x hx hc => ?_) (Or.inr ?_)
      · exact hstart (LazyEvent.calculated_eq_true.1 hc ▸ hx)
      · rcases he with he | ⟨rfl, -⟩
        · exact LazyEvent.calculated_of_invalidates he
        · rfl
    · refine findSome?_newer (fun x hx hc => hfail (LazyEvent.failing_eq_true.1 hc ▸ hx)) ?_
      rcases he with he | ⟨rfl, frozen, hr⟩
      · exact Or.inr (LazyEvent.failing_of_invalidates he)
      · exact Or.inl (fun hn => by cases List.findSome?_eq_none_iff.1 hn _ hr)
  · rintro ⟨hc, hf⟩
    have hwritten : s.trace.findSome? LazyEvent.calculated = some false := by
      cases hw : s.trace.findSome? LazyEvent.calculated with
      | none   => cases List.findSome?_eq_none_iff.1 hw _ hs
      | some b => rw [hw] at hc; exact congrArg some hc
    obtain ⟨newer, e, older, htrace, he, hn⟩ := List.findSome?_eq_some_iff.1 hwritten
    have hstart : .started ∉ newer := fun hm => by cases hn _ hm
    have hfail : .failed ∉ newer := fun hm => by cases hn _ hm
    refine ⟨newer, e, older, htrace, hstart, hfail, (LazyEvent.calculated_eq_false.1 he).imp id (fun hef => ⟨hef, ?_⟩)⟩
    -- the failure of the latest computation has been cleared since, by no event that would write `calculated` again
    subst hef
    rw [htrace, List.findSome?_append] at hf
    cases hw : newer.findSome? LazyEvent.failing with
    | none   => rw [hw] at hf; cases hf
    | some b =>
      obtain ⟨x, hx, hb⟩ := List.exists_of_findSome?_eq_some hw
      rw [hw] at hf
      obtain rfl : b = false := hf
      obtain hxi | ⟨frozen, rfl⟩ := LazyEvent.failing_eq_false.1 hb
      · cases (LazyEvent.calculated_of_invalidates hxi).symm.trans (hn x hx)
      · exact ⟨frozen, hx⟩

/-- **The first invalidation is forwarded unless the value is spent**: in every run, after a `calculate` that returned
`Ok` and left the object unfrozen, an update while the object is unfrozen and notifies nobody is forwarded exactly when
the value is not spent.  An invalidation that was absorbed while the object was frozen has been announced since. -/
theorem first_update_forwarded {acts : List LazyAct} {s : LazyRun} {mid older : List LazyEvent} {computed : Bool}
    (hrun : Machine.run step initial acts = some s) (hret : s.trace = mid ++ .returned computed false :: older)
    (hf : s.lazy.frozen = false) (hn : .notification ∉ s.stack) :
    ((s.step .update).map LazyRun.trace = some (.forwarded :: s.trace) ↔ ¬ Spent s.trace) ∧
    ∀ newer before, s.trace = newer ++ .absorbed :: before → .unfroze ∈ newer := by
  have hi := run_inv hrun
  have hstart : .started ∈ s.trace := hi.returned computed (hret ▸ List.mem_append_right _ List.mem_cons_self)
  have hu : s.lazy.updating = false := by
    have hc := hi.updating
    rw [List.count_eq_zero_of_not_mem hn] at hc
    cases hul : s.lazy.updating with
    | false => rfl
    | true  => rw [hul] at hc; cases hc
  constructor
  · rw [step, Option.map_some, Option.some.injEq, update_forwards hf hu hi.forwardFirst, hi.spent_iff hstart]
    cases s.lazy.calculated <;> cases s.lazy.failed <;> simp
  · intro newer before ht
    refine (hi.absorbed newer before ht).resolve_left (fun hz => ?_)
    rw [hf] at hz; cases hz

/-- A computation that invalidates its own object, a second one that does not, and a freeze of its value. -/
def recomputed : List LazyAct :=
  [.calculate, .update, .dropUpdate, .finish true, .calculate, .finish true, .freeze, .unfreeze]

theorem first_update_forwarded_recomputed : ∃ s, Machine.run step initial recomputed = some s ∧
    ((s.step .update).map LazyRun.trace = some (.forwarded :: s.trace) ↔ ¬ Spent s.trace) ∧
    (s.step .update).map LazyRun.trace = some (.forwarded :: s.trace) := by
  let s := (Machine.run step initial recomputed).get (by decide)
  have hrun : Machine.run step initial recomputed = some s := rfl
  have hret : s.trace = [.unfroze] ++ .returned true false :: s.trace.drop 2 := by decide
  exact ⟨s, hrun, (first_update_forwarded hrun hret (by decide) (by decide)).1, by decide⟩

/-- The object invalidates itself while it computes. -/
def invalidatedInside : List LazyAct := [.calculate, .update, .dropUpdate, .finish true]

/-- **The first invalidation after a calculation can be ignored**: when the object was invalidated inside the
computation; and likewise when it was invalidated silently, when it was invalidated while frozen, when its observers
recalculate it in the notification that is running, and when a nested computation failed in one that succeeded. -/
theorem first_update_ignored :
    (¬ ∀ (acts : List LazyAct) (s : LazyRun) (mid older : List LazyEvent) (computed : Bool),
      Machine.run step initial acts = some s → s.trace = mid ++ .returned computed false :: older →
        .forwarded ∉ mid → .ignored false ∉ mid → s.lazy.frozen = false →
          (s.step .update).map LazyRun.trace = some (.forwarded :: s.trace)) ∧
    (Machine.run step initial (invalidatedInside ++ [.update])).map LazyRun.trace =
      some [.ignored false, .returned true false, .forwarded, .started] ∧
    (Machine.run step initial [.calculate, .finish true, .invalidateSilently, .update]).map LazyRun.trace =
      some [.ignored false, .silenced, .returned true false, .started] ∧
    (Machine.run step initial [.calculate, .finish true, .freeze, .update, .unfreeze, .update]).map LazyRun.trace =
      some [.ignored false, .unfroze, .absorbed, .returned true false, .started] ∧
    (Machine.run step initial [.calculate, .finish true, .update, .calculate, .finish true, .update]).map
        LazyRun.trace =
      some [.ignored false, .returned true false, .started, .forwarded, .returned true false, .started] ∧
    (Machine.run step initial [.calculate, .update, .dropUpdate, .calculate, .finish false, .finish true, .update]).map
        LazyRun.trace =
      some [.ignored false, .returned true false, .failed, .started, .forwarded, .started] := by
  refine ⟨fun h => ?_, by decide, by decide, by decide, by decide, by decide⟩
  let s := (Machine.run step initial invalidatedInside).get (by decide)
  have hupdate := h invalidatedInside s [] [.forwarded, .started] true rfl (by decide) (by decide) (by decide)
    (by decide)
  revert hupdate
  decide

end LazyRun
end Itofin
