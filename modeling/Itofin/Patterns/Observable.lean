import Itofin.Lib.Machine
import Mathlib.Logic.Function.Basic
import Mathlib.Data.List.Nodup
/-!
# Observers and observables — one thread of notifications

The state of one thread as `patterns/observable.rs` keeps it: the registry of every observable, the thread-local
`DEPTH`, `DRAINING` and `PENDING`, and the call stack of the notification code.  An observer's `update` is code of its
own, so a notification is not one function here but a frame: `round` is the loop of `notify_observers` over what is
left of its snapshot, `drain` the loop of `drain_pending` over what is left of its batch, and `update x` says that `x`
is updating, which is also what keeps its `RefCell` mutably borrowed.  `resume` runs the frame on top up to the next
place where code of an observer begins or the frame returns.

The frames of a caller that waits for a notification (`caller k`, and `update x (some k)` for an observer whose own
update waits for one) carry a point `k` to go on from; the modules that model such callers choose the type `κ`.
`log` is a history variable, latest event first: no function reads it.
-/
namespace Itofin

/-- One registration: the observer and whether a refused delivery is to be deferred, sampled when it registers. -/
structure ObserverEntry (ω : Type) where
  observer : ω
  deferReentrant : Bool
deriving DecidableEq, Repr

inductive Frame (ω κ : Type) where
  /-- `x` is updating: at the start of its `update` (or in code of its own), or waiting at `k`. -/
  | update (x : ω) (k : Option κ)
  /-- The loop of `notify_observers`: the part of the snapshot not delivered yet, with its `defer_reentrant` flags;
  `id` tells the notifications of a history apart, no function reads it. -/
  | round (id : Nat) (rest : List (ω × Bool))
  /-- The loop of `drain_pending`: the part of the batch not delivered yet, and the stalled observers. -/
  | drain (batch stalled : List ω)
  /-- Code outside any update that waits for a notification to return. -/
  | caller (k : κ)
deriving DecidableEq, Repr

/-- The mutable borrow a frame holds: that of the observer it updates. -/
def Frame.borrows {ω κ : Type} [DecidableEq ω] (x : ω) : Frame ω κ → Bool
  | .update y _ => y = x
  | _           => false

/-- The strong reference a frame holds: to the observer it updates, and to those left in its snapshot. -/
def Frame.refers {ω κ : Type} [DecidableEq ω] (x : ω) : Frame ω κ → Bool
  | .update y _   => y = x
  | .round _ rest => rest.any (fun e => e.1 = x)
  | _             => false

inductive Event (ο ω : Type) where
  /-- A call of `notify_observers` took this snapshot. -/
  | notified (o : ο) (snapshot : List ω)
  /-- An `update` of `x` started. -/
  | started (x : ω)
  /-- A delivery to `x` was refused and put on the queue. -/
  | deferred (x : ω)
  /-- The notification `id` was refused by `x`, and not deferred. -/
  | refused (id : Nat) (x : ω)
  /-- The outermost `notify_observers` starts to drain the queue. -/
  | drains
  /-- The drain found `x` borrowed. -/
  | stalls (x : ω)
  /-- The outermost `notify_observers` returned, with these observers put back on the queue. -/
  | returned (stalled : List ω)
deriving DecidableEq, Repr

/-- One thread: the registries, the thread-locals, who is referenced and borrowed by code outside the notification
machinery, and the stack of notifications in progress. -/
structure Thread (ο ω κ : Type) where
  observers : ο → List (ObserverEntry ω)
  depth : Nat
  draining : Bool
  pending : List ω
  /-- A strong reference is held outside the stack. -/
  owned : ω → Bool
  /-- A caller's mutable borrow is outstanding. -/
  held : ω → Bool
  /-- `Observer::defer_reentrant_update`. -/
  deferReentrantUpdate : ω → Bool
  stack : List (Frame ω κ)
  log : List (Event ο ω)

def Thread.initial {ο ω κ : Type} (deferReentrantUpdate : ω → Bool) : Thread ο ω κ :=
  { observers := fun _ => [], depth := 0, draining := false, pending := [], owned := fun _ => true,
    held := fun _ => false, deferReentrantUpdate := deferReentrantUpdate, stack := [], log := [] }

namespace Thread

variable {ο ω κ : Type} [DecidableEq ω]

/-- `try_borrow_mut` fails on `x`: a caller holds its borrow, or its update is on the stack. -/
def borrowed (t : Thread ο ω κ) (x : ω) : Bool := t.held x || t.stack.any (Frame.borrows x)

/-- `strong_count() > 0`, so a weak reference to `x` upgrades. -/
def live (t : Thread ο ω κ) (x : ω) : Bool := t.owned x || t.stack.any (Frame.refers x)

/-- `retain(|entry| entry.observer.strong_count() > 0)`. -/
def retained (t : Thread ο ω κ) (o : ο) : List (ObserverEntry ω) :=
  (t.observers o).filter (fun e => t.live e.observer)

/-- `ObserverEntry::new`: the observer's own answer, or `true` when it cannot be borrowed to ask. -/
def newEntry (t : Thread ο ω κ) (x : ω) : ObserverEntry ω :=
  ⟨x, if t.borrowed x then true else t.deferReentrantUpdate x⟩

section Registry

variable [DecidableEq ο]

/-- `Observable::register_observer`: whether `x` was newly added, and the thread after it. -/
def registerObserver (t : Thread ο ω κ) (o : ο) (x : ω) : Bool × Thread ο ω κ :=
  let observers := t.retained o
  if observers.any (fun e => e.observer = x) then
    (false, { t with observers := Function.update t.observers o observers })
  else (true, { t with observers := Function.update t.observers o (observers ++ [t.newEntry x]) })

/-- `Observable::unregister_observer`: whether `x` was registered, and the thread after it. -/
def unregisterObserver (t : Thread ο ω κ) (o : ο) (x : ω) : Bool × Thread ο ω κ :=
  let observers := (t.observers o).filter (fun e => !decide (e.observer = x) && t.live e.observer)
  ((t.observers o).any (fun e => e.observer = x), { t with observers := Function.update t.observers o observers })

/-- `Observable::notify_observers` up to its loop: prunes the registry, snapshots it and enters the `DepthGuard`. -/
def notifyObservers (t : Thread ο ω κ) (o : ο) : Thread ο ω κ :=
  let snapshot := t.retained o
  { t with
    observers := Function.update t.observers o snapshot
    depth := t.depth + 1
    stack := .round t.log.length (snapshot.map (fun e => (e.observer, e.deferReentrant))) :: t.stack
    log := .notified o (snapshot.map ObserverEntry.observer) :: t.log }

end Registry

/-- `defer`: queues an undeliverable observer for the outermost round, once. -/
def defer (t : Thread ο ω κ) (x : ω) : Thread ο ω κ :=
  let pending := if t.pending.any (fun y => y = x) then t.pending else t.pending ++ [x]
  { t with pending, log := .deferred x :: t.log }

/-- `observer.update()` under a fresh mutable borrow of `x`. -/
def startUpdate (t : Thread ο ω κ) (x : ω) : Thread ο ω κ :=
  { t with stack := .update x none :: t.stack, log := .started x :: t.log }

/-- `deliver`: updates `x`, or queues it when it is borrowed. -/
def deliver (t : Thread ο ω κ) (x : ω) : Thread ο ω κ :=
  if t.borrowed x then t.defer x else t.startUpdate x

/-- `drain_pending` up to its loop: nothing when a drain is running already. -/
def drainPending (t : Thread ο ω κ) : Thread ο ω κ :=
  if t.draining then t
  else { t with draining := true, stack := .drain [] [] :: t.stack, log := .drains :: t.log }

/-- The end of `notify_observers`: the `DepthGuard` drops, and the call that returns to depth zero drains the queue. -/
def leaveRound (t : Thread ο ω κ) : Thread ο ω κ :=
  let t := { t with depth := t.depth - 1 }
  if t.depth = 0 then t.drainPending else t

/-- One iteration of the loop of `notify_observers`. -/
def roundNext (t : Thread ο ω κ) (id : Nat) (x : ω) (deferReentrant : Bool) : Thread ο ω κ :=
  if t.borrowed x then
    if deferReentrant then t.defer x else { t with log := .refused id x :: t.log }
  else t.startUpdate x

/-- One iteration of the inner loop of `drain_pending`, over `stalled`. -/
def drainNext (t : Thread ο ω κ) (x : ω) (batch stalled : List ω) : Thread ο ω κ :=
  if !t.live x then { t with stack := .drain batch stalled :: t.stack }
  else if t.borrowed x then
    { t with
      stack := .drain batch (if stalled.any (fun y => y = x) then stalled else stalled ++ [x]) :: t.stack
      log := .stalls x :: t.log }
  else ({ t with stack := .drain batch stalled :: t.stack } : Thread ο ω κ).startUpdate x

/-- The next batch of `drain_pending`, or its end: the stalled observers go back on the queue. -/
def drainBatch (t : Thread ο ω κ) (stalled : List ω) : Thread ο ω κ :=
  if t.pending.isEmpty then
    { t with pending := t.pending ++ stalled, draining := false, log := .returned stalled :: t.log }
  else { t with pending := [], stack := .drain t.pending stalled :: t.stack }

/-- The frame on top goes on: `none` when it is not a frame of the notification machinery. -/
def resume (t : Thread ο ω κ) : Option (Thread ο ω κ) :=
  match t.stack with
  | .round _ [] :: k                 => some ({ t with stack := k } : Thread ο ω κ).leaveRound
  | .round i ((x, d) :: rest) :: k   => some (({ t with stack := .round i rest :: k } : Thread ο ω κ).roundNext i x d)
  | .drain [] stalled :: k           => some (({ t with stack := k } : Thread ο ω κ).drainBatch stalled)
  | .drain (x :: batch) stalled :: k => some (({ t with stack := k } : Thread ο ω κ).drainNext x batch stalled)
  | _                                => none

end Thread
end Itofin
