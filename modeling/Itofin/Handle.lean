import Itofin.Patterns.Stack
/-!
# Handle — a shared link and the subscription it moves

The links of `handle.rs`: two slots, an observable of their own, and a forwarder that observes the pointee and notifies
the link's observers.  Copies of a handle share its link, so an operation through any copy is an operation on the link.
`Linked` says what the last operation asked for, and is the abstract state of a link: the two slots are a function of it
(`Linked.slots`), and the forwarder is registered with exactly the pointee it observes (`Inv.registered`).

`relinking` is the guarantee over every run of operations and of observers that notify, register and relink from inside
their updates: a change of an object reaches the handle's observers if it is the pointee the link observes, and is not
handed to the link at all if it is not.
-/
namespace Itofin
namespace Handle

/-- The slots of a `Link`; its observable and its forwarder are `Source.link` and `Party.forwarder` of the thread. -/
structure Link (π : Type) where
  current : Option π
  weak : Option π
deriving DecidableEq, Repr

/-- `Link::resolved`; `alive` says which weak references upgrade. -/
def Link.resolved {π : Type} (l : Link π) (alive : π → Bool) : Option π :=
  match l.current with
  | some strong => some strong
  | none        => l.weak.filter alive

/-- The functions that repoint a link: `link_to`, also for `reset`, `link_weak` and `link_unregistered`. -/
inductive Relink (π : Type) where
  | linkTo (pointee : Option π)
  | linkWeak (pointee : π)
  | linkUnregistered (pointee : π)
deriving DecidableEq, Repr

inductive Linked (π : Type) where
  | nothing
  | observed (p : π)
  | unobserved (p : π)
  | weak (p : π)
deriving DecidableEq, Repr

def Linked.after {π : Type} : Relink π → Linked π
  | .linkTo none        => .nothing
  | .linkTo (some p)    => .observed p
  | .linkWeak p         => .weak p
  | .linkUnregistered p => .unobserved p

def Linked.slots {π : Type} : Linked π → Link π
  | .nothing      => ⟨none, none⟩
  | .observed p   => ⟨some p, none⟩
  | .unobserved p => ⟨some p, none⟩
  | .weak p       => ⟨none, some p⟩

/-- What dereferencing finds; a weak pointee only while it is alive. -/
def Linked.pointee {π : Type} (alive : π → Bool) : Linked π → Option π
  | .nothing      => none
  | .observed p   => some p
  | .unobserved p => some p
  | .weak p       => if alive p then some p else none

theorem Linked.resolved_slots {π : Type} (alive : π → Bool) (l : Linked π) :
    l.slots.resolved alive = l.pointee alive := by
  cases l with
  | weak p => simp [slots, pointee, Link.resolved, Option.filter]
  | _ => rfl

inductive Source (π η ο : Type) where
  | pointee (p : π)
  | link (h : η)
  | other (o : ο)
deriving DecidableEq, Repr

inductive Party (η ω : Type) where
  | forwarder (h : η)
  | client (x : ω)
deriving DecidableEq, Repr

structure World (π η ο ω : Type) where
  thread : Thread (Source π η ο) (Party η ω) Unit
  links : η → Link π
  /-- What the last operation on each link asked for: a history variable, no function reads it. -/
  linked : η → Linked π

namespace World

/-- What happens next; `relink` with or without the notification of `RelinkableHandle` (constructors give none). -/
inductive Act (π η ο ω : Type) where
  | resume
  | ret
  | call (c : Call (Source π η ο) (Party η ω))
  | relink (h : η) (r : Relink π) (notifies : Bool)

variable {π η ο ω : Type} [DecidableEq π] [DecidableEq η] [DecidableEq ο] [DecidableEq ω]

/-- Empty links, forwarders that keep the default `defer_reentrant_update`, and no other registrations. -/
def initial (d : ω → Bool) : World π η ο ω :=
  { thread := Thread.initial fun
      | .forwarder _ => true
      | .client x    => d x
    links := fun _ => ⟨none, none⟩, linked := fun _ => .nothing }

def running (w : World π η ο ω) : Bool :=
  match w.thread.stack with
  | []                            => true
  | .update (.client _) none :: _ => true
  | _                             => false

/-- Nobody but its link has a forwarder in hand. -/
def foreign (c : Call (Source π η ο) (Party η ω)) : Bool :=
  match c.observer with
  | some (.forwarder _) => false
  | _                   => true

/-- `old.observable().unregister_observer(&forwarder)`, for the owned pointee. -/
def unhook (t : Thread (Source π η ο) (Party η ω) Unit) (h : η) :
    Option π → Thread (Source π η ο) (Party η ω) Unit
  | none     => t
  | some old => (t.unregisterObserver (.pointee old) (.forwarder h)).2

/-- `new.observable().register_observer(&forwarder)`. -/
def hook (t : Thread (Source π η ο) (Party η ω) Unit) (h : η) :
    Option π → Thread (Source π η ο) (Party η ω) Unit
  | none     => t
  | some new => (t.registerObserver (.pointee new) (.forwarder h)).2

/-- `Link::link_to`, `link_weak` and `link_unregistered`. -/
def relink (w : World π η ο ω) (h : η) (r : Relink π) : World π η ο ω :=
  let thread := unhook w.thread h (w.links h).current
  let linked := Function.update w.linked h (.after r)
  match r with
  | .linkTo pointee =>
    { thread := hook thread h pointee, links := Function.update w.links h ⟨pointee, none⟩, linked }
  | .linkWeak p         => { thread, links := Function.update w.links h ⟨none, some p⟩, linked }
  | .linkUnregistered p => { thread, links := Function.update w.links h ⟨some p, none⟩, linked }

def notify (w : World π η ο ω) (o : Source π η ο) : World π η ο ω := { w with thread := w.thread.notifyObservers o }

/-- The frame on top goes on: a forwarder's `update` notifies its link, and returns after it. -/
def resume (w : World π η ο ω) : Option (World π η ο ω) :=
  match w.thread.stack with
  | .update (.forwarder h) none :: k =>
    some ({ w with thread := { w.thread with stack := .update (.forwarder h) (some ()) :: k } }.notify (.link h))
  | .update _ (some _) :: k => some { w with thread := { w.thread with stack := k } }
  | _                       => w.thread.resume.map (fun thread => { w with thread })

def step (w : World π η ο ω) : Act π η ο ω → Option (World π η ο ω)
  | .resume => w.resume
  | .ret => match w.thread.stack with
    | .update (.client _) none :: k => some { w with thread := { w.thread with stack := k } }
    | _                             => none
  | .call c => if w.running && foreign c then (w.thread.call c).map (fun thread => { w with thread }) else none
  | .relink h r notifies =>
    if w.running then some (if notifies then (w.relink h r).notify (.link h) else w.relink h r) else none

/-! ## The invariant -/

/-- Every update of a forwarder has notified its link, or is about to. -/
def Forwards (t : Thread (Source π η ο) (Party η ω) Unit) : Prop :=
  ∀ newer h older, t.log = newer ++ .started (.forwarder h) :: older →
    (newer = [] ∧ ∃ k, t.stack = .update (.forwarder h) none :: k) ∨
    ∃ newer' snap, newer = newer' ++ [.notified (.link h) snap]

structure Inv (w : World π η ο ω) : Prop where
  thread : w.thread.Inv
  owned : ∀ h, w.thread.owned (.forwarder h) = true
  defers : ∀ h, w.thread.deferReentrantUpdate (.forwarder h) = true
  slots : ∀ h, w.links h = (w.linked h).slots
  registered : ∀ h o, w.thread.Registered o (.forwarder h) ↔ ∃ p, o = .pointee p ∧ w.linked h = .observed p
  forwards : Forwards w.thread

omit [DecidableEq π] [DecidableEq η] [DecidableEq ο] [DecidableEq ω] in
theorem forwards_of_same {t t' : Thread (Source π η ο) (Party η ω) Unit} (h : Forwards t) (hl : t'.log = t.log)
    (hs : ∀ h k, t.stack ≠ .update (.forwarder h) none :: k) : Forwards t' := by
  intro newer h' older heq
  rcases h newer h' older (hl ▸ heq) with ⟨-, k, hk⟩ | hn
  · exact absurd hk (hs h' k)
  · exact Or.inr hn

omit [DecidableEq π] [DecidableEq η] [DecidableEq ο] [DecidableEq ω] in
/-- A step that starts an update only with its frame on top keeps forwarding, when no forwarder was about to forward. -/
theorem forwards_of_logged {t t' : Thread (Source π η ο) (Party η ω) Unit} (h : Forwards t) (hl : t.Logged t')
    (hs : ∀ h k, t.stack ≠ .update (.forwarder h) none :: k) : Forwards t' := by
  rcases hl with hl | ⟨e, hl, he⟩
  · exact forwards_of_same h hl hs
  · intro newer h' older heq
    rw [hl] at heq
    cases newer with
    | nil =>
      simp only [List.nil_append, List.cons.injEq] at heq
      exact Or.inl ⟨rfl, he _ heq.1⟩
    | cons e' newer =>
      simp only [List.cons_append, List.cons.injEq] at heq
      rcases h newer h' older heq.2 with ⟨-, k, hk⟩ | ⟨newer', snap, rfl⟩
      · exact absurd hk (hs h' k)
      · exact Or.inr ⟨e' :: newer', snap, rfl⟩

omit [DecidableEq π] [DecidableEq ο] in
theorem inv_initial (d : ω → Bool) : (initial d : World π η ο ω).Inv where
  thread := Thread.inv_initial _
  owned := fun _ => rfl
  defers := fun _ => rfl
  slots := fun _ => rfl
  registered := fun h o => by
    constructor
    · intro hr; cases hr
    · rintro ⟨p, -, hp⟩; cases hp
  forwards := fun newer h older heq => by cases newer <;> cases heq

section Invariant

variable {w w' : World π η ο ω}

omit [DecidableEq π] [DecidableEq η] [DecidableEq ο] [DecidableEq ω] in
theorem not_forwarding (hr : w.running = true) (h : η) (k : List (Frame (Party η ω) Unit)) :
    w.thread.stack ≠ .update (.forwarder h) none :: k := by
  intro hs
  simp [running, hs] at hr

omit [DecidableEq π] [DecidableEq ο] in
theorem Inv.live (hi : w.Inv) (h : η) : w.thread.live (.forwarder h) = true := Thread.live_of_owned (hi.owned h)

omit [DecidableEq π] [DecidableEq ο] in
theorem Inv.setThread (hi : w.Inv) {thread : Thread (Source π η ο) (Party η ω) Unit} (ht : thread.Inv)
    (ho : ∀ h, thread.owned (.forwarder h) = true) (hd : thread.deferReentrantUpdate = w.thread.deferReentrantUpdate)
    (hr : ∀ h o, thread.Registered o (.forwarder h) ↔ w.thread.Registered o (.forwarder h))
    (hf : Forwards thread) : ({ w with thread } : World π η ο ω).Inv where
  thread := ht
  owned := ho
  defers := fun h => (congrFun hd _).trans (hi.defers h)
  slots := hi.slots
  registered := fun h o => (hr h o).trans (hi.registered h o)
  forwards := hf

theorem Inv.notify (hi : w.Inv) (hs : ∀ h k, w.thread.stack ≠ .update (.forwarder h) none :: k) (o : Source π η ο) :
    (w.notify o).Inv :=
  hi.setThread (hi.thread.notifyObservers o) hi.owned rfl (fun h _ => Thread.registered_notifyObservers (hi.live h))
    (forwards_of_logged hi.forwards (Or.inr ⟨_, rfl, fun _ he => by cases he⟩) hs)

theorem Inv.call (hi : w.Inv) (hr : w.running = true) {c : Call (Source π η ο) (Party η ω)} (hc : foreign c = true)
    {thread : Thread (Source π η ο) (Party η ω) Unit} (ht : w.thread.call c = some thread) :
    ({ w with thread } : World π η ο ω).Inv := by
  have hcalled := Thread.call_shape ht
  have hob : ∀ h, c.observer ≠ some (.forwarder h) := fun h e => by simp [foreign, e] at hc
  exact hi.setThread (hi.thread.call ht) (fun h => (hcalled.other (hob h) (hi.owned h)).1) hcalled.deferReentrantUpdate
    (fun h => (hcalled.other (hob h) (hi.owned h)).2) (forwards_of_logged hi.forwards hcalled.log (not_forwarding hr))

omit [DecidableEq π] [DecidableEq ο] in
theorem Inv.machinery (hi : w.Inv) {thread : Thread (Source π η ο) (Party η ω) Unit}
    (ht : w.thread.resume = some thread) : ({ w with thread } : World π η ο ω).Inv := by
  have hr := Thread.resume_shape ht
  obtain ⟨f, k, -, -, hs, hf, -⟩ := hr.stack
  refine hi.setThread (hi.thread.resume ht) (fun h => ?_) hr.deferReentrantUpdate (fun h o => ?_)
    (forwards_of_logged hi.forwards hr.log (fun h k' hk => ?_))
  · rw [hr.owned]; exact hi.owned h
  · simp only [Thread.Registered, hr.observers]
  · rw [hs] at hk
    cases hk; cases hf

/-- **A forwarder's update notifies its link.** -/
theorem Inv.forward (hi : w.Inv) {h : η} {k : List (Frame (Party η ω) Unit)}
    (hs : w.thread.stack = .update (.forwarder h) none :: k) :
    ({ w with thread := { w.thread with stack := .update (.forwarder h) (some ()) :: k } }.notify (.link h)).Inv := by
  have ht := hi.thread.outside [_] [.update (.forwarder h) (some ())] _ hs
    (by simp [Frame.isRound, Frame.isDrain]) (by simp [Frame.isRound, Frame.isDrain]) w.thread.owned w.thread.held
    (fun _ hx => hx) (fun x f hf hx => by
      rw [List.mem_singleton.1 hf] at hx
      exact (show Party.forwarder h = x by simpa [Frame.refers] using hx) ▸ hi.live h)
  refine hi.setThread (ht.notifyObservers (.link h)) hi.owned rfl
    (fun h' _ => Thread.registered_notifyObservers (Thread.live_of_owned (hi.owned h'))) ?_
  intro newer h' older heq
  cases newer with
  | nil => cases heq
  | cons e newer =>
    simp only [Thread.notifyObservers, List.cons_append, List.cons.injEq] at heq
    obtain ⟨rfl, heq⟩ := heq
    rcases hi.forwards newer h' older heq with ⟨rfl, k', hk'⟩ | ⟨newer', snap, rfl⟩
    · rw [hs] at hk'
      cases hk'
      exact Or.inr ⟨[], _, rfl⟩
    · exact Or.inr ⟨_ :: newer', snap, rfl⟩

omit [DecidableEq π] [DecidableEq ο] in
theorem Inv.return (hi : w.Inv) {x : Party η ω} {p : Option Unit} {k : List (Frame (Party η ω) Unit)}
    (hs : w.thread.stack = .update x p :: k) (hx : ∀ h, x = .forwarder h → p = some ()) :
    ({ w with thread := { w.thread with stack := k } } : World π η ο ω).Inv := by
  refine hi.setThread (hi.thread.ret hs) hi.owned rfl (fun _ _ => Iff.rfl) ?_
  refine forwards_of_same hi.forwards rfl (fun h k' hk => ?_)
  rw [hs] at hk
  cases hk
  cases hx h rfl

theorem Inv.resume (hi : w.Inv) (hr : w.resume = some w') : w'.Inv := by
  unfold World.resume at hr
  split at hr
  · rename_i hs
    cases hr; exact hi.forward hs
  · rename_i hs
    cases hr; exact hi.return hs (fun _ _ => rfl)
  · obtain ⟨thread, ht, rfl⟩ := Option.map_eq_some_iff.1 hr
    exact hi.machinery ht

/-! ## Relinking -/

omit [DecidableEq π] [DecidableEq η] [DecidableEq ο] [DecidableEq ω] in
/-- What `unhook` and `hook` leave alone. -/
structure SameBut (t t' : Thread (Source π η ο) (Party η ω) Unit) : Prop where
  stack : t'.stack = t.stack
  log : t'.log = t.log
  owned : t'.owned = t.owned
  deferReentrantUpdate : t'.deferReentrantUpdate = t.deferReentrantUpdate

theorem unhook_same (t : Thread (Source π η ο) (Party η ω) Unit) (h : η) (old : Option π) :
    SameBut t (unhook t h old) := by
  cases old <;> exact ⟨rfl, rfl, rfl, rfl⟩

theorem hook_same (t : Thread (Source π η ο) (Party η ω) Unit) (h : η) (new : Option π) :
    SameBut t (hook t h new) := by
  cases new with
  | none => exact ⟨rfl, rfl, rfl, rfl⟩
  | some new =>
    unfold hook Thread.registerObserver
    simp only
    split <;> exact ⟨rfl, rfl, rfl, rfl⟩

theorem unhook_inv {t : Thread (Source π η ο) (Party η ω) Unit} (ht : t.Inv) (h : η) (old : Option π) :
    (unhook t h old).Inv := by
  cases old with
  | none => exact ht
  | some old => exact ht.unregisterObserver _ _

theorem hook_inv {t : Thread (Source π η ο) (Party η ω) Unit} (ht : t.Inv) (h : η) (new : Option π) :
    (hook t h new).Inv := by
  cases new with
  | none => exact ht
  | some new => exact ht.registerObserver _ _

theorem registered_unhook {t : Thread (Source π η ο) (Party η ω) Unit} {h h' : η} {o : Source π η ο}
    (hl : t.live (.forwarder h') = true) (old : Option π) :
    (unhook t h old).Registered o (.forwarder h') ↔
      t.Registered o (.forwarder h') ∧ ¬(h' = h ∧ ∃ p, old = some p ∧ o = .pointee p) := by
  cases old with
  | none => simp [unhook]
  | some old =>
    refine (Thread.registered_unregisterObserver hl).trans (and_congr_right fun _ => not_congr ?_)
    simp only [Party.forwarder.injEq, Option.some.injEq, exists_eq_left']
    exact and_comm

theorem registered_hook {t : Thread (Source π η ο) (Party η ω) Unit} {h h' : η} {o : Source π η ο}
    (hl : t.live (.forwarder h') = true) (new : Option π) :
    (hook t h new).Registered o (.forwarder h') ↔
      t.Registered o (.forwarder h') ∨ (h' = h ∧ ∃ p, new = some p ∧ o = .pointee p) := by
  cases new with
  | none => simp [hook]
  | some new =>
    refine (Thread.registered_registerObserver hl).trans (or_congr_right ?_)
    simp only [Party.forwarder.injEq, Option.some.injEq, exists_eq_left']
    exact and_comm

/-- **After `unhook` a link's forwarder is registered nowhere**, and the others are where they were. -/
theorem Inv.unhooked (hi : w.Inv) (h h' : η) (o : Source π η ο) :
    (unhook w.thread h (w.links h).current).Registered o (.forwarder h') ↔
      h' ≠ h ∧ w.thread.Registered o (.forwarder h') := by
  rw [registered_unhook (hi.live h')]
  by_cases hh : h' = h
  · subst hh
    simp only [true_and, ne_eq, not_true_eq_false, false_and, iff_false, not_and, not_not]
    intro hr
    obtain ⟨p, rfl, hp⟩ := (hi.registered h' o).1 hr
    exact ⟨p, by rw [hi.slots h', hp]; rfl, rfl⟩
  · simp [hh]

/-- **Every operation on a link keeps the invariant**: the subscription moves with the pointee. -/
theorem Inv.relink (hi : w.Inv) (hr : w.running = true) (h : η) (r : Relink π) : (w.relink h r).Inv := by
  have hun := unhook_same w.thread h (w.links h).current
  have hlive : ∀ h', (unhook w.thread h (w.links h).current).live (.forwarder h') = true :=
    fun h' => Thread.live_of_owned (by rw [hun.owned]; exact hi.owned h')
  have hfwd : ∀ {t}, SameBut w.thread t → Forwards t := fun hs =>
    forwards_of_same hi.forwards hs.log (not_forwarding hr)
  have hslots : ∀ (l : Link π), l = (Linked.after r).slots → ∀ h', Function.update w.links h l h' =
      (Function.update w.linked h (.after r) h').slots := by
    intro l hl h'
    by_cases hh : h' = h
    · subst hh; simpa using hl
    · simpa [hh] using hi.slots h'
  -- without a new subscription, only the other links keep theirs
  have hnone : (∀ p, Linked.after r ≠ .observed p) → ∀ h' o,
      (unhook w.thread h (w.links h).current).Registered o (.forwarder h') ↔
        ∃ p, o = .pointee p ∧ Function.update w.linked h (.after r) h' = .observed p := by
    intro hr h' o
    rw [hi.unhooked]
    by_cases hh : h' = h
    · subst hh; simp [hr]
    · simpa [hh] using hi.registered h' o
  cases r with
  | linkWeak p =>
    exact
      { thread := unhook_inv hi.thread h _
        owned := fun h' => by rw [World.relink, hun.owned]; exact hi.owned h'
        defers := fun h' => by rw [World.relink, hun.deferReentrantUpdate]; exact hi.defers h'
        slots := hslots _ rfl
        registered := hnone (fun _ he => by cases he)
        forwards := hfwd hun }
  | linkUnregistered p =>
    exact
      { thread := unhook_inv hi.thread h _
        owned := fun h' => by rw [World.relink, hun.owned]; exact hi.owned h'
        defers := fun h' => by rw [World.relink, hun.deferReentrantUpdate]; exact hi.defers h'
        slots := hslots _ rfl
        registered := hnone (fun _ he => by cases he)
        forwards := hfwd hun }
  | linkTo pointee =>
    have hho := hook_same (unhook w.thread h (w.links h).current) h pointee
    exact
      { thread := hook_inv (unhook_inv hi.thread h _) h pointee
        owned := fun h' => by rw [World.relink, hho.owned, hun.owned]; exact hi.owned h'
        defers := fun h' => by
          rw [World.relink, hho.deferReentrantUpdate, hun.deferReentrantUpdate]; exact hi.defers h'
        slots := hslots _ (by cases pointee <;> rfl)
        registered := fun h' o => by
          rw [World.relink, registered_hook (hlive h'), hi.unhooked]
          by_cases hh : h' = h
          · subst hh
            cases pointee <;> simp [Linked.after]
          · simpa [hh] using hi.registered h' o
        forwards := hfwd ⟨hho.stack.trans hun.stack, hho.log.trans hun.log, hho.owned.trans hun.owned,
          hho.deferReentrantUpdate.trans hun.deferReentrantUpdate⟩ }

theorem relink_same (w : World π η ο ω) (h : η) (r : Relink π) : SameBut w.thread (w.relink h r).thread := by
  have hun := unhook_same w.thread h (w.links h).current
  cases r with
  | linkWeak p => exact hun
  | linkUnregistered p => exact hun
  | linkTo pointee =>
    have hho := hook_same (unhook w.thread h (w.links h).current) h pointee
    exact ⟨hho.stack.trans hun.stack, hho.log.trans hun.log, hho.owned.trans hun.owned,
      hho.deferReentrantUpdate.trans hun.deferReentrantUpdate⟩

/-- **Every step keeps the invariant.** -/
theorem Inv.step {a : Act π η ο ω} (hi : w.Inv) (ha : w.step a = some w') : w'.Inv := by
  cases a with
  | resume => exact hi.resume ha
  | ret =>
    simp only [World.step] at ha
    split at ha
    · rename_i hs
      cases ha; exact hi.return hs (fun _ he => by cases he)
    · cases ha
  | call c =>
    obtain ⟨⟨hr, hc⟩, thread, ht, rfl⟩ := by simpa [World.step] using ha
    exact hi.call hr hc ht
  | relink h r notifies =>
    obtain ⟨hr, rfl⟩ := by simpa [World.step] using ha
    have hrel := hi.relink hr h r
    split
    · exact hrel.notify (fun h' k hk => not_forwarding hr h' k ((relink_same w h r).stack ▸ hk)) _
    · exact hrel

theorem run_inv {d : ω → Bool} {acts : List (Act π η ο ω)} (h : Machine.run step (initial d) acts = some w) : w.Inv :=
  Machine.run_invariant Inv (fun _ _ _ hi ha => hi.step ha) acts _ _ (inv_initial d) h

/-! ## What a change of an object reaches -/

theorem step_log {a : Act π η ο ω} (ha : w.step a = some w') : ∃ ext, w'.thread.log = ext ++ w.thread.log := by
  have hlogged : ∀ {t t' : Thread (Source π η ο) (Party η ω) Unit}, t.Logged t' → ∃ ext, t'.log = ext ++ t.log :=
    fun hl => hl.elim (fun hl => ⟨[], hl⟩) (fun ⟨e, hl, _⟩ => ⟨[e], hl⟩)
  cases a with
  | resume =>
    simp only [World.step, World.resume] at ha
    split at ha
    · cases ha; exact ⟨[_], rfl⟩
    · cases ha; exact ⟨[], rfl⟩
    · obtain ⟨thread, ht, rfl⟩ := Option.map_eq_some_iff.1 ha
      exact hlogged (Thread.resume_shape ht).log
  | ret =>
    simp only [World.step] at ha
    split at ha
    · cases ha; exact ⟨[], rfl⟩
    · cases ha
  | call c =>
    obtain ⟨-, thread, ht, rfl⟩ := by simpa [World.step] using ha
    exact hlogged (Thread.call_shape ht).log
  | relink h r notifies =>
    obtain ⟨-, rfl⟩ := by simpa [World.step] using ha
    have hsame := (relink_same w h r).log
    split
    · exact ⟨[_], by rw [← hsame]; rfl⟩
    · exact ⟨[], hsame⟩

theorem run_log {acts : List (Act π η ο ω)} (h : Machine.run step w acts = some w') :
    ∃ ext, w'.thread.log = ext ++ w.thread.log := by
  refine Machine.run_invariant (fun s => ∃ ext, s.thread.log = ext ++ w.thread.log) (fun s a s' hs ha => ?_) acts w w'
    ⟨[], rfl⟩ h
  obtain ⟨ext, hl⟩ := hs
  obtain ⟨ext', hl'⟩ := step_log ha
  exact ⟨ext' ++ ext, by rw [hl', hl, List.append_assoc]⟩

/-- **A change of the pointee a link observes reaches the link's observers**: once nothing is in progress or queued, the
link has notified since, and each of its live observers was updated after that, or refused it after opting out. -/
theorem Inv.reached (hi : w.Inv) (hr : w.running = true) {p : π} {h : η} {later : List (Act π η ο ω)}
    (hrun : Machine.run World.step (w.notify (.pointee p)) later = some w') (hs : w'.thread.stack = [])
    (hp : w'.thread.pending = []) (hl : w.linked h = .observed p) :
    ∃ newer snap older, w'.thread.log = newer ++ .notified (.link h) snap :: (older ++ w.thread.log) ∧
      ∀ x ∈ snap, w'.thread.live x = true → .started x ∈ newer ∨
        (.refused (older ++ w.thread.log).length x ∈ newer ∧ w'.thread.deferReentrantUpdate x = false) := by
  have hi' : w'.Inv := Machine.run_invariant Inv (fun _ _ _ hi ha => hi.step ha) later _ _
    (hi.notify (not_forwarding hr) _) hrun
  obtain ⟨ext, hext⟩ := run_log hrun
  have hmem : Party.forwarder h ∈ (w.thread.retained (.pointee p)).map ObserverEntry.observer :=
    (Thread.registered_retained (hi.live h)).2 ((hi.registered h _).2 ⟨p, rfl, hl⟩)
  have hst : .started (.forwarder h) ∈ ext := by
    rcases hi'.thread.answered hs hp hext hmem (hi'.live h) with hst | ⟨-, hd⟩
    · exact hst
    · rw [hi'.defers h] at hd; cases hd
  obtain ⟨a, b, rfl⟩ := List.append_of_mem hst
  rw [List.append_assoc, List.cons_append] at hext
  rcases hi'.forwards a h _ hext with ⟨-, k, hk⟩ | ⟨newer, snap, rfl⟩
  · rw [hs] at hk; cases hk
  have hlog : w'.thread.log = newer ++ .notified (.link h) snap :: ((.started (.forwarder h) :: b ++
      [.notified (.pointee p) ((w.thread.retained (.pointee p)).map ObserverEntry.observer)]) ++ w.thread.log) := by
    rw [hext]
    simp [World.notify, Thread.notifyObservers]
  exact ⟨newer, snap, _, hlog, fun x hx hlive => hi'.thread.answered hs hp hlog hx hlive⟩

/-- What runs when observers make no calls of their own. -/
def silent : Act π η ο ω → Bool
  | .resume => true
  | .ret    => true
  | _       => false

/-- Nothing is under way to the forwarder, and its link has not notified since. -/
def Unreached (base : List (Event (Source π η ο) (Party η ω))) (h : η)
    (t : Thread (Source π η ο) (Party η ω) Unit) : Prop :=
  t.Untouched (.forwarder h) ∧ ∃ newer, t.log = newer ++ base ∧ ∀ snap, .notified (.link h) snap ∉ newer

omit [DecidableEq π] [DecidableEq ο] in
/-- The stack names the forwarder no more than before, and the log says nothing new of its link. -/
theorem Unreached.mono {base : List (Event (Source π η ο) (Party η ω))} {h : η}
    {t t' : Thread (Source π η ο) (Party η ω) Unit} (hu : Unreached base h t) (ht : t'.Untouched (.forwarder h))
    (hl : t'.log = t.log ∨ ∃ e, t'.log = e :: t.log ∧ ∀ snap, e ≠ .notified (.link h) snap) :
    Unreached base h t' := by
  obtain ⟨-, newer, hlog, hn⟩ := hu
  refine ⟨ht, ?_⟩
  rcases hl with hl | ⟨e, hl, he⟩
  · exact ⟨newer, hl.trans hlog, hn⟩
  · refine ⟨e :: newer, by rw [hl, hlog]; rfl, fun snap hm => ?_⟩
    rcases List.mem_cons.1 hm with hm | hm
    · exact he snap hm.symm
    · exact hn snap hm

theorem Unreached.notify {base : List (Event (Source π η ο) (Party η ω))} {h : η}
    {t : Thread (Source π η ο) (Party η ω) Unit} (hu : Unreached base h t) {o : Source π η ο}
    (ho : ¬t.Registered o (.forwarder h)) (hne : o ≠ .link h) : Unreached base h (t.notifyObservers o) := by
  refine hu.mono ⟨hu.1.1, fun f hf => ?_⟩ (Or.inr ⟨_, rfl, fun snap he => ?_⟩)
  · rcases List.mem_cons.1 hf with rfl | hf
    · refine List.any_eq_false.2 (fun e he hx => ho ?_)
      obtain ⟨e', he', rfl⟩ := List.mem_map.1 he
      exact List.mem_map.2 ⟨e', (Thread.mem_retained.1 he').1, by simpa using hx⟩
    · exact hu.1.2 f hf
  · simp only [Event.notified.injEq] at he
    exact hne he.1

theorem Unreached.step {base : List (Event (Source π η ο) (Party η ω))} {h : η} {a : Act π η ο ω} (hi : w.Inv)
    (hu : Unreached base h w.thread) (hsil : silent a = true) (ha : w.step a = some w') :
    Unreached base h w'.thread := by
  obtain ⟨hp, hf⟩ := hu.1
  have htail : ∀ {f k}, w.thread.stack = f :: k → ∀ g ∈ k, g.names (.forwarder h) = false :=
    fun hs g hg => hf g (hs ▸ List.mem_cons_of_mem _ hg)
  cases a with
  | call => cases hsil
  | relink => cases hsil
  | ret =>
    simp only [World.step] at ha
    split at ha
    · rename_i hs
      cases ha; exact hu.mono ⟨hp, htail hs⟩ (Or.inl rfl)
    · cases ha
  | resume =>
    simp only [World.step, World.resume] at ha
    split at ha
    · -- a forwarder on top is another link's
      rename_i h' k hs
      have hne : h' ≠ h := by
        have htop := hf _ (hs ▸ List.mem_cons_self)
        simpa [Frame.names] using htop
      cases ha
      refine Unreached.notify (t := { w.thread with stack := .update (.forwarder h') (some ()) :: k })
        (hu.mono ⟨hp, fun f hfk => ?_⟩ (Or.inl rfl)) (fun hr => ?_) (fun e => hne (Source.link.inj e))
      · rcases List.mem_cons.1 hfk with rfl | hfk
        · simpa [Frame.names] using hne
        · exact htail hs f hfk
      · obtain ⟨p, hp, -⟩ := (hi.registered h _).1 hr
        cases hp
    · rename_i hs
      cases ha; exact hu.mono ⟨hp, htail hs⟩ (Or.inl rfl)
    · obtain ⟨thread, ht, rfl⟩ := Option.map_eq_some_iff.1 ha
      have hshape := Thread.resume_shape ht
      refine hu.mono (hu.1.resume ht) (hshape.log.imp id ?_)
      rintro ⟨e, hl, -⟩
      exact ⟨e, hl, fun snap he => hshape.notified _ snap (by rw [hl, he])⟩

/-- **A change of anything else is not handed to the link**: unless observers call for it themselves, the link notifies
nobody. -/
theorem Inv.unreached (hi : w.Inv) (hs : w.thread.stack = []) (hp : w.thread.pending = []) {p : π} {h : η}
    {later : List (Act π η ο ω)} (hsil : ∀ a ∈ later, silent a = true)
    (hrun : Machine.run World.step (w.notify (.pointee p)) later = some w') (hl : w.linked h ≠ .observed p) :
    ∃ newer, w'.thread.log = newer ++ w.thread.log ∧ ∀ snap, .notified (.link h) snap ∉ newer := by
  have hstart : Unreached w.thread.log h w.thread :=
    ⟨⟨by simp [hp], fun f hf => by rw [hs] at hf; cases hf⟩, [], rfl, fun _ hm => by cases hm⟩
  have hreg : ¬w.thread.Registered (.pointee p) (.forwarder h) := by
    intro hr
    obtain ⟨q, hq, hlq⟩ := (hi.registered h _).1 hr
    cases hq
    exact hl hlq
  have hend := Machine.run_invariant_along (fun s => s.Inv ∧ Unreached w.thread.log h s.thread) (fun _ a => silent a = true)
    (fun _ _ _ hu ha hs => ⟨hu.1.step hs, hu.2.step hu.1 ha hs⟩) later _ _
    ⟨hi.notify (fun h k hk => by rw [hs] at hk; cases hk) _, hstart.notify hreg (fun he => by cases he)⟩
    (Machine.along_of_forall later _ hsil) hrun
  exact hend.2.2

end Invariant

/-! ## The guarantee -/

/-- **Every copy of a handle reads what the last operation through any copy asked for.** -/
theorem resolved_linked {d : ω → Bool} {acts : List (Act π η ο ω)} {w : World π η ο ω}
    (h : Machine.run step (initial d) acts = some w) (l : η) (alive : π → Bool) :
    (w.links l).resolved alive = (w.linked l).pointee alive := by
  rw [(run_inv h).slots l, Linked.resolved_slots]

/-- **A link forwards exactly its observed pointee**: after every run of operations and re-entrant observers, at most one
slot of each link is set, its forwarder is registered with the pointee it observes and with nothing else, a change of
that pointee reaches the link's observers, and a change of any other object is not handed to the link. -/
theorem relinking {d : ω → Bool} {acts : List (Act π η ο ω)} {w : World π η ο ω}
    (h : Machine.run step (initial d) acts = some w) :
    (∀ h, (w.links h).current = none ∨ (w.links h).weak = none) ∧
    (∀ h o, w.thread.Registered o (.forwarder h) ↔ ∃ p, o = .pointee p ∧ w.linked h = .observed p) ∧
    (∀ p h later w', w.running = true → Machine.run step (w.notify (.pointee p)) later = some w' →
      w'.thread.stack = [] → w'.thread.pending = [] → w.linked h = .observed p →
      ∃ newer snap older, w'.thread.log = newer ++ .notified (.link h) snap :: (older ++ w.thread.log) ∧
        ∀ x ∈ snap, w'.thread.live x = true → .started x ∈ newer ∨
          (.refused (older ++ w.thread.log).length x ∈ newer ∧ w'.thread.deferReentrantUpdate x = false)) ∧
    ∀ p h later w', w.thread.stack = [] → w.thread.pending = [] → (∀ a ∈ later, silent a = true) →
      Machine.run step (w.notify (.pointee p)) later = some w' → w.linked h ≠ .observed p →
      ∃ newer, w'.thread.log = newer ++ w.thread.log ∧ ∀ snap, .notified (.link h) snap ∉ newer := by
  have hi := run_inv h
  refine ⟨fun h => ?_, hi.registered, fun p h later w' hr hrun hs hp hl => hi.reached hr hrun hs hp hl,
    fun p h later w' hs hp hsil hrun hl => hi.unreached hs hp hsil hrun hl⟩
  rw [hi.slots h]
  cases w.linked h
  · exact Or.inl rfl
  · exact Or.inr rfl
  · exact Or.inr rfl
  · exact Or.inl rfl

/-- Linked to one object and then to another, with nobody observing the handle. -/
def relinked : List (Act Bool Unit Empty Empty) :=
  [.relink () (.linkTo (some false)) true, .resume, .resume, .relink () (.linkTo (some true)) true, .resume, .resume]

theorem relinking_relinked : ∃ w : World Bool Unit Empty Empty,
    Machine.run step (initial Empty.elim) relinked = some w ∧ w.thread.Registered (.pointee true) (.forwarder ()) ∧
    ¬w.thread.Registered (.pointee false) (.forwarder ()) := by
  obtain ⟨w, hw, hl⟩ : ∃ w : World Bool Unit Empty Empty,
      Machine.run step (initial Empty.elim) relinked = some w ∧ w.linked () = .observed true := ⟨_, rfl, rfl⟩
  have hreg := (relinking hw).2.1 ()
  refine ⟨w, hw, (hreg _).2 ⟨true, rfl, hl⟩, fun hr => ?_⟩
  obtain ⟨p, hp, hlp⟩ := (hreg _).1 hr
  rw [hl] at hlp
  cases hp; cases hlp

end World
end Handle
end Itofin
