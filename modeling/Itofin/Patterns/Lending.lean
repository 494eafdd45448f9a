import Itofin.Patterns.Deferral
/-!
# Lending — the machine of arbitrary observers, with shared and mutable borrows

`try_borrow_mut` refuses a delivery under any borrow of the observer, `try_borrow` a registration's question whether to
defer it under a mutable one only.  `Lending` is a thread with the shared borrows of its callers told apart, and with a
history of its deliveries.

A deferred delivery is always replayed (`refused_replayed`).  An observer that opted out is never replayed when it was
asked at every registration and no direct delivery of it is refused (`deferral_respected`); without either it can be
(`opted_out_replayed`).
-/
namespace Itofin

/-! ## Shared and mutable borrows -/

/-- A thread, with the shared borrows of its callers, and what became of the deliveries, latest first. -/
structure Lending (ο ω κ : Type) where
  thread : Thread ο ω κ
  /-- The borrow a caller holds of `x` is a shared one. -/
  shared : ω → Bool
  history : List (Delivery ω)

inductive LendingAct (ο ω : Type) where
  | thread (a : Act ο ω)
  /-- `x.borrow()`, its guard kept. -/
  | share (x : ω)
  /-- The last shared guard is dropped. -/
  | unshare (x : ω)
deriving DecidableEq, Repr

namespace Lending

open Thread (Honest Delivers)

variable {ο ω κ : Type} [DecidableEq ο] [DecidableEq ω]

def initial (deferReentrantUpdate : ω → Bool) : Lending ο ω κ :=
  { thread := Thread.initial deferReentrantUpdate, shared := fun _ => false, history := [] }

/-- The thread as `try_borrow` finds it: a shared borrow does not refuse another. -/
def asking (s : Lending ο ω κ) : Thread ο ω κ := { s.thread with held := fun x => s.thread.held x && !s.shared x }

def threadStep (s : Lending ο ω κ) : Act ο ω → Option (Thread ο ω κ)
  | .call (.registerObserver o x) =>
    if s.thread.running && s.thread.live x then
      some { (s.asking.registerObserver o x).2 with held := s.thread.held }
    else none
  | .call (.release x)            => if s.shared x then none else s.thread.step (.call (.release x))
  | a                             => s.thread.step a

def step (s : Lending ο ω κ) : LendingAct ο ω → Option (Lending ο ω κ)
  | .thread a  => (s.threadStep a).map (fun t =>
    { s with thread := t, history := (s.thread.delivery a).toList ++ s.history })
  | .share x   =>
    if s.thread.running && s.thread.owned x && !s.asking.borrowed x then
      some
        { s with
          thread := { s.thread with held := Function.update s.thread.held x true }
          shared := Function.update s.shared x true }
    else none
  | .unshare x =>
    if s.thread.running && s.shared x then
      some
        { s with
          thread := { s.thread with held := Function.update s.thread.held x false }
          shared := Function.update s.shared x false }
    else none

/-- **The opted-out observer is asked**: it is not registered anew while it is mutably borrowed, and no direct delivery
of it is refused. -/
def Asked (s : Lending ο ω κ) : LendingAct ο ω → Prop
  | .thread (.call (.registerObserver o x)) =>
    s.thread.deferReentrantUpdate x = true ∨ s.asking.borrowed x = false ∨ ∃ e ∈ s.thread.observers o, e.observer = x
  | .thread (.call (.deliver x))            => s.thread.deferReentrantUpdate x = true ∨ s.thread.borrowed x = false
  | _                                       => True

instance (s : Lending ο ω κ) : ∀ a, Decidable (s.Asked a)
  | .thread (.call (.registerObserver o x)) =>
    inferInstanceAs (Decidable (s.thread.deferReentrantUpdate x = true ∨ s.asking.borrowed x = false ∨
      ∃ e ∈ s.thread.observers o, e.observer = x))
  | .thread (.call (.deliver x))            =>
    inferInstanceAs (Decidable (s.thread.deferReentrantUpdate x = true ∨ s.thread.borrowed x = false))
  | .thread (.call (.notifyObservers _)) | .thread (.call (.unregisterObserver _ _)) | .thread (.call (.borrow _))
  | .thread (.call (.release _)) | .thread (.call (.drop _)) | .thread .ret | .thread .resume | .share _ | .unshare _ =>
    .isTrue trivial

/-! ## Every run -/

/-- **What every run keeps**: a delivery refused and not deferred is one to an observer that opted out, and a deferred
one has been replayed, or nobody is left to replay it to, or it waits to be replayed. -/
structure Inv (d : ω → Bool) (s : Lending ο ω κ) : Prop where
  thread : s.thread.Inv
  drainLog : s.thread.DrainLog
  answers : s.thread.deferReentrantUpdate = d
  refused : ∀ x, .refused x false ∈ s.history → d x = false
  owed : ∀ newer x older, s.history = newer ++ .refused x true :: older →
    .replayed x ∈ newer ∨ s.thread.live x = false ∨ s.thread.Queued x

omit [DecidableEq ο] in
theorem inv_initial (d : ω → Bool) : Inv d (initial d : Lending ο ω κ) where
  thread := Thread.inv_initial d
  drainLog := ⟨fun _ _ hf => (by cases hf), fun _ _ hl => (by cases hl)⟩
  answers := rfl
  refused := fun _ h => by cases h
  owed := fun newer _ _ h => by cases newer <;> cases h

omit [DecidableEq ο] in
theorem hold_inv {t : Thread ο ω κ} (h : t.Inv) (held : ω → Bool) : ({ t with held } : Thread ο ω κ).Inv :=
  h.outside [] [] t.stack rfl (by simp) (by simp) t.owned held (fun _ hy => hy) (by simp)

/-- **What a step of the thread keeps and does to the queue**, the registration that sees through shared borrows
included. -/
theorem threadStep_spec {s : Lending ο ω κ} {a : Act ο ω} {t : Thread ο ω κ} (h : s.threadStep a = some t)
    (hi : s.thread.Inv) (hl : s.thread.DrainLog) :
    t.Inv ∧ t.DrainLog ∧ s.thread.Delivers t (s.thread.delivery a) := by
  unfold threadStep at h
  split at h
  · rename_i o x
    obtain ⟨-, rfl⟩ := by simpa using h
    refine ⟨hold_inv ((hold_inv hi _).registerObserver o x) _, ?_, ?_⟩
    · unfold Thread.registerObserver
      simp only
      split <;> exact ⟨hl.stalled, hl.returned⟩
    · unfold Thread.registerObserver
      simp only
      split <;> exact .quiet rfl (fun _ hy => hy) (fun _ => Iff.rfl) (by simp [Thread.delivery])
  · split at h
    · cases h
    · exact ⟨hi.step h, hl.step hi h, .step h⟩
  · exact ⟨hi.step h, hl.step hi h, .step h⟩

omit [DecidableEq ο] in
theorem hold_delivers (t : Thread ο ω κ) (held : ω → Bool) : t.Delivers { t with held } none :=
  .quiet rfl (fun _ hy => hy) (fun _ => Iff.rfl) (by simp)

omit [DecidableEq ο] in
theorem Inv.turn {d : ω → Bool} {s s' : Lending ο ω κ} {event : Option (Delivery ω)} (h : s.Inv d) (hi : s'.thread.Inv)
    (hl : s'.thread.DrainLog) (hd : s.thread.Delivers s'.thread event) (hh : s'.history = event.toList ++ s.history)
    (hr : ∀ x, event = some (.refused x false) → s.thread.deferReentrantUpdate x = false) : s'.Inv d where
  thread := hi
  drainLog := hl
  answers := hd.deferReentrantUpdate.trans h.answers
  refused := fun x hx => by
    rcases List.mem_append.1 (hh ▸ hx) with hx | hx
    · rw [← h.answers]; exact hr x (by simpa using hx)
    · exact h.refused x hx
  owed := fun newer x older heq => by
    rw [hh] at heq
    have hold : ∀ mid, newer = event.toList ++ mid → s.history = mid ++ .refused x true :: older →
        .replayed x ∈ newer ∨ s'.thread.live x = false ∨ s'.thread.Queued x := by
      intro mid hn hm
      rcases h.owed mid x older hm with hx | hx | hx
      · exact Or.inl (hn ▸ List.mem_append_right _ hx)
      · exact Or.inr (Or.inl (hd.live x hx))
      · rcases hd.stays x hx with hq | he | hdead
        · exact Or.inr (Or.inr hq)
        · exact Or.inl (by simp [hn, he])
        · exact Or.inr (Or.inl hdead)
    cases event with
    | none   => exact hold newer rfl heq
    | some e =>
      cases newer with
      | nil => exact Or.inr (Or.inr (hd.refused x (by rw [(List.cons.inj heq).1])))
      | cons e' mid =>
        obtain ⟨rfl, hm⟩ := List.cons.inj heq
        exact hold mid rfl hm

theorem Inv.step {d : ω → Bool} {s s' : Lending ο ω κ} {a : LendingAct ο ω} (h : s.Inv d) (ha : s.step a = some s') :
    s'.Inv d := by
  have hhold : ∀ held shared, (⟨{ s.thread with held }, shared, s.history⟩ : Lending ο ω κ).Inv d := fun held shared =>
    h.turn (hold_inv h.thread held) ⟨h.drainLog.stalled, h.drainLog.returned⟩ (hold_delivers s.thread held) rfl (by simp)
  cases a with
  | thread a  =>
    obtain ⟨t, ht, rfl⟩ := Option.map_eq_some_iff.1 ha
    obtain ⟨hi, hl, hd⟩ := threadStep_spec ht h.thread h.drainLog
    exact h.turn hi hl hd rfl (fun x hx => h.thread.refuses hx)
  | share x   =>
    obtain ⟨-, rfl⟩ := by simpa [Lending.step] using ha
    exact hhold _ _
  | unshare x =>
    obtain ⟨-, rfl⟩ := by simpa [Lending.step] using ha
    exact hhold _ _

theorem run_inv {d : ω → Bool} {acts : List (LendingAct ο ω)} {s : Lending ο ω κ}
    (h : Machine.run step (initial d) acts = some s) : s.Inv d :=
  Machine.run_invariant (Inv d) (fun _ _ _ hs ha => hs.step ha) acts _ s (inv_initial d) h

/-! ## Observers that opted in -/

/-- **A deferred delivery is always replayed**: since it was refused the observer has been updated by a drain, or it
is gone, or it still waits; and when the outermost notification has just returned, the ones that wait are those its
drain found borrowed. -/
theorem refused_replayed {d : ω → Bool} {acts : List (LendingAct ο ω)} {s : Lending ο ω κ}
    (h : Machine.run step (initial d) acts = some s) {x : ω} (hx : d x = true) {newer older : List (Delivery ω)}
    {deferred : Bool} (hh : s.history = newer ++ .refused x deferred :: older) :
    .replayed x ∈ newer ∨ s.thread.live x = false ∨
    s.thread.Queued x ∧ ∀ st mid before, s.thread.log = .returned st :: (mid ++ .drains :: before) →
      .drains ∉ mid → .stalls x ∈ mid := by
  have hi := run_inv h
  have hd : deferred = true := by
    cases deferred with
    | true  => rfl
    | false =>
      have := hi.refused x (hh ▸ List.mem_append_right _ List.mem_cons_self)
      rw [hx] at this; cases this
  subst hd
  refine (hi.owed newer x older hh).imp id (Or.imp id (fun hq => ⟨hq, fun st mid before hl hm => ?_⟩))
  obtain ⟨hp, hdr, hz, hst⟩ := hi.drainLog.returned st _ hl
  refine hst mid before rfl hm x (hp ▸ ?_)
  -- the drain has returned, so what waits is in the queue
  rcases hq with hq | ⟨f, hf, hq⟩
  · exact hq
  · have hclean := (hi.thread.clean hz hdr f hf).2
    cases f with
    | drain _ _ => cases hclean
    | update _ _ | round _ _ | caller _ => cases hq

/-! ## Observers that opted out -/

/-- **No observer that opted out is deferred.** -/
structure Respects (d : ω → Bool) (s : Lending ο ω κ) : Prop where
  honest : s.thread.Honest
  queue : ∀ x, d x = false → ¬ s.thread.Queued x
  history : ∀ x, d x = false → .replayed x ∉ s.history

omit [DecidableEq ο] [DecidableEq ω] in
theorem respects_initial (d : ω → Bool) : Respects d (initial d : Lending ο ω κ) where
  honest := Thread.honest_initial d
  queue := fun x _ hq => by
    rcases hq with hq | ⟨f, hf, -⟩
    · cases hq
    · cases hf
  history := fun _ _ h => by cases h

omit [DecidableEq ο] in
theorem Respects.turn {d : ω → Bool} {s s' : Lending ο ω κ} {event : Option (Delivery ω)} (h : s.Respects d)
    (ho : s'.thread.Honest) (hd : s.thread.Delivers s'.thread event) (hh : s'.history = event.toList ++ s.history)
    (hr : ∀ x, event = some (.refused x true) → d x = true) : s'.Respects d where
  honest := ho
  queue := fun x hx hq => by
    rcases hd.joins x hq with hq | he
    · exact h.queue x hx hq
    · rw [hr x he] at hx; cases hx
  history := fun x hx hm => by
    rcases List.mem_append.1 (hh ▸ hm) with hm | hm
    · exact h.queue x hx (hd.replayed x (by simpa using hm))
    · exact h.history x hx hm

theorem threadStep_honest {s : Lending ο ω κ} {a : Act ο ω} {t : Thread ο ω κ} (h : s.thread.Honest)
    (hok : s.Asked (.thread a)) (ha : s.threadStep a = some t) : t.Honest := by
  unfold threadStep at ha
  split at ha
  · rename_i o x
    obtain ⟨⟨-, hx⟩, rfl⟩ := by simpa using ha
    have hasking : s.asking.Honest := h.keep rfl (fun _ _ he => Or.inl he) (fun _ _ hf => hf)
    have hreg := hasking.registerObserver (o := o) (x := x) (hok.imp id (Or.imp id (fun hold => by
      obtain ⟨e, he, hex⟩ := hold
      exact ⟨e, Thread.mem_retained.2 ⟨he, hex ▸ hx⟩, hex⟩)))
    exact hreg.keep rfl (fun _ _ he => Or.inl he) (fun _ _ hf => hf)
  · split at ha
    · cases ha
    · exact h.step ha (by simp)
  · rename_i hne _
    exact h.step ha (fun o x he => hne o x he)

omit [DecidableEq ο] in
theorem delivery_asked {s : Lending ο ω κ} {a : Act ο ω} {x : ω} (h : s.thread.Honest) (hok : s.Asked (.thread a))
    (hr : s.thread.delivery a = some (.refused x true)) : s.thread.deferReentrantUpdate x = true := by
  cases a with
  | resume => exact h.deferred hr
  | ret    => cases hr
  | call c =>
    cases c with
    | deliver y =>
      simp only [Thread.delivery] at hr
      split at hr
      · rename_i hb
        cases hr
        exact hok.resolve_right (by simp [hb])
      · cases hr
    | _         => cases hr

/-- A step that does not ask marks an observer that opted out for deferral, or defers it. -/
theorem threadStep_unasked {s : Lending ο ω κ} {a : Act ο ω} {t : Thread ο ω κ} (hno : ¬ s.Asked (.thread a))
    (ha : s.threadStep a = some t) :
    ∃ x, s.thread.deferReentrantUpdate x = false ∧
      ((∃ o, (⟨x, true⟩ : ObserverEntry ω) ∈ t.observers o) ∨ t.Queued x) := by
  cases a with
  | resume => exact absurd trivial hno
  | ret    => exact absurd trivial hno
  | call c =>
    cases c with
    | registerObserver o x =>
      obtain ⟨-, rfl⟩ := by simpa [threadStep] using ha
      obtain ⟨hx, hb, hnew⟩ := by simpa only [Asked, not_or, not_exists, not_and] using hno
      refine ⟨x, by simpa using hx, Or.inl ⟨o, ?_⟩⟩
      have hany : ¬ (s.asking.retained o).any (fun e => decide (e.observer = x)) = true := by
        rw [List.any_eq_true]
        rintro ⟨e, he, hex⟩
        exact hnew e (Thread.mem_retained.1 he).1 (by simpa using hex)
      simp only [Thread.registerObserver, if_neg hany, Function.update_self]
      simp [Thread.newEntry, hb]
    | deliver x            =>
      obtain ⟨hx, hb⟩ := by simpa only [Asked, not_or] using hno
      obtain ⟨-, -, rfl⟩ := by simpa [threadStep, Thread.step, Thread.call] using ha
      refine ⟨x, by simpa using hx, Or.inr ?_⟩
      rw [Thread.deliver, if_pos (by simpa using hb)]
      exact Thread.queued_defer.2 (Or.inl rfl)
    | _                    => exact absurd trivial hno

/-- **A step respects the observers that opted out exactly when it asks them.** -/
theorem Respects.step_iff {d : ω → Bool} {s s' : Lending ο ω κ} {a : LendingAct ο ω} (h : s.Respects d)
    (hi : s.Inv d) (ha : s.step a = some s') : s'.Respects d ↔ s.Asked a := by
  have hhold : ∀ held shared, (⟨{ s.thread with held }, shared, s.history⟩ : Lending ο ω κ).Respects d :=
    fun held shared => h.turn (h.honest.keep rfl (fun _ _ he => Or.inl he) (fun _ _ hf => hf))
      (hold_delivers s.thread held) rfl (by simp)
  cases a with
  | thread a  =>
    obtain ⟨t, ht, rfl⟩ := Option.map_eq_some_iff.1 ha
    obtain ⟨-, -, hd⟩ := threadStep_spec ht hi.thread hi.drainLog
    refine ⟨fun hr => ?_, fun hok => h.turn (threadStep_honest h.honest hok ht) hd rfl
      (fun x hx => hi.answers ▸ delivery_asked h.honest hok hx)⟩
    by_contra hno
    obtain ⟨x, hx, hx'⟩ := threadStep_unasked hno ht
    rcases hx' with ⟨o, he⟩ | hq
    · have hlie := hr.honest.entries o _ he (by rw [hd.deferReentrantUpdate]; exact hx)
      cases hlie
    · exact hr.queue x (hi.answers ▸ hx) hq
  | share x   =>
    obtain ⟨-, rfl⟩ := by simpa [Lending.step] using ha
    exact iff_of_true (hhold _ _) trivial
  | unshare x =>
    obtain ⟨-, rfl⟩ := by simpa [Lending.step] using ha
    exact iff_of_true (hhold _ _) trivial

/-- **In every run, the observers that opted out are respected in every state exactly when every step asks them.** -/
theorem respects_iff_asked {d : ω → Bool} {acts : List (LendingAct ο ω)} {s : Lending ο ω κ}
    (hrun : Machine.run step (initial d) acts = some s) :
    (∀ k w, Machine.run step (initial d : Lending ο ω κ) (acts.take k) = some w → w.Inv d ∧ w.Respects d) ↔
      Machine.along step Asked (initial d : Lending ο ω κ) acts :=
  Machine.always_iff_along (fun w : Lending ο ω κ => w.Inv d ∧ w.Respects d) Asked
    (fun _ _ _ hw ha => (and_iff_right (hw.1.step ha)).trans (hw.2.step_iff hw.1 ha)) acts _ s
    ⟨inv_initial d, respects_initial d⟩ hrun

/-- **Deferral is respected where the observers are asked**: in every run in which no observer that opted out is
registered anew while it is mutably borrowed, and no direct delivery to one is refused, no refused delivery of it is
replayed; every refused delivery of an observer that did not opt out is. -/
theorem deferral_respected {d : ω → Bool} {acts : List (LendingAct ο ω)} {s : Lending ο ω κ}
    (hrun : Machine.run step (initial d) acts = some s)
    (hok : Machine.along step Asked (initial d : Lending ο ω κ) acts) :
    (∀ x, d x = false → .replayed x ∉ s.history) ∧
    ∀ x, d x = true → ∀ newer deferred older, s.history = newer ++ .refused x deferred :: older →
      .replayed x ∈ newer ∨ s.thread.live x = false ∨
      s.thread.Queued x ∧ ∀ st mid before, s.thread.log = .returned st :: (mid ++ .drains :: before) →
        .drains ∉ mid → .stalls x ∈ mid := by
  have hall := (respects_iff_asked hrun).2 hok acts.length s (by rwa [List.take_length])
  exact ⟨hall.2.history, fun x hx newer deferred older hh => refused_replayed hrun hx hh⟩

/-- The observer `false` opts out, `true` does not.  Each notifies again while it updates; the drain updates `true`. -/
def renotified : List (LendingAct Bool Bool) :=
  [.thread (.call (.registerObserver false false)), .thread (.call (.registerObserver true true)), .share true,
   .thread (.call (.notifyObservers false)), .thread .resume, .thread (.call (.notifyObservers false)), .thread .resume,
   .thread .resume, .thread (.call (.notifyObservers true)), .thread .resume, .thread .resume, .unshare true,
   .thread .ret, .thread .resume, .thread .resume, .thread .resume, .thread .ret, .thread .resume]

theorem deferral_respected_renotified : ∃ s : Lending Bool Bool Empty,
    Machine.run step (initial id) renotified = some s ∧
    s.history = [.replayed true, .refused true true, .refused false false] ∧
    ∀ x, id x = false → .replayed x ∉ s.history := by
  let s := (Machine.run step (initial id : Lending Bool Bool Empty) renotified).get (by decide)
  have hrun : Machine.run step (initial id) renotified = some s := rfl
  exact ⟨s, hrun, by decide, (deferral_respected hrun (by decide)).1⟩

/-- The observer `false` opts out.  It registers with a second observable while it updates, and notifies it. -/
def registeredWhileUpdating : List (LendingAct Bool Bool) :=
  [.thread (.call (.registerObserver false false)), .thread (.call (.notifyObservers false)), .thread .resume,
   .thread (.call (.registerObserver true false)), .thread (.call (.notifyObservers true)), .thread .resume,
   .thread .resume, .thread .ret, .thread .resume, .thread .resume, .thread .resume]

/-- The observer `false` opts out.  A delivery to it is refused by the borrow of a caller, who then notifies nobody. -/
def deliveredWhileBorrowed : List (LendingAct Bool Bool) :=
  [.thread (.call (.borrow false)), .thread (.call (.deliver false)), .thread (.call (.release false)),
   .thread (.call (.notifyObservers false)), .thread .resume, .thread .resume, .thread .resume]

/-- **A refused delivery of an observer that opted out can be replayed**: when the observer was registered while it was
updating, and when it was delivered to directly. -/
theorem opted_out_replayed :
    (¬ ∀ (d : Bool → Bool) (acts : List (LendingAct Bool Bool)) (s : Lending Bool Bool Empty),
      Machine.run step (initial d) acts = some s → ∀ x, d x = false → ∀ newer deferred older,
        s.history = newer ++ .refused x deferred :: older → .replayed x ∉ newer) ∧
    (Machine.run step (initial id : Lending Bool Bool Empty) registeredWhileUpdating).map history =
      some [.replayed false, .refused false true] ∧
    (Machine.run step (initial id : Lending Bool Bool Empty) deliveredWhileBorrowed).map history =
      some [.replayed false, .refused false true] := by
  refine ⟨fun h => ?_, by decide, by decide⟩
  let s := (Machine.run step (initial id : Lending Bool Bool Empty) registeredWhileUpdating).get (by decide)
  exact h id registeredWhileUpdating s rfl false rfl [.replayed false] true [] (by decide) List.mem_cons_self

end Lending
end Itofin
