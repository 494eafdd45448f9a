import Itofin.Patterns.Delivery
/-!
# Observers — the machine of arbitrary observers

What code of observers and callers can do to a thread is one `Call` after another; when it runs is decided by the
stack (`Thread.running`).  The environment chooses every call, so a run of `Thread.step` is any graph of observers,
with any updates, under any pattern of mutable borrows.

`notify_delivers` is the guarantee of `notify_observers`: when the outermost call returns, every live observer of every
snapshot was updated after the notification, refused it after opting out of deferral, or is queued because the drain
found it borrowed.  The last can happen although the borrow is released before the call returns (`released`).
-/
namespace Itofin

inductive Call (ο ω : Type) where
  | notifyObservers (o : ο)
  | deliver (x : ω)
  | registerObserver (o : ο) (x : ω)
  | unregisterObserver (o : ο) (x : ω)
  /-- `x.borrow_mut()`, its guard kept. -/
  | borrow (x : ω)
  /-- The guard is dropped. -/
  | release (x : ω)
  /-- The last strong reference outside the stack is dropped. -/
  | drop (x : ω)
deriving DecidableEq, Repr

/-- A step of a thread: a call by the code that runs, the return of an update, or the machinery going on. -/
inductive Act (ο ω : Type) where
  | call (c : Call ο ω)
  | ret
  | resume
deriving DecidableEq, Repr

namespace Thread

variable {ο ω κ : Type} [DecidableEq ο] [DecidableEq ω]

/-- Code runs: outside every notification, or in the update on top of the stack. -/
def running (t : Thread ο ω κ) : Bool :=
  match t.stack with
  | []                  => true
  | .update _ none :: _ => true
  | _                   => false

/-- One call; `none` where Rust has no reference to make it with, or panics on a second borrow. -/
def call (t : Thread ο ω κ) : Call ο ω → Option (Thread ο ω κ)
  | .notifyObservers o      => some (t.notifyObservers o)
  | .deliver x              => if t.live x then some (t.deliver x) else none
  | .registerObserver o x   => if t.live x then some (t.registerObserver o x).2 else none
  | .unregisterObserver o x => if t.live x then some (t.unregisterObserver o x).2 else none
  | .borrow x               =>
    if t.owned x && !t.borrowed x then some { t with held := Function.update t.held x true } else none
  | .release x              => if t.held x then some { t with held := Function.update t.held x false } else none
  | .drop x                 => if t.held x then none else some { t with owned := Function.update t.owned x false }

def step (t : Thread ο ω κ) : Act ο ω → Option (Thread ο ω κ)
  | .call c => if t.running then t.call c else none
  | .ret    => match t.stack with
    | .update _ none :: k => some { t with stack := k }
    | _                   => none
  | .resume => t.resume

theorem Inv.call {t t' : Thread ο ω κ} (h : t.Inv) {c : Call ο ω} (hc : t.call c = some t') : t'.Inv := by
  have hout := h.outside [] [] t.stack rfl (by simp) (by simp)
  cases c with
  | notifyObservers o =>
    cases hc; exact h.notifyObservers o
  | deliver x =>
    obtain ⟨hx, rfl⟩ := by simpa [Thread.call] using hc
    exact h.deliver hx
  | registerObserver o x =>
    obtain ⟨-, rfl⟩ := by simpa [Thread.call] using hc
    exact h.registerObserver o x
  | unregisterObserver o x =>
    obtain ⟨-, rfl⟩ := by simpa [Thread.call] using hc
    exact h.unregisterObserver o x
  | borrow x =>
    obtain ⟨-, rfl⟩ := by simpa [Thread.call] using hc
    exact hout _ _ (fun _ hy => hy) (by simp)
  | release x =>
    obtain ⟨-, rfl⟩ := by simpa [Thread.call] using hc
    exact hout _ _ (fun _ hy => hy) (by simp)
  | drop x =>
    obtain ⟨-, rfl⟩ := by simpa [Thread.call] using hc
    refine hout _ _ (fun y hy => ?_) (by simp)
    by_cases hyx : y = x
    · rw [hyx] at hy; simp at hy
    · simpa [hyx] using hy

omit [DecidableEq ο] in
theorem Inv.ret {t : Thread ο ω κ} (h : t.Inv) {x : ω} {k' : Option κ} {k : List (Frame ω κ)}
    (hs : t.stack = .update x k' :: k) : ({ t with stack := k } : Thread ο ω κ).Inv :=
  h.outside [.update x k'] [] k hs (by simp [Frame.isRound, Frame.isDrain]) (by simp)
    t.owned t.held (fun _ hy => hy) (by simp)

/-- **Every step keeps the invariant.** -/
theorem Inv.step {t t' : Thread ο ω κ} (h : t.Inv) {a : Act ο ω} (ha : t.step a = some t') : t'.Inv := by
  cases a with
  | call c =>
    obtain ⟨-, hc⟩ := by simpa [Thread.step] using ha
    exact h.call hc
  | ret =>
    simp only [Thread.step] at ha
    split at ha
    · rename_i hs
      cases ha; exact h.ret hs
    · cases ha
  | resume => exact h.resume ha

/-! ## The events of the last drain -/

/-- **What the log says about the drain**: the observers a drain has put aside have stalled since it started, and after
it returned they are what the queue holds. -/
structure DrainLog (t : Thread ο ω κ) : Prop where
  stalled : ∀ b s, Frame.drain b s ∈ t.stack → ∀ mid older, t.log = mid ++ .drains :: older → .drains ∉ mid →
    ∀ x ∈ s, .stalls x ∈ mid
  returned : ∀ st log, t.log = .returned st :: log → t.pending = st ∧ t.draining = false ∧ t.depth = 0 ∧
    ∀ mid older, log = mid ++ .drains :: older → .drains ∉ mid → ∀ x ∈ st, .stalls x ∈ mid

omit [DecidableEq ο] [DecidableEq ω] in
/-- A step that starts no drain and does not return from one keeps what the log says, once its drains put aside only
what was put aside before or stalls in this step. -/
theorem DrainLog.events {t t' : Thread ο ω κ} (h : t.DrainLog) (evs : List (Event ο ω)) (hlog : t'.log = evs ++ t.log)
    (hev : ∀ e ∈ evs, e ≠ .drains ∧ ∀ st, e ≠ .returned st)
    (hold : evs = [] → (t'.pending = t.pending ∧ t'.draining = t.draining ∧ t'.depth = t.depth) ∨
      t.draining = true ∨ t.depth ≠ 0)
    (hst : ∀ b s, Frame.drain b s ∈ t'.stack → ∀ x ∈ s, .stalls x ∈ evs ∨ ∃ b' s', Frame.drain b' s' ∈ t.stack ∧ x ∈ s') :
    t'.DrainLog := by
  have hsplit : ∀ mid older, evs ++ t.log = mid ++ .drains :: older → .drains ∉ mid →
      ∃ mid', mid = evs ++ mid' ∧ t.log = mid' ++ .drains :: older := by
    intro mid older heq hm
    rcases List.append_eq_append_iff.1 heq with ⟨mid', rfl, hl⟩ | ⟨rest, rfl, hr⟩
    · exact ⟨mid', rfl, hl⟩
    · cases rest with
      | nil => exact ⟨[], by simp, by simpa using hr.symm⟩
      | cons e rest =>
        simp only [List.cons_append, List.cons.injEq] at hr
        exact absurd hr.1.symm (hev e (by simp)).1
  constructor
  · intro b s hf mid older heq hm x hx
    rw [hlog] at heq
    obtain ⟨mid', rfl, hl⟩ := hsplit mid older heq hm
    rcases hst b s hf x hx with hs | ⟨b', s', hf', hx'⟩
    · exact List.mem_append_left _ hs
    · exact List.mem_append_right _ (h.stalled b' s' hf' mid' older hl
        (fun hd => hm (List.mem_append_right _ hd)) x hx')
  · intro st log heq
    rw [hlog] at heq
    cases evs with
    | cons e evs =>
      simp only [List.cons_append, List.cons.injEq] at heq
      exact absurd heq.1 ((hev e List.mem_cons_self).2 st)
    | nil =>
      obtain ⟨hp, hd, hz, hr⟩ := h.returned st log heq
      rcases hold rfl with ⟨hp', hd', hz'⟩ | ht | ht
      · exact ⟨hp'.trans hp, hd'.trans hd, hz'.trans hz, hr⟩
      · rw [hd] at ht; cases ht
      · exact absurd hz ht

omit [DecidableEq ο] [DecidableEq ω] in
theorem DrainLog.startUpdate {t : Thread ο ω κ} (h : t.DrainLog) (x : ω) : (t.startUpdate x).DrainLog :=
  h.events [.started x] rfl (by simp) (by simp)
    (fun b s hf y hy => Or.inr ⟨b, s, by simpa [Thread.startUpdate] using hf, hy⟩)

omit [DecidableEq ο] in
theorem DrainLog.defer {t : Thread ο ω κ} (h : t.DrainLog) (x : ω) : (t.defer x).DrainLog :=
  h.events [.deferred x] rfl (by simp) (by simp) (fun b s hf y hy => Or.inr ⟨b, s, hf, hy⟩)

theorem DrainLog.call {t t' : Thread ο ω κ} (h : t.DrainLog) {c : Call ο ω} (hc : t.call c = some t') : t'.DrainLog := by
  have hsame : ∀ t'' : Thread ο ω κ, t''.log = t.log → t''.stack = t.stack → t''.pending = t.pending →
      t''.draining = t.draining → t''.depth = t.depth → t''.DrainLog := fun t'' hl hs hp hd hz =>
    h.events [] hl (by simp) (fun _ => Or.inl ⟨hp, hd, hz⟩) (fun b s hf y hy => Or.inr ⟨b, s, hs ▸ hf, hy⟩)
  cases c with
  | notifyObservers o =>
    cases hc
    refine h.events [.notified o _] rfl (by simp) (by simp) (fun b s hf y hy => Or.inr ⟨b, s, ?_, hy⟩)
    simpa [Thread.notifyObservers] using hf
  | deliver x =>
    obtain ⟨hx, rfl⟩ := by simpa [Thread.call] using hc
    unfold Thread.deliver
    split
    · exact h.defer x
    · exact h.startUpdate x
  | registerObserver o x =>
    obtain ⟨-, rfl⟩ := by simpa [Thread.call] using hc
    unfold Thread.registerObserver
    simp only
    split <;> exact hsame _ rfl rfl rfl rfl rfl
  | unregisterObserver o x =>
    obtain ⟨-, rfl⟩ := by simpa [Thread.call] using hc
    exact hsame _ rfl rfl rfl rfl rfl
  | borrow x =>
    obtain ⟨-, rfl⟩ := by simpa [Thread.call] using hc
    exact hsame _ rfl rfl rfl rfl rfl
  | release x =>
    obtain ⟨-, rfl⟩ := by simpa [Thread.call] using hc
    exact hsame _ rfl rfl rfl rfl rfl
  | drop x =>
    obtain ⟨-, rfl⟩ := by simpa [Thread.call] using hc
    exact hsame _ rfl rfl rfl rfl rfl

omit [DecidableEq ο] in
theorem DrainLog.roundNext {t : Thread ο ω κ} (h : t.DrainLog) {i : Nat} {x : ω} {d : Bool} {rest : List (ω × Bool)}
    {k : List (Frame ω κ)} (hs : t.stack = .round i ((x, d) :: rest) :: k) :
    (({ t with stack := .round i rest :: k } : Thread ο ω κ).roundNext i x d).DrainLog := by
  have hk : ∀ b s, Frame.drain b s ∈ Frame.round i rest :: k → Frame.drain b s ∈ t.stack := by
    intro b s hf
    rcases List.mem_cons.1 hf with hf | hf
    · cases hf
    · exact hs ▸ List.mem_cons_of_mem _ hf
  unfold Thread.roundNext
  split
  · split
    · exact h.events [.deferred x] rfl (by simp) (by simp) (fun b s hf y hy => Or.inr ⟨b, s, hk b s hf, hy⟩)
    · exact h.events [.refused i x] rfl (by simp) (by simp) (fun b s hf y hy => Or.inr ⟨b, s, hk b s hf, hy⟩)
  · refine h.events [.started x] rfl (by simp) (by simp) (fun b s hf y hy => Or.inr ⟨b, s, ?_, hy⟩)
    rcases List.mem_cons.1 hf with hf | hf
    · cases hf
    · exact hk b s hf

omit [DecidableEq ο] in
theorem DrainLog.leaveRound {t : Thread ο ω κ} (h : t.DrainLog) (hi : t.Inv) {i : Nat} {k : List (Frame ω κ)}
    (hs : t.stack = .round i [] :: k) : ({ t with stack := k } : Thread ο ω κ).leaveRound.DrainLog := by
  have hround : t.depth ≠ 0 := by
    rw [hi.depth, hs, List.countP_cons_of_pos (by rfl)]
    exact Nat.succ_ne_zero _
  have hleave : ({ t with stack := k, depth := t.depth - 1 } : Thread ο ω κ).DrainLog :=
    h.events [] rfl (by simp) (fun _ => Or.inr (Or.inr hround))
      (fun b s hf y hy => Or.inr ⟨b, s, hs ▸ List.mem_cons_of_mem _ hf, hy⟩)
  unfold Thread.leaveRound
  simp only
  split
  · rename_i hd
    unfold Thread.drainPending
    split
    · exact hleave
    · rename_i hn
      have hclean := (hi.leave hs).clean hd (by simpa using hn)
      refine ⟨fun b s hf mid older _ _ x hx => ?_, fun st log heq => by cases heq⟩
      rcases List.mem_cons.1 hf with hf | hf
      · simp only [Frame.drain.injEq] at hf
        rw [hf.2] at hx; cases hx
      · cases (hclean _ hf).2
  · exact hleave

omit [DecidableEq ο] in
theorem DrainLog.drainNext {t : Thread ο ω κ} (h : t.DrainLog) (hi : t.Inv) {x : ω} {batch stalled : List ω}
    {k : List (Frame ω κ)} (hs : t.stack = .drain (x :: batch) stalled :: k) :
    (({ t with stack := k } : Thread ο ω κ).drainNext x batch stalled).DrainLog := by
  have hdrain : t.draining = true := by rw [hi.draining, hs]; rfl
  have hclean := SettledBelow.below (hs ▸ hi.settled)
  have hk : ∀ b s st, Frame.drain b s ∈ Frame.drain batch st :: k → s = st := by
    intro b s st hf
    rcases List.mem_cons.1 hf with hf | hf
    · simp only [Frame.drain.injEq] at hf
      exact hf.2
    · cases (hclean _ hf).2
  have hold : ∀ y ∈ stalled, ∃ b' s', Frame.drain b' s' ∈ t.stack ∧ y ∈ s' :=
    fun y hy => ⟨_, _, hs ▸ List.mem_cons_self, hy⟩
  unfold Thread.drainNext
  split
  · exact h.events [] rfl (by simp) (fun _ => Or.inr (Or.inl hdrain))
      (fun b s hf y hy => Or.inr (hold y (hk b s _ hf ▸ hy)))
  · split
    · refine h.events [.stalls x] rfl (by simp) (by simp) (fun b s hf y hy => ?_)
      rw [hk b s _ hf] at hy
      split at hy
      · exact Or.inr (hold y hy)
      · rcases List.mem_append.1 hy with hy | hy
        · exact Or.inr (hold y hy)
        · exact Or.inl (by simp [List.mem_singleton.1 hy])
    · refine h.events [.started x] rfl (by simp) (by simp) (fun b s hf y hy => Or.inr ?_)
      rcases List.mem_cons.1 hf with hf | hf
      · cases hf
      · exact hold y (hk b s _ hf ▸ hy)

omit [DecidableEq ο] in
theorem DrainLog.drainBatch {t : Thread ο ω κ} (h : t.DrainLog) (hi : t.Inv) {stalled : List ω} {k : List (Frame ω κ)}
    (hs : t.stack = .drain [] stalled :: k) : (({ t with stack := k } : Thread ο ω κ).drainBatch stalled).DrainLog := by
  have hdrain : t.draining = true := by rw [hi.draining, hs]; rfl
  have hclean := SettledBelow.below (hs ▸ hi.settled)
  unfold Thread.drainBatch
  split
  · rename_i hp
    refine ⟨fun b s hf => ?_, fun st log heq => ?_⟩
    · cases (hclean _ hf).2
    simp only [List.cons.injEq, Event.returned.injEq] at heq
    obtain ⟨rfl, rfl⟩ := heq
    refine ⟨?_, rfl, ?_, fun mid older hl hm => h.stalled [] stalled (hs ▸ List.mem_cons_self) mid older hl hm⟩
    · have hp : t.pending = [] := List.isEmpty_iff.1 hp
      simp [hp]
    · have hz : k.countP Frame.isRound = 0 := List.countP_eq_zero.2 (fun f hf => by simp [(hclean f hf).1])
      simp [hi.depth, hs, hz, Frame.isRound]
  · refine h.events [] rfl (by simp) (fun _ => Or.inr (Or.inl hdrain)) (fun b s hf y hy => Or.inr ?_)
    rcases List.mem_cons.1 hf with hf | hf
    · simp only [Frame.drain.injEq] at hf
      exact ⟨[], stalled, hs ▸ List.mem_cons_self, hf.2 ▸ hy⟩
    · cases (hclean _ hf).2

/-- **Every step keeps what the log says about the drain.** -/
theorem DrainLog.step {t t' : Thread ο ω κ} (h : t.DrainLog) (hi : t.Inv) {a : Act ο ω} (ha : t.step a = some t') :
    t'.DrainLog := by
  cases a with
  | call c =>
    obtain ⟨-, hc⟩ := by simpa [Thread.step] using ha
    exact h.call hc
  | ret =>
    simp only [Thread.step] at ha
    split at ha
    · rename_i hs
      cases ha
      exact h.events [] rfl (by simp) (fun _ => Or.inl ⟨rfl, rfl, rfl⟩)
        (fun b s hf y hy => Or.inr ⟨b, s, hs ▸ List.mem_cons_of_mem _ hf, hy⟩)
    · cases ha
  | resume =>
    simp only [Thread.step, Thread.resume] at ha
    split at ha
    · rename_i hs
      cases ha; exact h.leaveRound hi hs
    · rename_i hs
      cases ha; exact h.roundNext hs
    · rename_i hs
      cases ha; exact h.drainBatch hi hs
    · rename_i hs
      cases ha; exact h.drainNext hi hs
    · cases ha

theorem run_inv {d : ω → Bool} {acts : List (Act ο ω)} {t : Thread ο ω κ}
    (h : Machine.run step (Thread.initial d) acts = some t) : t.Inv ∧ t.DrainLog := by
  refine Machine.run_invariant (fun t => t.Inv ∧ t.DrainLog)
    (fun s a s' hs ha => ⟨hs.1.step ha, hs.2.step hs.1 ha⟩) acts _ t ⟨inv_initial d, ?_⟩ h
  exact ⟨fun _ _ hf => (by cases hf), fun _ _ hl => (by cases hl)⟩

/-! ## The guarantee -/

/-- **No notification is dropped**: when the outermost `notify_observers` returns, its drain found every observer still
queued borrowed, every live observer of every snapshot so far was updated after that notification, refused it after
opting out of deferral or is still queued, and no observer is registered twice. -/
theorem notify_delivers {d : ω → Bool} {acts : List (Act ο ω)} {t : Thread ο ω κ} {st : List ω}
    {mid older : List (Event ο ω)} (h : Machine.run step (Thread.initial d) acts = some t)
    (hr : t.log = .returned st :: (mid ++ .drains :: older)) (hm : .drains ∉ mid) :
    (∀ x ∈ t.pending, .stalls x ∈ mid) ∧
    (∀ newer o snap before, t.log = newer ++ .notified o snap :: before → ∀ x ∈ snap, t.live x = true →
      .started x ∈ newer ∨ (.refused before.length x ∈ newer ∧ t.deferReentrantUpdate x = false) ∨ x ∈ t.pending) ∧
    ∀ o, ((t.observers o).map ObserverEntry.observer).Nodup := by
  obtain ⟨hi, hl⟩ := run_inv h
  obtain ⟨hp, hd, hz, hst⟩ := hl.returned st _ hr
  have hclean := hi.clean hz hd
  refine ⟨fun x hx => hst mid older rfl hm x (hp ▸ hx), fun newer o snap before heq x hx hlive => ?_, hi.unique⟩
  rcases hi.owed newer o snap before heq x hx with hs | hrf | hdead | hc
  · exact Or.inl hs
  · exact Or.inr (Or.inl ⟨hrf, hi.refused _ x (heq ▸ List.mem_append_left _ hrf)⟩)
  · rw [hlive] at hdead; cases hdead
  · rcases hc with hc | ⟨_, hf, _⟩ | ⟨_, _, hf, _⟩
    · exact Or.inr (Or.inr hc)
    · cases (hclean _ hf).1
    · cases (hclean _ hf).2

/-- Two observers of one observable; the first notifies again while it updates, and is then updated by the drain. -/
def renotified : List (Act Unit Bool) :=
  [.call (.registerObserver () false), .call (.registerObserver () true), .call (.notifyObservers ()), .resume,
   .call (.notifyObservers ()), .resume, .resume, .ret, .resume, .ret, .resume, .ret, .resume, .resume, .resume, .ret,
   .resume]

theorem notify_delivers_renotified : ∃ t : Thread Unit Bool Empty,
    Machine.run step (Thread.initial fun _ => true) renotified = some t ∧ t.pending = [] ∧
    ∀ newer o snap before, t.log = newer ++ .notified o snap :: before → ∀ x ∈ snap, t.live x = true →
      .started x ∈ newer ∨ (.refused before.length x ∈ newer ∧ t.deferReentrantUpdate x = false) ∨ x ∈ t.pending := by
  let t := (Machine.run step (Thread.initial fun _ => true : Thread Unit Bool Empty) renotified).get (by decide)
  have h : Machine.run step (Thread.initial fun _ => true) renotified = some t := rfl
  have hr : t.log = .returned [] :: ([.started false] ++ .drains :: t.log.drop 3) := by decide
  exact ⟨t, h, by decide, (notify_delivers h hr (by decide)).2.1⟩

/-- A caller keeps the first observer borrowed; the second notifies again while it updates, and once the drain has
found the first one borrowed, its second update releases the borrow. -/
def released : List (Act Unit Bool) :=
  [.call (.registerObserver () false), .call (.registerObserver () true), .call (.borrow false),
   .call (.notifyObservers ()), .resume, .resume, .call (.notifyObservers ()), .resume, .resume, .resume, .ret,
   .resume, .resume, .resume, .resume, .call (.release false), .ret, .resume]

/-- **A borrow released inside the drain**: the outermost call returns, no observer is borrowed and the first one is
still queued, without an update since it was notified. -/
theorem released_in_drain : ∃ t : Thread Unit Bool Empty,
    Machine.run step (Thread.initial fun _ => true) released = some t ∧ t.stack = [] ∧
    t.log.head? = some (.returned [false]) ∧ (∀ x, t.borrowed x = false) ∧ (∀ x, t.live x = true) ∧
    t.pending = [false] ∧ .notified () [false, true] ∈ t.log ∧ .started false ∉ t.log := by
  let t := (Machine.run step (Thread.initial fun _ => true : Thread Unit Bool Empty) released).get (by decide)
  exact ⟨t, rfl, by decide, by decide, by decide, by decide, by decide, by decide, by decide⟩

end Thread
end Itofin
