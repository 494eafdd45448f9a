import Itofin.Patterns.Observable
import Mathlib.Tactic.Common
import Mathlib.Data.List.Count
/-!
# Delivery — no notification is dropped

`Thread.Inv` is what holds in every reachable state of a thread: the thread-locals count the frames on the stack, no
observer is registered twice, an entry that is not to be deferred belongs to an observer that opted out, and every
notification still owed to a live observer is in a place from which it will be delivered (`Thread.Covers`): the rest of
its own round, the queue, or the running drain.  Each function of the notification code keeps it, so every machine
built on these functions does; `Call` and `Thread.step` are the machine of arbitrary observers.
-/
namespace Itofin

def Frame.isRound {ω κ : Type} : Frame ω κ → Bool
  | .round _ _ => true
  | _          => false

def Frame.isDrain {ω κ : Type} : Frame ω κ → Bool
  | .drain _ _ => true
  | _          => false

/-- No round and no drain is below a drain: what a drain returns to waits for no delivery. -/
def SettledBelow {ω κ : Type} (stack : List (Frame ω κ)) : Prop :=
  stack.Pairwise (fun f g => f.isDrain = true → g.isRound = false ∧ g.isDrain = false)

theorem SettledBelow.cons {ω κ : Type} {f : Frame ω κ} {k : List (Frame ω κ)} (h : SettledBelow k)
    (hf : f.isDrain = false) : SettledBelow (f :: k) :=
  List.Pairwise.cons (fun _ _ hd => by rw [hf] at hd; cases hd) h

theorem SettledBelow.replace {ω κ : Type} {f f' : Frame ω κ} {k : List (Frame ω κ)} (h : SettledBelow (f :: k))
    (hf : f'.isDrain = f.isDrain) : SettledBelow (f' :: k) :=
  List.Pairwise.cons (fun _ hg hd => List.rel_of_pairwise_cons h hg (hf ▸ hd)) h.of_cons

theorem SettledBelow.below {ω κ : Type} {b s : List ω} {k : List (Frame ω κ)}
    (h : SettledBelow (.drain b s :: k)) : ∀ f ∈ k, f.isRound = false ∧ f.isDrain = false :=
  fun _ hf => List.rel_of_pairwise_cons h hf rfl

namespace Thread

variable {ο ω κ : Type} [DecidableEq ω]

/-- **A delivery of the notification `id` to `x` is still to come**: from its own round, the queue or the drain. -/
def Covers (t : Thread ο ω κ) (id : Nat) (x : ω) : Prop :=
  x ∈ t.pending ∨ (∃ rest, Frame.round id rest ∈ t.stack ∧ x ∈ rest.map Prod.fst) ∨
    ∃ batch stalled, Frame.drain batch stalled ∈ t.stack ∧ (x ∈ batch ∨ x ∈ stalled)

/-- **Every notification of the log is answered or still to come**: a live observer of its snapshot has had an update
that started later, or has refused this notification, or has the delivery ahead. -/
def Owed (t : Thread ο ω κ) : Prop :=
  ∀ newer o snap older, t.log = newer ++ .notified o snap :: older → ∀ x ∈ snap,
    .started x ∈ newer ∨ .refused older.length x ∈ newer ∨ t.live x = false ∨ t.Covers older.length x

structure Inv (t : Thread ο ω κ) : Prop where
  depth : t.depth = t.stack.countP Frame.isRound
  draining : t.draining = t.stack.any Frame.isDrain
  settled : SettledBelow t.stack
  unique : ∀ o, ((t.observers o).map ObserverEntry.observer).Nodup
  entries : ∀ o, ∀ e ∈ t.observers o, e.deferReentrant = false → t.deferReentrantUpdate e.observer = false
  rounds : ∀ id rest, Frame.round id rest ∈ t.stack → ∀ e ∈ rest, e.2 = false → t.deferReentrantUpdate e.1 = false
  refused : ∀ id x, .refused id x ∈ t.log → t.deferReentrantUpdate x = false
  owed : t.Owed

theorem inv_initial (d : ω → Bool) : (Thread.initial d : Thread ο ω κ).Inv where
  depth := rfl
  draining := rfl
  settled := List.Pairwise.nil
  unique := fun _ => List.nodup_nil
  entries := fun _ _ h => by cases h
  rounds := fun _ _ h => by cases h
  refused := fun _ _ h => by cases h
  owed := fun newer _ _ _ h => by cases newer <;> cases h

/-! ## What the stack refers to -/

theorem live_eq_false {t : Thread ο ω κ} {x : ω} :
    t.live x = false ↔ t.owned x = false ∧ ∀ f ∈ t.stack, f.refers x = false := by
  simp only [live, Bool.or_eq_false_iff, List.any_eq_false, Bool.not_eq_true]

theorem live_of_mem_round {t : Thread ο ω κ} {id : Nat} {rest : List (ω × Bool)} {e : ω × Bool}
    (hf : Frame.round id rest ∈ t.stack) (he : e ∈ rest) : t.live e.1 = true := by
  simp only [live, Bool.or_eq_true, List.any_eq_true]
  exact Or.inr ⟨_, hf, List.any_eq_true.2 ⟨e, he, by simp⟩⟩

/-! ## Answering the log: one lemma for every step that notifies nobody -/

/-- **A step that adds no notification keeps the account**, once everything it stops covering is answered by the events
it adds, and what was not live stays so. -/
theorem owed_of_events {t t' : Thread ο ω κ} (evs : List (Event ο ω)) (h : t.Owed) (hlog : t'.log = evs ++ t.log)
    (hn : ∀ o snap, Event.notified o snap ∉ evs) (hlive : ∀ x, t.live x = false → t'.live x = false)
    (hcov : ∀ id x, t.Covers id x →
      .started x ∈ evs ∨ .refused id x ∈ evs ∨ t'.live x = false ∨ t'.Covers id x) : t'.Owed := by
  intro newer o snap older heq x hx
  rw [hlog, List.append_eq_append_iff] at heq
  rcases heq with ⟨mid, hnewer, hlog'⟩ | ⟨mid, hevs, hmid⟩
  · subst hnewer
    rcases h mid o snap older hlog' x hx with hs | hr | hl | hc
    · exact Or.inl (List.mem_append_right _ hs)
    · exact Or.inr (Or.inl (List.mem_append_right _ hr))
    · exact Or.inr (Or.inr (Or.inl (hlive x hl)))
    · rcases hcov _ x hc with hs | hr | hl | hc
      · exact Or.inl (List.mem_append_left _ hs)
      · exact Or.inr (Or.inl (List.mem_append_left _ hr))
      · exact Or.inr (Or.inr (Or.inl hl))
      · exact Or.inr (Or.inr (Or.inr hc))
  · cases mid with
    | nil =>
      simp only [List.nil_append] at hmid
      rcases h [] o snap older hmid.symm x hx with hs | hr | hl | hc
      · cases hs
      · cases hr
      · exact Or.inr (Or.inr (Or.inl (hlive x hl)))
      · have hevs' : newer = evs := by simpa using hevs.symm
        subst hevs'
        exact hcov _ x hc
    | cons e mid =>
      simp only [List.cons_append, List.cons.injEq] at hmid
      obtain ⟨rfl, -⟩ := hmid
      exact absurd (hevs ▸ List.mem_append_right _ List.mem_cons_self) (hn o snap)

/-! ## The functions of the notification code keep the invariant -/

theorem mem_defer_pending {t : Thread ο ω κ} {x y : ω} : y ∈ (t.defer x).pending ↔ y = x ∨ y ∈ t.pending := by
  unfold defer
  simp only
  split
  · rename_i h
    have hx : x ∈ t.pending := by simpa using h
    exact ⟨Or.inr, fun h => h.elim (fun e => e ▸ hx) id⟩
  · simp [or_comm]

theorem covers_defer {t : Thread ο ω κ} {id : Nat} {x y : ω} (h : t.Covers id y) : (t.defer x).Covers id y :=
  h.imp (fun hp => mem_defer_pending.2 (Or.inr hp)) (fun hs => hs)

theorem Inv.defer {t : Thread ο ω κ} (h : t.Inv) (x : ω) : (t.defer x).Inv :=
  { h with
    refused := fun id y hy => h.refused id y (by simpa [Thread.defer] using hy)
    owed := owed_of_events [.deferred x] h.owed rfl (by simp) (fun _ hy => hy)
      (fun _ _ hy => Or.inr (Or.inr (Or.inr (covers_defer hy)))) }

theorem live_startUpdate {t : Thread ο ω κ} {x y : ω} (hx : t.live x = true) (hy : t.live y = false) :
    (t.startUpdate x).live y = false := by
  have hne : x ≠ y := fun e => by rw [e, hy] at hx; cases hx
  rw [live_eq_false] at hy ⊢
  refine ⟨hy.1, fun f hf => ?_⟩
  rcases List.mem_cons.1 hf with rfl | hf
  · simpa [Frame.refers] using hne
  · exact hy.2 f hf

theorem Inv.startUpdate {t : Thread ο ω κ} (h : t.Inv) {x : ω} (hx : t.live x = true) : (t.startUpdate x).Inv where
  depth := by simpa [Thread.startUpdate, List.countP_cons, Frame.isRound] using h.depth
  draining := by simpa [Thread.startUpdate, Frame.isDrain] using h.draining
  settled := h.settled.cons rfl
  unique := h.unique
  entries := h.entries
  rounds := fun id rest hf => h.rounds id rest (by simpa [Thread.startUpdate] using hf)
  refused := fun id y hy => h.refused id y (by simpa [Thread.startUpdate] using hy)
  owed := owed_of_events [.started x] h.owed rfl (by simp) (fun y hy => live_startUpdate hx hy)
    (fun id y hy => Or.inr (Or.inr (Or.inr (by simpa [Covers, Thread.startUpdate] using hy))))

theorem Inv.deliver {t : Thread ο ω κ} (h : t.Inv) {x : ω} (hx : t.live x = true) : (t.deliver x).Inv := by
  unfold Thread.deliver
  split
  · exact h.defer x
  · exact h.startUpdate hx

theorem Inv.retained {t : Thread ο ω κ} (h : t.Inv) (o : ο) : ((t.retained o).map ObserverEntry.observer).Nodup :=
  (h.unique o).sublist (List.filter_sublist.map _)

theorem mem_retained {t : Thread ο ω κ} {o : ο} {e : ObserverEntry ω} :
    e ∈ t.retained o ↔ e ∈ t.observers o ∧ t.live e.observer = true := by
  simp [Thread.retained]

theorem newEntry_truthful {t : Thread ο ω κ} {x : ω} (h : (t.newEntry x).deferReentrant = false) :
    t.deferReentrantUpdate x = false := by
  unfold newEntry at h
  split at h
  · cases h
  · exact h

section Registry

variable [DecidableEq ο]

/-- Replacing one registry by one without duplicates, of old entries and truthful new ones, keeps the invariant. -/
theorem Inv.setObservers {t : Thread ο ω κ} (h : t.Inv) (o : ο) (es : List (ObserverEntry ω))
    (hn : (es.map ObserverEntry.observer).Nodup)
    (he : ∀ e ∈ es, e.deferReentrant = false → t.deferReentrantUpdate e.observer = false) :
    ({ t with observers := Function.update t.observers o es } : Thread ο ω κ).Inv :=
  { h with
    unique := fun o' => by
      by_cases ho : o' = o
      · subst ho; simpa using hn
      · simpa [ho] using h.unique o'
    entries := fun o' => by
      by_cases ho : o' = o
      · subst ho; simpa using he
      · simpa [ho] using h.entries o'
    owed := h.owed }

/-- **Registering keeps the invariant**: it is idempotent, so no observer is registered twice. -/
theorem Inv.registerObserver {t : Thread ο ω κ} (h : t.Inv) (o : ο) (x : ω) : (t.registerObserver o x).2.Inv := by
  unfold Thread.registerObserver
  simp only
  split
  · exact h.setObservers o _ (h.retained o) (fun e he => h.entries o e (mem_retained.1 he).1)
  · rename_i hx
    refine h.setObservers o _ ?_ (fun e he => ?_)
    · rw [List.map_append, List.nodup_append]
      refine ⟨h.retained o, List.nodup_singleton _, fun a ha b hb => ?_⟩
      obtain ⟨e, he, rfl⟩ := List.mem_map.1 ha
      have hb : b = x := by simpa [newEntry] using hb
      rw [hb]
      exact fun hex => hx (List.any_eq_true.2 ⟨e, he, by simpa using hex⟩)
    · rcases List.mem_append.1 he with he | he
      · exact h.entries o e (mem_retained.1 he).1
      · rw [List.mem_singleton.1 he]; exact newEntry_truthful

theorem Inv.unregisterObserver {t : Thread ο ω κ} (h : t.Inv) (o : ο) (x : ω) : (t.unregisterObserver o x).2.Inv :=
  h.setObservers o _ ((h.unique o).sublist (List.filter_sublist.map _))
    (fun e he => h.entries o e (List.mem_filter.1 he).1)

theorem live_notifyObservers {t : Thread ο ω κ} (o : ο) {y : ω} (hy : t.live y = false) :
    (t.notifyObservers o).live y = false := by
  have hold := hy
  rw [live_eq_false] at hy ⊢
  refine ⟨hy.1, fun f hf => ?_⟩
  rcases List.mem_cons.1 hf with rfl | hf
  · refine List.any_eq_false.2 (fun e he hey => ?_)
    obtain ⟨e', he', rfl⟩ := List.mem_map.1 he
    have hl := (mem_retained.1 he').2
    rw [show e'.observer = y by simpa using hey, hold] at hl
    cases hl
  · exact hy.2 f hf

/-- **Notifying keeps the invariant**: the new round owes the delivery to everyone in its snapshot. -/
theorem Inv.notifyObservers {t : Thread ο ω κ} (h : t.Inv) (o : ο) : (t.notifyObservers o).Inv := by
  have h' := h.setObservers o (t.retained o) (h.retained o) (fun e he => h.entries o e (mem_retained.1 he).1)
  refine { h' with
    depth := ?_, draining := ?_, settled := h.settled.cons rfl, rounds := fun id rest hf e he => ?_,
    refused := fun id y hy => h.refused id y (by simpa [Thread.notifyObservers] using hy),
    owed := fun newer o' snap older heq x hx => ?_ }
  · simpa [Thread.notifyObservers, List.countP_cons, Frame.isRound] using h.depth
  · simpa [Thread.notifyObservers, Frame.isDrain] using h.draining
  · rcases List.mem_cons.1 hf with hf | hf
    · simp only [Frame.round.injEq] at hf
      rw [hf.2] at he
      obtain ⟨e', he', rfl⟩ := List.mem_map.1 he
      exact h.entries o e' (mem_retained.1 he').1
    · exact h.rounds id rest hf e he
  · cases newer with
    | nil =>
      simp only [Thread.notifyObservers, List.nil_append, List.cons.injEq, Event.notified.injEq] at heq
      obtain ⟨⟨rfl, rfl⟩, rfl⟩ := heq
      refine Or.inr (Or.inr (Or.inr (Or.inr (Or.inl ⟨_, List.mem_cons_self, ?_⟩))))
      simpa [Function.comp_def] using hx
    | cons e newer =>
      simp only [Thread.notifyObservers, List.cons_append, List.cons.injEq] at heq
      rcases h.owed newer o' snap older heq.2 x hx with hs | hr | hl | hc
      · exact Or.inl (List.mem_cons_of_mem _ hs)
      · exact Or.inr (Or.inl (List.mem_cons_of_mem _ hr))
      · exact Or.inr (Or.inr (Or.inl (live_notifyObservers o hl)))
      · refine Or.inr (Or.inr (Or.inr (hc.imp id (Or.imp ?_ ?_))))
        · rintro ⟨rest, hf, hm⟩
          exact ⟨rest, List.mem_cons_of_mem _ hf, hm⟩
        · rintro ⟨b, st, hf, hm⟩
          exact ⟨b, st, List.mem_cons_of_mem _ hf, hm⟩

end Registry

/-! ## A frame of the machinery goes on -/

theorem live_of_refers {t : Thread ο ω κ} (t' : Thread ο ω κ) (ho : ∀ x, t'.owned x = t.owned x)
    (hr : ∀ x f, f ∈ t'.stack → f.refers x = true → ∃ g ∈ t.stack, g.refers x = true) {x : ω}
    (hx : t.live x = false) : t'.live x = false := by
  rw [live_eq_false] at hx ⊢
  refine ⟨(ho x).trans hx.1, fun f hf => ?_⟩
  cases hfx : f.refers x with
  | false => rfl
  | true =>
    obtain ⟨g, hg, hgx⟩ := hr x f hf hfx
    rw [hx.2 g hg] at hgx; cases hgx

theorem Inv.leave {t : Thread ο ω κ} (h : t.Inv) {i : Nat} {k : List (Frame ω κ)} (hs : t.stack = .round i [] :: k) :
    ({ t with stack := k, depth := t.depth - 1 } : Thread ο ω κ).Inv where
  depth := by
    have := h.depth
    rw [hs, List.countP_cons_of_pos (by rfl)] at this
    simp only [this, Nat.add_sub_cancel]
  draining := by simpa [hs, Frame.isDrain] using h.draining
  settled := List.Pairwise.of_cons (hs ▸ h.settled)
  unique := h.unique
  entries := h.entries
  rounds := fun id rest hf => h.rounds id rest (hs ▸ List.mem_cons_of_mem _ hf)
  refused := h.refused
  owed := by
    refine owed_of_events [] h.owed rfl (by simp) (fun x hx => ?_) (fun i' x hx => Or.inr (Or.inr (Or.inr ?_)))
    · exact live_of_refers (t := t) _ (by intro; rfl) (fun _ f hf hfx => ⟨f, hs ▸ List.mem_cons_of_mem _ hf, hfx⟩) hx
    · rcases hx with hp | ⟨r, hf, hx⟩ | ⟨b, st, hf, hx⟩
      · exact Or.inl hp
      · rcases List.mem_cons.1 (hs ▸ hf) with hf | hf
        · simp only [Frame.round.injEq] at hf
          rw [hf.2] at hx; cases hx
        · exact Or.inr (Or.inl ⟨r, hf, hx⟩)
      · rcases List.mem_cons.1 (hs ▸ hf) with hf | hf
        · cases hf
        · exact Or.inr (Or.inr ⟨b, st, hf, hx⟩)

/-- At depth zero, with no drain running, nothing on the stack waits for a delivery. -/
theorem Inv.clean {t : Thread ο ω κ} (h : t.Inv) (hd : t.depth = 0) (hn : t.draining = false) :
    ∀ f ∈ t.stack, f.isRound = false ∧ f.isDrain = false := by
  intro f hf
  have hr : ¬ f.isRound = true := List.countP_eq_zero.1 (h.depth.symm.trans hd) f hf
  have hdr : ¬ f.isDrain = true := List.any_eq_false.1 (h.draining.symm.trans hn) f hf
  exact ⟨by simpa using hr, by simpa using hdr⟩

theorem Inv.drainPending {t : Thread ο ω κ} (h : t.Inv) (hd : t.depth = 0) : t.drainPending.Inv := by
  unfold Thread.drainPending
  split
  · exact h
  · rename_i hn
    have hc := h.clean hd (by simpa using hn)
    exact
      { depth := by simpa [List.countP_cons, Frame.isRound] using h.depth
        draining := by simp [Frame.isDrain]
        settled := List.Pairwise.cons (fun g hg _ => hc g hg) h.settled
        unique := h.unique
        entries := h.entries
        rounds := fun id rest hf => h.rounds id rest (by simpa using hf)
        refused := fun id x hx => h.refused id x (by simpa using hx)
        owed := by
          refine owed_of_events [.drains] h.owed rfl (by simp) (fun x hx => ?_)
            (fun i x hx => Or.inr (Or.inr (Or.inr ?_)))
          · refine live_of_refers (t := t) _ (by intro; rfl) (fun _ f hf hfx => ?_) hx
            rcases List.mem_cons.1 hf with rfl | hf
            · cases hfx
            · exact ⟨f, hf, hfx⟩
          · refine hx.imp id (Or.imp ?_ ?_)
            · exact fun ⟨r, hf, hx⟩ => ⟨r, List.mem_cons_of_mem _ hf, hx⟩
            · exact fun ⟨b, st, hf, hx⟩ => ⟨b, st, List.mem_cons_of_mem _ hf, hx⟩ }

theorem Inv.leaveRound {t : Thread ο ω κ} (h : t.Inv) {i : Nat} {k : List (Frame ω κ)}
    (hs : t.stack = .round i [] :: k) : ({ t with stack := k } : Thread ο ω κ).leaveRound.Inv := by
  unfold Thread.leaveRound
  simp only
  split
  · rename_i hd
    exact (h.leave hs).drainPending hd
  · exact h.leave hs

omit [DecidableEq ω] in
theorem covers_tail {t : Thread ο ω κ} {i : Nat} {x : ω} {d : Bool} {rest : List (ω × Bool)} {k : List (Frame ω κ)}
    (hs : t.stack = .round i ((x, d) :: rest) :: k) {id : Nat} {y : ω} (h : t.Covers id y) :
    (id = i ∧ y = x) ∨ ({ t with stack := .round i rest :: k } : Thread ο ω κ).Covers id y := by
  rcases h with hp | ⟨r, hf, hy⟩ | ⟨b, st, hf, hy⟩
  · exact Or.inr (Or.inl hp)
  · rw [hs] at hf
    rcases List.mem_cons.1 hf with hf | hf
    · simp only [Frame.round.injEq] at hf
      obtain ⟨rfl, rfl⟩ := hf
      rcases List.mem_cons.1 hy with rfl | hy
      · exact Or.inl ⟨rfl, rfl⟩
      · exact Or.inr (Or.inr (Or.inl ⟨rest, List.mem_cons_self, hy⟩))
    · exact Or.inr (Or.inr (Or.inl ⟨r, List.mem_cons_of_mem _ hf, hy⟩))
  · rw [hs] at hf
    rcases List.mem_cons.1 hf with hf | hf
    · cases hf
    · exact Or.inr (Or.inr (Or.inr ⟨b, st, List.mem_cons_of_mem _ hf, hy⟩))

/-- The frame on top makes progress, with or without an update started above it: all of the invariant but the account
of its deliveries. -/
theorem Inv.replaceTop {t : Thread ο ω κ} (h : t.Inv) {f g : Frame ω κ} {k : List (Frame ω κ)} (hs : t.stack = f :: k)
    (hrounds : ∀ i rest, g = .round i rest → ∀ e ∈ rest, e.2 = false → t.deferReentrantUpdate e.1 = false)
    (hr : g.isRound = f.isRound) (hd : g.isDrain = f.isDrain) (top pending : List ω) (log : List (Event ο ω))
    (href : ∀ j y, .refused j y ∈ log → t.deferReentrantUpdate y = false)
    (ho : ({ t with stack := top.map (.update · none) ++ g :: k, pending, log } : Thread ο ω κ).Owed) :
    ({ t with stack := top.map (.update · none) ++ g :: k, pending, log } : Thread ο ω κ).Inv where
  depth := by
    have hz : (top.map (Frame.update (κ := κ) · none)).countP Frame.isRound = 0 := by simp [Frame.isRound]
    simp only [h.depth, hs, List.countP_append, List.countP_cons, hz, hr, Nat.zero_add]
  draining := by
    have hz : (top.map (Frame.update (κ := κ) · none)).any Frame.isDrain = false := by simp [Frame.isDrain]
    simp only [h.draining, hs, List.any_append, List.any_cons, hz, hd, Bool.false_or]
  settled := by
    have hb : SettledBelow (g :: k) := SettledBelow.replace (f := f) (hs ▸ h.settled) hd
    clear ho
    induction top with
    | nil => exact hb
    | cons y top ih => exact ih.cons rfl
  unique := h.unique
  entries := h.entries
  rounds := fun j r hf e he => by
    rcases List.mem_append.1 hf with hf | hf
    · obtain ⟨y, -, hy⟩ := List.mem_map.1 hf
      cases hy
    rcases List.mem_cons.1 hf with hf | hf
    · exact hrounds j r hf.symm e he
    · exact h.rounds j r (hs ▸ List.mem_cons_of_mem _ hf) e he
  refused := href
  owed := ho

theorem live_replaceTop {t : Thread ο ω κ} {f g : Frame ω κ} {k : List (Frame ω κ)} (hs : t.stack = f :: k)
    (hgf : ∀ z, g.refers z = true → f.refers z = true) {top : List ω} (ht : ∀ z ∈ top, t.live z = true)
    (pending : List ω) (log : List (Event ο ω)) {y : ω} (hy : t.live y = false) :
    ({ t with stack := top.map (.update · none) ++ g :: k, pending, log } : Thread ο ω κ).live y = false := by
  have hold := hy
  rw [live_eq_false] at hy ⊢
  refine ⟨hy.1, fun e he => ?_⟩
  rcases List.mem_append.1 he with he | he
  · obtain ⟨z, hz, rfl⟩ := List.mem_map.1 he
    have hzy : z ≠ y := fun e => by rw [← e, ht z hz] at hold; cases hold
    simpa [Frame.refers] using hzy
  rcases List.mem_cons.1 he with rfl | he
  · cases hey : e.refers y with
    | false => rfl
    | true => rw [← hgf y hey]; exact hy.2 f (hs ▸ List.mem_cons_self)
  · exact hy.2 e (hs ▸ List.mem_cons_of_mem _ he)

theorem refers_tail {i : Nat} {e : ω × Bool} {rest : List (ω × Bool)} (z : ω)
    (h : (Frame.round i rest : Frame ω κ).refers z = true) : (Frame.round i (e :: rest) : Frame ω κ).refers z = true := by
  simp only [Frame.refers, List.any_cons, Bool.or_eq_true] at h ⊢
  exact Or.inr h

/-- **One delivery of a round keeps the invariant**: the observer is updated, deferred or has refused. -/
theorem Inv.roundNext {t : Thread ο ω κ} (h : t.Inv) {i : Nat} {x : ω} {d : Bool} {rest : List (ω × Bool)}
    {k : List (Frame ω κ)} (hs : t.stack = .round i ((x, d) :: rest) :: k) :
    (({ t with stack := .round i rest :: k } : Thread ο ω κ).roundNext i x d).Inv := by
  have htop := h.rounds i _ (hs ▸ List.mem_cons_self)
  have hrest : ∀ j r, (Frame.round i rest : Frame ω κ) = .round j r →
      ∀ e ∈ r, e.2 = false → t.deferReentrantUpdate e.1 = false := by
    intro j r hjr e he
    simp only [Frame.round.injEq] at hjr
    exact htop e (List.mem_cons_of_mem _ (hjr.2 ▸ he))
  have hx : t.live x = true := live_of_mem_round (e := (x, d)) (hs ▸ List.mem_cons_self) List.mem_cons_self
  unfold Thread.roundNext
  split
  · split
    · -- deferred: the queue takes over the delivery
      refine h.replaceTop hs hrest rfl rfl [] _ _ (fun j y hy => h.refused j y (by simpa using hy)) ?_
      refine owed_of_events [.deferred x] h.owed rfl (by simp) (fun y hy => live_replaceTop hs refers_tail (by simp) _ _ hy)
        (fun j y hy => ?_)
      rcases covers_tail hs hy with ⟨-, rfl⟩ | hy
      · exact Or.inr (Or.inr (Or.inr (Or.inl (mem_defer_pending.2 (Or.inl rfl)))))
      · exact Or.inr (Or.inr (Or.inr (hy.imp (fun hp => mem_defer_pending.2 (Or.inr hp)) (fun hr => hr))))
    · -- refused: the entry was truthful about the observer
      rename_i hd
      have hout : t.deferReentrantUpdate x = false := htop (x, d) List.mem_cons_self (by simpa using hd)
      refine h.replaceTop hs hrest rfl rfl [] _ _ (fun j y hy => ?_) ?_
      · rcases List.mem_cons.1 hy with hy | hy
        · simp only [Event.refused.injEq] at hy
          rw [hy.2]; exact hout
        · exact h.refused j y hy
      · refine owed_of_events [.refused i x] h.owed rfl (by simp)
          (fun y hy => live_replaceTop hs refers_tail (by simp) _ _ hy) (fun j y hy => ?_)
        rcases covers_tail hs hy with ⟨rfl, rfl⟩ | hy
        · exact Or.inr (Or.inl List.mem_cons_self)
        · exact Or.inr (Or.inr (Or.inr hy))
  · -- updated: that answers every notification the observer was owed
    refine h.replaceTop hs hrest rfl rfl [x] _ _ (fun j y hy => h.refused j y (by simpa using hy)) ?_
    refine owed_of_events [.started x] h.owed rfl (by simp)
      (fun y hy => live_replaceTop hs refers_tail (by simpa using hx) _ _ hy) (fun j y hy => ?_)
    rcases covers_tail hs hy with ⟨-, rfl⟩ | hy
    · exact Or.inl List.mem_cons_self
    · exact Or.inr (Or.inr (Or.inr (by simpa [Covers] using hy)))

omit [DecidableEq ω] in
/-- A running drain covers what is queued, what is in its batch and what has stalled. -/
theorem covers_drain {t : Thread ο ω κ} {batch stalled : List ω} {k : List (Frame ω κ)}
    (hs : t.stack = .drain batch stalled :: k) (hb : SettledBelow t.stack) {i : Nat} {y : ω} :
    t.Covers i y ↔ y ∈ t.pending ∨ y ∈ batch ∨ y ∈ stalled := by
  have hclean : ∀ f ∈ k, f.isRound = false ∧ f.isDrain = false :=
    SettledBelow.below (hs ▸ hb)
  constructor
  · rintro (hp | ⟨r, hf, -⟩ | ⟨b, st, hf, hy⟩)
    · exact Or.inl hp
    · rcases List.mem_cons.1 (hs ▸ hf) with hf | hf
      · cases hf
      · cases (hclean _ hf).1
    · rcases List.mem_cons.1 (hs ▸ hf) with hf | hf
      · simp only [Frame.drain.injEq] at hf
        obtain ⟨rfl, rfl⟩ := hf
        exact Or.inr hy
      · cases (hclean _ hf).2
  · rintro (hp | hy)
    · exact Or.inl hp
    · exact Or.inr (Or.inr ⟨batch, stalled, hs ▸ List.mem_cons_self, hy⟩)

/-- **One delivery of a drain keeps the invariant**: the observer is gone, has stalled or is updated. -/
theorem Inv.drainNext {t : Thread ο ω κ} (h : t.Inv) {x : ω} {batch stalled : List ω} {k : List (Frame ω κ)}
    (hs : t.stack = .drain (x :: batch) stalled :: k) :
    (({ t with stack := k } : Thread ο ω κ).drainNext x batch stalled).Inv := by
  have hcov : ∀ {j y}, t.Covers j y → y = x ∨ y ∈ t.pending ∨ y ∈ batch ∨ y ∈ stalled := by
    intro j y hy
    rcases (covers_drain hs h.settled).1 hy with hp | hb | hst
    · exact Or.inr (Or.inl hp)
    · exact (List.mem_cons.1 hb).imp id (fun hb => Or.inr (Or.inl hb))
    · exact Or.inr (Or.inr (Or.inr hst))
  have hnone : ∀ {st : List ω} {i rest}, (Frame.drain batch st : Frame ω κ) = .round i rest →
      ∀ e ∈ rest, e.2 = false → t.deferReentrantUpdate e.1 = false := fun heq => by cases heq
  have hnref : ∀ {st : List ω} (z : ω), (Frame.drain batch st : Frame ω κ).refers z = true →
      (Frame.drain (x :: batch) stalled : Frame ω κ).refers z = true := fun _ hz => by cases hz
  have hclean := SettledBelow.below (hs ▸ h.settled)
  have hlive : ({ t with stack := k } : Thread ο ω κ).live x = t.live x := by
    simp [live, hs, Frame.refers]
  unfold Thread.drainNext
  rw [hlive]
  split
  · -- gone: the weak reference does not upgrade
    rename_i hx
    have hx : t.live x = false := by simpa using hx
    refine h.replaceTop hs (fun _ _ => hnone) rfl rfl [] _ _ h.refused ?_
    refine owed_of_events [] h.owed rfl (by simp) (fun y hy => live_replaceTop hs hnref (by simp) _ _ hy)
      (fun j y hy => Or.inr (Or.inr ?_))
    rcases hcov hy with rfl | hc
    · exact Or.inl (live_replaceTop hs hnref (by simp) _ _ hx)
    · exact Or.inr (hc.imp id (fun hc => Or.inr ⟨batch, stalled, List.mem_cons_self, hc⟩))
  · rename_i hx
    have hx : t.live x = true := by simpa using hx
    split
    · -- stalled
      refine h.replaceTop hs (fun _ _ => hnone) rfl rfl [] _ _ (fun j y hy => h.refused j y (by simpa using hy)) ?_
      refine owed_of_events [.stalls x] h.owed rfl (by simp)
        (fun y hy => live_replaceTop hs hnref (by simp) _ _ hy) (fun j y hy => Or.inr (Or.inr (Or.inr ?_)))
      have hmem : ∀ {z}, z = x ∨ z ∈ stalled → z ∈ if stalled.any (fun y => y = x) then stalled else stalled ++ [x] := by
        intro z hz
        split
        · rename_i hany
          exact hz.elim (fun e => e ▸ by simpa using hany) (fun hz => hz)
        · exact hz.elim (fun e => by simp [e]) (fun hz => List.mem_append_left _ hz)
      rcases hcov hy with hyx | hp | hb | hst
      · exact Or.inr (Or.inr ⟨batch, _, List.mem_cons_self, Or.inr (hmem (Or.inl hyx))⟩)
      · exact Or.inl hp
      · exact Or.inr (Or.inr ⟨batch, _, List.mem_cons_self, Or.inl hb⟩)
      · exact Or.inr (Or.inr ⟨batch, _, List.mem_cons_self, Or.inr (hmem (Or.inr hst))⟩)
    · -- updated
      refine h.replaceTop hs (fun _ _ => hnone) rfl rfl [x] _ _ (fun j y hy => h.refused j y (by simpa using hy)) ?_
      refine owed_of_events [.started x] h.owed rfl (by simp)
        (fun y hy => live_replaceTop hs hnref (by simpa using hx) _ _ hy) (fun j y hy => ?_)
      rcases hcov hy with rfl | hc
      · exact Or.inl List.mem_cons_self
      · exact Or.inr (Or.inr (Or.inr (hc.imp id
          (fun hc => Or.inr ⟨batch, stalled, List.mem_cons_of_mem _ List.mem_cons_self, hc⟩))))

/-- **The next batch of a drain, or its end, keeps the invariant.** -/
theorem Inv.drainBatch {t : Thread ο ω κ} (h : t.Inv) {stalled : List ω} {k : List (Frame ω κ)}
    (hs : t.stack = .drain [] stalled :: k) : (({ t with stack := k } : Thread ο ω κ).drainBatch stalled).Inv := by
  have hclean := SettledBelow.below (hs ▸ h.settled)
  unfold Thread.drainBatch
  split
  · -- the end: the stalled observers go back on the queue
    exact
      { depth := by simpa [hs, Frame.isRound] using h.depth
        draining := by
          have hz : k.any Frame.isDrain = false := List.any_eq_false.2 (fun f hf => by simp [(hclean f hf).2])
          simpa using hz
        settled := List.Pairwise.of_cons (hs ▸ h.settled)
        unique := h.unique
        entries := h.entries
        rounds := fun i r hf => h.rounds i r (hs ▸ List.mem_cons_of_mem _ hf)
        refused := fun j y hy => h.refused j y (by simpa using hy)
        owed := by
          refine owed_of_events [.returned stalled] h.owed rfl (by simp) (fun y hy => ?_)
            (fun j y hy => Or.inr (Or.inr (Or.inr (Or.inl ?_))))
          · exact live_of_refers (t := t) _ (by intro; rfl)
              (fun _ f hf hfx => ⟨f, hs ▸ List.mem_cons_of_mem _ hf, hfx⟩) hy
          · rcases (covers_drain hs h.settled).1 hy with hp | hb | hst
            · exact List.mem_append_left _ hp
            · cases hb
            · exact List.mem_append_right _ hst }
  · refine h.replaceTop (g := .drain t.pending stalled) hs (fun _ _ heq => by cases heq) rfl rfl [] _ _ h.refused ?_
    refine owed_of_events [] h.owed rfl (by simp)
      (fun y hy => live_replaceTop hs (fun _ hz => by cases hz) (by simp) _ _ hy)
      (fun j y hy => Or.inr (Or.inr (Or.inr (Or.inr (Or.inr ⟨t.pending, stalled, List.mem_cons_self, ?_⟩)))))
    rcases (covers_drain hs h.settled).1 hy with hp | hb | hst
    · exact Or.inl hp
    · cases hb
    · exact Or.inr hst

/-- **Every step of the notification machinery keeps the invariant.** -/
theorem Inv.resume {t t' : Thread ο ω κ} (h : t.Inv) (hr : t.resume = some t') : t'.Inv := by
  unfold Thread.resume at hr
  split at hr
  · rename_i hs
    cases hr; exact h.leaveRound hs
  · rename_i hs
    cases hr; exact h.roundNext hs
  · rename_i hs
    cases hr; exact h.drainBatch hs
  · rename_i hs
    cases hr; exact h.drainNext hs
  · cases hr

/-- **With nothing on the stack and nothing queued, every notification is answered.** -/
theorem Inv.answered {t : Thread ο ω κ} (h : t.Inv) (hs : t.stack = []) (hp : t.pending = [])
    {newer older : List (Event ο ω)} {o : ο} {snap : List ω} (hl : t.log = newer ++ .notified o snap :: older) {x : ω}
    (hx : x ∈ snap) (hlive : t.live x = true) :
    .started x ∈ newer ∨ (.refused older.length x ∈ newer ∧ t.deferReentrantUpdate x = false) := by
  rcases h.owed newer o snap older hl x hx with hst | hr | hdead | hc
  · exact Or.inl hst
  · exact Or.inr ⟨hr, h.refused _ x (hl ▸ List.mem_append_left _ hr)⟩
  · rw [hlive] at hdead; cases hdead
  · rcases hc with hc | ⟨_, hf, _⟩ | ⟨_, _, hf, _⟩
    · rw [hp] at hc; cases hc
    · rw [hs] at hf; cases hf
    · rw [hs] at hf; cases hf

/-! ## Code outside the machinery -/

/-- **Code of observers and callers keeps the invariant**: frames that are no round and no drain come and go on top,
borrows are taken and released, and strong references are dropped. -/
theorem Inv.outside {t : Thread ο ω κ} (h : t.Inv) (top top' k : List (Frame ω κ)) (hs : t.stack = top ++ k)
    (ht : ∀ f ∈ top, f.isRound = false ∧ f.isDrain = false) (ht' : ∀ f ∈ top', f.isRound = false ∧ f.isDrain = false)
    (owned held : ω → Bool) (ho : ∀ x, owned x = true → t.owned x = true)
    (hlive : ∀ x, ∀ f ∈ top', f.refers x = true → t.live x = true) :
    ({ t with stack := top' ++ k, owned, held } : Thread ο ω κ).Inv where
  depth := by
    have hz : ∀ l : List (Frame ω κ), (∀ f ∈ l, f.isRound = false ∧ f.isDrain = false) → l.countP Frame.isRound = 0 :=
      fun l hl => List.countP_eq_zero.2 (fun f hf => by simp [(hl f hf).1])
    simp only [h.depth, hs, List.countP_append, hz _ ht, hz _ ht']
  draining := by
    have hz : ∀ l : List (Frame ω κ), (∀ f ∈ l, f.isRound = false ∧ f.isDrain = false) → l.any Frame.isDrain = false :=
      fun l hl => List.any_eq_false.2 (fun f hf => by simp [(hl f hf).2])
    simp only [h.draining, hs, List.any_append, hz _ ht, hz _ ht']
  settled := by
    refine List.pairwise_append.2 ⟨?_, (List.pairwise_append.1 (hs ▸ h.settled)).2.1, fun f hf _ _ hd => ?_⟩
    · exact List.pairwise_of_forall_mem_list (fun f hf _ _ hd => by rw [(ht' f hf).2] at hd; cases hd)
    · rw [(ht' f hf).2] at hd; cases hd
  unique := h.unique
  entries := h.entries
  rounds := fun i r hf => by
    rcases List.mem_append.1 hf with hf | hf
    · cases (ht' _ hf).1
    · exact h.rounds i r (hs ▸ List.mem_append_right _ hf)
  refused := h.refused
  owed := by
    refine owed_of_events [] h.owed rfl (by simp) (fun x hx => ?_) (fun i x hx => Or.inr (Or.inr (Or.inr ?_)))
    · have hold := hx
      rw [live_eq_false] at hx ⊢
      refine ⟨?_, fun f hf => ?_⟩
      · cases hox : owned x with
        | false => exact hox
        | true => rw [ho x hox] at hx; cases hx.1
      · rcases List.mem_append.1 hf with hf | hf
        · cases hfx : f.refers x with
          | false => rfl
          | true => rw [hlive x f hf hfx] at hold; cases hold
        · exact hx.2 f (hs ▸ List.mem_append_right _ hf)
    · refine hx.imp (fun hp => hp) (Or.imp ?_ ?_)
      · rintro ⟨r, hf, hx⟩
        rcases List.mem_append.1 (hs ▸ hf) with hf | hf
        · cases (ht _ hf).1
        · exact ⟨r, List.mem_append_right _ hf, hx⟩
      · rintro ⟨b, st, hf, hx⟩
        rcases List.mem_append.1 (hs ▸ hf) with hf | hf
        · cases (ht _ hf).2
        · exact ⟨b, st, List.mem_append_right _ hf, hx⟩

end Thread
end Itofin
