import Itofin.Patterns.Stack
/-!
# Deferral — the queue of refused deliveries

A delivery that finds its observer borrowed is refused; the queue replays the ones that were deferred.  `Delivery` is
what becomes of a delivery in a step, `Thread.Queued` says that a refused one waits to be replayed, and `Delivers` how
the two go together for every step.  Whether a round defers is the flag of the entry: `Inv` says that one which does not
defer belongs to an observer that opted out, and `Honest` is the converse, which a registration can break.
-/
namespace Itofin

/-- The frame has a delivery of `x` to replay. -/
def Frame.Queues {ω κ : Type} (x : ω) : Frame ω κ → Prop
  | .drain batch stalled => x ∈ batch ∨ x ∈ stalled
  | _                    => False

inductive Delivery (ω : Type) where
  /-- A delivery found `x` borrowed, and was deferred or not. -/
  | refused (x : ω) (deferred : Bool)
  /-- The drain updates `x`. -/
  | replayed (x : ω)
deriving DecidableEq, Repr

namespace Thread

variable {ο ω κ : Type} [DecidableEq ω]

/-- **A refused delivery of `x` waits to be replayed**, in the queue or in the running drain. -/
def Queued (t : Thread ο ω κ) (x : ω) : Prop := x ∈ t.pending ∨ ∃ f ∈ t.stack, f.Queues x

/-- What becomes of a delivery in the step. -/
def delivery (t : Thread ο ω κ) : Act ο ω → Option (Delivery ω)
  | .call (.deliver x) => if t.borrowed x then some (.refused x true) else none
  | .call _            => none
  | .ret               => none
  | .resume            => match t.stack with
    | .round _ ((x, deferReentrant) :: _) :: _ => if t.borrowed x then some (.refused x deferReentrant) else none
    | .drain (x :: _) _ :: _                   => if t.live x && !t.borrowed x then some (.replayed x) else none
    | _                                        => none

/-- **What a step does to the queue**: only a refused delivery that is deferred joins it, and it is left by being
replayed, or with nobody to replay it to. -/
structure Delivers (t t' : Thread ο ω κ) (event : Option (Delivery ω)) : Prop where
  deferReentrantUpdate : t'.deferReentrantUpdate = t.deferReentrantUpdate
  live : ∀ x, t.live x = false → t'.live x = false
  joins : ∀ x, t'.Queued x → t.Queued x ∨ event = some (.refused x true)
  stays : ∀ x, t.Queued x → t'.Queued x ∨ event = some (.replayed x) ∨ t'.live x = false
  refused : ∀ x, event = some (.refused x true) → t'.Queued x
  replayed : ∀ x, event = some (.replayed x) → t.Queued x

omit [DecidableEq ω] in
theorem queued_cons {t : Thread ο ω κ} {f : Frame ω κ} {k : List (Frame ω κ)} (hs : t.stack = f :: k) {x : ω} :
    t.Queued x ↔ x ∈ t.pending ∨ f.Queues x ∨ ∃ g ∈ k, g.Queues x := by
  simp only [Queued, hs, List.mem_cons, exists_eq_or_imp]

theorem Delivers.quiet {t t' : Thread ο ω κ} {event : Option (Delivery ω)}
    (hd : t'.deferReentrantUpdate = t.deferReentrantUpdate) (hl : ∀ x, t.live x = false → t'.live x = false)
    (hq : ∀ x, t'.Queued x ↔ t.Queued x) (he : ∀ x, event ≠ some (.refused x true) ∧ event ≠ some (.replayed x)) :
    t.Delivers t' event where
  deferReentrantUpdate := hd
  live := hl
  joins := fun x hx => Or.inl ((hq x).1 hx)
  stays := fun x hx => Or.inl ((hq x).2 hx)
  refused := fun x hx => absurd hx (he x).1
  replayed := fun x hx => absurd hx (he x).2

theorem queued_defer {t : Thread ο ω κ} {x y : ω} : (t.defer x).Queued y ↔ y = x ∨ t.Queued y := by
  unfold Queued
  rw [mem_defer_pending, or_assoc]
  exact Iff.rfl

theorem Delivers.defer {t t' : Thread ο ω κ} (x : ω) (hd : t'.deferReentrantUpdate = t.deferReentrantUpdate)
    (hl : ∀ y, t.live y = false → t'.live y = false) (hq : ∀ y, t'.Queued y ↔ t.Queued y) :
    t.Delivers (t'.defer x) (some (.refused x true)) where
  deferReentrantUpdate := hd
  live := hl
  joins := fun y hy => (queued_defer.1 hy).elim (fun e => Or.inr (by rw [e])) (fun hy => Or.inl ((hq y).1 hy))
  stays := fun y hy => Or.inl (queued_defer.2 (Or.inr ((hq y).2 hy)))
  refused := fun y hy => queued_defer.2 (Or.inl (by simpa using hy.symm))
  replayed := fun y hy => by cases hy

omit [DecidableEq ω] in
theorem queued_startUpdate {t : Thread ο ω κ} {x y : ω} : (t.startUpdate x).Queued y ↔ t.Queued y := by
  simp [Queued, Thread.startUpdate, Frame.Queues]

theorem Delivers.deliver {t : Thread ο ω κ} {x : ω} (hx : t.live x = true) :
    t.Delivers (t.deliver x) (t.delivery (.call (.deliver x))) := by
  unfold Thread.deliver
  simp only [delivery]
  split
  · exact .defer x rfl (fun _ hy => hy) (fun _ => Iff.rfl)
  · exact .quiet rfl (fun _ hy => live_startUpdate hx hy) (fun _ => queued_startUpdate) (by simp)

theorem live_replaceFrame {t : Thread ο ω κ} {f g : Frame ω κ} {k : List (Frame ω κ)} (hs : t.stack = f :: k)
    (hgf : ∀ z, g.refers z = true → f.refers z = true) (log : List (Event ο ω)) {y : ω} (hy : t.live y = false) :
    ({ t with stack := g :: k, log } : Thread ο ω κ).live y = false :=
  live_replaceTop hs hgf (fun _ hz => absurd hz List.not_mem_nil) t.pending log hy

theorem live_replaceUpdate {t : Thread ο ω κ} {f g : Frame ω κ} {k : List (Frame ω κ)} (hs : t.stack = f :: k)
    (hgf : ∀ z, g.refers z = true → f.refers z = true) {x : ω} (hx : t.live x = true) {y : ω} (hy : t.live y = false) :
    (({ t with stack := g :: k } : Thread ο ω κ).startUpdate x).live y = false :=
  live_replaceTop hs hgf (fun _ hz => List.mem_singleton.1 hz ▸ hx) t.pending (.started x :: t.log) hy

theorem Delivers.round {t : Thread ο ω κ} {i : Nat} {x : ω} {d : Bool} {rest : List (ω × Bool)}
    {k : List (Frame ω κ)} (hs : t.stack = .round i ((x, d) :: rest) :: k) :
    t.Delivers (({ t with stack := .round i rest :: k } : Thread ο ω κ).roundNext i x d) (t.delivery .resume) := by
  let t' : Thread ο ω κ := { t with stack := .round i rest :: k }
  have hq : ∀ y, t'.Queued y ↔ t.Queued y := fun y => (queued_cons (t := t') rfl).trans (queued_cons hs).symm
  have hb : t'.borrowed x = t.borrowed x := by simp [borrowed, t', hs, Frame.borrows]
  have hx : t.live x = true := live_of_mem_round (e := (x, d)) (hs ▸ List.mem_cons_self) List.mem_cons_self
  have hl : ∀ y, t.live y = false → t'.live y = false := fun y hy =>
    live_replaceFrame hs refers_tail t.log hy
  have he : t.delivery .resume = if t.borrowed x then some (.refused x d) else none := by simp only [delivery, hs]
  rw [he]
  change t.Delivers (t'.roundNext i x d) _
  unfold Thread.roundNext
  rw [hb]
  split
  · cases d with
    | true  => exact .defer x rfl hl hq
    | false => exact .quiet rfl hl hq (by simp)
  · exact .quiet rfl (fun _ hy => live_replaceUpdate hs refers_tail hx hy) (fun y => queued_startUpdate.trans (hq y))
      (by simp)

theorem Delivers.drain {t : Thread ο ω κ} {x : ω} {batch stalled : List ω} {k : List (Frame ω κ)}
    (hs : t.stack = .drain (x :: batch) stalled :: k) :
    t.Delivers (({ t with stack := k } : Thread ο ω κ).drainNext x batch stalled) (t.delivery .resume) := by
  let t' : Thread ο ω κ := { t with stack := .drain batch stalled :: k }
  have hq : ∀ y, t.Queued y ↔ y = x ∨ t'.Queued y := by
    intro y
    rw [queued_cons hs, queued_cons (t := t') rfl]
    simp only [Frame.Queues, List.mem_cons]
    tauto
  have hnref : ∀ {st : List ω} (z : ω), (Frame.drain batch st : Frame ω κ).refers z = true →
      (Frame.drain (x :: batch) stalled : Frame ω κ).refers z = true := fun _ hz => by cases hz
  have hlive : ({ t with stack := k } : Thread ο ω κ).live x = t.live x := by simp [Thread.live, hs, Frame.refers]
  have hborrow : ({ t with stack := k } : Thread ο ω κ).borrowed x = t.borrowed x := by
    simp [borrowed, hs, Frame.borrows]
  have he : t.delivery .resume = if t.live x && !t.borrowed x then some (.replayed x) else none := by
    simp only [delivery, hs]
  rw [he]
  unfold Thread.drainNext
  rw [hlive, hborrow]
  cases hx : t.live x with
  | false =>
    have hdead : t'.live x = false := live_replaceFrame hs hnref t.log hx
    exact
      { deferReentrantUpdate := rfl
        live := fun y hy => live_replaceFrame hs hnref t.log hy
        joins := fun y hy => Or.inl ((hq y).2 (Or.inr hy))
        stays := fun y hy => ((hq y).1 hy).elim (fun e => Or.inr (Or.inr (e ▸ hdead))) Or.inl
        refused := fun y hy => by cases hy
        replayed := fun y hy => by cases hy }
  | true  =>
    cases hb : t.borrowed x with
    | true  =>
      refine .quiet rfl (fun y hy => live_replaceFrame hs hnref _ hy) (fun y => ?_) (by simp)
      rw [hq y, queued_cons (t := t') rfl]
      refine (queued_cons rfl).trans ?_
      have hst : y ∈ (if stalled.any (fun z => z = x) then stalled else stalled ++ [x]) ↔ y = x ∨ y ∈ stalled := by
        split
        · rename_i hany
          have hmem : x ∈ stalled := by simpa using hany
          exact ⟨Or.inr, fun h => h.elim (fun e => e ▸ hmem) id⟩
        · simp [or_comm]
      simp only [Frame.Queues, hst]
      tauto
    | false =>
      exact
        { deferReentrantUpdate := rfl
          live := fun y hy => live_replaceUpdate hs hnref hx hy
          joins := fun y hy => Or.inl ((hq y).2 (Or.inr (queued_startUpdate.1 hy)))
          stays := fun y hy => ((hq y).1 hy).elim (fun e => Or.inr (Or.inl (by rw [e]; rfl)))
            (fun hy => Or.inl (queued_startUpdate.2 hy))
          refused := fun y hy => by cases hy
          replayed := fun y hy => (hq y).2 (Or.inl (by simpa using hy.symm)) }

theorem Delivers.drainBatch {t : Thread ο ω κ} {stalled : List ω} {k : List (Frame ω κ)}
    (hs : t.stack = .drain [] stalled :: k) :
    t.Delivers (({ t with stack := k } : Thread ο ω κ).drainBatch stalled) none := by
  have hl : ∀ t' : Thread ο ω κ, t'.owned = t.owned → (∀ f ∈ t'.stack, f ∈ k ∨ ∃ b s, f = .drain b s) →
      ∀ y, t.live y = false → t'.live y = false := by
    intro t' ho hf y hy
    refine live_of_refers (t := t) t' (fun z => by rw [ho]) (fun z f hfs hfz => ?_) hy
    rcases hf f hfs with hfk | ⟨b, s, rfl⟩
    · exact ⟨f, hs ▸ List.mem_cons_of_mem _ hfk, hfz⟩
    · cases hfz
  unfold Thread.drainBatch
  split
  · rename_i hp
    have hp : t.pending = [] := List.isEmpty_iff.1 hp
    refine .quiet rfl (hl _ rfl (fun f hf => Or.inl hf)) (fun y => ?_) (by simp)
    rw [queued_cons hs]
    simp [Queued, Frame.Queues, hp]
  · refine .quiet rfl (hl _ rfl (fun f hf => (List.mem_cons.1 hf).symm.imp id (fun e => ⟨_, _, e⟩))) (fun y => ?_)
      (by simp)
    rw [queued_cons hs, queued_cons rfl]
    simp only [Frame.Queues, List.not_mem_nil, false_or]
    tauto

theorem Delivers.leaveRound {t : Thread ο ω κ} {i : Nat} {k : List (Frame ω κ)} (hs : t.stack = .round i [] :: k) :
    t.Delivers (({ t with stack := k } : Thread ο ω κ).leaveRound) none := by
  have hq : ∀ y, ({ t with stack := k } : Thread ο ω κ).Queued y ↔ t.Queued y := fun y => by
    rw [queued_cons hs]
    simp [Queued, Frame.Queues]
  have hl : ∀ y, t.live y = false → ({ t with stack := k } : Thread ο ω κ).live y = false := fun y hy =>
    live_of_refers (t := t) _ (by intro; rfl) (fun _ f hf hfy => ⟨f, hs ▸ List.mem_cons_of_mem _ hf, hfy⟩) hy
  have hleave : t.Delivers ({ t with stack := k, depth := t.depth - 1 } : Thread ο ω κ) none :=
    .quiet rfl hl hq (by simp)
  unfold Thread.leaveRound
  simp only
  split
  · unfold Thread.drainPending
    split
    · exact hleave
    · refine .quiet rfl (fun y hy => ?_) (fun y => ?_) (by simp)
      · have := hl y hy
        simpa [Thread.live, Frame.refers] using this
      · rw [← hq y, queued_cons rfl]
        simp [Queued, Frame.Queues]
  · exact hleave

theorem Delivers.resume {t t' : Thread ο ω κ} (h : t.resume = some t') : t.Delivers t' (t.delivery .resume) := by
  unfold Thread.resume at h
  split at h
  · rename_i hs
    cases h
    rw [show t.delivery .resume = none by simp only [delivery, hs]]
    exact .leaveRound hs
  · rename_i hs
    cases h; exact .round hs
  · rename_i hs
    cases h
    rw [show t.delivery .resume = none by simp only [delivery, hs]]
    exact .drainBatch hs
  · rename_i hs
    cases h; exact .drain hs
  · cases h

section Calls

variable [DecidableEq ο]

theorem Delivers.registerObserver (t : Thread ο ω κ) (o : ο) (x : ω) :
    t.Delivers (t.registerObserver o x).2 none := by
  unfold Thread.registerObserver
  simp only
  split <;> exact .quiet rfl (fun _ hy => hy) (fun _ => Iff.rfl) (by simp)

theorem Delivers.call {t t' : Thread ο ω κ} {c : Call ο ω} (h : t.call c = some t') :
    t.Delivers t' (t.delivery (.call c)) := by
  cases c with
  | notifyObservers o =>
    cases h
    exact .quiet rfl (fun _ hy => live_notifyObservers o hy)
      (fun y => by simp [Queued, Thread.notifyObservers, Frame.Queues]) (by simp [delivery])
  | deliver x =>
    obtain ⟨hx, rfl⟩ := by simpa [Thread.call] using h
    exact .deliver hx
  | registerObserver o x =>
    obtain ⟨-, rfl⟩ := by simpa [Thread.call] using h
    exact .registerObserver t o x
  | unregisterObserver o x =>
    obtain ⟨-, rfl⟩ := by simpa [Thread.call] using h
    exact .quiet rfl (fun _ hy => hy) (fun _ => Iff.rfl) (by simp [delivery])
  | borrow x =>
    obtain ⟨-, rfl⟩ := by simpa [Thread.call] using h
    exact .quiet rfl (fun _ hy => hy) (fun _ => Iff.rfl) (by simp [delivery])
  | release x =>
    obtain ⟨-, rfl⟩ := by simpa [Thread.call] using h
    exact .quiet rfl (fun _ hy => hy) (fun _ => Iff.rfl) (by simp [delivery])
  | drop x =>
    obtain ⟨-, rfl⟩ := by simpa [Thread.call] using h
    refine .quiet rfl (fun y hy => ?_) (fun _ => Iff.rfl) (by simp [delivery])
    rw [live_eq_false] at hy ⊢
    refine ⟨?_, hy.2⟩
    by_cases hyx : y = x
    · simp [hyx]
    · simpa [hyx] using hy.1

/-- **What every step does to the queue.** -/
theorem Delivers.step {t t' : Thread ο ω κ} {a : Act ο ω} (h : t.step a = some t') :
    t.Delivers t' (t.delivery a) := by
  cases a with
  | call c =>
    obtain ⟨-, hc⟩ := by simpa [Thread.step] using h
    exact .call hc
  | ret =>
    simp only [Thread.step] at h
    split at h
    · rename_i x k hs
      cases h
      refine .quiet rfl (fun y hy => ?_) (fun y => ?_) (by simp [delivery])
      · exact live_of_refers (t := t) _ (by intro; rfl) (fun _ f hf hfy => ⟨f, hs ▸ List.mem_cons_of_mem _ hf, hfy⟩) hy
      · rw [queued_cons hs]
        simp [Queued, Frame.Queues]
    · cases h
  | resume => exact .resume h

end Calls

/-! ## The flags of the entries -/

/-- **No entry defers an observer that opted out**, in a registry or in a round. -/
structure Honest (t : Thread ο ω κ) : Prop where
  entries : ∀ o, ∀ e ∈ t.observers o, t.deferReentrantUpdate e.observer = false → e.deferReentrant = false
  rounds : ∀ id rest, Frame.round id rest ∈ t.stack → ∀ e ∈ rest, t.deferReentrantUpdate e.1 = false → e.2 = false

omit [DecidableEq ω] in
theorem honest_initial (d : ω → Bool) : (Thread.initial d : Thread ο ω κ).Honest where
  entries := fun _ _ h => by cases h
  rounds := fun _ _ h => by cases h

theorem rounds_resume {t t' : Thread ο ω κ} (h : t.resume = some t') {id : Nat} {rest : List (ω × Bool)}
    (hf : Frame.round id rest ∈ t'.stack) : ∃ before, Frame.round id (before ++ rest) ∈ t.stack := by
  have hkept : ∀ {f k}, t.stack = f :: k → Frame.round id rest ∈ k → ∃ before, Frame.round id (before ++ rest) ∈ t.stack :=
    fun hs hk => ⟨[], hs ▸ List.mem_cons_of_mem _ hk⟩
  unfold Thread.resume at h
  split at h
  · rename_i hs
    cases h
    apply hkept hs
    unfold leaveRound drainPending at hf
    simp only at hf
    split at hf
    · split at hf
      · exact hf
      · exact (List.mem_cons.1 hf).resolve_left (fun e => by cases e)
    · exact hf
  · rename_i i x d r k hs
    cases h
    have hcons : Frame.round id rest ∈ Frame.round i r :: k → ∃ before, Frame.round id (before ++ rest) ∈ t.stack := by
      intro hf
      rcases List.mem_cons.1 hf with he | hk
      · cases he; exact ⟨[(x, d)], hs ▸ List.mem_cons_self⟩
      · exact hkept hs hk
    unfold roundNext at hf
    split at hf
    · split at hf <;> exact hcons hf
    · exact hcons ((List.mem_cons.1 hf).resolve_left (fun e => by cases e))
  · rename_i hs
    cases h
    apply hkept hs
    unfold drainBatch at hf
    split at hf
    · exact hf
    · exact (List.mem_cons.1 hf).resolve_left (fun e => by cases e)
  · rename_i hs
    cases h
    apply hkept hs
    unfold drainNext at hf
    split at hf
    · exact (List.mem_cons.1 hf).resolve_left (fun e => by cases e)
    · split at hf
      · exact (List.mem_cons.1 hf).resolve_left (fun e => by cases e)
      · have hf := (List.mem_cons.1 hf).resolve_left (fun e => by cases e)
        exact (List.mem_cons.1 hf).resolve_left (fun e => by cases e)
  · cases h

theorem Honest.resume {t t' : Thread ο ω κ} (h : t.Honest) (hr : t.resume = some t') : t'.Honest where
  entries := by
    obtain ⟨ho, -, -, hd⟩ := (resume_shape hr).toSameOutside
    rw [ho, hd]
    exact h.entries
  rounds := fun id rest hf e he => by
    rw [(resume_shape hr).deferReentrantUpdate]
    obtain ⟨before, hb⟩ := rounds_resume hr hf
    exact h.rounds id _ hb e (List.mem_append_right _ he)

omit [DecidableEq ω] in
theorem Honest.keep {t t' : Thread ο ω κ} (h : t.Honest) (hd : t'.deferReentrantUpdate = t.deferReentrantUpdate)
    (he : ∀ o, ∀ e ∈ t'.observers o, e ∈ t.observers o ∨
      (t.deferReentrantUpdate e.observer = false → e.deferReentrant = false))
    (hf : ∀ id rest, Frame.round id rest ∈ t'.stack → Frame.round id rest ∈ t.stack) : t'.Honest where
  entries := fun o e hm => by
    rw [hd]
    exact (he o e hm).elim (h.entries o e) id
  rounds := fun id rest hm => by
    rw [hd]
    exact h.rounds id rest (hf id rest hm)

section Calls

variable [DecidableEq ο]

theorem Honest.notifyObservers {t : Thread ο ω κ} (h : t.Honest) (o : ο) : (t.notifyObservers o).Honest where
  entries := fun o' e he => by
    by_cases ho : o' = o
    · subst ho
      exact h.entries o' e (mem_retained.1 (by simpa [Thread.notifyObservers] using he)).1
    · exact h.entries o' e (by simpa [Thread.notifyObservers, ho] using he)
  rounds := fun id rest hf e he => by
    rcases List.mem_cons.1 hf with hf | hf
    · cases hf
      obtain ⟨e', he', rfl⟩ := List.mem_map.1 he
      exact h.entries o e' (mem_retained.1 he').1
    · exact h.rounds id rest hf e he

omit [DecidableEq ω] in
theorem Honest.setObservers {t : Thread ο ω κ} (h : t.Honest) (o : ο) (es : List (ObserverEntry ω))
    (he : ∀ e ∈ es, t.deferReentrantUpdate e.observer = false → e.deferReentrant = false) :
    ({ t with observers := Function.update t.observers o es } : Thread ο ω κ).Honest where
  entries := fun o' => by
    by_cases ho : o' = o
    · subst ho; simpa using he
    · simpa [ho] using h.entries o'
  rounds := h.rounds

/-- A registration that can ask the observer, or finds it registered. -/
theorem Honest.registerObserver {t : Thread ο ω κ} (h : t.Honest) {o : ο} {x : ω}
    (hx : t.deferReentrantUpdate x = true ∨ t.borrowed x = false ∨ ∃ e ∈ t.retained o, e.observer = x) :
    (t.registerObserver o x).2.Honest := by
  have hold : ∀ e ∈ t.retained o, t.deferReentrantUpdate e.observer = false → e.deferReentrant = false :=
    fun e he => h.entries o e (mem_retained.1 he).1
  unfold Thread.registerObserver
  simp only
  split
  · exact h.setObservers o _ hold
  · rename_i hany
    refine h.setObservers o _ (fun e he hd => ?_)
    rcases List.mem_append.1 he with he | he
    · exact hold e he hd
    · rw [List.mem_singleton.1 he] at hd ⊢
      have hd : t.deferReentrantUpdate x = false := hd
      rcases hx with hx | hx | ⟨e', he', hx⟩
      · rw [hd] at hx; cases hx
      · simp [newEntry, hx, hd]
      · exact absurd (List.any_eq_true.2 ⟨e', he', by simpa using hx⟩) hany

theorem Honest.unregisterObserver {t : Thread ο ω κ} (h : t.Honest) (o : ο) (x : ω) :
    (t.unregisterObserver o x).2.Honest :=
  h.setObservers o _ (fun e he => h.entries o e (List.mem_filter.1 he).1)

/-- **Every step but a registration keeps the entries honest.** -/
theorem Honest.step {t t' : Thread ο ω κ} (h : t.Honest) {a : Act ο ω} (ha : t.step a = some t')
    (hr : ∀ o x, a ≠ .call (.registerObserver o x)) : t'.Honest := by
  cases a with
  | resume => exact h.resume ha
  | ret    =>
    simp only [Thread.step] at ha
    split at ha
    · rename_i hs
      cases ha
      exact h.keep rfl (fun _ _ he => Or.inl he) (fun _ _ hf => hs ▸ List.mem_cons_of_mem _ hf)
    · cases ha
  | call c =>
    obtain ⟨-, hc⟩ := by simpa [Thread.step] using ha
    cases c with
    | registerObserver o x   => exact absurd rfl (hr o x)
    | unregisterObserver o x =>
      obtain ⟨-, rfl⟩ := by simpa [Thread.call] using hc
      exact h.unregisterObserver o x
    | notifyObservers o      => cases hc; exact h.notifyObservers o
    | deliver x              =>
      obtain ⟨-, rfl⟩ := by simpa [Thread.call] using hc
      unfold Thread.deliver
      split
      · exact h.keep rfl (fun _ _ he => Or.inl he) (fun _ _ hf => hf)
      · exact h.keep rfl (fun _ _ he => Or.inl he)
          (fun _ _ hf => (List.mem_cons.1 hf).resolve_left (fun e => by cases e))
    | borrow x               =>
      obtain ⟨-, rfl⟩ := by simpa [Thread.call] using hc
      exact h.keep rfl (fun _ _ he => Or.inl he) (fun _ _ hf => hf)
    | release x              =>
      obtain ⟨-, rfl⟩ := by simpa [Thread.call] using hc
      exact h.keep rfl (fun _ _ he => Or.inl he) (fun _ _ hf => hf)
    | drop x                 =>
      obtain ⟨-, rfl⟩ := by simpa [Thread.call] using hc
      exact h.keep rfl (fun _ _ he => Or.inl he) (fun _ _ hf => hf)

end Calls

/-- A refusal of the machinery comes from a round, with the flag of its entry. -/
theorem delivery_resume {t : Thread ο ω κ} {x : ω} {d : Bool} (hr : t.delivery .resume = some (.refused x d)) :
    ∃ id rest, Frame.round id rest ∈ t.stack ∧ (x, d) ∈ rest := by
  simp only [delivery] at hr
  split at hr
  · rename_i hs
    split at hr
    · cases hr; exact ⟨_, _, hs ▸ List.mem_cons_self, List.mem_cons_self⟩
    · cases hr
  · split at hr <;> cases hr
  · cases hr

/-- **A round defers no observer that opted out**, when entries are honest. -/
theorem Honest.deferred {t : Thread ο ω κ} (h : t.Honest) {x : ω} (hr : t.delivery .resume = some (.refused x true)) :
    t.deferReentrantUpdate x = true := by
  obtain ⟨id, rest, hf, he⟩ := delivery_resume hr
  cases hd : t.deferReentrantUpdate x with
  | true  => rfl
  | false => exact (h.rounds id rest hf _ he hd).symm

/-- **Only an observer that opted out is refused without being deferred.** -/
theorem Inv.refuses {t : Thread ο ω κ} (h : t.Inv) {a : Act ο ω} {x : ω}
    (hr : t.delivery a = some (.refused x false)) : t.deferReentrantUpdate x = false := by
  cases a with
  | resume =>
    obtain ⟨id, rest, hf, he⟩ := delivery_resume hr
    exact h.rounds id rest hf _ he rfl
  | ret    => cases hr
  | call c =>
    cases c with
    | deliver y => simp only [delivery] at hr; split at hr <;> cases hr
    | _         => cases hr

end Thread
end Itofin
