import Itofin.Patterns.Observers
/-!
# Stacks — what one step can do to the stack and the registries

A module that puts frames of its own between those of the machinery reads its steps from here: `call_shape` and
`resume_shape` say what the stack is after a call and after a step of the machinery, `Registered` follows a
registration and `Ahead` an update that a round still has to start.
-/
namespace Itofin

/-- The call leaves registrations, borrows and references of `x` alone, or adds to them. -/
def Call.spares {ο ω : Type} [DecidableEq ω] (x : ω) : Call ο ω → Bool
  | .unregisterObserver _ y => y ≠ x
  | .borrow y               => y ≠ x
  | .release y              => y ≠ x
  | .drop y                 => y ≠ x
  | _                       => true

/-- The observer a call is about. -/
def Call.observer {ο ω : Type} : Call ο ω → Option ω
  | .notifyObservers _      => none
  | .deliver x              => some x
  | .registerObserver _ x   => some x
  | .unregisterObserver _ x => some x
  | .borrow x               => some x
  | .release x              => some x
  | .drop x                 => some x

/-- The frame updates `x` or has a delivery to it left. -/
def Frame.names {ω κ : Type} [DecidableEq ω] (x : ω) : Frame ω κ → Bool
  | .update y _          => y = x
  | .round _ rest        => rest.any (fun e => e.1 = x)
  | .drain batch stalled => batch.any (fun y => y = x) || stalled.any (fun y => y = x)
  | .caller _            => false

/-- A round or a drain. -/
def Frame.isMachinery {ω κ : Type} (f : Frame ω κ) : Bool := f.isRound || f.isDrain

def Frame.isCaller {ω κ : Type} : Frame ω κ → Bool
  | .caller _ => true
  | _         => false

theorem Frame.isCaller_machinery {ω κ : Type} {f : Frame ω κ} (h : f.isMachinery = true) : f.isCaller = false := by
  cases f <;> first | rfl | cases h

namespace Thread

variable {ο ω κ : Type} [DecidableEq ω]

def Registered (t : Thread ο ω κ) (o : ο) (x : ω) : Prop := x ∈ (t.observers o).map ObserverEntry.observer

/-- **An update of `x` is still to come in this round, or has just started.** -/
def Ahead (t : Thread ο ω κ) (x : ω) : Prop :=
  (∃ id rest, Frame.round id rest ∈ t.stack ∧ x ∈ rest.map Prod.fst) ∨ ∃ k, t.stack = .update x none :: k

/-- **No delivery of `x` is under way or queued.** -/
def Untouched (t : Thread ο ω κ) (x : ω) : Prop := x ∉ t.pending ∧ ∀ f ∈ t.stack, f.names x = false

/-- The parts of a thread that only callers change. -/
structure SameOutside (t t' : Thread ο ω κ) : Prop where
  observers : t'.observers = t.observers
  owned : t'.owned = t.owned
  held : t'.held = t.held
  deferReentrantUpdate : t'.deferReentrantUpdate = t.deferReentrantUpdate

/-- The log grows by at most one event, and an update it says to have started is on top of the stack. -/
def Logged (t t' : Thread ο ω κ) : Prop :=
  t'.log = t.log ∨ ∃ e, t'.log = e :: t.log ∧ ∀ x, e = .started x → ∃ k, t'.stack = .update x none :: k

/-- The frame on top, one of the machinery, is replaced by at most one of the machinery and an update started on it. -/
structure Replaced (t t' : Thread ο ω κ) : Prop extends SameOutside t t' where
  log : Logged t t'
  notified : ∀ o snap, t'.log ≠ .notified o snap :: t.log
  stack : ∃ (f : Frame ω κ) (k g : List (Frame ω κ)) (top : List ω), t.stack = f :: k ∧ f.isMachinery = true ∧
    t'.stack = top.map (.update · none) ++ (g ++ k) ∧ top.length ≤ 1 ∧ (∀ x ∈ top, t.borrowed x = false) ∧
    ∀ f ∈ g, f.isMachinery = true

theorem borrowed_machinery {t : Thread ο ω κ} {f : Frame ω κ} {k : List (Frame ω κ)} (hs : t.stack = f :: k)
    (hf : f.isMachinery = true) (g : List (Frame ω κ)) (hg : ∀ f ∈ g, f.isMachinery = true) (x : ω) :
    ({ t with stack := g ++ k } : Thread ο ω κ).borrowed x = t.borrowed x := by
  have hno : ∀ f : Frame ω κ, f.isMachinery = true → f.borrows x = false := by
    intro f hf
    cases f <;> first | rfl | cases hf
  have hgx : g.any (Frame.borrows x) = false := List.any_eq_false.2 (fun f hf => by simp [hno f (hg f hf)])
  simp [borrowed, hs, hno f hf, hgx]

theorem Replaced.quiet {t t' : Thread ο ω κ} {f : Frame ω κ} {k : List (Frame ω κ)} (hs : t.stack = f :: k)
    (hf : f.isMachinery = true) (g : List (Frame ω κ)) (hg : ∀ f ∈ g, f.isMachinery = true)
    (hsame : SameOutside t t') (hlog : t'.log = t.log ∨ ∃ e, t'.log = e :: t.log ∧ (∀ x, e ≠ .started x) ∧
      ∀ o snap, e ≠ .notified o snap) (hs' : t'.stack = g ++ k) : t.Replaced t' := by
  refine ⟨hsame, hlog.imp id (fun ⟨e, hl, hst, _⟩ => ⟨e, hl, fun x hx => absurd hx (hst x)⟩), fun o snap hn => ?_,
    f, k, g, [], hs, hf, hs', Nat.zero_le 1, by simp, hg⟩
  rcases hlog with hl | ⟨e, hl, -, hno⟩
  · exact List.cons_ne_self _ _ (hn.symm.trans hl)
  · rw [hl] at hn
    exact hno o snap (List.cons.inj hn).1

theorem Replaced.startUpdate {t : Thread ο ω κ} {f g : Frame ω κ} {k : List (Frame ω κ)} {x : ω}
    (hs : t.stack = f :: k) (hf : f.isMachinery = true) (hg : g.isMachinery = true) (hx : t.borrowed x = false) :
    t.Replaced (({ t with stack := g :: k } : Thread ο ω κ).startUpdate x) := by
  refine ⟨⟨rfl, rfl, rfl, rfl⟩, Or.inr ⟨_, rfl, fun _ he => ?_⟩, fun _ _ he => (by cases he), f, k, [g], [x], hs, hf,
    rfl, Nat.le_refl 1, ?_, ?_⟩
  · cases he; exact ⟨_, rfl⟩
  · simpa using hx
  · simpa using hg

/-- **A step of the machinery only works on the top of the stack.** -/
theorem resume_shape {t t' : Thread ο ω κ} (h : t.resume = some t') : t.Replaced t' := by
  have hround : ∀ i rest, ∀ f ∈ [(Frame.round i rest : Frame ω κ)], f.isMachinery = true := by
    simp [Frame.isMachinery, Frame.isRound]
  have hdrain : ∀ b s, ∀ f ∈ [(Frame.drain b s : Frame ω κ)], f.isMachinery = true := by
    simp [Frame.isMachinery, Frame.isDrain]
  unfold resume at h
  split at h
  · rename_i hs
    cases h
    unfold leaveRound drainPending
    simp only
    split
    · split
      · exact .quiet hs rfl [] (by simp) ⟨rfl, rfl, rfl, rfl⟩ (Or.inl rfl) rfl
      · exact .quiet hs rfl _ (hdrain [] []) ⟨rfl, rfl, rfl, rfl⟩ (Or.inr ⟨_, rfl, by simp, by simp⟩) rfl
    · exact .quiet hs rfl [] (by simp) ⟨rfl, rfl, rfl, rfl⟩ (Or.inl rfl) rfl
  · rename_i i x d rest k hs
    cases h
    unfold roundNext
    split
    · split <;> exact .quiet hs rfl _ (hround i rest) ⟨rfl, rfl, rfl, rfl⟩ (Or.inr ⟨_, rfl, by simp, by simp⟩) rfl
    · rename_i hb
      rw [show Frame.round i rest :: k = [Frame.round i rest] ++ k from rfl,
        borrowed_machinery hs rfl _ (hround i rest)] at hb
      exact .startUpdate hs rfl rfl (by simpa using hb)
  · rename_i hs
    cases h
    unfold drainBatch
    split
    · exact .quiet hs rfl [] (by simp) ⟨rfl, rfl, rfl, rfl⟩ (Or.inr ⟨_, rfl, by simp, by simp⟩) rfl
    · exact .quiet hs rfl _ (hdrain t.pending _) ⟨rfl, rfl, rfl, rfl⟩ (Or.inl rfl) rfl
  · rename_i x batch stalled k hs
    cases h
    unfold drainNext
    split
    · exact .quiet hs rfl _ (hdrain batch stalled) ⟨rfl, rfl, rfl, rfl⟩ (Or.inl rfl) rfl
    · split
      · exact .quiet hs rfl _ (hdrain batch _) ⟨rfl, rfl, rfl, rfl⟩ (Or.inr ⟨_, rfl, by simp, by simp⟩) rfl
      · rename_i hb
        rw [show k = [] ++ k from rfl, borrowed_machinery hs rfl [] (by simp)] at hb
        exact .startUpdate hs rfl rfl (by simpa using hb)
  · cases h

/-- **An observer that is not updating keeps its update ahead**: its round starts it. -/
theorem Ahead.resume {t t' : Thread ο ω κ} {x : ω} (ha : t.Ahead x) (hb : t.borrowed x = false)
    (h : t.resume = some t') : t'.Ahead x := by
  rcases ha with ⟨id, rest, hf, hx⟩ | ⟨k, hk⟩
  swap
  · simp [borrowed, hk, Frame.borrows] at hb
  obtain ⟨f, k, g, top, hs, hm, hs', -⟩ := (resume_shape h).stack
  by_cases hk : Frame.round id rest ∈ k
  · refine Or.inl ⟨id, rest, ?_, hx⟩
    rw [hs']
    exact List.mem_append_right _ (List.mem_append_right _ hk)
  · -- the round is the frame on top
    have hfr : Frame.round id rest = f := by
      rcases List.mem_cons.1 (hs ▸ hf) with he | he
      · exact he
      · exact absurd he hk
    subst hfr
    cases rest with
    | nil => cases hx
    | cons e rest =>
      obtain ⟨y, d⟩ := e
      simp only [Thread.resume, hs, Option.some.injEq] at h
      subst h
      have hsame : ({ t with stack := .round id rest :: k } : Thread ο ω κ).borrowed y = t.borrowed y :=
        borrowed_machinery hs rfl [.round id rest] (by simp [Frame.isMachinery, Frame.isRound]) y
      have hrest : x ∈ rest.map Prod.fst → ∀ t'' : Thread ο ω κ, Frame.round id rest ∈ t''.stack → t''.Ahead x :=
        fun hx _ hf => Or.inl ⟨id, rest, hf, hx⟩
      unfold roundNext
      rw [hsame]
      rcases List.mem_cons.1 hx with hxy | hx
      · have hxy : x = y := hxy
        subst hxy
        rw [if_neg (by simp [hb])]
        exact Or.inr ⟨_, rfl⟩
      · split
        · split
          · exact hrest hx _ List.mem_cons_self
          · exact hrest hx _ List.mem_cons_self
        · exact hrest hx _ (List.mem_cons_of_mem _ List.mem_cons_self)

theorem names_drain {batch stalled : List ω} {x : ω} :
    (Frame.drain batch stalled : Frame ω κ).names x = false ↔ x ∉ batch ∧ x ∉ stalled := by
  simp only [Frame.names, Bool.or_eq_false_iff, List.any_eq_false, decide_eq_true_eq]
  exact ⟨fun h => ⟨fun hm => h.1 x hm rfl, fun hm => h.2 x hm rfl⟩,
    fun h => ⟨fun y hy e => h.1 (e ▸ hy), fun y hy e => h.2 (e ▸ hy)⟩⟩

section

variable {t : Thread ο ω κ} {x : ω}

theorem names_cons {f : Frame ω κ} {k : List (Frame ω κ)} (hf : f.names x = false) (hk : ∀ g ∈ k, g.names x = false) :
    ∀ g ∈ f :: k, g.names x = false := by
  intro g hg
  rcases List.mem_cons.1 hg with rfl | hg
  · exact hf
  · exact hk g hg

theorem Untouched.setStack (h : t.Untouched x) {k : List (Frame ω κ)} (hk : ∀ f ∈ k, f.names x = false) :
    ({ t with stack := k } : Thread ο ω κ).Untouched x := ⟨h.1, hk⟩

theorem Untouched.startUpdate (h : t.Untouched x) {y : ω} (hy : y ≠ x) : (t.startUpdate y).Untouched x :=
  ⟨h.1, names_cons (decide_eq_false hy) h.2⟩

theorem Untouched.defer (h : t.Untouched x) {y : ω} (hy : y ≠ x) : (t.defer y).Untouched x :=
  ⟨fun hm => (mem_defer_pending.1 hm).elim (fun e => hy e.symm) h.1, h.2⟩

theorem Untouched.leaveRound (h : t.Untouched x) : t.leaveRound.Untouched x := by
  unfold Thread.leaveRound drainPending
  simp only
  split
  · split
    · exact h
    · exact ⟨h.1, names_cons rfl h.2⟩
  · exact h

theorem Untouched.roundNext (h : t.Untouched x) {y : ω} (hy : y ≠ x) (id : ℕ) (d : Bool) :
    (t.roundNext id y d).Untouched x := by
  unfold Thread.roundNext
  split
  · split
    · exact h.defer hy
    · exact h
  · exact h.startUpdate hy

theorem Untouched.drainBatch (h : t.Untouched x) {stalled : List ω} (hst : x ∉ stalled) :
    (t.drainBatch stalled).Untouched x := by
  unfold Thread.drainBatch
  split
  · exact ⟨by simp [h.1, hst], h.2⟩
  · exact ⟨List.not_mem_nil, names_cons (names_drain.2 ⟨h.1, hst⟩) h.2⟩

theorem Untouched.drainNext (h : t.Untouched x) {y : ω} {batch stalled : List ω} (hy : y ≠ x) (hb : x ∉ batch)
    (hst : x ∉ stalled) : (t.drainNext y batch stalled).Untouched x := by
  unfold Thread.drainNext
  split
  · exact ⟨h.1, names_cons (names_drain.2 ⟨hb, hst⟩) h.2⟩
  · split
    · refine ⟨h.1, names_cons (names_drain.2 ⟨hb, ?_⟩) h.2⟩
      split
      · exact hst
      · simpa [hst] using hy.symm
    · exact (h.setStack (names_cons (names_drain.2 ⟨hb, hst⟩) h.2)).startUpdate hy

/-- **The machinery reaches nobody that it has no delivery for.** -/
theorem Untouched.resume {t' : Thread ο ω κ} (hu : t.Untouched x) (h : t.resume = some t') : t'.Untouched x := by
  unfold Thread.resume at h
  split at h
  · rename_i hs
    have hk := fun f hfk => hu.2 f (hs ▸ List.mem_cons_of_mem _ hfk)
    cases h
    exact (hu.setStack hk).leaveRound
  · rename_i i y d rest k hs
    have hy : y ≠ x ∧ (Frame.round i rest : Frame ω κ).names x = false := by
      have htop := hu.2 _ (hs ▸ List.mem_cons_self)
      simpa [Frame.names] using htop
    have hk := fun f hfk => hu.2 f (hs ▸ List.mem_cons_of_mem _ hfk)
    cases h
    exact (hu.setStack (names_cons hy.2 hk)).roundNext hy.1 i d
  · rename_i stalled k hs
    have hst : x ∉ stalled := (names_drain.1 (hu.2 _ (hs ▸ List.mem_cons_self))).2
    have hk := fun f hfk => hu.2 f (hs ▸ List.mem_cons_of_mem _ hfk)
    cases h
    exact (hu.setStack hk).drainBatch hst
  · rename_i y batch stalled k hs
    obtain ⟨hyb, hst⟩ := names_drain.1 (hu.2 _ (hs ▸ List.mem_cons_self))
    have hk := fun f hfk => hu.2 f (hs ▸ List.mem_cons_of_mem _ hfk)
    cases h
    exact (hu.setStack hk).drainNext (fun e => hyb (e ▸ List.mem_cons_self))
      (fun hm => hyb (List.mem_cons_of_mem _ hm)) hst
  · cases h

end

theorem live_of_owned {t : Thread ο ω κ} {x : ω} (h : t.owned x = true) : t.live x = true := by simp [live, h]

theorem registered_retained {t : Thread ο ω κ} {o : ο} {x : ω} (hx : t.live x = true) :
    x ∈ (t.retained o).map ObserverEntry.observer ↔ t.Registered o x := by
  constructor
  · intro h
    obtain ⟨e, he, rfl⟩ := List.mem_map.1 h
    exact List.mem_map.2 ⟨e, (mem_retained.1 he).1, rfl⟩
  · intro h
    obtain ⟨e, he, rfl⟩ := List.mem_map.1 h
    exact List.mem_map.2 ⟨e, mem_retained.2 ⟨he, hx⟩, rfl⟩

section Registry

variable [DecidableEq ο]

omit [DecidableEq ω] in
/-- Replacing one registry changes who is registered there, and nowhere else. -/
theorem registered_setObservers {t : Thread ο ω κ} {o o' : ο} {x : ω} (es : List (ObserverEntry ω)) {P : Prop}
    (he : o = o' → (x ∈ es.map ObserverEntry.observer ↔ P)) (hn : o ≠ o' → (t.Registered o x ↔ P)) :
    ({ t with observers := Function.update t.observers o' es } : Thread ο ω κ).Registered o x ↔ P := by
  by_cases ho : o = o'
  · subst ho; simpa [Registered] using he rfl
  · simpa [Registered, Function.update_of_ne ho] using hn ho

theorem registered_notifyObservers {t : Thread ο ω κ} {o o' : ο} {x : ω} (hx : t.live x = true) :
    (t.notifyObservers o').Registered o x ↔ t.Registered o x :=
  registered_setObservers (t.retained o') (fun ho => ho ▸ registered_retained hx) (fun _ => Iff.rfl)

/-- **Registering registers, and nobody else.** -/
theorem registered_registerObserver {t : Thread ο ω κ} {o o' : ο} {x y : ω} (hx : t.live x = true) :
    (t.registerObserver o' y).2.Registered o x ↔ t.Registered o x ∨ (o = o' ∧ x = y) := by
  unfold Thread.registerObserver
  simp only
  split
  · rename_i hany
    refine registered_setObservers _ (fun ho => ?_) (fun ho => by simp [ho])
    rw [← ho] at hany ⊢
    rw [registered_retained hx]
    refine ⟨Or.inl, fun h => h.elim id (fun he => ?_)⟩
    obtain ⟨e, hm, hey⟩ := List.any_eq_true.1 hany
    have hxy : e.observer = x := (by simpa using hey : e.observer = y).trans he.2.symm
    exact List.mem_map.2 ⟨e, (mem_retained.1 hm).1, hxy⟩
  · refine registered_setObservers _ (fun ho => ?_) (fun ho => by simp [ho])
    rw [List.map_append, List.mem_append, ← ho, registered_retained hx]
    simp [newEntry]

/-- **Unregistering unregisters, and nobody else.** -/
theorem registered_unregisterObserver {t : Thread ο ω κ} {o o' : ο} {x y : ω} (hx : t.live x = true) :
    (t.unregisterObserver o' y).2.Registered o x ↔ t.Registered o x ∧ ¬(o = o' ∧ x = y) := by
  refine registered_setObservers _ (fun ho => ?_) (fun ho => by simp [ho])
  simp only [ho, true_and, Registered, List.mem_map, List.mem_filter, Bool.and_eq_true, Bool.not_eq_true',
    decide_eq_false_iff_not]
  constructor
  · rintro ⟨e, ⟨he, hne, -⟩, rfl⟩
    exact ⟨⟨e, he, rfl⟩, hne⟩
  · rintro ⟨⟨e, he, rfl⟩, hne⟩
    exact ⟨e, ⟨he, hne, hx⟩, rfl⟩

/-- **A notification has the update of everyone registered ahead.** -/
theorem Registered.ahead {t : Thread ο ω κ} {o : ο} {x : ω} (h : t.Registered o x) (hx : t.live x = true) :
    (t.notifyObservers o).Ahead x := by
  refine Or.inl ⟨_, _, List.mem_cons_self, ?_⟩
  simpa [Function.comp_def] using (registered_retained hx).2 h

/-- **What a call does**: at most one frame is put on the stack, a round or an update of an observer that was not
borrowed, and each part of the thread changes only by the calls that are about it. -/
structure Called (t t' : Thread ο ω κ) (c : Call ο ω) : Prop where
  log : Logged t t'
  stack : ∃ top, t'.stack = top ++ t.stack ∧
    (top = [] ∨ (∃ id rest, top = [.round id rest]) ∨ ∃ x, top = [.update x none] ∧ t.borrowed x = false)
  deferReentrantUpdate : t'.deferReentrantUpdate = t.deferReentrantUpdate
  owned : ∀ x, c ≠ .drop x → t'.owned x = t.owned x
  held : ∀ x, c ≠ .borrow x → c ≠ .release x → t'.held x = t.held x
  registered : ∀ o x, t.live x = true →
    (t'.Registered o x ↔ (t.Registered o x ∨ c = .registerObserver o x) ∧ c ≠ .unregisterObserver o x)

omit [DecidableEq ο] in
/-- A call that only puts an event in the log, and perhaps a frame on the stack. -/
theorem Called.of_same {t t' : Thread ο ω κ} {c : Call ο ω} (hl : Logged t t')
    (hs : ∃ top, t'.stack = top ++ t.stack ∧
      (top = [] ∨ (∃ id rest, top = [.round id rest]) ∨ ∃ x, top = [.update x none] ∧ t.borrowed x = false))
    (hd : t'.deferReentrantUpdate = t.deferReentrantUpdate) (ho : t'.owned = t.owned) (hh : t'.held = t.held)
    (hr : ∀ o x, t.live x = true → (t'.Registered o x ↔ t.Registered o x))
    (hc : ∀ o x, c ≠ .registerObserver o x ∧ c ≠ .unregisterObserver o x) : t.Called t' c :=
  ⟨hl, hs, hd, fun _ _ => by rw [ho], fun _ _ _ => by rw [hh], fun o x hx => by simp [hr o x hx, hc o x]⟩

theorem call_shape {t t' : Thread ο ω κ} {c : Call ο ω} (h : t.call c = some t') : t.Called t' c := by
  cases c with
  | notifyObservers o =>
    cases h
    exact .of_same (Or.inr ⟨_, rfl, fun _ he => by cases he⟩) ⟨[_], rfl, Or.inr (Or.inl ⟨_, _, rfl⟩)⟩ rfl rfl rfl
      (fun _ _ hx => registered_notifyObservers hx) (by simp)
  | deliver x =>
    obtain ⟨-, rfl⟩ := by simpa [Thread.call] using h
    unfold deliver
    split
    · exact .of_same (Or.inr ⟨_, rfl, fun _ he => by cases he⟩) ⟨[], rfl, Or.inl rfl⟩ rfl rfl rfl
        (fun _ _ _ => Iff.rfl) (by simp)
    · rename_i hb
      refine .of_same (Or.inr ⟨_, rfl, fun _ he => ?_⟩) ⟨[_], rfl, Or.inr (Or.inr ⟨x, rfl, by simpa using hb⟩)⟩ rfl rfl
        rfl (fun _ _ _ => Iff.rfl) (by simp)
      cases he; exact ⟨_, rfl⟩
  | registerObserver o y =>
    obtain ⟨-, rfl⟩ := by simpa [Thread.call] using h
    have hsame : (t.registerObserver o y).2 = { t with observers := (t.registerObserver o y).2.observers } := by
      unfold registerObserver
      simp only
      split <;> rfl
    have hreg (o' x) (hx : t.live x = true) : (t.registerObserver o y).2.Registered o' x ↔
        t.Registered o' x ∨ (o' = o ∧ x = y) := registered_registerObserver hx
    rw [hsame] at hreg ⊢
    refine ⟨Or.inl rfl, ⟨[], rfl, Or.inl rfl⟩, rfl, fun _ _ => rfl, fun _ _ _ => rfl, fun o' x hx => ?_⟩
    rw [hreg o' x hx]
    simp [eq_comm]
  | unregisterObserver o y =>
    obtain ⟨-, rfl⟩ := by simpa [Thread.call] using h
    refine ⟨Or.inl rfl, ⟨[], rfl, Or.inl rfl⟩, rfl, fun _ _ => rfl, fun _ _ _ => rfl, fun o' x hx => ?_⟩
    rw [registered_unregisterObserver hx]
    simp [eq_comm]
  | borrow y =>
    obtain ⟨-, rfl⟩ := by simpa [Thread.call] using h
    refine ⟨Or.inl rfl, ⟨[], rfl, Or.inl rfl⟩, rfl, fun _ _ => rfl, fun x hb _ => ?_, fun _ _ _ => by simp [Registered]⟩
    exact Function.update_of_ne (fun e => hb (by rw [e])) _ _
  | release y =>
    obtain ⟨-, rfl⟩ := by simpa [Thread.call] using h
    refine ⟨Or.inl rfl, ⟨[], rfl, Or.inl rfl⟩, rfl, fun _ _ => rfl, fun x _ hr => ?_, fun _ _ _ => by simp [Registered]⟩
    exact Function.update_of_ne (fun e => hr (by rw [e])) _ _
  | drop y =>
    obtain ⟨-, rfl⟩ := by simpa [Thread.call] using h
    refine ⟨Or.inl rfl, ⟨[], rfl, Or.inl rfl⟩, rfl, fun x hd => ?_, fun _ _ _ => rfl, fun _ _ _ => by simp [Registered]⟩
    exact Function.update_of_ne (fun e => hd (by rw [e])) _ _

omit [DecidableEq ο] in
/-- **A call that spares an observer keeps its reference, its borrow and its registrations.** -/
theorem Called.spares {t t' : Thread ο ω κ} {c : Call ο ω} {x : ω} (h : t.Called t' c) (hc : c.spares x = true)
    (hx : t.owned x = true) :
    t'.owned x = true ∧ t'.held x = t.held x ∧ ∀ o, t.Registered o x → t'.Registered o x := by
  have hne : ∀ c', c'.spares x = false → c ≠ c' := fun c' hf e => by rw [e, hf] at hc; cases hc
  refine ⟨(h.owned x (hne _ (by simp [Call.spares]))).trans hx,
    h.held x (hne _ (by simp [Call.spares])) (hne _ (by simp [Call.spares])), fun o hr => ?_⟩
  exact (h.registered o x (live_of_owned hx)).2 ⟨Or.inl hr, hne _ (by simp [Call.spares])⟩

omit [DecidableEq ο] in
/-- **A call that is not about an observer leaves its reference and its registrations as they are.** -/
theorem Called.other {t t' : Thread ο ω κ} {c : Call ο ω} {x : ω} (h : t.Called t' c) (hc : c.observer ≠ some x)
    (hx : t.owned x = true) : t'.owned x = true ∧ ∀ o, t'.Registered o x ↔ t.Registered o x := by
  have hne : ∀ c' : Call ο ω, c'.observer = some x → c ≠ c' := fun c' hf e => hc (e ▸ hf)
  refine ⟨(h.owned x (hne _ rfl)).trans hx, fun o => (h.registered o x (live_of_owned hx)).trans ?_⟩
  simp [hne (.registerObserver o x) rfl, hne (.unregisterObserver o x) rfl]

end Registry

end Thread
end Itofin
