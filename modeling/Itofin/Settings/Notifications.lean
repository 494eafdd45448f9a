import Itofin.Settings
import Itofin.Patterns.Stack
/-!
# Notifications — the fixing store among re-entrant observers

The fixing store of one `Settings` with the notifiers of its indices on a thread.  An observer reads and changes the
store from inside its update; `add_fixings` has changed the store before it notifies, but `clear_fixing` and
`clear_fixings` notify first and remove afterwards, so they stand on the stack while observers run (`Point`).

`done` is the store as every operation so far would leave it at once.  `notified_reads` compares the store with it: the
two read alike exactly where no recorded rate waits for a clear to remove it, in every run that touches no index under
a clear still notifying (`spares`).
-/
namespace Itofin
namespace Settings

/-- Where a clear waits for its notification. -/
inductive Point (K : Type) where
  /-- `clear_fixing`, to remove this key. -/
  | clearing (key : K)
  /-- `clear_fixings`, to notify these keys and then remove everything. -/
  | sweeping (rest : List K)
deriving DecidableEq, Repr

/-- The clear in this frame is going to remove the key. -/
def covers {K ω : Type} [DecidableEq K] (key : K) : Frame ω (Point K) → Bool
  | .caller (.clearing k) => k = key
  | .caller (.sweeping _) => true
  | _                     => false

structure World (K D ρ ω : Type) where
  /-- The notifiers of the indices, by key. -/
  thread : Thread K ω (Point K)
  store : FixingStore K D ρ
  /-- The store with every operation carried out at its call: a history variable, no function reads it. -/
  done : FixingStore K D ρ

namespace World

inductive Act (N K D ρ ω : Type) where
  | resume
  | ret
  | call (c : Call K ω)
  /-- `fixing`, `last_fixing_date` or `has_historical_fixing` of a recorded rate. -/
  | read (name : N) (date : D)
  | addFixings (name : N) (fixings : List (D × ρ))
  | clearFixing (name : N)
  /-- `clear_fixings`, in the order in which the map lists its keys. -/
  | clearFixings (names : List K)

variable {N K D ρ ω : Type} [DecidableEq K] [DecidableEq D] [DecidableEq ω]

def initial (d : ω → Bool) : World K D ρ ω := { thread := Thread.initial d, store := ∅, done := ∅ }

def notify (w : World K D ρ ω) (key : K) : World K D ρ ω := { w with thread := w.thread.notifyObservers key }

def push (w : World K D ρ ω) (p : Point K) : World K D ρ ω :=
  { w with thread := { w.thread with stack := .caller p :: w.thread.stack } }

/-- A clear that covers the key is still notifying. -/
def covered (w : World K D ρ ω) (key : K) : Bool := w.thread.stack.any (covers key)

/-- The frame on top goes on; a clear removes when its notifications have returned. -/
def resume (w : World K D ρ ω) : Option (World K D ρ ω) :=
  match w.thread.stack with
  | .caller (.clearing key) :: k =>
    some { w with store := w.store.erase key, thread := { w.thread with stack := k } }
  | .caller (.sweeping (name :: rest)) :: k =>
    some ({ w with thread := { w.thread with stack := .caller (.sweeping rest) :: k } }.notify name)
  | .caller (.sweeping []) :: k => some { w with store := ∅, thread := { w.thread with stack := k } }
  | _                           => w.thread.resume.map (fun thread => { w with thread })

def step (close : ρ → ρ → Bool) (fixingKey : N → K) (w : World K D ρ ω) :
    Act N K D ρ ω → Option (World K D ρ ω)
  | .resume   => w.resume
  | .ret      => match w.thread.stack with
    | .update _ none :: k => some { w with thread := { w.thread with stack := k } }
    | _                   => none
  | .call c   => if w.thread.running then (w.thread.call c).map (fun thread => { w with thread }) else none
  | .read _ _ => if w.thread.running then some w else none
  | .addFixings name fixings =>
    if w.thread.running then
      let added := addFixings close fixingKey w.store name fixings
      let w := { w with store := added.2, done := (addFixings close fixingKey w.done name fixings).2 }
      some (if added.1.isOk then w.notify (fixingKey name) else w)
    else none
  | .clearFixing name =>
    if w.thread.running then
      let w := { w with done := Settings.clearFixing fixingKey w.done name }
      some ((w.push (.clearing (fixingKey name))).notify (fixingKey name))
    else none
  | .clearFixings names =>
    if w.thread.running && names.isPerm w.store.keys then some ({ w with done := ∅ }.push (.sweeping names)) else none

/-- **The step reads no recorded rate and writes nothing that a clear still notifying is going to remove.** -/
def spares (fixingKey : N → K) (w : World K D ρ ω) : Act N K D ρ ω → Bool
  | .read name date    => !w.covered (fixingKey name) || (fixing fixingKey w.store name date).isNone
  | .addFixings name _ => !w.covered (fixingKey name)
  | _                  => true

/-! ## The invariant -/

/-- The store reads as it is done, but for the keys that a clear is still to remove. -/
def Inv (w : World K D ρ ω) : Prop :=
  ∀ key date, fixing id w.done key date = if w.covered key then none else fixing id w.store key date

omit [DecidableEq ω] in
theorem inv_initial (d : ω → Bool) : (initial d : World K D ρ ω).Inv := by
  intro key date
  have hnone : fixing id (∅ : FixingStore K D ρ) key date = none := by simp [fixing]
  simp [initial, hnone]

section Invariant

variable {w w' : World K D ρ ω}

omit [DecidableEq ω] in
theorem Inv.setThread (hi : w.Inv) {thread : Thread K ω (Point K)} {p q k : List (Frame ω (Point K))}
    (hs : w.thread.stack = p ++ k) (hs' : thread.stack = q ++ k) (hp : ∀ f ∈ p, f.isCaller = false)
    (hq : ∀ f ∈ q, f.isCaller = false) : ({ w with thread } : World K D ρ ω).Inv := by
  intro key date
  have hnone : ∀ l : List (Frame ω (Point K)), (∀ f ∈ l, f.isCaller = false) → l.any (covers key) = false := by
    intro l hl
    refine List.any_eq_false.2 (fun f hf hc => ?_)
    cases f <;> first | cases hc | cases hl _ hf
  have hsame : ({ w with thread } : World K D ρ ω).covered key = w.covered key := by
    simp only [covered, hs, hs', List.any_append, hnone p hp, hnone q hq]
  rw [hsame]
  exact hi key date

theorem Inv.notify (hi : w.Inv) (key : K) : (w.notify key).Inv :=
  hi.setThread (p := []) (q := [_]) (k := w.thread.stack) rfl rfl (by simp) (by simp [Frame.isCaller])

theorem Inv.machinery (hi : w.Inv) {thread : Thread K ω (Point K)} (ht : w.thread.resume = some thread) :
    ({ w with thread } : World K D ρ ω).Inv := by
  obtain ⟨f, k, g, top, hs, hf, hs', -, -, hg⟩ := (Thread.resume_shape ht).stack
  refine hi.setThread (p := [f]) (q := top.map (.update · none) ++ g) (k := k) hs (by simp [hs']) (fun f' hf' => ?_)
    (fun f' hf' => ?_)
  · rw [List.mem_singleton.1 hf']; exact Frame.isCaller_machinery hf
  · rcases List.mem_append.1 hf' with hf' | hf'
    · obtain ⟨x, -, rfl⟩ := List.mem_map.1 hf'
      rfl
    · exact Frame.isCaller_machinery (hg f' hf')

omit [DecidableEq D] [DecidableEq ω] in
theorem covered_cons {w : World K D ρ ω} {f : Frame ω (Point K)} {k : List (Frame ω (Point K))}
    (hs : w.thread.stack = f :: k) (key : K) : w.covered key = (covers key f || k.any (covers key)) := by
  rw [covered, hs, List.any_cons]

/-- **A clear that returns has removed what was already done.** -/
theorem Inv.resume (hi : w.Inv) (hr : w.resume = some w') : w'.Inv := by
  unfold World.resume at hr
  split at hr
  · rename_i key k hs
    cases hr
    intro key' date
    have h := hi key' date
    rw [covered_cons hs, covers] at h
    simp only [covered]
    by_cases hk : key = key'
    · rw [h]
      subst hk
      simp [fixing, AList.lookup_erase]
    · have hk' : key' ≠ key := fun e => hk e.symm
      rw [h]
      simp [hk, fixing, AList.lookup_erase_ne hk']
  · rename_i name rest k hs
    cases hr
    refine Inv.notify (fun key date => ?_) name
    have h := hi key date
    rw [covered_cons hs] at h
    exact h
  · rename_i k hs
    cases hr
    intro key date
    have h := hi key date
    rw [covered_cons hs, covers] at h
    rw [h]
    simp [fixing]
  · obtain ⟨thread, ht, rfl⟩ := Option.map_eq_some_iff.1 hr
    exact hi.machinery ht

omit [DecidableEq ω] in
/-- **An addition to an index that no clear is about to remove is carried out as it is done.** -/
theorem Inv.addFixings (hi : w.Inv) (close : ρ → ρ → Bool) (fixingKey : N → K) (name : N) (fixings : List (D × ρ))
    (hc : w.covered (fixingKey name) = false) :
    ({ w with store := (Settings.addFixings close fixingKey w.store name fixings).2
              done := (Settings.addFixings close fixingKey w.done name fixings).2 } : World K D ρ ω).Inv := by
  have hsame : fixing fixingKey w.done name = fixing fixingKey w.store name := by
    funext date
    have h := hi (fixingKey name) date
    rw [if_neg (by simp [hc])] at h
    exact h
  have hok : (Settings.addFixings close fixingKey w.done name fixings).1.isOk =
      (Settings.addFixings close fixingKey w.store name fixings).1.isOk :=
    Bool.eq_iff_iff.2 (by rw [addFixings_isOk, addFixings_isOk, hsame])
  cases hadd : (Settings.addFixings close fixingKey w.store name fixings).1.isOk with
  | false =>
    rw [addFixings_rejected hadd, addFixings_rejected (hok.trans hadd)]
    exact hi
  | true =>
    intro key date
    change _ = if w.covered key then none else
      fixing id (Settings.addFixings close fixingKey w.store name fixings).2 key date
    rw [fixing_addFixings _ (hok.trans hadd) id, hsame, fixing_addFixings _ hadd id]
    by_cases hk : id key = fixingKey name
    · have hk : key = fixingKey name := hk
      simp [hk, hc]
    · rw [if_neg hk, if_neg hk]
      exact hi key date

/-- **Every step that spares what is to be removed keeps the invariant.** -/
theorem Inv.step (hi : w.Inv) {close : ρ → ρ → Bool} {fixingKey : N → K} {a : Act N K D ρ ω}
    (ha : w.spares fixingKey a = true) (hs : w.step close fixingKey a = some w') : w'.Inv := by
  cases a with
  | resume => exact hi.resume hs
  | ret =>
    simp only [World.step] at hs
    split at hs
    · rename_i hk
      cases hs
      exact hi.setThread (p := [_]) (q := []) hk rfl (by simp [Frame.isCaller]) (by simp)
    · cases hs
  | call c =>
    obtain ⟨-, thread, ht, rfl⟩ := by simpa [World.step] using hs
    obtain ⟨top, hstack, htop⟩ := (Thread.call_shape ht).stack
    refine hi.setThread (p := []) (q := top) (k := w.thread.stack) rfl hstack (by simp) ?_
    rcases htop with rfl | ⟨id, rest, rfl⟩ | ⟨x, rfl, -⟩ <;> simp [Frame.isCaller]
  | read name date =>
    obtain ⟨-, rfl⟩ := by simpa [World.step] using hs
    exact hi
  | addFixings name fixings =>
    obtain ⟨-, rfl⟩ := by simpa [World.step] using hs
    have hadd := hi.addFixings close fixingKey name fixings (by simpa [spares] using ha)
    split
    · exact hadd.notify _
    · exact hadd
  | clearFixing name =>
    obtain ⟨-, rfl⟩ := by simpa [World.step] using hs
    refine Inv.notify (fun key date => ?_) _
    have h := hi key date
    change fixing id (w.done.erase (fixingKey name)) key date =
      if (covers key (.caller (.clearing (fixingKey name)) : Frame ω (Point K)) || w.covered key) then none
      else fixing id w.store key date
    by_cases hk : key = fixingKey name
    · subst hk; simp [covers, fixing]
    · have hk' : fixingKey name ≠ key := fun e => hk e.symm
      simp only [covers, hk', decide_false, Bool.false_or]
      rw [← h, fixing, id, AList.lookup_erase_ne hk]
      rfl
  | clearFixings names =>
    obtain ⟨-, rfl⟩ := by simpa [World.step] using hs
    intro key date
    simp [push, covered, covers, fixing]

end Invariant

/-! ## What an observer reads -/

/-- **Notifications follow the change**, in every run that touches no index under a clear still notifying: an index reads
as every operation so far would leave it at once, except for the recorded rates that a clear is still to remove, and
with no clear in progress nothing is lost and nothing is left over. -/
theorem notified_reads {close : ρ → ρ → Bool} {fixingKey : N → K} {d : ω → Bool} {acts : List (Act N K D ρ ω)}
    {w : World K D ρ ω}
    (hok : Machine.along (step close fixingKey) (fun w a => w.spares fixingKey a = true) (initial d) acts)
    (hrun : Machine.run (step close fixingKey) (initial d) acts = some w) :
    (∀ name date, fixing fixingKey w.store name date = fixing fixingKey w.done name date ↔
      w.spares fixingKey (.read name date) = true) ∧
    ((∀ key, w.covered key = false) → ∀ name date,
      fixing fixingKey w.store name date = fixing fixingKey w.done name date) := by
  have hi : w.Inv := Machine.run_invariant_along Inv _ (fun _ _ _ hi ha hs => hi.step ha hs) acts _ _
    (inv_initial d) hok hrun
  have hread : ∀ name date, fixing fixingKey w.done name date =
      if w.covered (fixingKey name) then none else fixing fixingKey w.store name date := fun name date => hi _ date
  refine ⟨fun name date => ?_, fun hc name date => ?_⟩
  · rw [hread]
    cases hcov : w.covered (fixingKey name) <;> simp [spares, hcov]
  · rw [hread, if_neg (by simp [hc])]

/-- A rate is recorded, an observer registers, and the index is cleared: the observer is notified. -/
def cleared : List (Act Unit Unit ℤ ℚ Unit) :=
  [.addFixings () [(0, 1)], .resume, .resume, .call (.registerObserver () ()), .clearFixing (), .resume]

theorem notified_reads_added : ∃ w : World Unit ℤ ℚ Unit,
    Machine.run (step close id) (initial fun _ => true) [.addFixings () [(0, 1)]] = some w ∧
    fixing id w.store () 0 = fixing id w.done () 0 := by
  obtain ⟨w, hw, hread⟩ : ∃ w : World Unit ℤ ℚ Unit,
      Machine.run (step close id) (initial fun _ => true) [.addFixings () [(0, 1)]] = some w ∧
      w.spares id (.read () 0) = true := ⟨_, rfl, rfl⟩
  exact ⟨w, hw, ((notified_reads (by decide) hw).1 () 0).2 hread⟩

/-- **A clear notifies before it removes**: the observer still reads the old rate, and the rate it adds is lost although
no clear comes after it. -/
theorem notified_before_cleared : ∃ w w' : World Unit ℤ ℚ Unit,
    Machine.run (step close id) (initial fun _ => true) cleared = some w ∧
    w.thread.stack.head? = some (.update () none) ∧ fixing id w.store () 0 = some 1 ∧ fixing id w.done () 0 = none ∧
    Machine.run (step close id) w
      [.addFixings () [(1, 2)], .resume, .resume, .ret, .resume, .resume, .resume, .ret, .resume, .resume] = some w' ∧
    w'.thread.stack = [] ∧ fixing id w'.done () 1 = some 2 ∧ fixing id w'.store () 1 = none :=
  ⟨_, _, rfl, rfl, rfl, rfl, rfl, rfl, rfl, rfl⟩

end World
end Settings
end Itofin
