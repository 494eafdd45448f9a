import Itofin.Lib.Machine
import Itofin.Lib.Effect
import Mathlib.Algebra.Ring.Nat
import Mathlib.Data.Int.Notation
import Mathlib.Data.List.Nodup
/-!
# Boundary — the contexts of the C interface and the handles they own

A context owns native objects under handles, which come from one counter shared by all contexts.  A C entry point runs
its body inside `with_context`, which first checks that no callback is active, that the context belongs to the calling
thread and that no panic poisoned it.

The machine below has every context that was ever made.  Its environment chooses the threads, the bodies (one operation
after another, a panic at any point), the outcome of every reservation and the flag of the callbacks; calls on one
context are serialized, as the C contract demands.  The log keeps every operation with its result.
-/
namespace Itofin
namespace Boundary

open Effect (Prog)

def INVALID_ARGUMENT : ℤ := 1
def INVALID_HANDLE : ℤ := 2
def CORE_ERROR : ℤ := 3
def WRONG_THREAD : ℤ := 4
def PANIC : ℤ := 5
def POISONED : ℤ := 6

structure BindingError where
  code    : ℤ
  message : String
  deriving DecidableEq, Repr

def BindingError.invalid (message : String) : BindingError := ⟨INVALID_ARGUMENT, message⟩

variable {ι : Type} {V : ι → Type}

/-- `Box<dyn Any>`: a value with the type it was made at. -/
structure Boxed (V : ι → Type) where
  type  : ι
  value : V type

def Boxed.downcastRef [DecidableEq ι] (b : Boxed V) (t : ι) : Option (V t) :=
  if h : b.type = t then some (h ▸ b.value) else none

theorem Boxed.downcastRef_eq_some [DecidableEq ι] {b : Boxed V} {t : ι} {v : V t} :
    b.downcastRef t = some v ↔ b = ⟨t, v⟩ := by
  obtain ⟨t', v'⟩ := b
  unfold downcastRef
  by_cases h : t' = t
  · subst h
    simp
  · have hne : (⟨t', v'⟩ : Boxed V) ≠ ⟨t, v⟩ := fun heq => h (congrArg Boxed.type heq)
    simp [h, hne]

/-- The fields of a `Context`; a thread is its number. -/
structure Context (V : ι → Type) where
  owner    : ℕ
  poisoned : Bool
  objects  : ℕ → Option (Boxed V)
  metadata : ℕ → Option (Boxed V)

/-- What an operation on a context reads and writes: the context and `NEXT_HANDLE`. -/
structure View (V : ι → Type) where
  next    : ℕ
  context : Context V

namespace Context

def new (thread : ℕ) : Context V := ⟨thread, false, fun _ => none, fun _ => none⟩

def check (c : Context V) (thread : ℕ) : Except BindingError Unit := do
  if c.owner ≠ thread then throw ⟨WRONG_THREAD, "context belongs to another thread"⟩
  if c.poisoned then throw ⟨POISONED, "context was invalidated by a panic; close it"⟩

section
variable [DecidableEq ι]

def get (c : Context V) (t : ι) (id : ℕ) : Except BindingError (V t) :=
  match (c.objects id).bind (fun v => v.downcastRef t) with
  | some v => .ok v
  | none   => .error ⟨INVALID_HANDLE, "unknown, released, foreign, or wrong-type handle"⟩

def optionalMetadata (c : Context V) (t : ι) (id : ℕ) : Option (V t) :=
  (c.metadata id).bind (fun v => v.downcastRef t)

/-- `Context::metadata`. -/
def getMetadata (c : Context V) (t : ι) (id : ℕ) : Except BindingError (V t) :=
  match c.optionalMetadata t id with
  | some v => .ok v
  | none   => .error ⟨INVALID_HANDLE, "unknown, released, foreign, or wrong-type metadata"⟩

end

/-- The fetch-and-update of `NEXT_HANDLE`, with `checked_add` on an unsigned word of 64 bits. -/
def nextHandle : Prog (View V) BindingError ℕ := do
  let s ← Prog.get
  Prog.require (s.next + 1 < 2 ^ 64) (.invalid "handle space exhausted")
  Prog.modify (fun s => { s with next := s.next + 1 })
  pure s.next

/-- `reserved` is the outcome of `try_reserve`. -/
def insert (reserved : Bool) (value : Boxed V) : Prog (View V) BindingError ℕ := do
  Prog.require reserved (.invalid "object allocation failed")
  let id ← nextHandle
  Prog.modify (fun s => { s with context.objects := Function.update s.context.objects id (some value) })
  pure id

def insertWithMetadata (metadataReserved reserved : Bool) (value metadata : Boxed V) :
    Prog (View V) BindingError ℕ := do
  Prog.require metadataReserved (.invalid "metadata allocation failed")
  let id ← insert reserved value
  Prog.modify (fun s => { s with context.metadata := Function.update s.context.metadata id (some metadata) })
  pure id

/-- The body of `itofin_handle_release`. -/
def release (id : ℕ) : Prog (View V) BindingError Unit := do
  let s ← Prog.get
  Prog.require (s.context.objects id).isSome ⟨INVALID_HANDLE, "unknown, released, or foreign handle"⟩
  Prog.modify (fun s => { s with context.objects := Function.update s.context.objects id none })
  Prog.modify (fun s => { s with context.metadata := Function.update s.context.metadata id none })

end Context

/-- An operation on a context, with the outcomes of its reservations. -/
inductive Call (V : ι → Type) where
  | insert (reserved : Bool) (value : Boxed V)
  | insertWithMetadata (metadataReserved reserved : Bool) (value metadata : Boxed V)
  | get (t : ι) (id : ℕ)
  | metadata (t : ι) (id : ℕ)
  | release (id : ℕ)

inductive Outcome (V : ι → Type) where
  | id (id : ℕ)
  | value (v : Boxed V)
  | released

/-- The log keeps every operation with its context and its result. -/
structure Entry (V : ι → Type) where
  context : ℕ
  call    : Call V
  result  : Except BindingError (Outcome V)

/-- The handle that the operation issued, and the object it stands for. -/
def Entry.issued (e : Entry V) : Option (ℕ × Boxed V) :=
  match e.call, e.result with
  | .insert _ v, .ok (.id id)                 => some (id, v)
  | .insertWithMetadata _ _ v _, .ok (.id id) => some (id, v)
  | _, _                                      => none

def Entry.released (e : Entry V) : Option ℕ :=
  match e.call, e.result with
  | .release id, .ok _ => some id
  | _, _               => none

/-- The handles issued so far, by all contexts. -/
def issuedIds (log : List (Entry V)) : List ℕ := log.filterMap (fun e => e.issued.map Prod.fst)

/-- Context `k` issued `id` for `v`. -/
def Issued (log : List (Entry V)) (k id : ℕ) (v : Boxed V) : Prop := ∃ e ∈ log, e.context = k ∧ e.issued = some (id, v)

def Released (log : List (Entry V)) (k id : ℕ) : Prop := ∃ e ∈ log, e.context = k ∧ e.released = some id

section
variable [DecidableEq ι]

def Call.exec : Call V → Prog (View V) BindingError (Outcome V)
  | .insert reserved v                => do return .id (← Context.insert reserved v)
  | .insertWithMetadata mreserved reserved v m => do return .id (← Context.insertWithMetadata mreserved reserved v m)
  | .get t id                         => do
    let s ← Prog.get
    return .value ⟨t, ← Prog.lift (s.context.get t id)⟩
  | .metadata t id                    => do
    let s ← Prog.get
    return .value ⟨t, ← Prog.lift (s.context.getMetadata t id)⟩
  | .release id                       => do
    Context.release id
    return .released

end

/-- Every context that was ever made, by its number; a freed one is gone. -/
structure World (V : ι → Type) where
  /-- `NEXT_HANDLE`. -/
  next     : ℕ
  /-- How many contexts were made. -/
  made     : ℕ
  contexts : ℕ → Option (Context V)
  /-- The thread whose body runs on the context. -/
  running  : ℕ → Option ℕ
  /-- `ACTIVE`, one for each thread. -/
  active   : ℕ → Bool
  /-- The latest operation first. -/
  log      : List (Entry V)

/-- What the threads do. -/
inductive Act (V : ι → Type) where
  | contextNew (thread : ℕ)
  /-- `with_context` up to its body; no context stands for a null or misaligned pointer. -/
  | enter (thread : ℕ) (ptr : Option ℕ)
  /-- An operation of the body that runs on the context. -/
  | body (k : ℕ) (call : Call V)
  | leave (k : ℕ)
  /-- The body panics, and `with_context` contains it. -/
  | panic (k : ℕ)
  /-- An operation of Rust code that owns the context, outside `with_context`. -/
  | direct (k : ℕ) (call : Call V)
  | contextFree (thread : ℕ) (ptr : Option ℕ)
  /-- A callback starts or ends on the thread. -/
  | callback (thread : ℕ) (active : Bool)

namespace World

def start : World V := ⟨1, 0, fun _ => none, fun _ => none, fun _ => false, []⟩

def ensureNotActive (w : World V) (thread : ℕ) : Except BindingError Unit :=
  if w.active thread then throw (.invalid "native context reentry is not allowed inside bootstrap callbacks")
  else pure ()

def checkPtr (ptr : Option (ℕ × Context V)) : Except BindingError (ℕ × Context V) :=
  match ptr with
  | some p => .ok p
  | none   => .error (.invalid "null or misaligned pointer")

/-- `with_context` up to its body. -/
def withContext (w : World V) (thread : ℕ) (ptr : Option (ℕ × Context V)) : Except BindingError ℕ := do
  w.ensureNotActive thread
  let p ← checkPtr ptr
  p.2.check thread
  return p.1

/-- `itofin_context_free` up to the drop. -/
def contextFree (w : World V) (thread : ℕ) (ptr : Option (ℕ × Context V)) : Except BindingError ℕ := do
  let p ← checkPtr ptr
  w.ensureNotActive thread
  if p.2.owner ≠ thread then throw ⟨WRONG_THREAD, "context belongs to another thread"⟩
  return p.1

/-- What a pointer points at: the C contract allows null, or a live context on which no call runs. -/
def deref (w : World V) (ptr : Option ℕ) : Option (Option (ℕ × Context V)) :=
  match ptr with
  | none   => some none
  | some k => match w.contexts k, w.running k with
    | some c, none => some (some (k, c))
    | _, _         => none

variable [DecidableEq ι]

/-- An operation on context `k`, and its line of the log. -/
def call (w : World V) (k : ℕ) (c : Context V) (op : Call V) : World V :=
  { w with
    next     := (op.exec ⟨w.next, c⟩).2.next
    contexts := Function.update w.contexts k (some (op.exec ⟨w.next, c⟩).2.context)
    log      := ⟨k, op, (op.exec ⟨w.next, c⟩).1⟩ :: w.log }

def step (w : World V) : Act V → Option (World V)
  | .contextNew t      => some { w with
    made     := w.made + 1
    contexts := Function.update w.contexts w.made (some (Context.new t)) }
  | .enter t ptr       => (w.deref ptr).map (fun p => match w.withContext t p with
    | .ok k    => { w with running := Function.update w.running k (some t) }
    | .error _ => w)
  | .body k op         => match w.contexts k, w.running k with
    | some c, some _ => some (w.call k c op)
    | _, _           => none
  | .leave k           => match w.running k with
    | some _ => some { w with running := Function.update w.running k none }
    | none   => none
  | .panic k           => match w.contexts k, w.running k with
    | some c, some _ => some { w with
      contexts := Function.update w.contexts k (some { c with poisoned := true })
      running  := Function.update w.running k none }
    | _, _           => none
  | .direct k op       => match w.contexts k, w.running k with
    | some c, none => some (w.call k c op)
    | _, _         => none
  | .contextFree t ptr => (w.deref ptr).map (fun p => match w.contextFree t p with
    | .ok k    => { w with contexts := Function.update w.contexts k none }
    | .error _ => w)
  | .callback t b      => some { w with active := Function.update w.active t b }

end World

/-! ### What one operation does -/

theorem nextHandle_run (s : View V) : Context.nextHandle s =
    if s.next + 1 < 2 ^ 64 then (.ok s.next, { s with next := s.next + 1 })
    else (.error (.invalid "handle space exhausted"), s) := by
  by_cases h : s.next + 1 < 2 ^ 64 <;> simp [Context.nextHandle, -Nat.reducePow, h]

theorem insert_run (reserved : Bool) (v : Boxed V) (s : View V) :
    (∃ e, Context.insert reserved v s = (.error e, s)) ∨
    Context.insert reserved v s = (.ok s.next, ⟨s.next + 1,
      { s.context with objects := Function.update s.context.objects s.next (some v) }⟩) := by
  by_cases hr : reserved
  · by_cases h : s.next + 1 < 2 ^ 64
    · right
      simp [Context.insert, nextHandle_run, -Nat.reducePow, hr, h]
    · left
      simp [Context.insert, nextHandle_run, -Nat.reducePow, hr, h]
  · left
    simp [Context.insert, hr]

theorem insertWithMetadata_run (mreserved reserved : Bool) (v m : Boxed V) (s : View V) :
    (∃ e, Context.insertWithMetadata mreserved reserved v m s = (.error e, s)) ∨
    Context.insertWithMetadata mreserved reserved v m s = (.ok s.next, ⟨s.next + 1,
      { s.context with
        objects  := Function.update s.context.objects s.next (some v)
        metadata := Function.update s.context.metadata s.next (some m) }⟩) := by
  by_cases hm : mreserved
  · rcases insert_run reserved v s with ⟨e, h⟩ | h
    · left
      exact ⟨e, by simp [Context.insertWithMetadata, hm, h]⟩
    · right
      simp [Context.insertWithMetadata, hm, h]
  · left
    simp [Context.insertWithMetadata, hm]

theorem release_run (id : ℕ) (s : View V) :
    (∃ e, Context.release id s = (.error e, s)) ∨
    (s.context.objects id).isSome ∧ Context.release id s = (.ok (), ⟨s.next,
      { s.context with
        objects  := Function.update s.context.objects id none
        metadata := Function.update s.context.metadata id none }⟩) := by
  by_cases h : (s.context.objects id).isSome
  · right
    simp [Context.release, h]
  · left
    simp [Context.release, h]

section
variable [DecidableEq ι]

theorem get_eq_ok {c : Context V} {t : ι} {id : ℕ} {v : V t} : c.get t id = .ok v ↔ c.objects id = some ⟨t, v⟩ := by
  unfold Context.get
  constructor
  · intro h
    split at h
    · rename_i w hw
      obtain ⟨b, hb, hd⟩ := Option.bind_eq_some_iff.1 hw
      rw [hb, Boxed.downcastRef_eq_some.1 hd, Except.ok.inj h]
    · exact nomatch h
  · intro h
    have hd : (c.objects id).bind (fun b => b.downcastRef t) = some v := by
      rw [h]
      exact Boxed.downcastRef_eq_some.2 rfl
    rw [hd]

/-- **What an operation does**, with its line of the log: nothing, the issue of the next handle, or a release. -/
theorem exec_cases (k : ℕ) (op : Call V) (s : View V) :
    ((Entry.mk k op (op.exec s).1).issued = none ∧ (Entry.mk k op (op.exec s).1).released = none ∧
      (op.exec s).2 = s) ∨
    (∃ v metadata, (Entry.mk k op (op.exec s).1).issued = some (s.next, v) ∧
      (Entry.mk k op (op.exec s).1).released = none ∧ (∀ i, i ≠ s.next → metadata i = s.context.metadata i) ∧
      (op.exec s).2 = ⟨s.next + 1, { s.context with
        objects  := Function.update s.context.objects s.next (some v)
        metadata := metadata }⟩) ∨
    ∃ id, (Entry.mk k op (op.exec s).1).issued = none ∧ (Entry.mk k op (op.exec s).1).released = some id ∧
      (s.context.objects id).isSome ∧
      (op.exec s).2 = ⟨s.next, { s.context with
        objects  := Function.update s.context.objects id none
        metadata := Function.update s.context.metadata id none }⟩ := by
  cases op with
  | insert reserved v =>
    rcases insert_run reserved v s with ⟨e, h⟩ | h
    · left
      simp [Call.exec, h, Entry.issued, Entry.released]
    · right; left
      refine ⟨v, s.context.metadata, ?_⟩
      simp [Call.exec, h, Entry.issued, Entry.released]
  | insertWithMetadata mreserved reserved v m =>
    rcases insertWithMetadata_run mreserved reserved v m s with ⟨e, h⟩ | h
    · left
      simp [Call.exec, h, Entry.issued, Entry.released]
    · right; left
      refine ⟨v, Function.update s.context.metadata s.next (some m), ?_⟩
      simp +contextual [Call.exec, h, Entry.issued, Entry.released, Function.update_of_ne]
  | get t id =>
    left
    cases h : s.context.get t id <;> simp [Call.exec, h, Entry.issued, Entry.released]
  | metadata t id =>
    left
    cases h : s.context.getMetadata t id <;> simp [Call.exec, h, Entry.issued, Entry.released]
  | release id =>
    rcases release_run id s with ⟨e, h⟩ | ⟨hid, h⟩
    · left
      simp [Call.exec, h, Entry.issued, Entry.released]
    · right; right
      refine ⟨id, ?_⟩
      simp [Call.exec, h, hid, Entry.issued, Entry.released]

end

/-! ### The books -/

@[simp] theorem issued_cons {e : Entry V} {log : List (Entry V)} {k id : ℕ} {v : Boxed V} :
    Issued (e :: log) k id v ↔ (e.context = k ∧ e.issued = some (id, v)) ∨ Issued log k id v := by
  simp [Issued]

@[simp] theorem released_cons {e : Entry V} {log : List (Entry V)} {k id : ℕ} :
    Released (e :: log) k id ↔ (e.context = k ∧ e.released = some id) ∨ Released log k id := by
  simp [Released]

theorem mem_issuedIds {log : List (Entry V)} {id : ℕ} : id ∈ issuedIds log ↔ ∃ k v, Issued log k id v := by
  simp only [issuedIds, Issued, List.mem_filterMap, Option.map_eq_some_iff]
  constructor
  · rintro ⟨e, he, ⟨id', v⟩, hi, rfl⟩
    exact ⟨e.context, v, e, he, rfl, hi⟩
  · rintro ⟨k, v, e, he, -, hi⟩
    exact ⟨e, he, (id, v), hi, rfl⟩

/-- What holds of the log and the counter: every handle was issued once, below the counter, and only issued ones are
released. -/
structure Books (next : ℕ) (log : List (Entry V)) : Prop where
  pos      : 0 < next
  bounds   : ∀ id ∈ issuedIds log, 0 < id ∧ id < next
  nodup    : (issuedIds log).Nodup
  released : ∀ k id, Released log k id → ∃ v, Issued log k id v

/-- What context `k` holds, read off the log: the issued handles that were not released, and metadata only for them. -/
structure Table (log : List (Entry V)) (k : ℕ) (c : Context V) : Prop where
  object : ∀ id v, c.objects id = some v ↔ Issued log k id v ∧ ¬ Released log k id
  live   : ∀ id, (c.metadata id).isSome → (c.objects id).isSome

namespace Books

variable {next : ℕ} {log : List (Entry V)}

theorem fresh (h : Books next log) (k : ℕ) (v : Boxed V) : ¬ Issued log k next v := by
  intro hi
  exact Nat.lt_irrefl _ (h.bounds next (mem_issuedIds.2 ⟨k, v, hi⟩)).2

theorem unreleased (h : Books next log) (k : ℕ) : ¬ Released log k next := by
  intro hr
  obtain ⟨v, hv⟩ := h.released k next hr
  exact h.fresh k v hv

end Books

theorem table_other {log : List (Entry V)} {e : Entry V} {j : ℕ} {c : Context V} (hne : e.context ≠ j)
    (ht : Table log j c) : Table (e :: log) j c := by
  refine ⟨fun id v => ?_, ht.live⟩
  simpa [hne] using ht.object id v

section
variable [DecidableEq ι] {log : List (Entry V)} {k : ℕ} {s : View V}

theorem books_call (op : Call V) (h : Books s.next log) (ht : Table log k s.context) :
    Books (op.exec s).2.next (⟨k, op, (op.exec s).1⟩ :: log) := by
  rcases exec_cases k op s with ⟨hi, hr, hs⟩ | ⟨v, m, hi, hr, -, hs⟩ | ⟨id, hi, hr, hid, hs⟩
  · rw [hs]
    refine ⟨h.pos, ?_, ?_, ?_⟩
    · simpa [issuedIds, hi] using h.bounds
    · simpa [issuedIds, hi] using h.nodup
    · simpa [hi, hr] using h.released
  · rw [hs]
    have hids : issuedIds (⟨k, op, (op.exec s).1⟩ :: log) = s.next :: issuedIds log := by
      simp [issuedIds, hi]
    refine ⟨Nat.succ_pos _, ?_, ?_, ?_⟩
    · rw [hids]
      intro id hid
      rcases List.mem_cons.1 hid with rfl | hid
      · exact ⟨h.pos, Nat.lt_succ_self _⟩
      · exact ⟨(h.bounds id hid).1, Nat.lt_succ_of_lt (h.bounds id hid).2⟩
    · rw [hids, List.nodup_cons]
      exact ⟨fun hm => Nat.lt_irrefl _ (h.bounds _ hm).2, h.nodup⟩
    · intro j id hj
      rw [released_cons] at hj
      rcases hj with ⟨-, hj⟩ | hj
      · rw [hr] at hj
        exact nomatch hj
      · obtain ⟨w, hw⟩ := h.released j id hj
        exact ⟨w, issued_cons.2 (.inr hw)⟩
  · rw [hs]
    refine ⟨h.pos, ?_, ?_, ?_⟩
    · simpa [issuedIds, hi] using h.bounds
    · simpa [issuedIds, hi] using h.nodup
    · intro j i hj
      rw [released_cons, hr, Option.some.injEq] at hj
      rcases hj with ⟨rfl, rfl⟩ | hj
      · obtain ⟨v, hv⟩ := Option.isSome_iff_exists.1 hid
        exact ⟨v, issued_cons.2 (.inr ((ht.object id v).1 hv).1)⟩
      · obtain ⟨w, hw⟩ := h.released j i hj
        exact ⟨w, issued_cons.2 (.inr hw)⟩

theorem table_call (op : Call V) (h : Books s.next log) (ht : Table log k s.context) :
    Table (⟨k, op, (op.exec s).1⟩ :: log) k (op.exec s).2.context := by
  rcases exec_cases k op s with ⟨hi, hr, hs⟩ | ⟨v, m, hi, hr, hm, hs⟩ | ⟨id, hi, hr, hid, hs⟩
  · rw [hs]
    refine ⟨fun id v => ?_, ht.live⟩
    simpa [hi, hr] using ht.object id v
  · rw [hs]
    refine ⟨fun id w => ?_, fun id hlive => ?_⟩
    · by_cases hid : id = s.next
      · subst hid
        simp [hi, hr, h.fresh, h.unreleased]
      · have hne : s.next ≠ id := Ne.symm hid
        simpa [hi, hr, Function.update_of_ne hid, hne] using ht.object id w
    · by_cases hid : id = s.next
      · subst hid
        simp
      · simp only [Function.update_of_ne hid, hm id hid] at hlive ⊢
        exact ht.live id hlive
  · rw [hs]
    refine ⟨fun i w => ?_, fun i hlive => ?_⟩
    · by_cases hne : i = id
      · subst hne
        simp [hi, hr]
      · have hne' : id ≠ i := Ne.symm hne
        simpa [hi, hr, Function.update_of_ne hne, hne'] using ht.object i w
    · by_cases hne : i = id
      · subst hne
        simp at hlive
      · simp only [Function.update_of_ne hne] at hlive ⊢
        exact ht.live i hlive

theorem exec_frame (op : Call V) (s : View V) :
    (op.exec s).2.context.owner = s.context.owner ∧ (op.exec s).2.context.poisoned = s.context.poisoned := by
  rcases exec_cases 0 op s with ⟨-, -, hs⟩ | ⟨v, m, -, -, -, hs⟩ | ⟨id, -, -, -, hs⟩ <;> simp [hs]

end

/-! ### Every run -/

namespace World

structure Inv (w : World V) : Prop where
  books   : Books w.next w.log
  made    : ∀ k c, w.contexts k = some c → k < w.made
  logged  : ∀ e ∈ w.log, e.context < w.made
  table   : ∀ k c, w.contexts k = some c → Table w.log k c
  running : ∀ k t, w.running k = some t → ∃ c, w.contexts k = some c ∧ c.owner = t ∧ c.poisoned = false

theorem inv_start : Inv (start : World V) :=
  ⟨⟨Nat.one_pos, by simp [start, issuedIds], by simp [start, issuedIds], by simp [start, Released]⟩,
    by simp [start], by simp [start], by simp [start], by simp [start]⟩

theorem deref_eq_some {w : World V} {ptr : Option ℕ} {p : Option (ℕ × Context V)} (h : w.deref ptr = some p) :
    p = none ∨ ∃ k c, p = some (k, c) ∧ w.contexts k = some c ∧ w.running k = none := by
  cases ptr with
  | none   =>
    left
    exact (Option.some.inj h).symm
  | some k =>
    right
    simp only [deref] at h
    split at h
    · rename_i c hc hk
      exact ⟨k, c, (Option.some.inj h).symm, hc, hk⟩
    · exact nomatch h

theorem contexts_update {w : World V} {k j : ℕ} {c d : Option (Context V)} (h : Function.update w.contexts k c j = d) :
    j = k ∧ c = d ∨ j ≠ k ∧ w.contexts j = d := by
  by_cases hjk : j = k
  · subst hjk
    rw [Function.update_self] at h
    exact .inl ⟨rfl, h⟩
  · rw [Function.update_of_ne hjk] at h
    exact .inr ⟨hjk, h⟩

theorem check_eq_ok {c : Context V} {thread : ℕ} : c.check thread = .ok () ↔ c.owner = thread ∧ c.poisoned = false := by
  by_cases ho : c.owner = thread <;> cases hp : c.poisoned <;>
    simp [Context.check, ho, hp, pure, Except.pure, throw, throwThe, MonadExceptOf.throw, bind, Except.bind]

theorem ensureNotActive_eq_ok {w : World V} {thread : ℕ} :
    w.ensureNotActive thread = .ok () ↔ w.active thread = false := by
  cases h : w.active thread <;> simp [ensureNotActive, h, pure, Except.pure, throw, throwThe, MonadExceptOf.throw]

theorem checkPtr_eq_ok {p : Option (ℕ × Context V)} {q : ℕ × Context V} : checkPtr p = .ok q ↔ p = some q := by
  cases p <;> simp [checkPtr]

theorem withContext_ok {w : World V} {thread k : ℕ} {p : Option (ℕ × Context V)}
    (h : w.withContext thread p = .ok k) :
    w.active thread = false ∧ ∃ c, p = some (k, c) ∧ c.owner = thread ∧ c.poisoned = false := by
  obtain ⟨_, ha, h⟩ := Effect.bind_eq_ok.1 h
  obtain ⟨⟨k', c⟩, hp, h⟩ := Effect.bind_eq_ok.1 h
  obtain ⟨_, hc, h⟩ := Effect.bind_eq_ok.1 h
  obtain rfl : k' = k := Except.ok.inj h
  exact ⟨ensureNotActive_eq_ok.1 ha, c, checkPtr_eq_ok.1 hp, check_eq_ok.1 hc⟩

theorem contextFree_ok {w : World V} {thread k : ℕ} {p : Option (ℕ × Context V)}
    (h : w.contextFree thread p = .ok k) : ∃ c, p = some (k, c) := by
  obtain ⟨⟨k', c⟩, hp, h⟩ := Effect.bind_eq_ok.1 h
  obtain ⟨_, -, h⟩ := Effect.bind_eq_ok.1 h
  by_cases ho : c.owner = thread
  · simp only [ho, ne_eq, not_true_eq_false, if_false] at h
    obtain rfl : k' = k := Except.ok.inj h
    exact ⟨c, checkPtr_eq_ok.1 hp⟩
  · simp only [ho, ne_eq, not_false_eq_true, if_true] at h
    exact nomatch h

variable [DecidableEq ι]

@[simp] theorem call_contexts (w : World V) (k : ℕ) (c : Context V) (op : Call V) :
    (w.call k c op).contexts = Function.update w.contexts k (some (op.exec ⟨w.next, c⟩).2.context) := rfl

@[simp] theorem call_running (w : World V) (k : ℕ) (c : Context V) (op : Call V) :
    (w.call k c op).running = w.running := rfl

theorem Inv.call {w : World V} {k : ℕ} {c : Context V} (op : Call V) (h : w.Inv) (hc : w.contexts k = some c) :
    (w.call k c op).Inv := by
  have ht : Table w.log k c := h.table k c hc
  obtain ⟨howner, hpoisoned⟩ := exec_frame op ⟨w.next, c⟩
  constructor
  · exact books_call op h.books ht
  · intro j d hj
    rcases contexts_update hj with ⟨rfl, -⟩ | ⟨-, hj⟩
    · exact h.made j c hc
    · exact h.made j d hj
  · intro e he
    rcases List.mem_cons.1 he with rfl | he
    · exact h.made k c hc
    · exact h.logged e he
  · intro j d hj
    rcases contexts_update hj with ⟨rfl, hd⟩ | ⟨hjk, hj⟩
    · rw [← Option.some.inj hd]
      exact table_call op h.books ht
    · exact table_other (Ne.symm hjk) (h.table j d hj)
  · intro j t hj
    obtain ⟨d, hd, ho, hp⟩ := h.running j t hj
    rw [call_contexts]
    by_cases hjk : j = k
    · subst hjk
      obtain rfl : c = d := Option.some.inj (hc.symm.trans hd)
      exact ⟨_, Function.update_self .., howner.trans ho, hpoisoned.trans hp⟩
    · exact ⟨d, (Function.update_of_ne hjk ..).trans hd, ho, hp⟩

omit [DecidableEq ι] in
theorem Inv.create {w : World V} (h : w.Inv) (t : ℕ) : Inv { w with
    made := w.made + 1, contexts := Function.update w.contexts w.made (some (Context.new t)) } := by
  have hlogged : ∀ e ∈ w.log, e.context < w.made + 1 := fun e he => Nat.lt_succ_of_lt (h.logged e he)
  refine ⟨h.books, fun k c hk => ?_, hlogged, fun k c hk => ?_, fun k t hk => ?_⟩
  · rcases contexts_update hk with ⟨rfl, -⟩ | ⟨-, hk⟩
    · exact Nat.lt_succ_self _
    · exact Nat.lt_succ_of_lt (h.made k c hk)
  · rcases contexts_update hk with ⟨rfl, hnew⟩ | ⟨-, hk⟩
    · obtain rfl := Option.some.inj hnew
      refine ⟨fun id v => iff_of_false (fun hn => nomatch hn) ?_, fun id hid => nomatch hid⟩
      rintro ⟨⟨e, he, hm, -⟩, -⟩
      exact Nat.ne_of_lt (h.logged e he) hm
    · exact h.table k c hk
  · obtain ⟨c, hc, ho, hp⟩ := h.running k t hk
    have hkm : k ≠ w.made := Nat.ne_of_lt (h.made k c hc)
    exact ⟨c, (Function.update_of_ne hkm ..).trans hc, ho, hp⟩

omit [DecidableEq ι] in
theorem Inv.setRunning {w : World V} (h : w.Inv) (k : ℕ) (r : Option ℕ)
    (hr : ∀ t, r = some t → ∃ c, w.contexts k = some c ∧ c.owner = t ∧ c.poisoned = false) :
    Inv { w with running := Function.update w.running k r } := by
  refine ⟨h.books, h.made, h.logged, h.table, fun j t hj => ?_⟩
  by_cases hjk : j = k
  · subst hjk
    simp only [Function.update_self] at hj
    exact hr t hj
  · simp only [Function.update_of_ne hjk] at hj
    exact h.running j t hj

omit [DecidableEq ι] in
/-- A body that panics poisons its context, which keeps its objects. -/
theorem Inv.panic {w : World V} {k : ℕ} {c : Context V} (h : w.Inv) (hc : w.contexts k = some c) : Inv { w with
    contexts := Function.update w.contexts k (some { c with poisoned := true })
    running  := Function.update w.running k none } := by
  refine ⟨h.books, fun j d hj => ?_, h.logged, fun j d hj => ?_, fun j t hj => ?_⟩
  · rcases contexts_update hj with ⟨rfl, -⟩ | ⟨-, hj⟩
    · exact h.made j c hc
    · exact h.made j d hj
  · rcases contexts_update hj with ⟨rfl, hd⟩ | ⟨-, hj⟩
    · rw [← Option.some.inj hd]
      exact ⟨(h.table j c hc).object, (h.table j c hc).live⟩
    · exact h.table j d hj
  · by_cases hjk : j = k
    · subst hjk
      simp at hj
    · simp only [Function.update_of_ne hjk] at hj ⊢
      exact h.running j t hj

omit [DecidableEq ι] in
theorem Inv.free {w : World V} {k : ℕ} (h : w.Inv) (hidle : w.running k = none) :
    Inv { w with contexts := Function.update w.contexts k none } := by
  refine ⟨h.books, fun j d hj => ?_, h.logged, fun j d hj => ?_, fun j t hj => ?_⟩
  · rcases contexts_update hj with ⟨-, hd⟩ | ⟨-, hj⟩
    · exact nomatch hd
    · exact h.made j d hj
  · rcases contexts_update hj with ⟨-, hd⟩ | ⟨-, hj⟩
    · exact nomatch hd
    · exact h.table j d hj
  · have hjk : j ≠ k := by
      rintro rfl
      exact nomatch hidle.symm.trans hj
    simp only [Function.update_of_ne hjk]
    exact h.running j t hj

theorem inv_step (w : World V) (a : Act V) (w' : World V) (h : w.Inv) (hs : w.step a = some w') : w'.Inv := by
  cases a with
  | contextNew t =>
    obtain rfl := Option.some.inj hs
    exact h.create t
  | enter t ptr =>
    obtain ⟨p, hp, rfl⟩ := Option.map_eq_some_iff.1 hs
    split
    · rename_i k hk
      obtain ⟨-, c, rfl, ho, hpois⟩ := withContext_ok hk
      obtain hnone | ⟨k', c', heq, hc, -⟩ := deref_eq_some hp
      · exact nomatch hnone
      obtain ⟨rfl, rfl⟩ := Prod.mk.inj (Option.some.inj heq)
      exact h.setRunning k (some t) (fun t' ht => ⟨c, hc, ho.trans (Option.some.inj ht), hpois⟩)
    · exact h
  | body k op =>
    simp only [step] at hs
    split at hs
    · rename_i c _ hc _
      rw [← Option.some.inj hs]
      exact h.call op hc
    · exact nomatch hs
  | leave k =>
    simp only [step] at hs
    split at hs
    · rw [← Option.some.inj hs]
      exact h.setRunning k none (fun _ ht => nomatch ht)
    · exact nomatch hs
  | panic k =>
    simp only [step] at hs
    split at hs
    · rename_i c _ hc _
      rw [← Option.some.inj hs]
      exact h.panic hc
    · exact nomatch hs
  | direct k op =>
    simp only [step] at hs
    split at hs
    · rename_i c hc _
      rw [← Option.some.inj hs]
      exact h.call op hc
    · exact nomatch hs
  | contextFree t ptr =>
    obtain ⟨p, hp, rfl⟩ := Option.map_eq_some_iff.1 hs
    split
    · rename_i k hk
      obtain ⟨c, rfl⟩ := contextFree_ok hk
      obtain hnone | ⟨k', c', heq, -, hidle⟩ := deref_eq_some hp
      · exact nomatch hnone
      obtain ⟨rfl, rfl⟩ := Prod.mk.inj (Option.some.inj heq)
      exact h.free hidle
    · exact h
  | callback t b =>
    obtain rfl := Option.some.inj hs
    exact ⟨h.books, h.made, h.logged, h.table, h.running⟩

theorem inv_run (as : List (Act V)) (w : World V) (h : Machine.run step start as = some w) : w.Inv :=
  Machine.run_invariant Inv inv_step as _ _ inv_start h

/-- **The handle table**, after every run: no handle was issued twice and none is 0; a context gives out an object
exactly under a handle that it issued for it and that was not released, at the object's type; metadata stand for live
objects; and a body runs only on a sound context of its own thread. -/
theorem handle_table (as : List (Act V)) (w : World V) (h : Machine.run step start as = some w) :
    (issuedIds w.log).Nodup ∧ 0 ∉ issuedIds w.log ∧
    (∀ k c, w.contexts k = some c → ∀ t id v,
      c.get t id = .ok v ↔ Issued w.log k id ⟨t, v⟩ ∧ ¬ Released w.log k id) ∧
    (∀ k c, w.contexts k = some c → ∀ id, (c.metadata id).isSome →
      ∃ v, Issued w.log k id v ∧ ¬ Released w.log k id ∧ c.objects id = some v) ∧
    (∀ k op w', w.step (.body k op) = some w' →
      ∃ t c, w.running k = some t ∧ w.contexts k = some c ∧ c.owner = t ∧ c.poisoned = false) := by
  have hi := inv_run as w h
  refine ⟨hi.books.nodup, fun hz => Nat.lt_irrefl _ (hi.books.bounds 0 hz).1, ?_, ?_, ?_⟩
  · intro k c hc t id v
    rw [get_eq_ok]
    exact (hi.table k c hc).object id ⟨t, v⟩
  · intro k c hc id hm
    obtain ⟨v, hv⟩ := Option.isSome_iff_exists.1 ((hi.table k c hc).live id hm)
    obtain ⟨hissued, hreleased⟩ := ((hi.table k c hc).object id v).1 hv
    exact ⟨v, hissued, hreleased, hv⟩
  · intro k op w' hs
    simp only [step] at hs
    split at hs
    · rename_i c t hc ht
      obtain ⟨d, hd, ho, hp⟩ := hi.running k t ht
      exact ⟨t, d, ht, hd, ho, hp⟩
    · exact nomatch hs

/-- Two contexts on two threads; the second thread is refused the first context, and its own body panics. -/
def twoThreads : List (Act (fun t : Bool => if t then ℕ else String)) :=
  [.contextNew 0, .contextNew 1, .enter 0 (some 0), .body 0 (.insert true ⟨true, (42 : ℕ)⟩), .leave 0,
    .enter 1 (some 0), .enter 1 (some 1), .body 1 (.insertWithMetadata true true ⟨true, (7 : ℕ)⟩ ⟨false, "curve"⟩),
    .body 1 (.insert true ⟨false, "quote"⟩), .body 1 (.release 3), .panic 1]

theorem handle_table_twoThreads : ∃ w : World (fun t : Bool => if t then ℕ else String),
    Machine.run step start twoThreads = some w ∧ issuedIds w.log = [3, 2, 1] ∧ (issuedIds w.log).Nodup := by
  have hrun : ∃ w : World (fun t : Bool => if t then ℕ else String),
      Machine.run step start twoThreads = some w ∧ issuedIds w.log = [3, 2, 1] := ⟨_, rfl, rfl⟩
  obtain ⟨w, hw, hids⟩ := hrun
  exact ⟨w, hw, hids, (handle_table twoThreads w hw).1⟩

end World
end Boundary
end Itofin
