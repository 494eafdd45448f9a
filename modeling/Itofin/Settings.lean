import Itofin.Lib.Machine
import Mathlib.Data.List.AList
import Mathlib.Data.Rat.Lemmas
import Mathlib.Algebra.Order.Field.Rat
/-!
# Settings — the fixing store and its batches

The fixing history of `settings.rs`: a map from index keys to the rates recorded on each date.  `addFixings` validates
its whole batch against the store and then writes all of it; `addEach` adds the pairs of a batch one at a time, and is
what a batch is compared with.  The rates, their `close` test and the key of a name are parameters: no result depends on
how rates are compared.

`addFixings` writes a rate that is only close to the stored one, and does not compare the pairs of a batch with each
other, so the laws of the store are conditional: `fixing_laws` says exactly when they hold of a batch.
-/
namespace Itofin

/-! ## Proximity, over exact rationals -/

/-- `f64::EPSILON`. -/
def epsilon : ℚ := 1 / 2 ^ 52

/-- `close_n`, without the cases of infinities and NaN. -/
def closeN (x y : ℚ) (n : ℕ) : Bool :=
  if x = y then true
  else
    let diff := |x - y|
    let tolerance := n * epsilon
    if x = 0 ∨ y = 0 then diff < tolerance * tolerance
    else diff ≤ tolerance * |x| && diff ≤ tolerance * |y|

def close (x y : ℚ) : Bool := closeN x y 42

namespace Settings

/-- The fixings of one index, by date. -/
abbrev History (D ρ : Type) := AList (fun _ : D => ρ)

/-- The histories, by index key. -/
abbrev FixingStore (K D ρ : Type) := AList (fun _ : K => History D ρ)

/-- "duplicated fixing {rate} on {date:?} while {existing} is already present", between braces its three values. -/
structure Duplicated (D ρ : Type) where
  rate : ρ
  date : D
  existing : ρ
deriving DecidableEq, Repr

variable {N K D ρ : Type} [DecidableEq K] [DecidableEq D]

/-- The validation loop of `add_fixings`. -/
def checkFixings (close : ρ → ρ → Bool) (history : History D ρ) : List (D × ρ) → Except (Duplicated D ρ) Unit
  | []                   => .ok ()
  | (date, rate) :: rest => match history.lookup date with
    | none          => checkFixings close history rest
    | some existing =>
      if close existing rate then checkFixings close history rest else .error ⟨rate, date, existing⟩

/-- The writing loop of `add_fixings`. -/
def insertFixings (history : History D ρ) : List (D × ρ) → History D ρ
  | []                   => history
  | (date, rate) :: rest => insertFixings (history.insert date rate) rest

/-- `store.entry(key).or_default()`. -/
def entryOrDefault (store : FixingStore K D ρ) (key : K) : FixingStore K D ρ :=
  if key ∈ store then store else store.insert key ∅

/-- `Settings::add_fixings` up to its notification: the result, and the store after it. -/
def addFixings (close : ρ → ρ → Bool) (fixingKey : N → K) (store : FixingStore K D ρ) (name : N)
    (fixings : List (D × ρ)) : Except (Duplicated D ρ) Unit × FixingStore K D ρ :=
  let key := fixingKey name
  let store := entryOrDefault store key
  let history := (store.lookup key).getD ∅
  match checkFixings close history fixings with
  | .error e => (.error e, store)
  | .ok ()   => (.ok (), store.insert key (insertFixings history fixings))

def addFixing (close : ρ → ρ → Bool) (fixingKey : N → K) (store : FixingStore K D ρ) (name : N) (date : D) (rate : ρ) :
    Except (Duplicated D ρ) Unit × FixingStore K D ρ :=
  addFixings close fixingKey store name [(date, rate)]

def fixing (fixingKey : N → K) (store : FixingStore K D ρ) (name : N) (date : D) : Option ρ :=
  (store.lookup (fixingKey name)).bind (fun history => history.lookup date)

/-- What `clear_fixing` does to the store. -/
def clearFixing (fixingKey : N → K) (store : FixingStore K D ρ) (name : N) : FixingStore K D ρ :=
  store.erase (fixingKey name)

/-- The pairs of a batch added one at a time, up to the first that is rejected. -/
def addEach (close : ρ → ρ → Bool) (fixingKey : N → K) (store : FixingStore K D ρ) (name : N) :
    List (D × ρ) → Except (Duplicated D ρ) Unit × FixingStore K D ρ
  | []                   => (.ok (), store)
  | (date, rate) :: rest => match addFixing close fixingKey store name date rate with
    | (.error e, store) => (.error e, store)
    | (.ok (), store)   => addEach close fixingKey store name rest

/-! ## What a batch leaves -/

/-- The rate a batch leaves on a date: its last one, or the stored one. -/
def latest (stored : D → Option ρ) : List (D × ρ) → D → Option ρ
  | [], date              => stored date
  | (d, rate) :: rest, date => latest (Function.update stored d (some rate)) rest date

theorem lookup_insertFixings : ∀ (fixings : List (D × ρ)) (history : History D ρ) (date : D),
    (insertFixings history fixings).lookup date = latest (fun d => history.lookup d) fixings date
  | [], _, _ => rfl
  | (d, rate) :: rest, history, date => by
    rw [insertFixings, lookup_insertFixings rest, latest]
    congr 1
    funext d'
    by_cases hd : d' = d
    · subst hd; simp
    · simp [hd, AList.lookup_insert_ne hd]

/-- **No pair conflicts with the store**: each is close to what was stored for its date. -/
def CloseToStored (close : ρ → ρ → Bool) (stored : D → Option ρ) (fixings : List (D × ρ)) : Prop :=
  ∀ p ∈ fixings, ∀ existing, stored p.1 = some existing → close existing p.2 = true

/-- **No pair conflicts in its turn**: each is close to the pair before it for its date, or to what was stored. -/
def CloseInTurn (close : ρ → ρ → Bool) (stored : D → Option ρ) (fixings : List (D × ρ)) : Prop :=
  ∀ before p after, fixings = before ++ p :: after →
    ∀ existing, latest stored before p.1 = some existing → close existing p.2 = true

/-- **The last pair for a stored date repeats the stored value.** -/
def Repeats (stored : D → Option ρ) (fixings : List (D × ρ)) : Prop :=
  ∀ date rate, stored date = some rate → latest stored fixings date = some rate

omit [DecidableEq D] in
theorem closeToStored_cons {close : ρ → ρ → Bool} {stored : D → Option ρ} {p : D × ρ} {rest : List (D × ρ)} :
    CloseToStored close stored (p :: rest) ↔
      (∀ existing, stored p.1 = some existing → close existing p.2 = true) ∧ CloseToStored close stored rest :=
  List.forall_mem_cons

theorem closeInTurn_cons {close : ρ → ρ → Bool} {stored : D → Option ρ} {p : D × ρ} {rest : List (D × ρ)} :
    CloseInTurn close stored (p :: rest) ↔
      (∀ existing, stored p.1 = some existing → close existing p.2 = true) ∧
        CloseInTurn close (Function.update stored p.1 (some p.2)) rest := by
  constructor
  · exact fun h => ⟨h [] p rest rfl, fun before q after heq => h (p :: before) q after (by rw [heq]; rfl)⟩
  · rintro ⟨hp, hrest⟩ before q after heq
    cases before with
    | nil =>
      cases heq; exact hp
    | cons b before =>
      cases heq; exact hrest before q after rfl

theorem checkFixings_isOk (close : ρ → ρ → Bool) (history : History D ρ) : ∀ (fixings : List (D × ρ)),
    (checkFixings close history fixings).isOk = true ↔ CloseToStored close (fun d => history.lookup d) fixings
  | [] => by simp [checkFixings, CloseToStored, Except.isOk, Except.toBool]
  | (date, rate) :: rest => by
    rw [closeToStored_cons, checkFixings, ← checkFixings_isOk close history rest]
    cases history.lookup date with
    | none => simp
    | some existing =>
      by_cases hc : close existing rate = true
      · simp [hc]
      · simp [hc, Except.isOk, Except.toBool]

/-! ## What `add_fixings` does -/

section Add

variable {close : ρ → ρ → Bool} {fixingKey : N → K} {store : FixingStore K D ρ} {name : N}

omit [DecidableEq D] in
theorem lookup_entryOrDefault (store : FixingStore K D ρ) (key : K) :
    ((entryOrDefault store key).lookup key).getD ∅ = (store.lookup key).getD ∅ := by
  unfold entryOrDefault
  split
  · rfl
  · rename_i hk
    rw [AList.lookup_insert, AList.lookup_eq_none.2 hk]
    rfl

/-- The history a batch is validated against reads as the store does. -/
theorem lookup_history (store : FixingStore K D ρ) (name : N) :
    (fun d => ((store.lookup (fixingKey name)).getD ∅).lookup d) = fixing fixingKey store name := by
  funext d
  unfold fixing
  cases store.lookup (fixingKey name) <;> rfl

theorem addFixings_isOk (fixings : List (D × ρ)) : (addFixings close fixingKey store name fixings).1.isOk = true ↔
    CloseToStored close (fixing fixingKey store name) fixings := by
  rw [← lookup_history, ← checkFixings_isOk, addFixings]
  simp only [lookup_entryOrDefault]
  split
  · rename_i h; rw [h]
  · rename_i h; rw [h]

/-- **A rejected batch leaves the store unchanged**: the rejection needs a stored rate, so the entry was there. -/
theorem addFixings_rejected {fixings : List (D × ρ)}
    (h : (addFixings close fixingKey store name fixings).1.isOk = false) :
    (addFixings close fixingKey store name fixings).2 = store := by
  have hn : ¬CloseToStored close (fixing fixingKey store name) fixings := by
    rw [← addFixings_isOk, h]; exact Bool.false_ne_true
  have hkey : fixingKey name ∈ store := by
    by_contra hk
    refine hn (fun p _ existing he => ?_)
    rw [fixing, AList.lookup_eq_none.2 hk] at he
    cases he
  have hentry : entryOrDefault store (fixingKey name) = store := if_pos hkey
  rw [addFixings] at h ⊢
  simp only [hentry] at h ⊢
  split
  · rfl
  · rename_i hc
    rw [hc] at h; cases h

/-- **An accepted batch leaves its last rate on each of its dates**, and no other history changes, whichever way the
names `n` of the reader become keys. -/
theorem fixing_addFixings (fixings : List (D × ρ))
    (h : (addFixings close fixingKey store name fixings).1.isOk = true) {M : Type} (k : M → K) (n : M) (date : D) :
    fixing k (addFixings close fixingKey store name fixings).2 n date =
      if k n = fixingKey name then latest (fixing fixingKey store name) fixings date else fixing k store n date := by
  rw [addFixings] at h ⊢
  simp only [lookup_entryOrDefault] at h ⊢
  split
  · rename_i hc
    rw [hc] at h; cases h
  · split
    · rename_i hn
      rw [fixing, hn, AList.lookup_insert, Option.bind_some, lookup_insertFixings, lookup_history]
    · rename_i hn
      rw [fixing, AList.lookup_insert_ne hn, entryOrDefault]
      split
      · rfl
      · rw [AList.lookup_insert_ne hn]; rfl

theorem fixing_addFixing {date : D} {rate : ρ}
    (h : (addFixing close fixingKey store name date rate).1.isOk = true) :
    fixing fixingKey (addFixing close fixingKey store name date rate).2 name =
      Function.update (fixing fixingKey store name) date (some rate) := by
  funext d
  rw [addFixing, fixing_addFixings _ h fixingKey, if_pos rfl]
  rfl

/-! ## Adding one at a time -/

theorem addEach_isOk : ∀ (fixings : List (D × ρ)) (store : FixingStore K D ρ),
    (addEach close fixingKey store name fixings).1.isOk = true ↔
      CloseInTurn close (fixing fixingKey store name) fixings
  | [], store => by
    simp [addEach, CloseInTurn, Except.isOk, Except.toBool]
  | (date, rate) :: rest, store => by
    have hfirst : (addFixing close fixingKey store name date rate).1.isOk = true ↔
        ∀ existing, fixing fixingKey store name date = some existing → close existing rate = true := by
      rw [addFixing, addFixings_isOk, closeToStored_cons]
      simp [CloseToStored]
    rw [closeInTurn_cons, ← hfirst, addEach]
    cases ha : addFixing close fixingKey store name date rate with
    | mk result store' =>
      cases result with
      | error e => simp [Except.isOk, Except.toBool]
      | ok u =>
        have hok : (addFixing close fixingKey store name date rate).1.isOk = true := by rw [ha]; rfl
        have hfix := fixing_addFixing hok
        rw [ha] at hfix
        simp only [addEach_isOk rest store', hfix]
        simp [Except.isOk, Except.toBool]

theorem fixing_addEach : ∀ (fixings : List (D × ρ)) (store : FixingStore K D ρ),
    (addEach close fixingKey store name fixings).1.isOk = true → ∀ (n : N) (date : D),
      fixing fixingKey (addEach close fixingKey store name fixings).2 n date =
        if fixingKey n = fixingKey name then latest (fixing fixingKey store name) fixings date
        else fixing fixingKey store n date
  | [], store, _, n, date => by
    simp only [addEach, latest]
    split
    · rename_i hn; rw [fixing, fixing, hn]
    · rfl
  | (d, rate) :: rest, store, h, n, date => by
    rw [addEach] at h ⊢
    cases ha : addFixing close fixingKey store name d rate with
    | mk result store' =>
      rw [ha] at h
      cases result with
      | error e => cases h
      | ok u =>
        have hok : (addFixing close fixingKey store name d rate).1.isOk = true := by rw [ha]; rfl
        have hname := fixing_addFixing hok
        have hother := fixing_addFixings [(d, rate)] hok fixingKey n date
        rw [addFixing] at ha
        rw [ha] at hother
        rw [addFixing, ha] at hname
        simp only at h ⊢
        rw [fixing_addEach rest store' h n date, hname, latest]
        split
        · rfl
        · rename_i hn
          rw [hother, if_neg hn]

/-! ## The laws of the store -/

/-- **A batch is its pairs added one at a time, except that it is atomic, and it keeps what is stored.** -/
structure BatchLaws (close : ρ → ρ → Bool) (fixingKey : N → K) (store : FixingStore K D ρ) (name : N)
    (fixings : List (D × ρ)) : Prop where
  result : (addFixings close fixingKey store name fixings).1.isOk = (addEach close fixingKey store name fixings).1.isOk
  accepted : (addFixings close fixingKey store name fixings).1.isOk = true → ∀ n date,
    fixing fixingKey (addFixings close fixingKey store name fixings).2 n date =
      fixing fixingKey (addEach close fixingKey store name fixings).2 n date
  rejected : (addFixings close fixingKey store name fixings).1.isOk = false →
    (addFixings close fixingKey store name fixings).2 = store
  kept : ∀ date rate, fixing fixingKey store name date = some rate →
    (addFixings close fixingKey store name fixings).1.isOk = false ∨
      fixing fixingKey (addFixings close fixingKey store name fixings).2 name date = some rate

/-- **The batches that keep the laws**: the pairs agree on whether they conflict with the store and with each other, and
a batch without conflicts repeats the stored rates. -/
structure Lawful (close : ρ → ρ → Bool) (stored : D → Option ρ) (fixings : List (D × ρ)) : Prop where
  conflicts : CloseToStored close stored fixings ↔ CloseInTurn close stored fixings
  repeats : CloseToStored close stored fixings → Repeats stored fixings

/-- **A batch keeps the laws exactly when it is lawful.** -/
theorem batchLaws_iff (fixings : List (D × ρ)) :
    BatchLaws close fixingKey store name fixings ↔ Lawful close (fixing fixingKey store name) fixings := by
  have hbatch : (addFixings close fixingKey store name fixings).1.isOk = true ↔
      CloseToStored close (fixing fixingKey store name) fixings := addFixings_isOk fixings
  have heach : (addEach close fixingKey store name fixings).1.isOk = true ↔
      CloseInTurn close (fixing fixingKey store name) fixings := addEach_isOk fixings store
  constructor
  · rintro ⟨hres, -, -, hkept⟩
    refine ⟨by rw [← hbatch, ← heach, hres], fun hc date rate hs => ?_⟩
    have hok := hbatch.2 hc
    rcases hkept date rate hs with hno | hk
    · rw [hok] at hno; cases hno
    · rwa [fixing_addFixings _ hok, if_pos rfl] at hk
  · rintro ⟨hconf, hrep⟩
    have hres : (addFixings close fixingKey store name fixings).1.isOk =
        (addEach close fixingKey store name fixings).1.isOk := Bool.eq_iff_iff.2 (by rw [hbatch, heach, hconf])
    refine ⟨hres, fun hok n date => ?_, addFixings_rejected, fun date rate hs => ?_⟩
    · rw [fixing_addFixings _ hok, fixing_addEach fixings store (hres ▸ hok)]
    · cases hok : (addFixings close fixingKey store name fixings).1.isOk with
      | false => exact Or.inl rfl
      | true =>
        apply Or.inr
        rw [fixing_addFixings _ hok, if_pos rfl]
        exact hrep (hbatch.1 hok) date rate hs

end Add

/-! ## Runs of operations -/

/-- The operations on the store. -/
inductive Op (N D ρ : Type) where
  | addFixing (name : N) (date : D) (rate : ρ)
  | addFixings (name : N) (fixings : List (D × ρ))
  | clearFixing (name : N)
  | clearFixings

/-- One operation; the caller sees the result, and goes on with the store. -/
def step (close : ρ → ρ → Bool) (fixingKey : N → K) (store : FixingStore K D ρ) :
    Op N D ρ → Option (FixingStore K D ρ)
  | .addFixing name date rate  => some (addFixing close fixingKey store name date rate).2
  | .addFixings name fixings   => some (addFixings close fixingKey store name fixings).2
  | .clearFixing name          => some (clearFixing fixingKey store name)
  | .clearFixings              => some ∅

/-- The batch an operation adds, if any. -/
def Op.batch {N D ρ : Type} : Op N D ρ → Option (N × List (D × ρ))
  | .addFixing name date rate => some (name, [(date, rate)])
  | .addFixings name fixings  => some (name, fixings)
  | _                         => none

/-- The operation clears the histories of this key, or all of them. -/
def Op.clears {N D ρ : Type} (fixingKey : N → K) (key : K) : Op N D ρ → Bool
  | .clearFixing name => fixingKey name = key
  | .clearFixings     => true
  | _                 => false

theorem step_kept {close : ρ → ρ → Bool} {fixingKey : N → K} {store store' : FixingStore K D ρ} {op : Op N D ρ}
    {n : N} (hs : step close fixingKey store op = some store') (hc : op.clears fixingKey (fixingKey n) = false)
    (hl : ∀ b, op.batch = some b → Lawful close (fixing fixingKey store b.1) b.2) {date : D} {rate : ρ}
    (hr : fixing fixingKey store n date = some rate) : fixing fixingKey store' n date = some rate := by
  have hadd : ∀ name fixings, Lawful close (fixing fixingKey store name) fixings →
      fixing fixingKey (addFixings close fixingKey store name fixings).2 n date = some rate := by
    intro name fixings hlaw
    have hkept := ((batchLaws_iff fixings).2 hlaw).kept date rate
    by_cases hn : fixingKey n = fixingKey name
    · have hsame : ∀ s : FixingStore K D ρ, fixing fixingKey s n date = fixing fixingKey s name date := by
        intro s; rw [fixing, fixing, hn]
      rw [hsame] at hr ⊢
      rcases hkept hr with hno | hk
      · rw [addFixings_rejected hno]; exact hr
      · exact hk
    · cases hok : (addFixings close fixingKey store name fixings).1.isOk with
      | false => rw [addFixings_rejected hok]; exact hr
      | true => rw [fixing_addFixings _ hok, if_neg hn]; exact hr
  cases op with
  | addFixing name d r =>
    cases hs; exact hadd name _ (hl _ rfl)
  | addFixings name fixings =>
    cases hs; exact hadd name _ (hl _ rfl)
  | clearFixing name =>
    cases hs
    have hne : fixingKey n ≠ fixingKey name := fun e => by simp [Op.clears, e] at hc
    rw [fixing, clearFixing, AList.lookup_erase_ne hne]
    exact hr
  | clearFixings => cases hc

/-- **The laws of the fixing store**: a batch is its pairs added one at a time, atomically, and keeps the stored rates,
exactly when it is lawful; and in a run whose batches all are, a stored rate stays until its index is cleared. -/
theorem fixing_laws (close : ρ → ρ → Bool) (fixingKey : N → K) :
    (∀ (store : FixingStore K D ρ) name fixings,
      BatchLaws close fixingKey store name fixings ↔ Lawful close (fixing fixingKey store name) fixings) ∧
    ∀ (ops : List (Op N D ρ)) (store store' : FixingStore K D ρ) n date rate,
      Machine.along (step close fixingKey) (fun store op => op.clears fixingKey (fixingKey n) = false ∧
        ∀ b, op.batch = some b → Lawful close (fixing fixingKey store b.1) b.2) store ops →
      Machine.run (step close fixingKey) store ops = some store' →
      fixing fixingKey store n date = some rate → fixing fixingKey store' n date = some rate :=
  ⟨fun _ _ _ => batchLaws_iff _, fun ops store store' n date rate hok hrun hr =>
    Machine.run_invariant_along (fun s => fixing fixingKey s n date = some rate) _
      (fun _ _ _ hr hok hs => step_kept hs hok.1 hok.2 hr) ops store store' hr hok hrun⟩

/-- One index, with the rate 1 recorded on the date 0. -/
def recorded : FixingStore Unit ℤ ℚ := (addFixing close id ∅ () 0 1).2

/-- **A rate that is only close to the stored one replaces it**, and **a batch that conflicts with itself is accepted**. -/
theorem unlawful_batches :
    fixing id recorded () 0 = some 1 ∧
    (addFixing close id recorded () 0 (1 + epsilon)).1.isOk = true ∧
    fixing id (addFixing close id recorded () 0 (1 + epsilon)).2 () 0 ≠ some 1 ∧
    ¬BatchLaws close id recorded () [(0, 1 + epsilon)] ∧
    ¬BatchLaws close id (∅ : FixingStore Unit ℤ ℚ) () [(0, 1), (0, 2)] := by
  have hstored : fixing id recorded () 0 = some 1 := by decide +kernel
  have hok : (addFixing close id recorded () 0 (1 + epsilon)).1.isOk = true := by decide +kernel
  have hlost : fixing id (addFixing close id recorded () 0 (1 + epsilon)).2 () 0 ≠ some 1 := by decide +kernel
  refine ⟨hstored, hok, hlost, fun hlaws => ?_, fun hlaws => ?_⟩
  · rcases hlaws.kept 0 1 hstored with hno | hk
    · exact absurd (hok.symm.trans hno) Bool.noConfusion
    · exact hlost hk
  · exact absurd hlaws.result (by decide +kernel)

end Settings
end Itofin
