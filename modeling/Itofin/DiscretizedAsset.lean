import Mathlib.Algebra.Order.Ring.Rat
import Itofin.Lib.Effect
import Itofin.Math.TimeGrid
import Itofin.Methods.TreeLattice
/-!
# Discretized assets — rolled back through a lattice

`DiscretizedAsset` of `discretizedasset.rs` and what `methods/lattices/treelattice.rs` does to one, in exact arithmetic.
The base of an asset is its clock, its values and the marks of its latest adjustments: an adjustment at a time close to
its mark is left out.

A rollback from a node to one below it is a `sweep`: a step to every node on the way, and the adjustments there
(`rollback_eq`).  Sweeps lie end to end (`sweep_add`), and a sweep of an asset that logs its adjustments adds one of each
kind for every node (`sweep_log`).
-/
namespace Itofin.Discretized

open Effect

inductive Failure (K ε : Type) where
  /-- "asset is not initialized on any method" -/
  | notInitialized
  /-- "option and underlying were initialized on different methods" -/
  | differentMethods
  /-- "cannot roll the asset back to .. (it is already at t = ..)" -/
  | cannotRollBack (stop start : K)
  | grid (e : Math.TimeGrid.Failure K)
  /-- An index out of range, or no method where one is expected. -/
  | panic
  /-- An error of the asset's own. -/
  | asset (e : ε)
deriving DecidableEq

/-- The pass of an adjustment. -/
inductive CouponAdjustment where
  | pre
  | post
deriving DecidableEq

/-- A mark is `none` for the sentinel `Real::MAX`, "never".  The method is one of the lattices in `L`. -/
structure DiscretizedAssetBase (K L : Type) where
  time : K
  latestPreAdjustment : Option K
  latestPostAdjustment : Option K
  values : List K
  method : Option L
deriving DecidableEq

/-- An asset: its base, and the fields of the concrete type. -/
structure Asset (K L S : Type) where
  base : DiscretizedAssetBase K L
  own : S
deriving DecidableEq

structure Lattice (K : Type) where
  implementation : TreeLatticeImpl K
  timeGrid : Math.TimeGrid K

variable {K L S ε : Type}

/-- A method of the concrete type: it reads the method and the time, and writes the values and its own fields. -/
abbrev Impl (K L S ε : Type) : Type := Option L → K → Prog (List K × S) (Failure K ε) Unit

/-- The concrete type.  Its `reset` runs `resetBefore`, then `adjust_values` where it `adjusts`, then `resetAfter`. -/
structure Terms (K L S ε : Type) where
  resetBefore : ℕ → Impl K L S ε
  adjusts : Bool
  resetAfter : ℕ → Impl K L S ε
  preAdjustValuesImpl : Impl K L S ε
  postAdjustValuesImpl : Impl K L S ε

namespace DiscretizedAssetBase

def default [Zero K] : DiscretizedAssetBase K L := ⟨0, none, none, [], none⟩

/-- The mark of a pass. -/
def latest (base : DiscretizedAssetBase K L) : CouponAdjustment → Option K
  | .pre  => base.latestPreAdjustment
  | .post => base.latestPostAdjustment

/-- `latest_.._adjustment = time` -/
def mark (base : DiscretizedAssetBase K L) : CouponAdjustment → DiscretizedAssetBase K L
  | .pre  => { base with latestPreAdjustment := some base.time }
  | .post => { base with latestPostAdjustment := some base.time }

end DiscretizedAssetBase

/-- `pre_adjust_values_impl` or `post_adjust_values_impl` -/
def Terms.adjustValuesImpl (terms : Terms K L S ε) : CouponAdjustment → Impl K L S ε
  | .pre  => terms.preAdjustValuesImpl
  | .post => terms.postAdjustValuesImpl

/-- `DiscretizedDiscountBond`: its reset does not adjust, and its adjustments do nothing. -/
def discountBond [One K] : Terms K L Unit ε where
  resetBefore size       := fun _ _ => Prog.modify (fun s => (List.replicate size 1, s.2))
  adjusts                := false
  resetAfter _           := fun _ _ => pure ()
  preAdjustValuesImpl    := fun _ _ => pure ()
  postAdjustValuesImpl   := fun _ _ => pure ()

/-- A method of the concrete type, run on the asset. -/
def call (impl : Impl K L S ε) : Prog (Asset K L S) (Failure K ε) Unit := fun s =>
  (impl s.base.method s.base.time).zoom (fun s => (s.base.values, s.own))
    (fun v s => { base := { s.base with values := v.1 }, own := v.2 }) s

theorem call_eq (impl : Impl K L S ε) (s : Asset K L S) : call impl s =
    ((impl s.base.method s.base.time (s.base.values, s.own)).1,
      { base := { s.base with values := (impl s.base.method s.base.time (s.base.values, s.own)).2.1 }
        own := (impl s.base.method s.base.time (s.base.values, s.own)).2.2 }) := rfl

def setTime (time : K) : Prog (Asset K L S) (Failure K ε) Unit :=
  Prog.modify (fun s => { s with base := { s.base with time := time } })

def setValues (values : List K) : Prog (Asset K L S) (Failure K ε) Unit :=
  Prog.modify (fun s => { s with base := { s.base with values := values } })

variable [Field K] [LinearOrder K]

/-- `close_enough(time, mark)` -/
def marked (time : K) : Option K → Bool
  | none      => false
  | some mark => Math.closeEnough time mark

/-- An adjustment, but not twice at a time. -/
def guarded (pass : CouponAdjustment) (terms : Terms K L S ε) : Prog (Asset K L S) (Failure K ε) Unit := do
  let s ← Prog.get
  if marked s.base.time (s.base.latest pass) then pure ()
  else do
    call (terms.adjustValuesImpl pass)
    Prog.modify (fun s => { s with base := s.base.mark pass })

def preAdjustValues (terms : Terms K L S ε) : Prog (Asset K L S) (Failure K ε) Unit := guarded .pre terms

def postAdjustValues (terms : Terms K L S ε) : Prog (Asset K L S) (Failure K ε) Unit := guarded .post terms

def adjustValues (terms : Terms K L S ε) : Prog (Asset K L S) (Failure K ε) Unit := do
  preAdjustValues terms
  postAdjustValues terms

def reset (terms : Terms K L S ε) (size : ℕ) : Prog (Asset K L S) (Failure K ε) Unit := do
  call (terms.resetBefore size)
  (if terms.adjusts then adjustValues terms else pure ())
  call (terms.resetAfter size)

namespace Lattice

/-- `Lattice::initialize` -/
def initializeAsset (lattice : Lattice K) (terms : Terms K L S ε) (t : K) : Prog (Asset K L S) (Failure K ε) Unit := do
  let i ← Prog.lift ((lattice.timeGrid.index t).mapError Failure.grid)
  setTime t
  reset terms (lattice.implementation.size i)

/-- A turn of the loop in `partial_rollback`, but for the adjustment: the step back to the slice `i`. -/
def stepTo (lattice : Lattice K) (i : ℕ) : Prog (Asset K L S) (Failure K ε) Unit := do
  let s ← Prog.get
  let newValues ← Prog.lift ((TreeLattice.stepback lattice.implementation i s.base.values
    (List.replicate (lattice.implementation.size i) 0)).mapError (fun _ => Failure.panic))
  let time ← Prog.lift ((fetch lattice.timeGrid.times i).mapError (fun _ => Failure.panic))
  setTime time
  setValues newValues

/-- `for i in (i_to..i_from).rev() { .. }`, over as many slices as there are between the two. -/
def slices (lattice : Lattice K) (terms : Terms K L S ε) (iTo : ℕ) : ℕ → Prog (Asset K L S) (Failure K ε) Unit
  | 0     => pure ()
  | n + 1 => do
    lattice.stepTo (iTo + n)
    (if iTo + n ≠ iTo then adjustValues terms else pure ())
    slices lattice terms iTo n

def partialRollback (lattice : Lattice K) (terms : Terms K L S ε) (stop : K) :
    Prog (Asset K L S) (Failure K ε) Unit := do
  let s ← Prog.get
  let start := s.base.time
  if Math.close start stop then pure ()
  else do
    Prog.require (stop < start) (.cannotRollBack stop start)
    let iFrom ← Prog.lift ((lattice.timeGrid.index start).mapError Failure.grid)
    let iTo ← Prog.lift ((lattice.timeGrid.index stop).mapError Failure.grid)
    lattice.slices terms iTo (iFrom - iTo)

def rollback (lattice : Lattice K) (terms : Terms K L S ε) (stop : K) : Prog (Asset K L S) (Failure K ε) Unit := do
  lattice.partialRollback terms stop
  adjustValues terms

end Lattice

section Methods

variable (lattices : L → Lattice K) (terms : Terms K L S ε)

def requireMethod : Prog (Asset K L S) (Failure K ε) L := do
  let s ← Prog.get
  match s.base.method with
  | some m => pure m
  | none   => Prog.fail .notInitialized

/-- `initialize` -/
def initializeOn (method : L) (t : K) : Prog (Asset K L S) (Failure K ε) Unit := do
  Prog.modify (fun s => { s with base := { s.base with method := some method } })
  (lattices method).initializeAsset terms t

def rollback (stop : K) : Prog (Asset K L S) (Failure K ε) Unit := do
  let method ← requireMethod
  (lattices method).rollback terms stop

def partialRollback (stop : K) : Prog (Asset K L S) (Failure K ε) Unit := do
  let method ← requireMethod
  (lattices method).partialRollback terms stop

end Methods

/-! ## The nodes of a grid -/

/-- **The nodes go up, and no two of them are close enough.** -/
def Apart (grid : Math.TimeGrid K) : Prop := grid.times.Pairwise (fun s t => s < t ∧ ¬ Math.closeEnough s t = true)

instance (grid : Math.TimeGrid K) : Decidable (Apart grid) := inferInstanceAs (Decidable (List.Pairwise _ _))

variable {lattice : Lattice K} {grid : Math.TimeGrid K} {lattices : L → Lattice K} {terms : Terms K L S ε} {m : L}
variable {i j k lo n : ℕ} {t t' : K} {s s' : Asset K L S} {pass pass' : CouponAdjustment}

theorem Apart.lt (hgrid : Apart grid) (hi : grid.times[i]? = some t) (hj : grid.times[j]? = some t') (hij : i < j) :
    t < t' ∧ ¬ Math.closeEnough t t' = true := by
  obtain ⟨hi', rfl⟩ := List.getElem?_eq_some_iff.1 hi
  obtain ⟨hj', rfl⟩ := List.getElem?_eq_some_iff.1 hj
  exact List.pairwise_iff_getElem.1 hgrid i j hi' hj' hij

theorem Apart.index [IsStrictOrderedRing K] (hgrid : Apart grid) (h : grid.times[i]? = some t) :
    grid.index t = .ok i := by
  have hinc : grid.times.Pairwise (· < ·) := hgrid.imp And.left
  obtain ⟨hi, ht⟩ := List.getElem?_eq_some_iff.1 h
  obtain ⟨hc, hnear⟩ := Math.TimeGrid.closestIndex_nearest hinc (List.ne_nil_of_length_pos (by omega)) t
  have hle := hnear i hi
  simp only [List.getD_eq_getElem?_getD, List.getElem?_eq_getElem hi, List.getElem?_eq_getElem hc, Option.getD_some, ht,
    sub_self, abs_zero] at hle
  have hct : grid.times[grid.closestIndex t] = t := sub_eq_zero.1 (abs_nonpos_iff.1 hle)
  have hci : grid.closestIndex t = i :=
    (List.Nodup.getElem_inj_iff (hinc.imp ne_of_lt)).1 (hct.trans ht.symm)
  rw [Math.TimeGrid.index, hci, h]
  exact if_pos (Math.closeEnough_self t)

/-! ## The guards -/

/-- The asset stands on a lattice at a time. -/
def At (m : L) (t : K) (s : Asset K L S) : Prop := s.base.method = some m ∧ s.base.time = t

/-- Both adjustments have been made at the time of the asset. -/
def Adjusted (s : Asset K L S) : Prop := ∀ pass, marked s.base.time (s.base.latest pass) = true

/-- From `P` the program fails, or ends in `Q`. -/
abbrev Ends {σ ε : Type} (P : σ → Prop) (x : Prog σ ε Unit) (Q : σ → Prop) : Prop :=
  Triple P x (fun _ => Q) (fun _ _ => True)

section Mark

variable {base : DiscretizedAssetBase K L}

omit [Field K] [LinearOrder K]

@[simp] theorem mark_time : (base.mark pass).time = base.time := by cases pass <;> rfl

@[simp] theorem mark_method : (base.mark pass).method = base.method := by cases pass <;> rfl

@[simp] theorem latest_mark : (base.mark pass).latest pass = some base.time := by cases pass <;> rfl

@[simp] theorem latest_mark_ne (h : pass' ≠ pass) : (base.mark pass).latest pass' = base.latest pass' := by
  cases pass <;> cases pass' <;> first | rfl | exact absurd rfl h

end Mark

omit [Field K] [LinearOrder K] in
theorem latest_update (base : DiscretizedAssetBase K L) (time : K) (values : List K) (pass : CouponAdjustment) :
    { base with time := time, values := values }.latest pass = base.latest pass := by cases pass <;> rfl

theorem marked_self (t : K) : marked t (some t) = true := Math.closeEnough_self t

theorem guarded_eq (pass : CouponAdjustment) (terms : Terms K L S ε) (s : Asset K L S) : guarded pass terms s =
    if marked s.base.time (s.base.latest pass) then (.ok (), s)
    else (call (terms.adjustValuesImpl pass) >>= fun _ => Prog.modify (fun s => { s with base := s.base.mark pass })) s := by
  change (if marked s.base.time (s.base.latest pass) then _ else _ : Prog (Asset K L S) (Failure K ε) Unit) s = _
  split <;> rfl

omit [Field K] [LinearOrder K] in
/-- **A method of the concrete type leaves the base alone**, but for the values. -/
theorem call_ends {P : Asset K L S → Prop}
    (hP : ∀ s values own, P s → P { base := { s.base with values := values }, own := own }) (impl : Impl K L S ε) :
    Ends P (call impl) P := by
  intro s hs
  unfold call Prog.zoom
  rcases impl s.base.method s.base.time (s.base.values, s.own) with ⟨_ | _, v⟩
  · trivial
  · exact hP s _ _ hs

theorem guarded_ends (P : CouponAdjustment → Prop) :
    Ends (fun s => At m t s ∧ ∀ pass', P pass' → marked t (s.base.latest pass') = true) (guarded pass terms)
      (fun s => At m t s ∧ ∀ pass', P pass' ∨ pass' = pass → marked t (s.base.latest pass') = true) := by
  rintro s ⟨hat, hdone⟩
  rw [guarded_eq]
  by_cases h : marked s.base.time (s.base.latest pass) = true
  · rw [if_pos h]
    refine ⟨hat, fun pass' hpass => hpass.elim (hdone pass') (fun he => ?_)⟩
    rw [he, ← hat.2]
    exact h
  · rw [if_neg h]
    refine Triple.bind (call_ends (P := fun s => At m t s ∧ ∀ pass', P pass' → marked t (s.base.latest pass') = true)
      (fun s values own hs => ?_) _) (fun _ => Triple.modify (fun s hs => ?_)) s ⟨hat, hdone⟩
    · refine ⟨hs.1, fun pass' hpass => ?_⟩
      rw [← hs.2 pass' hpass]
      cases pass' <;> rfl
    · refine ⟨⟨mark_method.trans hs.1.1, mark_time.trans hs.1.2⟩, fun pass' hpass => ?_⟩
      change marked t ((s.base.mark pass).latest pass') = true
      by_cases he : pass' = pass
      · rw [he, latest_mark, hs.1.2]
        exact marked_self t
      · rw [latest_mark_ne he]
        exact hs.2 pass' (hpass.resolve_right he)

theorem adjustValues_ends : Ends (At m t) (adjustValues terms) (fun s => At m t s ∧ Adjusted s) := by
  refine (Triple.bind (guarded_ends (fun _ => False)) (fun _ => guarded_ends _)).weaken
    (fun s hs => ⟨hs, fun _ h => h.elim⟩) (fun _ s hs => ⟨hs.1, fun pass => ?_⟩)
  rw [hs.1.2]
  exact hs.2 pass (by cases pass <;> simp)

theorem adjustValues_of_adjusted (h : Adjusted s) : adjustValues terms s = (.ok (), s) := by
  unfold adjustValues preAdjustValues postAdjustValues
  rw [Prog.run_bind, guarded_eq, if_pos (h .pre)]
  dsimp only
  rw [guarded_eq, if_pos (h .post)]

section Relates

variable {S' : Type} {terms' : Terms K L S' ε} {P Q R : Asset K L S → Asset K L S' → Prop}

theorem guarded_relates
    (hsame : ∀ s u, P s u → marked s.base.time (s.base.latest pass) = marked u.base.time (u.base.latest pass))
    (hmade : ∀ s u, P s u → marked s.base.time (s.base.latest pass) = true → Q s u)
    (hcall : Relates P (call (terms.adjustValuesImpl pass)) (call (terms'.adjustValuesImpl pass)) R)
    (hmark : ∀ s u, R s u → Q { s with base := s.base.mark pass } { u with base := u.base.mark pass }) :
    Relates P (guarded pass terms) (guarded pass terms') Q := by
  intro s u hsu
  rw [guarded_eq, guarded_eq, hsame s u hsu]
  by_cases h : marked u.base.time (u.base.latest pass) = true
  · rw [if_pos h, if_pos h]
    exact ⟨rfl, fun _ _ => hmade s u hsu ((hsame s u hsu).trans h)⟩
  · rw [if_neg h, if_neg h]
    exact Relates.bind hcall (fun _ => Relates.modify hmark) s u hsu

omit [LinearOrder K] in
theorem stepTo_relates (hvalues : ∀ s u, P s u → s.base.values = u.base.values)
    (hstep : ∀ s u, P s u → ∀ time values, lattice.timeGrid.times[i]? = some time →
      Q { s with base := { s.base with time := time, values := values } }
        { u with base := { u.base with time := time, values := values } }) :
    Relates P (lattice.stepTo i : Prog (Asset K L S) (Failure K ε) Unit) (lattice.stepTo i) Q := by
  refine Relates.get_bind (fun s u hsu => ?_)
  rw [hvalues s u hsu]
  refine Relates.lift_bind (fun values _ => ?_)
  unfold fetch
  cases ht : lattice.timeGrid.times[i]? with
  | none      => exact Relates.fail _
  | some time =>
    rintro _ _ ⟨rfl, rfl⟩
    exact ⟨rfl, fun _ _ => hstep _ _ hsu time values ht⟩

end Relates

/-! ## Sweeps -/

/-- **A sweep** of the nodes from `lo` on, `n` of them, from the last one down: a step to each and its adjustments. -/
def sweep (lattice : Lattice K) (terms : Terms K L S ε) (lo : ℕ) : ℕ → Prog (Asset K L S) (Failure K ε) Unit
  | 0     => pure ()
  | n + 1 => do
    lattice.stepTo (lo + n)
    adjustValues terms
    sweep lattice terms lo n

/-- The slices of a partial rollback: all but the last one are swept. -/
theorem slices_eq (lo : ℕ) : ∀ n, lattice.slices terms lo (n + 1) =
    (sweep lattice terms (lo + 1) n >>= fun _ => lattice.stepTo lo)
  | 0     => by
    rw [sweep, Lattice.slices, Lattice.slices, Nat.add_zero, if_neg (by simp)]
    exact Prog.bind_pure _
  | n + 1 => by
    rw [sweep, Lattice.slices, if_pos (by omega), slices_eq lo n, show lo + 1 + n = lo + (n + 1) by omega]
    refine Eq.symm ((Prog.bind_assoc _ _ _).trans (congrArg _ (funext (fun _ => ?_))))
    exact Prog.bind_assoc _ _ _

/-- **Sweeps lie end to end.** -/
theorem sweep_add (lo m : ℕ) : ∀ n, (sweep lattice terms (lo + m) n >>= fun _ => sweep lattice terms lo m) =
    sweep lattice terms lo (m + n)
  | 0     => rfl
  | n + 1 => by
    rw [← Nat.add_assoc, sweep, sweep, ← sweep_add lo m n, Nat.add_assoc]
    refine Eq.trans (Prog.bind_assoc _ _ _) (congrArg _ (funext (fun _ => ?_)))
    exact Prog.bind_assoc _ _ _

theorem slices_adjustValues (lo n : ℕ) : (lattice.slices terms lo (n + 1) >>= fun _ => adjustValues terms) =
    sweep lattice terms lo (n + 1) := by
  rw [slices_eq, Nat.add_comm n 1, ← sweep_add, sweep, sweep]
  refine (Prog.bind_assoc _ _ _).trans (congrArg _ (funext (fun _ => ?_)))
  exact congrArg _ (funext (fun _ => (Prog.bind_pure _).symm))

omit [LinearOrder K] in
/-- **A step** moves the time to the node, and leaves alone what is not the time or the values. -/
theorem stepTo_ends {P : Asset K L S → Prop}
    (hP : ∀ s time values, P s → P { s with base := { s.base with time := time, values := values } }) :
    Ends P (lattice.stepTo i : Prog (Asset K L S) (Failure K ε) Unit)
      (fun s => lattice.timeGrid.times[i]? = some s.base.time ∧ P s) := by
  refine Triple.bind (Triple.get _) (fun s₀ => ?_)
  refine Triple.bind (Triple.lift (fun _ _ _ hs => hs.2) (fun _ _ _ _ => trivial)) (fun _ => ?_)
  unfold fetch
  cases ht : lattice.timeGrid.times[i]? with
  | none   => exact fun _ _ => trivial
  | some t => exact fun s hs => ⟨rfl, hP s t _ hs⟩

theorem sweep_ends (ht : lattice.timeGrid.times[lo]? = some t) : ∀ n, Ends
    (fun s => s.base.method = some m ∧ (n = 0 → At m t s ∧ Adjusted s)) (sweep lattice terms lo n)
    (fun s => At m t s ∧ Adjusted s)
  | 0     => Triple.pure () (fun _ hs => hs.2 rfl)
  | n + 1 => by
    intro s hs
    refine Triple.bind (stepTo_ends (P := fun s => s.base.method = some m) (fun _ _ _ h => h)) (fun _ => ?_) s hs.1
    intro s₁ ⟨htime, hmethod⟩
    refine Triple.bind adjustValues_ends (fun _ => (sweep_ends ht n).weaken (fun s₂ hs₂ => ⟨hs₂.1.1, fun hn => ?_⟩)
      (fun _ _ h => h)) s₁ ⟨hmethod, rfl⟩
    subst hn
    rw [Nat.add_zero, ht] at htime
    rwa [Option.some.inj htime]

/-- **An asset on a lattice** stands at the time, and a reset that adjusts leaves it adjusted there. -/
theorem initializeOn_ends : Ends (fun _ => True) (initializeOn lattices terms m t)
    (fun s => At m t s ∧ (terms.adjusts = true → Adjusted s)) := by
  refine Triple.bind (Q := fun _ (s : Asset K L S) => s.base.method = some m) (Triple.modify (fun _ _ => rfl)) (fun _ => ?_)
  refine Triple.bind (Triple.lift (fun _ _ _ hs => hs) (fun _ _ _ _ => trivial)) (fun i => ?_)
  refine Triple.bind (Q := fun _ (s : Asset K L S) => At m t s) (Triple.modify (fun _ hs => ⟨hs, rfl⟩)) (fun _ => ?_)
  refine Triple.bind (call_ends (fun _ _ _ hs => hs) _) (fun _ => ?_)
  refine Triple.bind (Q := fun _ (s : Asset K L S) => At m t s ∧ (terms.adjusts = true → Adjusted s)) ?_ (fun _ => ?_)
  · refine Triple.ite (fun _ => ?_) (fun hnot => Triple.pure () (fun _ hs => ⟨hs, fun h => absurd h hnot⟩))
    exact adjustValues_ends.weaken (fun _ h => h) (fun _ _ h => ⟨h.1, fun _ => h.2⟩)
  · refine call_ends (fun s values own hs => ⟨hs.1, fun h pass => ?_⟩) _
    cases pass with
    | pre  => exact hs.2 h .pre
    | post => exact hs.2 h .post

/-! ## Rollbacks between nodes -/

omit [Field K] [LinearOrder K] in
theorem requireMethod_eq (h : s.base.method = some m) :
    (requireMethod s : Except (Failure K ε) L × Asset K L S) = (.ok m, s) := by
  unfold requireMethod
  rw [Prog.run_bind]
  dsimp only [Prog.get]
  rw [h]
  rfl

theorem rollback_of_slices (stop : K) (s : Asset K L S) : rollback lattices terms stop s =
    (partialRollback lattices terms stop >>= fun _ => adjustValues terms) s :=
  congrFun (Prog.bind_assoc requireMethod _ _).symm s

/-- A partial rollback that is not refused runs over the slices between the two times. -/
theorem partialRollback_slices (hs : At m t s) (hclose : ¬ Math.close t t' = true) (hlt : t' < t)
    (hFrom : (lattices m).timeGrid.index t = .ok i) (hTo : (lattices m).timeGrid.index t' = .ok lo) :
    partialRollback lattices terms t' s = (lattices m).slices terms lo (i - lo) s := by
  obtain ⟨hmethod, rfl⟩ := hs
  unfold partialRollback
  rw [Prog.run_bind, requireMethod_eq hmethod]
  change (if Math.close s.base.time t' then pure () else _ : Prog (Asset K L S) (Failure K ε) Unit) s = _
  rw [if_neg hclose, Prog.run_bind, Prog.require, if_pos hlt, Prog.run_pure]
  dsimp only
  rw [hFrom, hTo]
  rfl

section Rollback

variable [IsStrictOrderedRing K] (hgrid : Apart (lattices m).timeGrid)
include hgrid

theorem partialRollback_eq (hlo : (lattices m).timeGrid.times[lo]? = some t')
    (hstart : (lattices m).timeGrid.times[lo + n]? = some t) (hs : At m t s) :
    partialRollback lattices terms t' s = (lattices m).slices terms lo n s := by
  rcases n.eq_zero_or_pos with rfl | hn
  · obtain ⟨hmethod, rfl⟩ := hs
    obtain rfl : s.base.time = t' := Option.some.inj (hstart.symm.trans hlo)
    unfold partialRollback
    rw [Prog.run_bind, requireMethod_eq hmethod]
    change (if Math.close s.base.time s.base.time then pure () else _ : Prog (Asset K L S) (Failure K ε) Unit) s = _
    rw [if_pos (show Math.close s.base.time s.base.time = true from if_pos rfl), Lattice.slices]
  · obtain ⟨hlt, hclose⟩ := hgrid.lt hlo hstart (by omega)
    rw [Math.closeEnough_comm] at hclose
    rw [partialRollback_slices hs (mt Math.closeEnough_of_close hclose) hlt (hgrid.index hstart) (hgrid.index hlo),
      Nat.add_sub_cancel_left]

/-- **A rollback is a sweep**, unless it is to the node where the asset stands and an adjustment is due there. -/
theorem rollback_eq (hlo : (lattices m).timeGrid.times[lo]? = some t')
    (hstart : (lattices m).timeGrid.times[lo + n]? = some t) (hs : At m t s) (hn : n = 0 → Adjusted s) :
    rollback lattices terms t' s = sweep (lattices m) terms lo n s := by
  rw [rollback_of_slices, Prog.run_bind, partialRollback_eq hgrid hlo hstart hs]
  cases n with
  | zero   => exact adjustValues_of_adjusted (hn rfl)
  | succ n => exact congrFun (slices_adjustValues lo n) s

/-- **Two rollbacks are one.** -/
theorem rollback_rollback {t₀ t₁ t₂ : K} (h₂ : (lattices m).timeGrid.times[lo]? = some t₂)
    (h₁ : (lattices m).timeGrid.times[lo + k]? = some t₁) (h₀ : (lattices m).timeGrid.times[lo + k + n]? = some t₀)
    (hs : At m t₀ s) (hn : n = 0 → Adjusted s) :
    (rollback lattices terms t₁ >>= fun _ => rollback lattices terms t₂) s = rollback lattices terms t₂ s := by
  calc (rollback lattices terms t₁ >>= fun _ => rollback lattices terms t₂) s
    _ = (sweep (lattices m) terms (lo + k) n >>= fun _ => rollback lattices terms t₂) s := by
      rw [Prog.run_bind, rollback_eq hgrid h₁ h₀ hs hn, Prog.run_bind]
    _ = (sweep (lattices m) terms (lo + k) n >>= fun _ => sweep (lattices m) terms lo k) s :=
      Triple.bind_congr (sweep_ends h₁ n) ⟨hs.1, fun h => ⟨by rwa [Option.some.inj (h₁.symm.trans (by rw [← h₀, h]; rfl))], hn h⟩⟩
        (fun _ s' hs' => rollback_eq hgrid h₂ h₁ hs'.1 (fun _ => hs'.2))
    _ = rollback lattices terms t₂ s := by
      rw [sweep_add, Nat.add_assoc] at *
      exact (rollback_eq hgrid h₂ h₀ hs (fun h => hn (by omega))).symm

end Rollback

/-! ## Marks that are clear of the nodes ahead -/

section Clear

variable {times : List K} {mark : Option K} {waits : CouponAdjustment → ℕ} {Q Q' : S → Prop}

/-- No node before the `k`-th is close to the mark. -/
def Clear (times : List K) (k : ℕ) (mark : Option K) : Prop :=
  ∀ j t, j < k → times[j]? = some t → marked t mark = false

theorem Clear.mono (h : Clear times k mark) (hjk : j ≤ k) : Clear times j mark :=
  fun i t hi ht => h i t (by omega) ht

theorem clear_none (times : List K) (k : ℕ) : Clear times k none := fun _ _ _ _ => rfl

theorem Apart.clear (hgrid : Apart grid) (ht : grid.times[k]? = some t) : Clear grid.times k (some t) :=
  fun _ _ hj ht' => Bool.eq_false_iff.2 (hgrid.lt ht' ht hj).2

/-- The asset stands at a time, the mark of a pass is clear of as many nodes as `waits` says, and the asset's own fields
meet `Q`. -/
structure Waiting (lattices : L → Lattice K) (m : L) (t : K) (waits : CouponAdjustment → ℕ) (Q : S → Prop)
    (s : Asset K L S) : Prop where
  stands : At m t s
  clear  : ∀ pass, Clear (lattices m).timeGrid.times (waits pass) (s.base.latest pass)
  own    : Q s.own

theorem call_waiting {impl : Impl K L S ε} (himpl : Ends (fun v => Q v.2) (impl (some m) t) (fun v => Q' v.2)) :
    Ends (Waiting lattices m t waits Q) (call impl) (Waiting lattices m t waits Q') := by
  rintro s ⟨⟨hmethod, rfl⟩, hclear, hown⟩
  have := himpl (s.base.values, s.own) hown
  unfold call Prog.zoom
  rw [hmethod]
  rcases hrun : impl (some m) s.base.time (s.base.values, s.own) with ⟨_ | _, v⟩ <;> rw [hrun] at this
  · trivial
  · exact ⟨⟨hmethod, rfl⟩, fun pass => by cases pass <;> exact hclear _, this⟩

theorem stepTo_waiting (hclear : ∀ pass, k ≤ waits pass) : Ends (Waiting lattices m t waits Q)
    ((lattices m).stepTo i : Prog (Asset K L S) (Failure K ε) Unit)
    (fun s => (lattices m).timeGrid.times[i]? = some s.base.time ∧ Waiting lattices m s.base.time (fun _ => k) Q s) := by
  refine (stepTo_ends (P := fun s => s.base.method = some m ∧
    (∀ pass, Clear (lattices m).timeGrid.times k (s.base.latest pass)) ∧ Q s.own) (fun s _ _ h => ?_)).weaken
    (fun s hs => ⟨hs.stands.1, fun pass => (hs.clear pass).mono (hclear pass), hs.own⟩)
    (fun _ s hs => ⟨hs.1, ⟨hs.2.1, rfl⟩, hs.2.2.1, hs.2.2.2⟩)
  refine ⟨h.1, fun pass => ?_, h.2.2⟩
  rw [latest_update]
  exact h.2.1 pass

theorem Waiting.marks (hgrid : Apart (lattices m).timeGrid) (ht : (lattices m).timeGrid.times[k]? = some t)
    (hs : Waiting lattices m t waits Q s) (pass : CouponAdjustment) :
    Waiting lattices m t (Function.update waits pass k) Q { s with base := s.base.mark pass } := by
  refine ⟨⟨mark_method.trans hs.stands.1, mark_time.trans hs.stands.2⟩, fun pass' => ?_, hs.own⟩
  change Clear _ _ ((s.base.mark pass).latest pass')
  by_cases he : pass' = pass
  · rw [he, Function.update_self, latest_mark, hs.stands.2]
    exact hgrid.clear ht
  · rw [Function.update_of_ne he, latest_mark_ne he]
    exact hs.clear pass'

variable (hgrid : Apart (lattices m).timeGrid)
include hgrid

/-- **An adjustment that is due is made**, and its mark is then clear of the nodes before. -/
theorem guarded_waiting (ht : (lattices m).timeGrid.times[k]? = some t) (hdue : k < waits pass)
    (himpl : Ends (fun v => Q v.2) (terms.adjustValuesImpl pass (some m) t) (fun v => Q' v.2)) :
    Ends (Waiting lattices m t waits Q) (guarded pass terms)
      (Waiting lattices m t (Function.update waits pass k) Q') := by
  intro s hs
  have hnot : ¬ marked s.base.time (s.base.latest pass) = true := by
    rw [hs.stands.2, hs.clear pass k t hdue ht]
    exact Bool.false_ne_true
  rw [guarded_eq, if_neg hnot]
  exact Triple.bind (call_waiting himpl) (fun _ => Triple.modify (fun _ hs => hs.marks hgrid ht pass)) s hs

/-- Both adjustments, which take the asset's own fields from `Q` over `R` to `Q'`. -/
theorem adjustValues_waiting {R : S → Prop} (ht : (lattices m).timeGrid.times[k]? = some t)
    (hpre : Ends (fun v => Q v.2) (terms.preAdjustValuesImpl (some m) t) (fun v => R v.2))
    (hpost : Ends (fun v => R v.2) (terms.postAdjustValuesImpl (some m) t) (fun v => Q' v.2)) :
    Ends (Waiting lattices m t (fun _ => k + 1) Q) (adjustValues terms) (Waiting lattices m t (fun _ => k) Q') := by
  have hfirst : Ends (Waiting lattices m t (fun _ => k + 1) Q) (preAdjustValues terms) _ :=
    guarded_waiting hgrid ht (Nat.lt_succ_self k) hpre
  have hsecond := guarded_waiting hgrid ht (show k < Function.update (fun _ => k + 1) CouponAdjustment.pre k .post from
    Nat.lt_succ_self k) hpost
  refine (Triple.bind hfirst (fun _ => hsecond)).weaken (fun _ h => h) (fun _ s hs => ⟨hs.stands, fun pass => ?_, hs.own⟩)
  cases pass with
  | pre  => exact hs.clear .pre
  | post => exact hs.clear .post

/-- **The rule of the sweep**: the adjustments of a node take the asset's own fields from what holds of them at the node
after it to what holds at the node. -/
theorem sweep_waiting {Q R : ℕ → S → Prop} {t' : K} (ht' : (lattices m).timeGrid.times[lo]? = some t') : ∀ (n : ℕ) {t : K},
    (lattices m).timeGrid.times[lo + n]? = some t →
    (∀ k t, k < lo + n → (lattices m).timeGrid.times[k]? = some t →
      Ends (fun v => Q (k + 1) v.2) (terms.preAdjustValuesImpl (some m) t) (fun v => R k v.2) ∧
      Ends (fun v => R k v.2) (terms.postAdjustValuesImpl (some m) t) (fun v => Q k v.2)) →
    Ends (Waiting lattices m t (fun _ => lo + n) (Q (lo + n))) (sweep (lattices m) terms lo n)
      (Waiting lattices m t' (fun _ => lo) (Q lo))
  | 0, t, ht, _         => by
    obtain rfl : t' = t := Option.some.inj (ht'.symm.trans ht)
    exact Triple.pure () (fun _ hs => hs)
  | n + 1, t, ht, himpl => by
    refine Triple.bind (stepTo_waiting (k := lo + n + 1) (fun _ => le_rfl)) (fun _ => ?_)
    intro s ⟨htime, hs⟩
    obtain ⟨hpre, hpost⟩ := himpl (lo + n) _ (by omega) htime
    refine Triple.bind (adjustValues_waiting hgrid htime hpre hpost) (fun _ => ?_) s hs
    exact sweep_waiting ht' n htime (fun k t hk => himpl k t (by omega))

/-- **An asset on a lattice** whose marks are clear of its node and those before waits there. -/
theorem initializeOn_waiting (ht : (lattices m).timeGrid.times[k]? = some t) [IsStrictOrderedRing K]
    (hbefore : Ends (fun v => Q v.2) (terms.resetBefore ((lattices m).implementation.size k) (some m) t) (fun v => Q v.2))
    (hadjust : Ends (Waiting lattices m t (fun _ => k + 1) Q) (if terms.adjusts then adjustValues terms else pure ())
      (Waiting lattices m t (fun _ => k) Q'))
    (hafter : Ends (fun v => Q' v.2) (terms.resetAfter ((lattices m).implementation.size k) (some m) t) (fun v => Q' v.2)) :
    Ends (fun s => (∀ pass, Clear (lattices m).timeGrid.times (k + 1) (s.base.latest pass)) ∧ Q s.own)
      (initializeOn lattices terms m t) (Waiting lattices m t (fun _ => k) Q') := by
  have hreset : Ends (Waiting lattices m t (fun _ => k + 1) Q)
      (reset terms ((lattices m).implementation.size k)) (Waiting lattices m t (fun _ => k) Q') :=
    Triple.bind (call_waiting hbefore) (fun _ => Triple.bind hadjust (fun _ => call_waiting hafter))
  intro s hs
  unfold initializeOn Lattice.initializeAsset
  rw [hgrid.index ht, Prog.run_bind]
  refine hreset _ ⟨⟨rfl, rfl⟩, fun pass => ?_, hs.2⟩
  cases pass with
  | pre  => exact hs.1 .pre
  | post => exact hs.1 .post

end Clear

/-! ## The log of the adjustments -/

structure Adjustment (K : Type) where
  pass : CouponAdjustment
  time : K
deriving DecidableEq

/-- A method on an asset that keeps a log, which it leaves alone. -/
def quiet (impl : Impl K L S ε) : Impl K L (S × List (Adjustment K)) ε := fun method time =>
  (impl method time).zoom (fun s => (s.1, s.2.1)) (fun v s => (v.1, v.2, s.2.2))

/-- A method on an asset that keeps a log, which it adds to. -/
def logging (impl : Impl K L S ε) (pass : CouponAdjustment) : Impl K L (S × List (Adjustment K)) ε :=
  fun method time => do
    quiet impl method time
    Prog.modify (fun s => (s.1, s.2.1, s.2.2 ++ [⟨pass, time⟩]))

/-- **The concrete type with a log of its adjustments.** -/
def Terms.logged (terms : Terms K L S ε) : Terms K L (S × List (Adjustment K)) ε where
  resetBefore size      := quiet (terms.resetBefore size)
  adjusts               := terms.adjusts
  resetAfter size       := quiet (terms.resetAfter size)
  preAdjustValuesImpl   := logging terms.preAdjustValuesImpl .pre
  postAdjustValuesImpl  := logging terms.postAdjustValuesImpl .post

/-- The asset without its log. -/
def unlog (s : Asset K L (S × List (Adjustment K))) : Asset K L S := ⟨s.base, s.own.1⟩

omit [Field K] [LinearOrder K] in
theorem call_logging_relates (impl : Impl K L S ε) (pass : CouponAdjustment) :
    Relates (fun s u => unlog s = u) (call (logging impl pass)) (call impl) (fun s u => unlog s = u) := by
  rintro s _ rfl
  unfold call Prog.zoom logging quiet unlog
  rw [Prog.run_bind]
  unfold Prog.zoom
  dsimp only
  rcases impl s.base.method s.base.time (s.base.values, s.own.1) with ⟨_ | _, _⟩
  · exact ⟨rfl, fun _ h => by cases h⟩
  · exact ⟨rfl, fun _ _ => rfl⟩

theorem adjustValues_relates (terms : Terms K L S ε) :
    Relates (fun s u => unlog s = u) (adjustValues terms.logged) (adjustValues terms) (fun s u => unlog s = u) := by
  have hpass : ∀ pass, Relates (fun s u => unlog s = u) (guarded pass terms.logged) (guarded pass terms)
      (fun s u => unlog s = u) := by
    refine fun pass => guarded_relates (R := fun s u => unlog s = u) ?_ (fun _ _ h _ => h) ?_ ?_
    · rintro s _ rfl
      rfl
    · cases pass <;> exact call_logging_relates _ _
    · rintro s _ rfl
      rfl
  exact Relates.bind (hpass .pre) (fun _ => hpass .post)

/-- The adjustments of the nodes from `lo` on, `n` of them, from the last one down. -/
def visited (times : List K) (lo n : ℕ) : List (Adjustment K) :=
  ((times.drop lo).take n).reverse.flatMap (fun t => [⟨.pre, t⟩, ⟨.post, t⟩])

omit [Field K] [LinearOrder K] in
theorem visited_add (times : List K) (lo m n : ℕ) :
    visited times lo (m + n) = visited times (lo + m) n ++ visited times lo m := by
  unfold visited
  rw [List.take_add, List.drop_drop, List.reverse_append, List.flatMap_append]

omit [Field K] [LinearOrder K] in
theorem visited_one {times : List K} (ht : times[lo]? = some t) : visited times lo 1 = [⟨.pre, t⟩, ⟨.post, t⟩] := by
  obtain ⟨hlo, rfl⟩ := List.getElem?_eq_some_iff.1 ht
  unfold visited
  rw [List.drop_eq_getElem_cons hlo]
  rfl

omit [Field K] [LinearOrder K] in
theorem logging_ends (impl : Impl K L S ε) (pass : CouponAdjustment) (method : Option L) (t : K) (log : List (Adjustment K)) :
    Ends (fun v => v.2.2 = log) (logging impl pass method t) (fun v => v.2.2 = log ++ [⟨pass, t⟩]) := by
  rintro v rfl
  unfold logging quiet
  rw [Prog.run_bind]
  unfold Prog.zoom
  dsimp only
  rcases impl method t (v.1, v.2.1) with ⟨_ | _, _⟩
  · trivial
  · rfl

theorem guarded_log (hgrid : Apart (lattices m).timeGrid) {waits : CouponAdjustment → ℕ}
    (ht : (lattices m).timeGrid.times[k]? = some t) (hdue : k < waits pass) (log : List (Adjustment K)) :
    Ends (Waiting lattices m t waits (fun own => own.2 = log)) (guarded pass terms.logged)
      (Waiting lattices m t (Function.update waits pass k) (fun own => own.2 = log ++ [⟨pass, t⟩])) := by
  apply guarded_waiting hgrid ht hdue
  cases pass <;> exact logging_ends _ _ _ _ _

/-- **A log changes nothing**: a sweep of the asset that keeps one is a sweep of the asset. -/
theorem sweep_relates (lattice : Lattice K) (terms : Terms K L S ε) (lo : ℕ) : ∀ n,
    Relates (fun s u => unlog s = u) (sweep lattice terms.logged lo n) (sweep lattice terms lo n) (fun s u => unlog s = u)
  | 0     => Relates.pure ()
  | n + 1 => by
    refine Relates.bind (Q := fun s u => unlog s = u) (stepTo_relates ?_ ?_) (fun _ => Relates.bind (adjustValues_relates terms) (fun _ => sweep_relates lattice terms lo n))
    · rintro s _ rfl
      rfl
    · rintro s _ rfl _ _ _
      rfl

/-- **A sweep adds both adjustments of every node**, once. -/
theorem sweep_log (hgrid : Apart (lattices m).timeGrid) (ht' : (lattices m).timeGrid.times[lo]? = some t')
    (ht : (lattices m).timeGrid.times[lo + n]? = some t) (log : List (Adjustment K)) :
    Ends (Waiting lattices m t (fun _ => lo + n) (fun own => own.2 = log)) (sweep (lattices m) terms.logged lo n)
      (Waiting lattices m t' (fun _ => lo) (fun own => own.2 = log ++ visited (lattices m).timeGrid.times lo n)) := by
  refine Triple.weaken (sweep_waiting hgrid ht' n ht
    (Q := fun k own => own.2 = log ++ visited (lattices m).timeGrid.times k (lo + n - k))
    (R := fun k own => own.2 = log ++ visited (lattices m).timeGrid.times (k + 1) (lo + n - (k + 1)) ++
      [⟨.pre, (lattices m).timeGrid.times.getD k 0⟩]) (fun k t hk ht => ?_)) (fun s hs => ?_) (fun _ s hs => ?_)
  · rw [List.getD_eq_getElem?_getD, ht, Option.getD_some]
    refine ⟨logging_ends _ _ _ _ _, (logging_ends _ _ _ _ _).weaken (fun _ h => h) (fun _ v hv => hv.trans ?_)⟩
    rw [show lo + n - k = 1 + (lo + n - (k + 1)) by omega, visited_add, visited_one ht, List.append_assoc, List.append_assoc]
    rfl
  · refine ⟨hs.stands, hs.clear, ?_⟩
    rw [Nat.sub_self]
    exact hs.own.trans (List.append_nil _).symm
  · rwa [Nat.add_sub_cancel_left] at hs

end Itofin.Discretized
