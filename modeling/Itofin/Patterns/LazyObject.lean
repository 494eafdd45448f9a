/-!
# Lazy objects — calculation on demand and the flags that guard it

The state of `patterns/lazyobject.rs`, without its embedded observable: that one is an observable of the thread, and
the holder notifies it where a function here says so.  Each function that the source splits around a notification
(`deferred_update`, `deferred_unfreeze`) is the part before it; dropping the `DeferredUpdate` guard is `dropUpdate`.
-/
namespace Itofin

structure LazyObject where
  calculated : Bool
  frozen : Bool
  failed : Bool
  alwaysForward : Bool
  updating : Bool
deriving DecidableEq, Repr

namespace LazyObject

def new (alwaysForward : Bool) : LazyObject :=
  { calculated := false, frozen := false, failed := false, alwaysForward, updating := false }

/-- `deferred_update`: whether the observers are to be notified under the guard, and the flags after it. -/
def deferredUpdate (l : LazyObject) : Bool × LazyObject :=
  if l.updating || !(l.calculated || l.failed || l.alwaysForward) then (false, l)
  else if l.frozen then (false, { l with updating := false, calculated := false, failed := false })
  else (true, { l with updating := true, calculated := false, failed := false })

/-- `Drop for DeferredUpdate`. -/
def dropUpdate (l : LazyObject) : LazyObject := { l with updating := false }

def markCalculated (l : LazyObject) : LazyObject := { l with calculated := true, failed := false }

def invalidateSilently (l : LazyObject) : LazyObject := { l with calculated := false, failed := false }

/-- `start_calculation`: whether the computation must run, and the flags after it. -/
def startCalculation (l : LazyObject) : Bool × LazyObject :=
  if l.calculated || l.frozen then (false, l) else (true, { l with calculated := true })

/-- `finish_calculation`: a success does not mark the object calculated again. -/
def finishCalculation (l : LazyObject) (ok : Bool) : LazyObject :=
  if ok then { l with failed := false } else { l with calculated := false, failed := true }

/-- `start_recalculation`: the prior frozen state, and the flags after it. -/
def startRecalculation (l : LazyObject) : Bool × LazyObject :=
  (l.frozen, { l with calculated := false, frozen := false, failed := false })

def finishRecalculation (l : LazyObject) (wasFrozen : Bool) : LazyObject := { l with frozen := wasFrozen }

def freeze (l : LazyObject) : LazyObject := { l with frozen := true }

/-- `deferred_unfreeze`: whether the observers are to be notified, and the flags after it. -/
def deferredUnfreeze (l : LazyObject) : Bool × LazyObject :=
  if l.frozen then (true, { l with frozen := false }) else (false, l)

/-! ## What each function leaves -/

/-- **An update outside the guard invalidates**, frozen or not, when every notification is forwarded. -/
theorem deferredUpdate_invalidates {l : LazyObject} (hf : l.alwaysForward = true) (hu : l.updating = false) :
    l.deferredUpdate.2.calculated = false := by
  unfold deferredUpdate
  simp only [hu, hf, Bool.or_true, Bool.not_true, Bool.or_self, Bool.false_eq_true, if_false]
  split <;> rfl

theorem deferredUpdate_updating {l : LazyObject} (hu : l.updating = false) :
    l.deferredUpdate.2.updating = l.deferredUpdate.1 := by
  unfold deferredUpdate
  split
  · exact hu
  · split <;> rfl

theorem deferredUpdate_guarded {l : LazyObject} (hu : l.updating = true) : l.deferredUpdate = (false, l) := by
  simp [deferredUpdate, hu]

@[simp] theorem deferredUpdate_alwaysForward (l : LazyObject) :
    l.deferredUpdate.2.alwaysForward = l.alwaysForward := by
  unfold deferredUpdate
  split
  · rfl
  · split <;> rfl

@[simp] theorem finishCalculation_alwaysForward (l : LazyObject) (ok : Bool) :
    (l.finishCalculation ok).alwaysForward = l.alwaysForward := by
  unfold finishCalculation; split <;> rfl

@[simp] theorem finishCalculation_updating (l : LazyObject) (ok : Bool) :
    (l.finishCalculation ok).updating = l.updating := by
  unfold finishCalculation; split <;> rfl

theorem finishCalculation_calculated {l : LazyObject} {ok : Bool} (h : (l.finishCalculation ok).calculated = true) :
    ok = true ∧ l.calculated = true := by
  unfold finishCalculation at h
  split at h
  · rename_i hok
    exact ⟨hok, h⟩
  · cases h

theorem startCalculation_false {l : LazyObject} (h : l.startCalculation.1 = false) : l.startCalculation.2 = l := by
  unfold startCalculation at h ⊢
  split
  · rfl
  · rename_i hc
    rw [if_neg hc] at h; cases h

@[simp] theorem startCalculation_alwaysForward (l : LazyObject) :
    l.startCalculation.2.alwaysForward = l.alwaysForward := by
  unfold startCalculation; split <;> rfl

@[simp] theorem startCalculation_updating (l : LazyObject) : l.startCalculation.2.updating = l.updating := by
  unfold startCalculation; split <;> rfl

@[simp] theorem deferredUnfreeze_calculated (l : LazyObject) :
    l.deferredUnfreeze.2.calculated = l.calculated := by
  unfold deferredUnfreeze; split <;> rfl

@[simp] theorem deferredUnfreeze_alwaysForward (l : LazyObject) :
    l.deferredUnfreeze.2.alwaysForward = l.alwaysForward := by
  unfold deferredUnfreeze; split <;> rfl

@[simp] theorem deferredUnfreeze_updating (l : LazyObject) : l.deferredUnfreeze.2.updating = l.updating := by
  unfold deferredUnfreeze; split <;> rfl

end LazyObject
end Itofin
