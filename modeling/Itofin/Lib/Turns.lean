import Mathlib.Tactic.Common
/-!
# Turns — computations that may panic, with a bound on their turns

A loop or a recursion takes turns from a given number; `outOfTurns` would be a computation that does not end.  A
computation that `Ends` has a value or panics.
-/
namespace Turns

inductive Halt where
  | panic | outOfTurns
deriving DecidableEq, Repr

/-- A function that panics where it has no result. -/
def orPanic {α : Type} : Option α → Except Halt α
  | some a => .ok a
  | none   => .error .panic

/-- The computation comes to an end. -/
def Ends {α : Type} (x : Except Halt α) : Prop := x ≠ .error .outOfTurns

variable {α β : Type} {x : Except Halt α}

theorem orPanic_ok {o : Option α} {a : α} (h : o = some a) : orPanic o = .ok a := by rw [h]; rfl

theorem orPanic_eq_ok {o : Option α} {a : α} (h : orPanic o = .ok a) : o = some a := by
  cases o with
  | none   => cases h
  | some b => cases h; rfl

theorem of_bind_ok {ε : Type} {x : Except ε α} {f : α → Except ε β} {b : β} (h : x >>= f = .ok b) :
    ∃ a, x = .ok a ∧ f a = .ok b := by
  cases x with
  | ok a    => exact ⟨a, rfl, h⟩
  | error e => cases h

theorem ends_ok (a : α) : Ends (Except.ok a : Except Halt α) := fun h => by cases h

theorem ends_panic : Ends (Except.error .panic : Except Halt α) := fun h => by cases h

theorem ends_orPanic (o : Option α) : Ends (orPanic o) := by
  cases o with
  | none   => exact ends_panic
  | some a => exact ends_ok a

theorem Ends.bind {f : α → Except Halt β} (h : Ends x) (hf : ∀ a, x = .ok a → Ends (f a)) : Ends (x >>= f) := by
  cases x with
  | ok a    => exact hf a rfl
  | error e => exact fun he => h (by cases he; rfl)

theorem Ends.map (f : α → β) (h : Ends x) : Ends (x.map f) := by
  cases x with
  | ok a    => exact ends_ok _
  | error e => exact fun he => h (by cases he; rfl)

end Turns
