import Mathlib.Algebra.Order.Group.Defs
import Mathlib.Data.List.Count
/-!
# Clock — a clock that is rolled back

What is done to a clock that runs back: its step is set, it takes a step from its time, it is visited at its time.  `Rolls`
says that a list of events runs from one clock to another, so the steps of the list lie end to end.
-/
namespace Clock

inductive Event (K : Type) where
  | setStep (dt : K)
  /-- A step of the length that was set, from `now`. -/
  | step (now : K)
  | visit (now : K)
deriving DecidableEq

variable {K : Type}

/-- The times of the visits, in their order. -/
def visits : List (Event K) → List K
  | []                  => []
  | .visit now :: rest  => now :: visits rest
  | .setStep _ :: rest  => visits rest
  | .step _ :: rest     => visits rest

@[simp] theorem visits_append : ∀ events rest : List (Event K), visits (events ++ rest) = visits events ++ visits rest
  | [], _                     => rfl
  | .visit now :: events, rest => by rw [List.cons_append, visits, visits, visits_append events rest, List.cons_append]
  | .setStep _ :: events, rest => by rw [List.cons_append, visits, visits, visits_append events rest]
  | .step _ :: events, rest    => by rw [List.cons_append, visits, visits, visits_append events rest]

variable [AddCommGroup K] [LT K]

/-- The events run from a clock, which is its step and its time, to another: a step is longer than nothing and starts at
the time of the clock, and so is a visit at the time of the clock. -/
inductive Rolls : K × K → List (Event K) → K × K → Prop where
  | nil (clock : K × K) : Rolls clock [] clock
  | setStep {dt now : K} (dt' : K) {events : List (Event K)} {clock : K × K} :
      Rolls (dt', now) events clock → Rolls (dt, now) (.setStep dt' :: events) clock
  | step {dt now : K} {events : List (Event K)} {clock : K × K} :
      0 < dt → Rolls (dt, now - dt) events clock → Rolls (dt, now) (.step now :: events) clock
  | visit {dt now : K} {events : List (Event K)} {clock : K × K} :
      Rolls (dt, now) events clock → Rolls (dt, now) (.visit now :: events) clock

theorem Rolls.append {clock clock' clock'' : K × K} {events rest : List (Event K)} (h : Rolls clock events clock')
    (h' : Rolls clock' rest clock'') : Rolls clock (events ++ rest) clock'' := by
  induction h with
  | nil             => exact h'
  | setStep dt' _ ih => exact .setStep dt' (ih h')
  | step hdt _ ih    => exact .step hdt (ih h')
  | visit _ ih       => exact .visit (ih h')

end Clock
