import Mathlib.Algebra.Field.Rat
import Mathlib.Algebra.Order.Field.Basic
import Mathlib.Algebra.Order.Ring.Rat
import Mathlib.Data.List.Destutter
import Mathlib.Data.List.Sort
import Mathlib.Tactic.Linarith
import Mathlib.Tactic.NormNum
import Mathlib.Tactic.Ring
import Itofin.Lib.Clock
import Itofin.Lib.Effect
/-!
# FiniteDifferenceModel — the rollback over a scheme

`FiniteDifferenceModel` of `methods/finitedifferences/finitedifferencemodel.rs`, in exact arithmetic.  The scheme and the
condition are any, with a state of their own.

What a rollback does to the scheme and the grid depends on the times alone: `events` lists it, and `rollback_eq` says that
a rollback performs the list.  The turns count down the steps that are left (`turns`), so what holds of one turn is carried
to the rollback by induction on them.
-/
namespace Itofin.Fdm

open Effect Clock

/-- A scheme with a state in `S` on grids in `A`; a step fails with an error in `ε`. -/
structure Scheme (K S A ε : Type) where
  setStep : K → S → S
  /-- Rolls the grid back over one step ending at the time. -/
  step : K → Prog (S × A) ε Unit

/-- `apply_to` -/
def StepCondition (K A : Type) : Type := K → A → A

inductive ModelError (K ε : Type) where
  /-- "trying to roll back from .. to .." -/
  | cannotRollBack (start stop : K)
  | scheme (e : ε)

/-- The stopping times; the evolver is in the state of the rollback. -/
structure FiniteDifferenceModel (K : Type) where
  stoppingTimes : List K

variable {K S A ε : Type} [Field K] [LinearOrder K]

/-- `Real::EPSILON.sqrt()` -/
def tolerance : K := 1 / (2 : ℕ) ^ 26

namespace FiniteDifferenceModel

/-- `sort_by(total_cmp)` and `dedup()`. -/
def new (stoppingTimes : List K) : FiniteDifferenceModel K :=
  ⟨(stoppingTimes.insertionSort (· ≤ ·)).destutter (· ≠ ·)⟩

variable (scheme : Scheme K S A ε) (condition : Option (StepCondition K A))

def setStep (dt : K) : Prog (S × A) (ModelError K ε) Unit := .modify (fun s => (scheme.setStep dt s.1, s.2))

def step (now : K) : Prog (S × A) (ModelError K ε) Unit := (scheme.step now).mapError .scheme

/-- `if let Some(condition) = condition { condition.apply_to(a, t); }` -/
def applyTo (t : K) : Prog (S × A) (ModelError K ε) Unit := .modify (fun s => (s.1, match condition with
  | some applyTo => applyTo t s.2
  | none         => s.2))

/-- A turn over the stopping times: the time now and whether one was hit. -/
def cut (next : K) : K × Bool → K → Prog (S × A) (ModelError K ε) (K × Bool)
  | (now, hit), stoppingTime =>
    if next ≤ stoppingTime ∧ stoppingTime < now then do
      setStep scheme (now - stoppingTime)
      step scheme now
      applyTo condition stoppingTime
      return (stoppingTime, true)
    else return (now, hit)

/-- Where a step from `t` ends: the last one at `stop`, and so one that would end next to it. -/
def nextTime (stop dt : K) (steps i : ℕ) (t : K) : K :=
  let next := if i < steps - 1 then t - dt else stop
  if |stop - next| < tolerance then stop else next

/-- A turn of the rollback at `t`, which leaves the `t` of the next turn. -/
def turn (model : FiniteDifferenceModel K) (stop dt : K) (steps : ℕ) (t : K) (i : ℕ) :
    Prog (S × A) (ModelError K ε) K := do
  let next := nextTime stop dt steps i t
  let (now, hit) ← model.stoppingTimes.reverse.foldlM (cut scheme condition next) (t, false)
  if hit = true then do
    if next < now then do
      setStep scheme (now - next)
      step scheme now
      applyTo condition next
    setStep scheme dt
    return t - dt
  else do
    step scheme now
    applyTo condition next
    return t - dt

def rollback (model : FiniteDifferenceModel K) (start stop : K) (steps : ℕ) :
    Prog (S × A) (ModelError K ε) Unit := do
  .require (stop ≤ start) (.cannotRollBack start stop)
  let dt := (start - stop) / (steps : K)
  setStep scheme dt
  if model.stoppingTimes.getLast? = some start then applyTo condition start
  let _ ← (List.range steps).foldlM (turn scheme condition model stop dt steps) start

end FiniteDifferenceModel

/-! ## What a rollback does -/

/-- What a turn over the stopping times does, and where it leaves off. -/
def cuts (next : K) : List K → K × Bool → List (Event K) × K × Bool
  | [], found                      => ([], found)
  | s :: stoppingTimes, (now, hit) =>
    if next ≤ s ∧ s < now then
      let rest := cuts next stoppingTimes (s, true)
      (.setStep (now - s) :: .step now :: .visit s :: rest.1, rest.2)
    else cuts next stoppingTimes (now, hit)

/-- What a turn does. -/
def turnEvents (stoppingTimes : List K) (dt now next : K) : List (Event K) :=
  let (events, last, hit) := cuts next stoppingTimes.reverse (now, false)
  if hit = true then
    events ++ (if next < last then [.setStep (last - next), .step last, .visit next] else []) ++ [.setStep dt]
  else events ++ [.step last, .visit next]

/-- What the last turns do, by their number: a turn with `k` more to come ends at `stop + k dt`, or at `stop` when that is
next to it. -/
def turns (stoppingTimes : List K) (stop dt : K) : ℕ → List (Event K)
  | 0     => []
  | k + 1 => turnEvents stoppingTimes dt (stop + (k + 1) * dt) (if (k : K) * dt < tolerance then stop else stop + k * dt) ++
      turns stoppingTimes stop dt k

/-- What a rollback does. -/
def events (stoppingTimes : List K) (start stop : K) (steps : ℕ) : List (Event K) :=
  let dt := (start - stop) / (steps : K)
  .setStep dt :: ((if stoppingTimes.getLast? = some start then [.visit start] else []) ++
    turns stoppingTimes stop dt steps)

section Perform

variable (scheme : Scheme K S A ε) (condition : Option (StepCondition K A))

def perform : List (Event K) → Prog (S × A) (ModelError K ε) Unit
  | []                   => pure ()
  | .setStep dt :: rest => do
    FiniteDifferenceModel.setStep scheme dt
    perform rest
  | .step now :: rest   => do
    FiniteDifferenceModel.step scheme now
    perform rest
  | .visit now :: rest  => do
    FiniteDifferenceModel.applyTo condition now
    perform rest

end Perform

variable {scheme : Scheme K S A ε} {condition : Option (StepCondition K A)} {start stop dt now next : K} {steps : ℕ}
  {times : List K}

omit [Field K] [LinearOrder K] in
theorem perform_append : ∀ events rest : List (Event K), perform scheme condition (events ++ rest) =
    (perform scheme condition events >>= fun _ => perform scheme condition rest)
  | [], _                        => rfl
  | .setStep dt :: events, rest => by
    rw [List.cons_append, perform, perform, Prog.bind_assoc, perform_append events rest]
  | .step now :: events, rest   => by
    rw [List.cons_append, perform, perform, Prog.bind_assoc, perform_append events rest]
  | .visit now :: events, rest  => by
    rw [List.cons_append, perform, perform, Prog.bind_assoc, perform_append events rest]

theorem foldlM_cut (next : K) : ∀ (times : List K) (found : K × Bool),
    times.foldlM (FiniteDifferenceModel.cut scheme condition next) found =
      (perform scheme condition (cuts next times found).1 >>= fun _ => pure (cuts next times found).2)
  | [], found               => rfl
  | s :: times, (now, hit) => by
    rw [List.foldlM_cons, FiniteDifferenceModel.cut, cuts]
    split
    · simp only [Prog.bind_assoc, perform]
      rw [← foldlM_cut next times (s, true)]
      rfl
    · rw [← foldlM_cut next times (now, hit)]
      rfl

theorem turn_eq (model : FiniteDifferenceModel K) (stop dt : K) (steps : ℕ) (t : K) (i : ℕ) :
    FiniteDifferenceModel.turn scheme condition model stop dt steps t i =
      (perform scheme condition (turnEvents model.stoppingTimes dt t
        (FiniteDifferenceModel.nextTime stop dt steps i t)) >>= fun _ => pure (t - dt)) := by
  unfold FiniteDifferenceModel.turn turnEvents
  dsimp only
  rw [foldlM_cut, Prog.bind_assoc]
  rcases cuts (FiniteDifferenceModel.nextTime stop dt steps i t) model.stoppingTimes.reverse (t, false) with
    ⟨events, last, hit⟩
  cases hit with
  | false =>
    simp only [Bool.false_eq_true, if_false, perform_append, perform, Prog.bind_assoc]
    rfl
  | true  =>
    simp only [if_true, perform_append, perform, Prog.bind_assoc]
    refine congrArg _ (funext fun _ => ?_)
    change (if FiniteDifferenceModel.nextTime stop dt steps i t < last then _ else _) = _
    split
    · simp only [perform, Prog.bind_assoc]
      rfl
    · rfl

section Order

variable [IsStrictOrderedRing K]

theorem tolerance_pos : (0 : K) < tolerance := by
  unfold tolerance
  positivity

/-- Where the turn with `k` more to come ends. -/
theorem nextTime_eq (hdt : 0 ≤ dt) {i k : ℕ} (hi : i + k + 1 = steps) :
    FiniteDifferenceModel.nextTime stop dt steps i (stop + (k + 1) * dt) =
      if (k : K) * dt < tolerance then stop else stop + k * dt := by
  unfold FiniteDifferenceModel.nextTime
  have hnext : (if i < steps - 1 then stop + (k + 1) * dt - dt else stop) = stop + k * dt := by
    cases k with
    | zero   => rw [if_neg (by omega), Nat.cast_zero, zero_mul, add_zero]
    | succ k =>
      rw [if_pos (by omega)]
      ring
  have habs : |stop - (stop + k * dt)| = k * dt := by
    rw [sub_add_cancel_left, abs_neg, abs_of_nonneg (by positivity)]
  dsimp only
  rw [hnext, habs]

theorem foldlM_turn (model : FiniteDifferenceModel K) (hdt : 0 ≤ dt) : ∀ k i : ℕ, i + k = steps →
    (List.range' i k).foldlM (FiniteDifferenceModel.turn scheme condition model stop dt steps) (stop + k * dt) =
      (perform scheme condition (turns model.stoppingTimes stop dt k) >>= fun _ => pure stop)
  | 0, i, _      => by
    rw [Nat.cast_zero, zero_mul, add_zero]
    rfl
  | k + 1, i, hi => by
    rw [List.range'_succ, List.foldlM_cons, turn_eq, turns, perform_append, Nat.cast_succ,
      nextTime_eq hdt (by omega), Prog.bind_assoc, Prog.bind_assoc]
    refine congrArg _ (funext fun _ => ?_)
    rw [← foldlM_turn model hdt k (i + 1) (by omega), show stop + k * dt = stop + (k + 1) * dt - dt by ring]
    rfl

/-- **A rollback performs its events.** -/
theorem rollback_eq (model : FiniteDifferenceModel K) (h : stop ≤ start) (hs : 0 < steps) :
    FiniteDifferenceModel.rollback scheme condition model start stop steps =
      perform scheme condition (events model.stoppingTimes start stop steps) := by
  have hn : (steps : K) ≠ 0 := Nat.cast_ne_zero.mpr hs.ne'
  have hdt : 0 ≤ (start - stop) / (steps : K) := div_nonneg (sub_nonneg.mpr h) (Nat.cast_nonneg _)
  have hloop : (List.range' 0 steps).foldlM
      (FiniteDifferenceModel.turn scheme condition model stop ((start - stop) / (steps : K)) steps)
        (stop + steps * ((start - stop) / (steps : K))) = _ := foldlM_turn model hdt steps 0 (Nat.zero_add _)
  rw [mul_div_cancel₀ _ hn, add_sub_cancel, ← List.range_eq_range'] at hloop
  unfold FiniteDifferenceModel.rollback events
  dsimp only
  rw [Prog.require, if_pos h, hloop, perform, perform_append]
  have hturns : (perform scheme condition (turns model.stoppingTimes stop ((start - stop) / (steps : K)) steps) >>=
      fun _ => pure stop >>= fun _ => pure ()) =
        perform scheme condition (turns model.stoppingTimes stop ((start - stop) / (steps : K)) steps) :=
    Prog.bind_pure _
  split <;>
  · simp only [Prog.bind_assoc]
    rw [hturns]
    rfl

end Order

/-! ## The stopping times of a turn -/

variable {s : K} {hit : Bool}

theorem cuts_le : ∀ (times : List K) (now : K) (hit : Bool), (cuts next times (now, hit)).2.1 ≤ now
  | [], _, _               => le_rfl
  | s :: times, now, hit => by
    rw [cuts]
    split
    · rename_i h
      exact (cuts_le times s true).trans h.2.le
    · exact cuts_le times now hit

theorem le_cuts : ∀ (times : List K) {now : K} (hit : Bool), next ≤ now → next ≤ (cuts next times (now, hit)).2.1
  | [], _, _, h             => h
  | s :: times, now, hit, h => by
    rw [cuts]
    split
    · rename_i hs
      exact le_cuts times true hs.1
    · exact le_cuts times hit h

theorem cuts_le_of_mem : ∀ {times : List K} {now : K} (hit : Bool), times.Pairwise (· > ·) → s ∈ times → next ≤ s →
    s < now → (cuts next times (now, hit)).2.1 ≤ s
  | t :: times, now, hit, hsorted, hmem, hle, hlt => by
    obtain ⟨ht, hsorted⟩ := List.pairwise_cons.mp hsorted
    rw [cuts]
    split
    · rcases List.mem_cons.mp hmem with rfl | hmem
      · exact cuts_le times s true
      · exact cuts_le_of_mem true hsorted hmem hle (ht s hmem)
    · rename_i hn
      rcases List.mem_cons.mp hmem with rfl | hmem
      · exact absurd ⟨hle, hlt⟩ hn
      · exact cuts_le_of_mem hit hsorted hmem hle hlt

theorem cuts_hit : ∀ (times : List K) (now : K), (cuts next times (now, true)).2.2 = true
  | [], _             => rfl
  | s :: times, now => by
    rw [cuts]
    split
    · exact cuts_hit times s
    · exact cuts_hit times now

theorem cuts_unhit : ∀ (times : List K) (now : K), (cuts next times (now, false)).2.2 = false →
    cuts next times (now, false) = ([], now, false)
  | [], _, _             => rfl
  | s :: times, now, h => by
    rw [cuts] at h ⊢
    split at h
    · rw [cuts_hit] at h
      cases h
    · rename_i hn
      rw [if_neg hn]
      exact cuts_unhit times now h

theorem visits_cuts (next : K) : ∀ {times : List K} (now : K) (hit : Bool), times.Pairwise (· > ·) →
    visits (cuts next times (now, hit)).1 = times.filter (fun s => next ≤ s ∧ s < now)
  | [], _, _, _                   => rfl
  | t :: times, now, hit, hsorted => by
    obtain ⟨ht, hsorted⟩ := List.pairwise_cons.mp hsorted
    rw [cuts]
    split
    · rename_i h
      rw [List.filter_cons_of_pos (by simpa using h), visits, visits, visits, visits_cuts next t true hsorted]
      congr 1
      refine List.filter_congr (fun x hx => ?_)
      simp [ht x hx, (ht x hx).trans h.2]
    · rename_i h
      rw [List.filter_cons_of_neg (by simpa using h), visits_cuts next now hit hsorted]

theorem cuts_self (now : K) (hit : Bool) : ∀ times : List K, cuts now times (now, hit) = ([], now, hit)
  | []         => rfl
  | s :: times => by rw [cuts, if_neg (fun h => h.1.not_gt h.2), cuts_self now hit times]

section Order

variable [IsStrictOrderedRing K]

theorem rolls_cuts (next : K) : ∀ (times : List K) (dt now : K) (hit : Bool),
    ∃ dt', Rolls (dt, now) (cuts next times (now, hit)).1 (dt', (cuts next times (now, hit)).2.1)
  | [], dt, _, _               => ⟨dt, .nil _⟩
  | s :: times, dt, now, hit => by
    rw [cuts]
    split
    · rename_i h
      obtain ⟨dt', hrolls⟩ := rolls_cuts next times (now - s) s true
      refine ⟨dt', .setStep _ (.step (sub_pos.mpr h.2) ?_)⟩
      rw [sub_sub_cancel]
      exact .visit hrolls
    · exact rolls_cuts next times dt now hit

/-! ## A turn -/

/-- A turn of positive length rolls the clock to its end and restores the step. -/
theorem rolls_turn (times : List K) (h : next < now) :
    Rolls (now - next, now) (turnEvents times (now - next) now next) (now - next, next) := by
  unfold turnEvents
  obtain ⟨dt', hrolls⟩ := rolls_cuts next times.reverse (now - next) now false
  have hle := le_cuts times.reverse false h.le
  rcases hcuts : cuts next times.reverse (now, false) with ⟨events, last, hit⟩
  rw [hcuts] at hrolls hle
  dsimp only at hrolls hle ⊢
  cases hit with
  | false =>
    have hnil := cuts_unhit times.reverse now (by rw [hcuts])
    rw [hcuts] at hnil
    cases hnil
    refine .step (sub_pos.mpr h) ?_
    rw [sub_sub_cancel]
    exact .visit (.nil _)
  | true  =>
    rw [if_pos rfl]
    have hrest : ∃ dt'', Rolls (dt', last)
        (if next < last then [.setStep (last - next), .step last, .visit next] else []) (dt'', next) := by
      split
      · rename_i hlt
        refine ⟨last - next, .setStep _ (.step (sub_pos.mpr hlt) ?_)⟩
        rw [sub_sub_cancel]
        exact .visit (.nil _)
      · rename_i hge
        rw [le_antisymm hle (not_lt.mp hge)]
        exact ⟨dt', .nil _⟩
    obtain ⟨dt'', hrest⟩ := hrest
    exact (hrolls.append hrest).append (.setStep _ (.nil _))

end Order

/-- The visits of a turn: the stopping times between its ends, and then its end if it is not one of them. -/
theorem visits_turn (hsorted : times.Pairwise (· < ·)) (dt now next : K) :
    ∃ rest, visits (turnEvents times dt now next) = times.reverse.filter (fun s => next ≤ s ∧ s < now) ++ rest ∧
      (rest = [] ∨ rest = [next] ∧ (∀ s ∈ times, next ≤ s → s < now → next < s)) := by
  have hreverse : times.reverse.Pairwise (· > ·) := List.pairwise_reverse.mpr hsorted
  have hvisits := visits_cuts next now false hreverse
  have hlast (s : K) (hs : s ∈ times) (hle : next ≤ s) (hlt : s < now) :=
    cuts_le_of_mem false hreverse (List.mem_reverse.mpr hs) hle hlt
  unfold turnEvents
  rcases hcuts : cuts next times.reverse (now, false) with ⟨events, last, hit⟩
  rw [hcuts] at hvisits hlast
  dsimp only at hvisits hlast ⊢
  rw [← hvisits]
  cases hit with
  | false =>
    have hnil := cuts_unhit times.reverse now (by rw [hcuts])
    rw [hcuts] at hnil
    cases hnil
    refine ⟨[next], rfl, .inr ⟨rfl, fun s hs hle hlt => ?_⟩⟩
    exact absurd (hlast s hs hle hlt) (not_le.mpr hlt)
  | true  =>
    rw [if_pos rfl, visits_append, visits_append, List.append_assoc]
    refine ⟨_, rfl, ?_⟩
    split
    · rename_i hlt
      exact .inr ⟨rfl, fun s hs hle hlt' => hlt.trans_le (hlast s hs hle hlt')⟩
    · exact .inl rfl

theorem count_turn (hsorted : times.Pairwise (· < ·)) (hs : s ∈ times) (dt : K) (h : next < now) :
    (visits (turnEvents times dt now next)).count s = if next ≤ s ∧ s < now then 1 else 0 := by
  obtain ⟨rest, hvisits, hrest⟩ := visits_turn hsorted dt now next
  rw [hvisits, List.count_append]
  have hnodup : times.reverse.Nodup := List.nodup_reverse.mpr (hsorted.imp ne_of_lt)
  by_cases hin : next ≤ s ∧ s < now
  · have hzero : rest.count s = 0 := by
      rcases hrest with rfl | ⟨rfl, hlt⟩
      · rfl
      · exact List.count_eq_zero.mpr (fun hmem => (hlt s hs hin.1 hin.2).ne' (List.mem_singleton.mp hmem))
    rw [if_pos hin, hzero, List.count_filter (by simpa using hin),
      List.count_eq_one_of_mem hnodup (List.mem_reverse.mpr hs)]
  · have hzero : rest.count s = 0 := by
      rcases hrest with rfl | ⟨rfl, -⟩
      · rfl
      · refine List.count_eq_zero.mpr (fun hmem => ?_)
        cases List.mem_singleton.mp hmem
        exact hin ⟨le_rfl, h⟩
    rw [if_neg hin, hzero, List.count_eq_zero.mpr (fun hmem => hin (by simpa using (List.mem_filter.mp hmem).2))]

theorem mem_visits_turn (hsorted : times.Pairwise (· < ·)) {dt : K} (h : next < now)
    (hs : s ∈ visits (turnEvents times dt now next)) : next ≤ s ∧ s < now := by
  obtain ⟨rest, hvisits, hrest⟩ := visits_turn hsorted dt now next
  rw [hvisits] at hs
  rcases List.mem_append.mp hs with hs | hs
  · simpa using (List.mem_filter.mp hs).2
  · rcases hrest with rfl | ⟨rfl, -⟩
    · cases hs
    · cases List.mem_singleton.mp hs
      exact ⟨le_rfl, h⟩

theorem visits_turn_decreasing (hsorted : times.Pairwise (· < ·)) (dt now next : K) :
    (visits (turnEvents times dt now next)).Pairwise (· > ·) := by
  obtain ⟨rest, hvisits, hrest⟩ := visits_turn hsorted dt now next
  rw [hvisits]
  refine List.pairwise_append.mpr ⟨(List.pairwise_reverse.mpr hsorted).filter _, ?_, fun s hs t ht => ?_⟩
  · rcases hrest with rfl | ⟨rfl, -⟩
    · exact List.Pairwise.nil
    · exact List.pairwise_singleton _ _
  · rcases hrest with rfl | ⟨rfl, hlt⟩
    · cases ht
    · cases List.mem_singleton.mp ht
      obtain ⟨hs, hin⟩ := List.mem_filter.mp hs
      rw [decide_eq_true_eq] at hin
      exact hlt s (List.mem_reverse.mp hs) hin.1 hin.2

theorem visits_turn_self (times : List K) (dt now : K) : visits (turnEvents times dt now now) = [now] := by
  unfold turnEvents
  rw [cuts_self]
  rfl

/-! ## The turns -/

/-- No step before the last `n` is cut short to `stop` from above `s`. -/
def Unsnapped (stop dt s : K) (n : ℕ) : Prop :=
  ∀ k : ℕ, 0 < k → k < n → (k : K) * dt < tolerance → stop + k * dt ≤ s

variable [IsStrictOrderedRing K]

theorem unsnapped_of_tolerance (hdt : tolerance ≤ dt) (s : K) (n : ℕ) : Unsnapped stop dt s n := by
  intro k hk _ hlt
  have hone : (1 : K) ≤ k := Nat.one_le_cast.mpr hk
  have := le_mul_of_one_le_left (tolerance_pos.le.trans hdt) hone
  exact absurd hlt (not_lt.mpr (hdt.trans this))

theorem turnEnd_lt (hdt : 0 < dt) (k : ℕ) :
    (if (k : K) * dt < tolerance then stop else stop + k * dt) < stop + (k + 1) * dt := by
  have hk : (0 : K) ≤ k * dt := by positivity
  split <;> linarith

theorem le_turnEnd (hdt : 0 < dt) (k : ℕ) : stop ≤ if (k : K) * dt < tolerance then stop else stop + k * dt := by
  have hk : (0 : K) ≤ k * dt := by positivity
  split <;> linarith

theorem mem_visits_turns (hsorted : times.Pairwise (· < ·)) (hdt : 0 < dt) : ∀ n : ℕ, ∀ s ∈ visits (turns times stop dt n),
    stop ≤ s ∧ s < stop + n * dt
  | 0, s, hs     => by cases hs
  | n + 1, s, hs => by
    rw [turns, visits_append] at hs
    rw [Nat.cast_succ]
    rcases List.mem_append.mp hs with hs | hs
    · obtain ⟨hle, hlt⟩ := mem_visits_turn hsorted (turnEnd_lt hdt n) hs
      exact ⟨(le_turnEnd hdt n).trans hle, hlt⟩
    · obtain ⟨hle, hlt⟩ := mem_visits_turns hsorted hdt n s hs
      exact ⟨hle, by linarith⟩

/-- **How often the last turns visit a stopping time**: once, unless an earlier step was cut short. -/
theorem count_turns (hsorted : times.Pairwise (· < ·)) (hs : s ∈ times) (hdt : 0 < dt) (hle : stop ≤ s) : ∀ n : ℕ,
    s < stop + n * dt → 1 ≤ (visits (turns times stop dt n)).count s ∧
      ((visits (turns times stop dt n)).count s = 1 ↔ Unsnapped stop dt s n)
  | 0, hlt     => absurd hlt (not_lt.mpr (by simpa using hle))
  | n + 1, hlt => by
    rw [Nat.cast_succ] at hlt
    rw [turns, visits_append, List.count_append, count_turn hsorted hs dt (turnEnd_lt hdt n)]
    have hn : (0 : K) ≤ n * dt := by positivity
    by_cases hprev : s < stop + n * dt
    · obtain ⟨hone, hiff⟩ := count_turns hsorted hs hdt hle n hprev
      have hpos : 0 < n := by
        rcases Nat.eq_zero_or_pos n with rfl | hpos
        · exact absurd hprev (not_lt.mpr (by simpa using hle))
        · exact hpos
      by_cases htol : (n : K) * dt < tolerance
      · -- the step is cut short to `stop`, and passes the time once more
        rw [if_pos htol, if_pos ⟨hle, hlt⟩]
        refine ⟨by omega, iff_of_false (by omega) (fun h => ?_)⟩
        exact absurd hprev (not_lt.mpr (h n hpos n.lt_succ_self htol))
      · rw [if_neg htol, if_neg (fun h => h.1.not_gt hprev), Nat.zero_add]
        refine ⟨hone, hiff.trans ⟨fun h k hk hkn hklt => ?_, fun h k hk hkn => h k hk (by omega)⟩⟩
        rcases Nat.lt_succ_iff_lt_or_eq.mp hkn with hkn | rfl
        · exact h k hk hkn hklt
        · exact absurd hklt htol
    · have hzero : (visits (turns times stop dt n)).count s = 0 :=
        List.count_eq_zero.mpr (fun hmem => hprev (mem_visits_turns hsorted hdt n s hmem).2)
      have hend : (if (n : K) * dt < tolerance then stop else stop + n * dt) ≤ s := by
        split
        · exact hle
        · exact not_lt.mp hprev
      rw [if_pos ⟨hend, hlt⟩, hzero]
      refine ⟨le_rfl, iff_of_true rfl (fun k _ hkn _ => ?_)⟩
      have hk : (k : K) ≤ n := Nat.cast_le.mpr (Nat.le_of_lt_succ hkn)
      have := mul_le_mul_of_nonneg_right hk hdt.le
      linarith [not_lt.mp hprev]

/-- With steps that are not cut short, the last turns lie end to end and visit times that fall. -/
theorem rolls_turns (hsorted : times.Pairwise (· < ·)) (hdt : tolerance ≤ dt) : ∀ n : ℕ,
    Rolls (dt, stop + n * dt) (turns times stop dt n) (dt, stop) ∧ (visits (turns times stop dt n)).Pairwise (· > ·)
  | 0     => by
    rw [Nat.cast_zero, zero_mul, add_zero]
    exact ⟨.nil _, .nil⟩
  | n + 1 => by
    have hpos : 0 < dt := tolerance_pos.trans_le hdt
    obtain ⟨hrolls, hvisits⟩ := rolls_turns hsorted hdt n
    have hend : (if (n : K) * dt < tolerance then stop else stop + n * dt) = stop + n * dt := by
      rcases Nat.eq_zero_or_pos n with rfl | hn
      · rw [Nat.cast_zero, zero_mul, add_zero, ite_self]
      · have hone : (1 : K) ≤ n := Nat.one_le_cast.mpr hn
        rw [if_neg (not_lt.mpr (hdt.trans (le_mul_of_one_le_left hpos.le hone)))]
    have hlt : stop + n * dt < stop + (n + 1) * dt := by linarith
    have hturn := rolls_turn times hlt
    rw [show stop + (n + 1) * dt - (stop + n * dt) = dt by ring] at hturn
    rw [turns, hend, Nat.cast_succ, visits_append]
    refine ⟨hturn.append hrolls, List.pairwise_append.mpr
      ⟨visits_turn_decreasing hsorted dt _ _, hvisits, fun s hs t ht => ?_⟩⟩
    exact (mem_visits_turns hsorted hpos n t ht).2.trans_le (mem_visits_turn hsorted (by linarith) hs).1

/-! ## The stopping times -/

omit [Field K] [IsStrictOrderedRing K] in
theorem mem_destutter : ∀ (l : List K) (a : K), s ∈ l.destutter' (· ≠ ·) a ↔ s = a ∨ s ∈ l
  | [], a     => by rw [List.destutter'_nil, List.mem_singleton, or_iff_left List.not_mem_nil]
  | b :: l, a => by
    rw [List.destutter'_cons]
    split
    · rw [List.mem_cons, mem_destutter l b, List.mem_cons]
    · rename_i h
      rw [mem_destutter l a, List.mem_cons, not_not.mp h]
      tauto

omit [Field K] [IsStrictOrderedRing K] in
theorem new_mem : s ∈ (FiniteDifferenceModel.new times).stoppingTimes ↔ s ∈ times := by
  unfold FiniteDifferenceModel.new
  rw [← List.mem_insertionSort (· ≤ ·) (l := times)]
  cases times.insertionSort (· ≤ ·) with
  | nil      => rfl
  | cons a l => rw [List.destutter_cons', mem_destutter, List.mem_cons]

omit [Field K] [IsStrictOrderedRing K] in
theorem new_sorted (times : List K) : (FiniteDifferenceModel.new times).stoppingTimes.Pairwise (· < ·) := by
  have hle := (List.pairwise_insertionSort (· ≤ ·) times).sublist (List.destutter_sublist (· ≠ ·) _)
  have hne := List.isChain_destutter (· ≠ ·) (times.insertionSort (· ≤ ·))
  have hlt : List.IsChain (· < ·) ((times.insertionSort (· ≤ ·)).destutter (· ≠ ·)) :=
    List.isChain_iff_getElem.mpr (fun i hi => lt_of_le_of_ne
      (List.pairwise_iff_getElem.mp hle i (i + 1) (by omega) hi (Nat.lt_succ_self i))
      (List.isChain_iff_getElem.mp hne i hi))
  exact hlt.pairwise

omit [IsStrictOrderedRing K] in
theorem visits_events (times : List K) (start stop : K) (steps : ℕ) : visits (events times start stop steps) =
    (if times.getLast? = some start then [start] else []) ++ visits (turns times stop ((start - stop) / steps) steps) := by
  unfold events
  dsimp only
  rw [visits, visits_append]
  split <;> rfl

theorem rolls_events (hsorted : times.Pairwise (· < ·)) (hs : 0 < steps) (hdt : tolerance ≤ (start - stop) / (steps : K))
    (dt : K) : Rolls (dt, start) (events times start stop steps) ((start - stop) / steps, stop) := by
  have hn : (steps : K) ≠ 0 := Nat.cast_ne_zero.mpr hs.ne'
  have hrolls : Rolls ((start - stop) / (steps : K), stop + steps * ((start - stop) / (steps : K)))
      (turns times stop ((start - stop) / (steps : K)) steps) ((start - stop) / (steps : K), stop) :=
    (rolls_turns hsorted hdt steps).1
  rw [mul_div_cancel₀ _ hn, add_sub_cancel] at hrolls
  unfold events
  dsimp only
  refine .setStep _ ?_
  split
  · exact .visit hrolls
  · exact hrolls

theorem end_eq (start stop : K) (hs : 0 < steps) : stop + steps * ((start - stop) / (steps : K)) = start := by
  rw [mul_div_cancel₀ _ (Nat.cast_ne_zero.mpr hs.ne'), add_sub_cancel]

theorem step_pos (h : stop < start) (hs : 0 < steps) : 0 < (start - stop) / (steps : K) :=
  div_pos (sub_pos.mpr h) (Nat.cast_pos.mpr hs)

theorem mem_turns_between (hsorted : times.Pairwise (· < ·)) (h : stop < start) (hs : 0 < steps)
    (hmem : s ∈ visits (turns times stop ((start - stop) / (steps : K)) steps)) : stop ≤ s ∧ s < start := by
  have := mem_visits_turns hsorted (step_pos h hs) steps s hmem
  rwa [end_eq start stop hs] at this

/-- How often a rollback visits a stopping time before its start. -/
theorem count_events (hsorted : times.Pairwise (· < ·)) (hmem : s ∈ times) (hs : 0 < steps) (hle : stop ≤ s)
    (hlt : s < start) : 1 ≤ (visits (events times start stop steps)).count s ∧
      ((visits (events times start stop steps)).count s = 1 ↔ Unsnapped stop ((start - stop) / (steps : K)) s steps) := by
  have hfirst : (if times.getLast? = some start then [start] else []).count s = 0 := by
    split
    · exact List.count_eq_zero.mpr (fun hmem => hlt.ne (List.mem_singleton.mp hmem))
    · rfl
  rw [visits_events, List.count_append, hfirst, Nat.zero_add]
  exact count_turns hsorted hmem (step_pos (hle.trans_lt hlt) hs) hle steps (by rwa [end_eq start stop hs])

theorem count_events_start (hsorted : times.Pairwise (· < ·)) (h : stop < start) (hs : 0 < steps) :
    (visits (events times start stop steps)).count start = if times.getLast? = some start then 1 else 0 := by
  rw [visits_events, List.count_append,
    List.count_eq_zero.mpr (fun hmem => (mem_turns_between hsorted h hs hmem).2.false)]
  split
  · rw [List.count_singleton_self]
  · rfl

theorem count_events_outside (hsorted : times.Pairwise (· < ·)) (h : stop < start) (hs : 0 < steps)
    (hout : s < stop ∨ start < s) : (visits (events times start stop steps)).count s = 0 := by
  rw [visits_events]
  refine List.count_eq_zero.mpr (fun hmem => ?_)
  rcases List.mem_append.mp hmem with hmem | hmem
  · split at hmem
    · cases List.mem_singleton.mp hmem
      exact hout.elim h.not_gt (lt_irrefl _)
    · cases hmem
  · obtain ⟨hle, hlt⟩ := mem_turns_between hsorted h hs hmem
    exact hout.elim hle.not_gt hlt.not_gt

/-- **A rollback tiles the interval and stops where it should**: what it does to the scheme and the grid is a list of
events that runs the clock from `start` down to `stop` with the step restored, visiting times that fall, and every stopping
time in between once. -/
theorem rollback_tiles (stoppingTimes : List K) (start stop : K) (steps : ℕ) (h : stop < start) (hs : 0 < steps)
    (hdt : tolerance < (start - stop) / (steps : K)) :
    ∃ events : List (Event K),
      (∀ (S A ε : Type) (scheme : Scheme K S A ε) (condition : Option (StepCondition K A)),
        FiniteDifferenceModel.rollback scheme condition (FiniteDifferenceModel.new stoppingTimes) start stop steps =
          perform scheme condition events) ∧
      (∀ dt, Rolls (dt, start) events ((start - stop) / (steps : K), stop)) ∧
      (visits events).Pairwise (· > ·) ∧
      ∀ s ∈ stoppingTimes, stop ≤ s → s < start → (visits events).count s = 1 := by
  have hsorted := new_sorted stoppingTimes
  refine ⟨events (FiniteDifferenceModel.new stoppingTimes).stoppingTimes start stop steps,
    fun S A ε scheme condition => rollback_eq _ h.le hs, rolls_events hsorted hs hdt.le, ?_, fun s hmem hle hlt => ?_⟩
  · rw [visits_events]
    refine List.pairwise_append.mpr ⟨?_, (rolls_turns hsorted hdt.le steps).2, fun t ht s hmem => ?_⟩
    · split
      · exact List.pairwise_singleton _ _
      · exact .nil
    · split at ht
      · cases List.mem_singleton.mp ht
        exact (mem_turns_between hsorted h hs hmem).2
      · cases ht
  · exact (count_events hsorted (new_mem.mpr hmem) hs hle hlt).2.mpr (unsnapped_of_tolerance hdt.le s steps)

theorem rollback_tiles_two : ∃ events : List (Event ℚ),
    (∀ (S A ε : Type) (scheme : Scheme ℚ S A ε) (condition : Option (StepCondition ℚ A)),
      FiniteDifferenceModel.rollback scheme condition (FiniteDifferenceModel.new [7 / 10, 9 / 10, 7 / 10]) 1 0 2 =
        perform scheme condition events) ∧
    (∀ dt, Rolls (dt, 1) events ((1 - 0) / ((2 : ℕ) : ℚ), 0)) ∧
    (visits events).Pairwise (· > ·) ∧
    ∀ s ∈ [(7 / 10 : ℚ), 9 / 10, 7 / 10], 0 ≤ s → s < 1 → (visits events).count s = 1 :=
  rollback_tiles [7 / 10, 9 / 10, 7 / 10] 1 0 2 (by norm_num) (by norm_num) (by norm_num [tolerance])

end Itofin.Fdm
