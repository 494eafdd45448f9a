import Mathlib.Tactic.FieldSimp
import Itofin.Methods.FiniteDifferenceModel
/-!
# FdmBackwardSolver — a rollback with damping

`FdmBackwardSolver::rollback` of `methods/finitedifferences/solvers/fdmbackwardsolver.rs`, in exact arithmetic: a model over
implicit Euler down to the seam, and a model over the scheme of the descriptor below it, both with all the stopping times.

A rollback performs its phases (`rollback_eq`), and `once_iff` says for which stopping times their visits are one.
-/
namespace Itofin.Fdm

open Effect Clock

inductive FdmSchemeType where
  | hundsdorfer
  | douglas
  | craigSneyd
  | modifiedCraigSneyd
  | implicitEuler
  | explicitEuler
  | methodOfLines
  | trBDF2
  | crankNicolson
deriving DecidableEq

structure FdmSchemeDesc (K : Type) where
  schemeType : FdmSchemeType
  theta : K
  mu : K

/-- The schemes over an operator in `M` under the boundary conditions of the solver; the operator is shared, so a scheme
leaves it changed. -/
structure Schemes (K M S A ε : Type) where
  scheme : Scheme K S A ε
  operator : S → M
  douglas : K → M → S
  hundsdorfer : K → K → M → S
  craigSneyd : K → K → M → S
  modifiedCraigSneyd : K → K → M → S
  implicitEuler : M → S
  explicitEuler : M → S
  crankNicolson : M → S
  methodOfLines : K → K → M → S
  trBDF2 : K → M → S → S

/-- The stopping times, and the conditions in their order. -/
structure FdmStepConditionComposite (K A : Type) where
  stoppingTimes : List K
  conditions : List (StepCondition K A)

structure FdmBackwardSolver (K A : Type) where
  condition : FdmStepConditionComposite K A
  schemeDesc : FdmSchemeDesc K

variable {K M S A ε : Type} [Field K] [LinearOrder K]

namespace FdmStepConditionComposite

def new (stoppingTimes : List (List K)) (conditions : List (StepCondition K A)) : FdmStepConditionComposite K A :=
  ⟨(stoppingTimes.flatten.insertionSort (· ≤ ·)).destutter (· ≠ ·), conditions⟩

omit [Field K] [LinearOrder K] in
def applyTo (composite : FdmStepConditionComposite K A) : StepCondition K A := fun t a =>
  composite.conditions.foldl (fun a condition => condition t a) a

end FdmStepConditionComposite

namespace FdmSchemeDesc

def craigSneyd : FdmSchemeDesc K := ⟨.craigSneyd, 1 / (2 : ℕ), 1 / (2 : ℕ)⟩

/-- The scheme of a descriptor, over the operator. -/
def evolver (schemes : Schemes K M S A ε) (desc : FdmSchemeDesc K) (map : M) : S :=
  match desc.schemeType with
  | .douglas            => schemes.douglas desc.theta map
  | .hundsdorfer        => schemes.hundsdorfer desc.theta desc.mu map
  | .implicitEuler      => schemes.implicitEuler map
  | .explicitEuler      => schemes.explicitEuler map
  | .crankNicolson      => schemes.crankNicolson map
  | .craigSneyd         => schemes.craigSneyd desc.theta desc.mu map
  | .modifiedCraigSneyd => schemes.modifiedCraigSneyd desc.theta desc.mu map
  | .methodOfLines      => schemes.methodOfLines desc.theta desc.mu map
  | .trBDF2             => schemes.trBDF2 desc.theta map (schemes.craigSneyd (craigSneyd (K := K)).theta craigSneyd.mu map)

end FdmSchemeDesc

/-- A program on a scheme of its own over the operator. -/
def withEvolver (schemes : Schemes K M S A ε) (desc : FdmSchemeDesc K) (x : Prog (S × A) (ModelError K ε) Unit) :
    Prog (M × A) (ModelError K ε) Unit := fun s =>
  let r := x (desc.evolver schemes s.1, s.2)
  (r.1, schemes.operator r.2.1, r.2.2)

namespace FdmBackwardSolver

variable (schemes : Schemes K M S A ε) (solver : FdmBackwardSolver K A)

/-- A model over a new scheme, rolled back. -/
def rollModel (desc : FdmSchemeDesc K) (start stop : K) (steps : ℕ) : Prog (M × A) (ModelError K ε) Unit :=
  withEvolver schemes desc (FiniteDifferenceModel.rollback schemes.scheme (some solver.condition.applyTo)
    (FiniteDifferenceModel.new solver.condition.stoppingTimes) start stop steps)

/-- `damping_to` -/
def seam (start stop : K) (steps dampingSteps : ℕ) : K :=
  let deltaT := start - stop
  let allSteps := steps + dampingSteps
  start - deltaT * dampingSteps / allSteps

def rollback (start stop : K) (steps dampingSteps : ℕ) : Prog (M × A) (ModelError K ε) Unit := do
  let dampingTo := seam start stop steps dampingSteps
  if dampingSteps ≠ 0 ∧ solver.schemeDesc.schemeType ≠ .implicitEuler then
    rollModel schemes solver { solver.schemeDesc with schemeType := .implicitEuler } start dampingTo dampingSteps
  match solver.schemeDesc.schemeType with
  | .implicitEuler => rollModel schemes solver solver.schemeDesc start stop (steps + dampingSteps)
  | _              => rollModel schemes solver solver.schemeDesc dampingTo stop steps

end FdmBackwardSolver

/-! ## What a rollback does -/

/-- A model that is rolled back: the descriptor of its scheme, and what it does. -/
structure Phase (K : Type) where
  desc : FdmSchemeDesc K
  events : List (Event K)

def performPhase (schemes : Schemes K M S A ε) (condition : StepCondition K A) (phase : Phase K) :
    Prog (M × A) (ModelError K ε) Unit :=
  withEvolver schemes phase.desc (perform schemes.scheme (some condition) phase.events)

def performPhases (schemes : Schemes K M S A ε) (condition : StepCondition K A) : List (Phase K) →
    Prog (M × A) (ModelError K ε) Unit
  | []              => pure ()
  | phase :: phases => do
    performPhase schemes condition phase
    performPhases schemes condition phases

def phaseVisits (phases : List (Phase K)) : List K := phases.flatMap (fun phase => visits phase.events)

def phases (times : List K) (desc : FdmSchemeDesc K) (start stop : K) (steps dampingSteps : ℕ) : List (Phase K) :=
  if desc.schemeType = .implicitEuler then [⟨desc, events times start stop (steps + dampingSteps)⟩]
  else
    let dampingTo := FdmBackwardSolver.seam start stop steps dampingSteps
    [⟨{ desc with schemeType := .implicitEuler }, events times start dampingTo dampingSteps⟩,
      ⟨desc, events times dampingTo stop steps⟩]

/-- The step of both segments. -/
def stepLength (start stop : K) (steps dampingSteps : ℕ) : K := (start - stop) / ((steps + dampingSteps : ℕ) : K)

/-- When a stopping time is met once: at `start` none may be later, at the seam one must be, and no step of its segment may
be cut short above it. -/
def Once (times : List K) (desc : FdmSchemeDesc K) (start stop : K) (steps dampingSteps : ℕ) (s : K) : Prop :=
  stop < start ∧ (s = start → ∀ t ∈ times, t ≤ start) ∧
    if desc.schemeType = .implicitEuler then
      Unsnapped stop (stepLength start stop steps dampingSteps) s (steps + dampingSteps)
    else
      (s = FdmBackwardSolver.seam start stop steps dampingSteps →
        ∃ t ∈ times, FdmBackwardSolver.seam start stop steps dampingSteps < t) ∧
      (FdmBackwardSolver.seam start stop steps dampingSteps ≤ s →
        Unsnapped (FdmBackwardSolver.seam start stop steps dampingSteps) (stepLength start stop steps dampingSteps) s
          dampingSteps) ∧
      (s < FdmBackwardSolver.seam start stop steps dampingSteps →
        Unsnapped stop (stepLength start stop steps dampingSteps) s steps)

variable {times : List K} {desc : FdmSchemeDesc K} {start stop s : K} {steps dampingSteps : ℕ}
variable [IsStrictOrderedRing K]

/-! ## The two segments -/

section Segments

open FdmBackwardSolver

theorem seam_eq (hs : 0 < steps) :
    seam start stop steps dampingSteps = stop + steps * stepLength start stop steps dampingSteps := by
  have hn : ((steps + dampingSteps : ℕ) : K) ≠ 0 := Nat.cast_ne_zero.mpr (by omega)
  have hall : ((steps + dampingSteps : ℕ) : K) = steps + dampingSteps := Nat.cast_add steps dampingSteps
  unfold seam stepLength
  field_simp
  rw [hall]
  ring

theorem start_eq (start stop : K) (dampingSteps : ℕ) (hs : 0 < steps) : start = seam start stop steps dampingSteps +
    dampingSteps * stepLength start stop steps dampingSteps := by
  have hn : ((steps + dampingSteps : ℕ) : K) ≠ 0 := Nat.cast_ne_zero.mpr (by omega)
  rw [seam_eq hs, add_assoc, ← add_mul, ← Nat.cast_add, stepLength, mul_div_cancel₀ _ hn]
  ring

theorem main_step (hs : 0 < steps) :
    (seam start stop steps dampingSteps - stop) / (steps : K) = stepLength start stop steps dampingSteps := by
  rw [seam_eq hs, add_sub_cancel_left, mul_div_cancel_left₀ _ (Nat.cast_ne_zero.mpr hs.ne')]

theorem damping_step (hs : 0 < steps) (hd : 0 < dampingSteps) :
    (start - seam start stop steps dampingSteps) / (dampingSteps : K) = stepLength start stop steps dampingSteps := by
  rw [sub_eq_iff_eq_add'.mpr (start_eq start stop dampingSteps hs), mul_div_cancel_left₀ _ (Nat.cast_ne_zero.mpr hd.ne')]

theorem stepLength_nonneg (steps dampingSteps : ℕ) (h : stop ≤ start) : 0 ≤ stepLength start stop steps dampingSteps :=
  div_nonneg (sub_nonneg.mpr h) (Nat.cast_nonneg _)

/-- **A rollback performs its phases.** -/
theorem FdmBackwardSolver.rollback_eq (schemes : Schemes K M S A ε) (stoppingTimes : List (List K))
    (conditions : List (StepCondition K A)) (h : stop ≤ start) (hs : 0 < steps) (hd : 0 < dampingSteps) :
    rollback schemes ⟨FdmStepConditionComposite.new stoppingTimes conditions, desc⟩ start stop steps dampingSteps =
      performPhases schemes (FdmStepConditionComposite.new stoppingTimes conditions).applyTo
        (phases (FiniteDifferenceModel.new (FdmStepConditionComposite.new stoppingTimes conditions).stoppingTimes).stoppingTimes
          desc start stop steps dampingSteps) := by
  have hlen := stepLength_nonneg steps dampingSteps h
  have hseam : stop ≤ seam start stop steps dampingSteps := by
    rw [seam_eq hs]
    exact le_add_of_nonneg_right (mul_nonneg (Nat.cast_nonneg _) hlen)
  have hstart : seam start stop steps dampingSteps ≤ start := by
    conv_rhs => rw [start_eq start stop dampingSteps hs]
    exact le_add_of_nonneg_right (mul_nonneg (Nat.cast_nonneg _) hlen)
  unfold rollback phases rollModel
  dsimp only
  rw [Fdm.rollback_eq _ h (by omega), Fdm.rollback_eq _ hseam hs, Fdm.rollback_eq _ hstart hd]
  by_cases htype : desc.schemeType = .implicitEuler
  · rw [if_neg (fun hn => hn.2 htype), if_pos htype, htype]
    exact (Prog.bind_pure _).symm
  · rw [if_pos ⟨hd.ne', htype⟩, if_neg htype]
    have hphases (damping main : Phase K) :
        performPhases schemes (FdmStepConditionComposite.new stoppingTimes conditions).applyTo [damping, main] =
          (performPhase schemes (FdmStepConditionComposite.new stoppingTimes conditions).applyTo damping >>= fun _ =>
            performPhase schemes (FdmStepConditionComposite.new stoppingTimes conditions).applyTo main) :=
      congrArg _ (funext fun _ => Prog.bind_pure _)
    rw [hphases]
    rcases hdesc : desc with ⟨type, theta, mu⟩
    rw [hdesc] at htype
    cases type with
    | implicitEuler => exact absurd rfl htype
    | _             => rfl

theorem stop_lt_seam (dampingSteps : ℕ) (h : stop < start) (hs : 0 < steps) : stop < seam start stop steps dampingSteps := by
  have hlen : 0 < stepLength start stop steps dampingSteps :=
    div_pos (sub_pos.mpr h) (Nat.cast_pos.mpr (by omega))
  rw [seam_eq hs]
  exact lt_add_of_pos_right _ (mul_pos (Nat.cast_pos.mpr hs) hlen)

theorem seam_lt_start (h : stop < start) (hs : 0 < steps) (hd : 0 < dampingSteps) :
    seam start stop steps dampingSteps < start := by
  have hlen : 0 < stepLength start stop steps dampingSteps :=
    div_pos (sub_pos.mpr h) (Nat.cast_pos.mpr (by omega))
  have := mul_pos (Nat.cast_pos (α := K).mpr hd) hlen
  linarith [start_eq start stop dampingSteps hs]

end Segments

/-! ## How often a stopping time is visited -/

omit [Field K] [IsStrictOrderedRing K] in
theorem getLast?_eq_some (hsorted : times.Pairwise (· < ·)) (hmem : s ∈ times) :
    times.getLast? = some s ↔ ∀ t ∈ times, t ≤ s := by
  rcases List.eq_nil_or_concat times with rfl | ⟨front, last, rfl⟩
  · cases hmem
  rw [List.concat_eq_append] at hsorted hmem ⊢
  rw [List.getLast?_append, List.getLast?_singleton, Option.some_or, Option.some_inj]
  have hlast := fun t ht => (List.pairwise_append.mp hsorted).2.2 t ht last (List.mem_singleton_self last)
  refine ⟨fun h t ht => ?_, fun h => ?_⟩
  · rcases List.mem_append.mp ht with ht | ht
    · exact h ▸ (hlast t ht).le
    · exact h ▸ (List.mem_singleton.mp ht).le
  · refine le_antisymm (h last (List.mem_append_right _ (List.mem_singleton_self last))) ?_
    rcases List.mem_append.mp hmem with hmem | hmem
    · exact (hlast s hmem).le
    · exact (List.mem_singleton.mp hmem).le

theorem visits_turns_zero (times : List K) (stop : K) : ∀ n : ℕ, visits (turns times stop 0 n) = List.replicate n stop
  | 0     => rfl
  | n + 1 => by
    rw [turns, mul_zero, mul_zero, add_zero, if_pos tolerance_pos, visits_append, visits_turn_self,
      visits_turns_zero times stop n, List.replicate_succ, List.singleton_append]

theorem count_events_self (times : List K) (stop : K) (n : ℕ) : n ≤ (visits (events times stop stop n)).count stop := by
  rw [visits_events, sub_self, zero_div, visits_turns_zero, List.count_append, List.count_replicate_self]
  exact Nat.le_add_left _ _

theorem unsnapped_of_end {dt : K} {n : ℕ} (hdt : 0 ≤ dt) (h : stop + n * dt ≤ s) : Unsnapped stop dt s n := by
  intro k _ hkn _
  have hk : (k : K) ≤ n := Nat.cast_le.mpr hkn.le
  have := mul_le_mul_of_nonneg_right hk hdt
  linarith

/-- Within one model: at its start no stopping time may be later, and no step may be cut short. -/
theorem count_segment (hsorted : times.Pairwise (· < ·)) (hmem : s ∈ times) (h : stop < start) (hs : 0 < steps)
    (hle : stop ≤ s) (hge : s ≤ start) : (visits (events times start stop steps)).count s = 1 ↔
      (s = start → ∀ t ∈ times, t ≤ start) ∧ Unsnapped stop ((start - stop) / (steps : K)) s steps := by
  rcases hge.eq_or_lt with rfl | hlt
  · have hun : Unsnapped stop ((s - stop) / (steps : K)) s steps :=
      unsnapped_of_end (step_pos h hs).le (end_eq s stop hs).le
    rw [count_events_start hsorted h hs, and_iff_left hun]
    by_cases hlast : times.getLast? = some s
    · rw [if_pos hlast]
      exact iff_of_true rfl (fun _ => (getLast?_eq_some hsorted hmem).mp hlast)
    · rw [if_neg hlast]
      exact iff_of_false Nat.zero_ne_one (fun hall => hlast ((getLast?_eq_some hsorted hmem).mpr (hall rfl)))
  · rw [(count_events hsorted hmem hs hle hlt).2, and_iff_right (fun heq => absurd heq hlt.ne)]

open FdmBackwardSolver in
/-- **A stopping time is visited once exactly where the two models do not meet it differently.** -/
theorem count_phases (desc : FdmSchemeDesc K) (hsorted : times.Pairwise (· < ·)) (hmem : s ∈ times) (hs : 0 < steps) (hd : 0 < dampingSteps)
    (hle : stop ≤ s) (hge : s ≤ start) :
    (phaseVisits (phases times desc start stop steps dampingSteps)).count s = 1 ↔
      Once times desc start stop steps dampingSteps s := by
  unfold phaseVisits phases Once
  rcases (hle.trans hge).eq_or_lt with heq | h
  · -- nothing to roll: every turn visits the one time there is
    subst heq
    cases le_antisymm hge hle
    refine iff_of_false (fun hone => ?_) (fun h => h.1.false)
    split at hone
    · rw [List.flatMap_singleton] at hone
      dsimp only at hone
      have := count_events_self times stop (steps + dampingSteps)
      omega
    · rw [List.flatMap_cons, List.flatMap_singleton, List.count_append] at hone
      have hseam : seam stop stop steps dampingSteps = stop := by
        simp [seam]
      dsimp only at hone
      rw [hseam] at hone
      have := count_events_self times stop steps
      have := count_events_self times stop dampingSteps
      omega
  rw [and_iff_right h]
  by_cases htype : desc.schemeType = .implicitEuler
  · rw [if_pos htype, if_pos htype, List.flatMap_singleton]
    exact count_segment hsorted hmem h (by omega) hle hge
  rw [if_neg htype, if_neg htype, List.flatMap_cons, List.flatMap_singleton, List.count_append]
  dsimp only
  have hlow := stop_lt_seam dampingSteps h hs
  have hhigh := seam_lt_start h hs hd
  rcases lt_trichotomy s (seam start stop steps dampingSteps) with hlt | heq | hgt
  · -- in the main segment
    rw [count_events_outside hsorted hhigh hd (.inl hlt), Nat.zero_add, count_segment hsorted hmem hlow hs hle hlt.le,
      main_step hs]
    constructor
    · rintro ⟨-, hun⟩
      exact ⟨fun h => absurd h (hlt.trans hhigh).ne, fun h => absurd h hlt.ne, fun h => absurd hlt h.not_gt, fun _ => hun⟩
    · rintro ⟨-, -, -, hun⟩
      exact ⟨fun h => absurd h hlt.ne, hun hlt⟩
  · -- at the seam, where the main model may visit it again
    subst heq
    obtain ⟨hone, hiff⟩ := count_events hsorted hmem hd le_rfl hhigh
    rw [damping_step hs hd] at hiff
    rw [count_events_start hsorted hlow hs]
    have hlater : times.getLast? = some (seam start stop steps dampingSteps) ↔
        ¬ ∃ t ∈ times, seam start stop steps dampingSteps < t := by
      rw [getLast?_eq_some hsorted hmem]
      push Not
      rfl
    by_cases hlast : times.getLast? = some (seam start stop steps dampingSteps)
    · rw [if_pos hlast]
      exact iff_of_false (by omega) (fun h => hlater.mp hlast (h.2.1 rfl))
    · rw [if_neg hlast, Nat.add_zero, hiff]
      constructor
      · intro hun
        exact ⟨fun h => absurd h hhigh.ne, fun _ => not_not.mp (hlater.not.mp hlast), fun _ => hun,
          fun h => absurd h (lt_irrefl _)⟩
      · rintro ⟨-, -, hun, -⟩
        exact hun le_rfl
  · -- in the damping segment
    rw [count_events_outside (s := s) hsorted hlow hs (.inr hgt), Nat.add_zero,
      count_segment hsorted hmem hhigh hd hgt.le hge, damping_step hs hd]
    constructor
    · rintro ⟨hlast, hun⟩
      exact ⟨hlast, fun h => absurd h hgt.ne', fun _ => hun, fun h => absurd hgt h.not_gt⟩
    · rintro ⟨hlast, -, hun, -⟩
      exact ⟨hlast, hun hgt.le⟩

omit [IsStrictOrderedRing K] in
theorem once_congr {times' : List K} (h : ∀ t, t ∈ times ↔ t ∈ times') :
    Once times desc start stop steps dampingSteps s ↔ Once times' desc start stop steps dampingSteps s := by
  unfold Once
  simp only [h]

/-- **When the damped rollback applies its condition once at every stopping time.**  It performs its phases, whatever the
schemes and the conditions are, and they visit every stopping time between its ends once if and only if none lies after a
stopping time at `start`, one lies after a stopping time at the seam, and no step is cut short above a stopping time. -/
theorem rollback_once_iff (stoppingTimes : List (List K)) (desc : FdmSchemeDesc K) (start stop : K)
    (steps dampingSteps : ℕ) (h : stop ≤ start) (hs : 0 < steps) (hd : 0 < dampingSteps) :
    ∃ phases : List (Phase K),
      (∀ (M S A ε : Type) (schemes : Schemes K M S A ε) (conditions : List (StepCondition K A)),
        FdmBackwardSolver.rollback schemes ⟨FdmStepConditionComposite.new stoppingTimes conditions, desc⟩ start stop steps
            dampingSteps =
          performPhases schemes (FdmStepConditionComposite.new stoppingTimes conditions).applyTo phases) ∧
      ((∀ s ∈ stoppingTimes.flatten, stop ≤ s → s ≤ start → (phaseVisits phases).count s = 1) ↔
        ∀ s ∈ stoppingTimes.flatten, stop ≤ s → s ≤ start →
          Once stoppingTimes.flatten desc start stop steps dampingSteps s) := by
  let times := (FiniteDifferenceModel.new (FiniteDifferenceModel.new stoppingTimes.flatten).stoppingTimes).stoppingTimes
  have hmem (t : K) : t ∈ times ↔ t ∈ stoppingTimes.flatten := new_mem.trans new_mem
  have hcount (s : K) (hs' : s ∈ stoppingTimes.flatten) (hle : stop ≤ s) (hge : s ≤ start) :=
    (count_phases desc (new_sorted _) ((hmem s).mpr hs') hs hd hle hge).trans (once_congr hmem)
  refine ⟨phases times desc start stop steps dampingSteps,
    fun M S A ε schemes conditions => FdmBackwardSolver.rollback_eq schemes stoppingTimes conditions h hs hd, ?_⟩
  exact forall₂_congr (fun s hs' => forall₂_congr (fun hle hge => hcount s hs' hle hge))

theorem rollback_once_iff_two : ∃ phases : List (Phase ℚ),
    (∀ (M S A ε : Type) (schemes : Schemes ℚ M S A ε) (conditions : List (StepCondition ℚ A)),
      FdmBackwardSolver.rollback schemes ⟨FdmStepConditionComposite.new [[1 / 2], [1 / 4]] conditions, .craigSneyd⟩ 1 0 1
          1 =
        performPhases schemes (FdmStepConditionComposite.new [[1 / 2], [1 / 4]] conditions).applyTo phases) ∧
    ((∀ s ∈ ([[1 / 2], [1 / 4]] : List (List ℚ)).flatten, 0 ≤ s → s ≤ 1 → (phaseVisits phases).count s = 1) ↔
      ∀ s ∈ ([[1 / 2], [1 / 4]] : List (List ℚ)).flatten, 0 ≤ s → s ≤ 1 →
        Once ([[1 / 2], [1 / 4]] : List (List ℚ)).flatten .craigSneyd 1 0 1 1 s) :=
  rollback_once_iff [[1 / 2], [1 / 4]] .craigSneyd 1 0 1 1 zero_le_one one_pos one_pos

/-- Schemes that leave the grid alone. -/
def idle : Schemes ℚ Unit Unit (List ℚ) Empty :=
  ⟨⟨fun _ _ => (), fun _ => pure ()⟩, id, fun _ _ => (), fun _ _ _ => (), fun _ _ _ => (), fun _ _ _ => (), id, id, id,
    fun _ _ _ => (), fun _ _ _ => ()⟩

/-- A condition that records when it is applied. -/
def record : StepCondition ℚ (List ℚ) := fun t times => times ++ [t]

/-- With one stopping time at the seam the condition is applied there twice; with a stopping time past the start it is not
applied at the start at all. -/
theorem rollback_seam_twice :
    (FdmBackwardSolver.rollback idle ⟨FdmStepConditionComposite.new [[1 / 2]] [record], ⟨.douglas, 1 / 2, 0⟩⟩ 1 0 1 1
      ((), [])).2.2 = [1 / 2, 1 / 2, 0] ∧
    (FdmBackwardSolver.rollback idle ⟨FdmStepConditionComposite.new [[1], [2]] [record], ⟨.douglas, 1 / 2, 0⟩⟩ 1 0 1 1
      ((), [])).2.2 = [1 / 2, 0] := by
  decide +kernel

end Itofin.Fdm
