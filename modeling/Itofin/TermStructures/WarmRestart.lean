import Itofin.Lib.Machine
import Itofin.TermStructures.GlobalBootstrap
/-!
# WarmRestart — the flag of the node data over the calculations of a curve

A curve is calculated again and again, by `IterativeBootstrap` or by `GlobalBootstrap` (alone or in joint solves), each
time with other helpers, dates, callbacks and another strategy of the solver.  `History` goes with the values that the
most recent solve that succeeded left, and it is `Current` when node data marked valid are those.  Every iterative
calculation keeps it current; a global one does unless it takes an exit that spoils the nodes (`Unspoiled`).
-/
namespace Itofin

open Effect

open MultiCurveBootstrap (Curves)
open GlobalBootstrap (Mirrored Restarted Spoiled JointSpoiled Companions)

/-- The node data between the calculations, and the values of the most recent solve that succeeded. -/
structure History (K I : Type) where
  cd : CurveData K I
  solved : Option (List K)

inductive Bootstrap where
  | iterative
  | global

/-- A calculation of a curve, with all that it finds outside the node data. -/
inductive Calculation (K I W : Type) [SqrtFloats K] (traits : YieldBootstrapTraits K) : Bootstrap → Type where
  | iterative (curve : PiecewiseCurve K I) (options : IterativeBootstrapOptions K) (solvers : Solvers K) :
      Calculation K I W traits .iterative
  | alone (G : GlobalBootstrap K I W) (convention : G.traits = traits) (method : List K → Minimizer K)
      (cells : Bootstrapped K I W) : Calculation K I W traits .global
  | joint (G : GlobalBootstrap K I W) (convention : G.traits = traits) (others : Companions K I W) (curve : ℕ)
      (endCriteria : Except String Unit) (method : List K → Minimizer K) (contributors : List (Option ℕ))
      (cells : Curves (Bootstrapped K I W)) : Calculation K I W traits .global

namespace History

variable {K I W : Type}

def fresh : History K I := ⟨⟨[], [], [], none, none, false⟩, none⟩

/-- **Node data marked valid are those of the most recent solve that succeeded.** -/
def Current (h : History K I) : Prop := h.cd.valid = true → h.solved = some h.cd.data

/-- The history after a calculation, where it does not panic. -/
def after {σ : Type} (h : History K I) (nodes : σ → CurveData K I) : Except Stop Unit × σ → Option (History K I)
  | (.ok (), s)            => some ⟨nodes s, some (nodes s).data⟩
  | (.error (.error _), s) => some ⟨nodes s, h.solved⟩
  | (.error .panic, _)     => none

variable [SqrtFloats K] {traits : YieldBootstrapTraits K}

/-- The cells of the curve, with its node data. -/
def start (h : History K I) (cells : Bootstrapped K I W) : Bootstrapped K I W := { cells with cd := h.cd }

def startJoint (h : History K I) (cells : Curves (Bootstrapped K I W)) :
    MultiCurveBootstrap.Joint K (Bootstrapped K I W) :=
  ⟨{ cells with world := h.start cells.world }, 0, []⟩

def step {b : Bootstrap} (h : History K I) : Calculation K I W traits b → Option (History K I)
  | .iterative curve options solvers                              =>
    match IterativeBootstrap.calculate curve options solvers curve.traits.maxIterations 1 h.cd with
    | none                => none
    | some (.ok (), cd)   => some ⟨cd, some cd.data⟩
    | some (.error _, cd) => some ⟨cd, h.solved⟩
  | .alone G _ method cells                                       =>
    h.after Bootstrapped.cd (G.calculate method (h.start cells))
  | .joint G _ others curve endCriteria method contributors cells =>
    h.after (fun j => j.curves.world.cd)
      (MultiCurveBootstrap.run (G.contributor others curve) endCriteria method contributors (h.startJoint cells))

/-- The calculation takes no exit that leaves the nodes valid with other values. -/
def Unspoiled {b : Bootstrap} (h : History K I) : Calculation K I W traits b → Prop
  | .iterative ..                                                 => True
  | .alone G _ method cells                                       => ¬ Spoiled G method (h.start cells)
  | .joint G _ others curve endCriteria method contributors cells =>
    ∀ cs, contributors = cs.map some → ¬ JointSpoiled G others curve endCriteria method cs (h.startJoint cells)

/-- What every calculation keeps; only the writes of a global bootstrap all mirror the first node. -/
def Kept (traits : YieldBootstrapTraits K) (b : Bootstrap) (h : History K I) : Prop :=
  h.Current ∧ (b = .global → Mirrored traits h.cd.data)

omit [SqrtFloats K] in
theorem Current.restarted {h : History K I} (hc : h.Current) {cd : CurveData K I} (hr : Restarted h.cd cd) :
    Current ⟨cd, h.solved⟩ := by
  intro hv
  rcases hr with ⟨hvalid, hdata⟩ | hf
  · exact (hc (hvalid.symm.trans hv)).trans (congrArg some hdata.symm)
  · exact absurd (hv.symm.trans hf) (by decide)

theorem iterative_keeps (curve : PiecewiseCurve K I) (options : IterativeBootstrapOptions K) (solvers : Solvers K)
    (cd : CurveData K I) : ∃ result cd',
      IterativeBootstrap.calculate curve options solvers curve.traits.maxIterations 1 cd = some (result, cd') ∧
        ∀ e, result = .error e → Restarted cd cd' := by
  cases hp : IterativeBootstrap.prepare curve with
  | error e  =>
    refine ⟨.error e, cd, ?_, fun _ _ => .inl ⟨rfl, rfl⟩⟩
    rw [IterativeBootstrap.calculate, hp]
  | ok setup =>
    obtain ⟨result, cd', hrun, hfinished, -⟩ := IterativeBootstrap.calculate_ends options solvers hp cd
    exact ⟨result, cd', hrun 0 _ (le_refl _), fun e he => .inr (hfinished.invalid e he)⟩

/-- **A calculation that is unspoiled** keeps the history current. -/
theorem step_keeps {b : Bootstrap} (h : History K I) (c : Calculation K I W traits b) (h' : History K I)
    (hk : Kept traits b h) (hu : h.Unspoiled c) (hstep : h.step c = some h') : Kept traits b h' := by
  obtain ⟨hcurrent, hmirrored⟩ := hk
  cases c with
  | iterative curve options solvers =>
    obtain ⟨result, cd, hrun, hrestarted⟩ := iterative_keeps curve options solvers h.cd
    rw [step, hrun] at hstep
    refine ⟨?_, nofun⟩
    cases result with
    | ok u    =>
      obtain rfl := Option.some.inj hstep
      exact fun _ => rfl
    | error e =>
      obtain rfl := Option.some.inj hstep
      exact hcurrent.restarted (hrestarted e rfl)
  | alone G convention method cells =>
    have hm : Mirrored G.traits h.cd.data := convention.symm ▸ hmirrored rfl
    have hspec := G.calculate_restarts method (h.start cells) hm hu
    rw [step] at hstep
    rcases hrun : G.calculate method (h.start cells) with ⟨(e | _) | u, s⟩ <;> rw [hrun] at hspec hstep
    · obtain rfl := Option.some.inj hstep
      exact ⟨hcurrent.restarted hspec.2, fun _ => convention ▸ hspec.1⟩
    · exact nomatch hstep
    · obtain rfl := Option.some.inj hstep
      exact ⟨fun _ => rfl, fun _ => convention ▸ hspec⟩
  | joint G convention others curve endCriteria method contributors cells =>
    have hm : Mirrored G.traits h.cd.data := convention.symm ▸ hmirrored rfl
    have hspec := GlobalBootstrap.run_restarts (h.startJoint cells) hm hu
    rw [step] at hstep
    rcases hrun : MultiCurveBootstrap.run (G.contributor others curve) endCriteria method contributors
      (h.startJoint cells) with ⟨(e | _) | u, j⟩ <;> rw [hrun] at hspec hstep
    · obtain rfl := Option.some.inj hstep
      exact ⟨hcurrent.restarted hspec.2, fun _ => convention ▸ hspec.1⟩
    · exact nomatch hstep
    · obtain rfl := Option.some.inj hstep
      exact ⟨fun _ => rfl, fun _ => convention ▸ hspec⟩

omit [SqrtFloats K] in
theorem fresh_kept (b : Bootstrap) : Kept traits b (fresh : History K I) :=
  ⟨nofun, fun _ _ _ hv => nomatch hv⟩

/-- **Every history of unspoiled calculations is current**, after each of them. -/
theorem run_current {b : Bootstrap} (calculations : List (Calculation K I W traits b)) (h : History K I)
    (hu : Machine.along step Unspoiled fresh calculations) (hrun : Machine.run step fresh calculations = some h) :
    h.Current :=
  (Machine.run_invariant_along (Kept traits b) Unspoiled step_keeps calculations fresh h (fresh_kept b) hu hrun).1

/-- The calculations of an iterative bootstrap are all unspoiled. -/
theorem iterative_unspoiled : ∀ (h : History K I) (c : Calculation K I W traits .iterative), h.Unspoiled c
  | _, .iterative .. => trivial

end History

/-! ## Two calculations of one curve -/

namespace WarmRestart

open MultiCurveBootstrap (Whole)

open Floats (ofNat)

theorem maxIterations_pos : 0 < 100 := by decide

def traits : YieldBootstrapTraits Whole where
  guess i _ data validData := if validData then data.getD i 0 else 0
  minValueAfter _ _ _ _ := 0
  maxValueAfter _ _ _ _ := ofNat 10
  mirrored := false
  maxIterations := 100
  maxIterations_pos := maxIterations_pos
  transformDirect x _ := x
  transformInverse x _ := x
  guess_valid i _ data value h := by
    rw [if_pos rfl, List.getD_eq_getElem?_getD, h, Option.getD_some]

/-- A curve from 3 January 2025 with a helper quoted at 2 on 17 January. -/
def curve : GlobalBootstrap Whole Unit Unit where
  instruments := [{
    pillarDate := ⟨45674, by decide⟩
    latestRelevantDate := ⟨45674, by decide⟩
    maturityDate := ⟨45674, by decide⟩
    quoteValue := fun _ => .ok (ofNat 2)
    quoteError := fun cd => pure (cd.data.getD 1 0 - ofNat 2) }]
  requiredPoints := 2
  interpolate _ _ := .ok ()
  traits := traits
  initialDate := .ok ⟨45660, by decide⟩
  initialValue := .ok 0
  timeFromReference date := .ok (ofNat (date.serialNumber - 45660).toNat)
  termStructureShared := .ok ()
  additionalHelpers := []
  additionalDates := none
  endCriteria := .ok ()
  instrumentWeights := []
  penalties := none
  additionalVariables := none

def found : List Whole → Minimizer Whole :=
  fun _ => .values [ofNat 2] (fun _ => .setCurrentValue [ofNat 2] (.done (.ok .stationaryPoint)))

/-- The solver gives up at 7. -/
def lost : List Whole → Minimizer Whole := fun _ => .values [ofNat 7] (fun _ => .done (.ok .maxIterations))

def calculation (method : List Whole → Minimizer Whole) : Calculation Whole Unit Unit traits .global :=
  .alone curve rfl method ⟨History.fresh.cd, none, 0, ()⟩

/-- The values, the mark, and the values of the last solve that succeeded. -/
def nodes (h : History Whole Unit) : List Whole × Bool × Option (List Whole) := (h.cd.data, h.cd.valid, h.solved)

/-- A first calculation of a curve is unspoiled, where it has no additional variables. -/
theorem found_unspoiled : (History.fresh : History Whole Unit).Unspoiled (calculation found) := by
  intro hspoiled
  have hcold : ¬ GlobalBootstrap.Warm curve (History.fresh : History Whole Unit).cd := by
    rintro ⟨grid, -, hr⟩
    exact Bool.false_ne_true hr
  cases hspoiled with
  | search _ _ _ warm _           => exact hcold warm
  | pin _ _ _ warm _ _            => exact hcold warm
  | refused _ _ _ _ _ refusal => exact nomatch refusal

/-- The calculation succeeds, and its values are current. -/
theorem run_current_found : ∃ h : History Whole Unit, Machine.run History.step History.fresh [calculation found] = some h ∧
    h.cd.valid = true ∧ h.Current := by
  have hnodes : (Machine.run History.step History.fresh [calculation found]).map nodes =
      some ([0, ofNat 2], true, some [0, ofNat 2]) := by decide +kernel
  obtain ⟨h, hrun, hview⟩ := Option.map_eq_some_iff.1 hnodes
  refine ⟨h, hrun, congrArg (fun v => v.2.1) hview, ?_⟩
  have halong : Machine.along History.step History.Unspoiled History.fresh [calculation found] := by
    refine ⟨found_unspoiled, ?_⟩
    split <;> trivial
  exact History.run_current _ h halong hrun

/-- **A failed solve that started from the values leaves its last trial point as valid.** -/
theorem not_current_lost : ∃ h : History Whole Unit,
    Machine.run History.step History.fresh [calculation found, calculation lost] = some h ∧ h.cd.valid = true ∧
      h.cd.data = [0, ofNat 7] ∧ h.solved = some [0, ofNat 2] ∧ ¬ h.Current := by
  have hnodes : (Machine.run History.step History.fresh [calculation found, calculation lost]).map nodes =
      some ([0, ofNat 7], true, some [0, ofNat 2]) := by decide +kernel
  obtain ⟨h, hrun, hview⟩ := Option.map_eq_some_iff.1 hnodes
  have hdata : h.cd.data = [0, ofNat 7] := congrArg (fun v => v.1) hview
  have hvalid : h.cd.valid = true := congrArg (fun v => v.2.1) hview
  have hsolved : h.solved = some [0, ofNat 2] := congrArg (fun v => v.2.2) hview
  refine ⟨h, hrun, hvalid, hdata, hsolved, ?_⟩
  intro hcurrent
  have := hcurrent hvalid
  rw [hsolved, hdata] at this
  exact absurd this (by decide)

end WarmRestart
end Itofin
