import Itofin.Lib.Binary64
import Itofin.Optimize.DifferentialEvolution
import Itofin.Optimize.Firefly
import Itofin.Optimize.Lbfgsb.Driver
import Itofin.Optimize.ParticleSwarm
import Itofin.Optimize.SimulatedAnnealing
/-!
# Minimize — the methods that honour box bounds

`minimize` of `itofin-optimize/src/lib.rs`, for the methods that take a box besides SLSQP.  Whatever the method, its
evaluations are in the box, and the budgets are kept (`minimize_triple`).
-/
namespace Itofin
namespace Optimize

open Effect
open Format (Number)
open Counters (Accounted)

variable {S E K : Type} [Field K] [LinearOrder K] {R : Format K} {n : ℕ}

variable (R n) in
inductive Method where
  | lbfgsb (options : LbfgsbOptions R)
  | differentialEvolution (options : DifferentialEvolutionOptions R n)
  | particleSwarm (options : ParticleSwarmOptions R n)
  | firefly (options : FireflyOptions R n)
  | hybridSimulatedAnnealing (options : HybridSimulatedAnnealingOptions R)

namespace Method

def name : Method R n → String
  | lbfgsb _                   => "L-BFGS-B"
  | differentialEvolution _    => "Differential-Evolution"
  | particleSwarm _            => "Particle-Swarm"
  | firefly _                  => "Firefly"
  | hybridSimulatedAnnealing _ => "Hybrid-Simulated-Annealing"

def validate (problem : Problem R n) : Method R n → Except InvalidInput Unit
  | lbfgsb options                   => options.validate
  | differentialEvolution options    => options.validate problem
  | particleSwarm options            => options.validate problem
  | firefly options                  => options.validate problem
  | hybridSimulatedAnnealing options => options.validate problem

/-- The methods that keep the best of their evaluations. -/
def isGlobal : Method R n → Bool
  | lbfgsb _ => false
  | _        => true

/-- The budgets, with the defaults of the method. -/
def budget (method : Method R n) (common : Common R.Number) : Common R.Number :=
  if method.isGlobal then common.resolved 1000 1000000 else common.resolved 15000 15000

end Method

variable [FloorRing K]

/-- The solver that the method names. -/
def Method.solver (library : Library R) (objective : Objective S E R.Number R.Number n) (problem : Problem R n)
    (common : Common R.Number) (turns : ℕ) : Method R n → Minimizing S E R n
  | .lbfgsb options                   => Lbfgsb.minimize library objective problem options common turns
  | .differentialEvolution options    => DifferentialEvolution.minimize objective problem options common turns
  | .particleSwarm options            => ParticleSwarm.minimize objective problem options common turns
  | .firefly options                  => Firefly.minimize library.exp objective problem options common turns
  | .hybridSimulatedAnnealing options => SimulatedAnnealing.minimize library.exp objective problem options common turns

def minimize (library : Library R) (objective : Objective S E R.Number R.Number n) (problem : Problem R n)
    (method : Method R n) (common : Common R.Number) (turns : ℕ) : Minimizing S E R n := do
  Prog.lift (problem.validate.mapError .invalidInput)
  Prog.lift (common.validate.mapError .invalidInput)
  Prog.lift ((method.validate problem).mapError .invalidInput)
  let counters ← Prog.get
  Prog.require (¬ 0 < objective.constraintCount counters.objective) (.invalidInput (.unsupported method.name "constraints"))
  method.solver library objective problem common turns

section

variable [IsStrictOrderedRing K] {library : Library R} {objective : Objective S E R.Number R.Number n} {problem : Problem R n}
  {bounds : Bounds R n} {method : Method R n} {common : Common R.Number} {turns : ℕ}

/-- **What a method leaves**: a result, which is the answer of its evaluations where the method keeps the best. -/
def Method.Concluded (method : Method R n) (common : Common R.Number) (bounds : Bounds R n)
    (result : Option (Minimize R.Number R.Number n)) (c : Counters S E R.Number R.Number n) : Prop :=
  Accounted (method.budget common) bounds.Contains c ∧
    ∃ m, result = some m ∧ (method.isGlobal = true → IsAnswer c.evaluations m.x m.value)

/-- What is left when it fails. -/
def Method.Failed (method : Method R n) (common : Common R.Number) (bounds : Bounds R n) (_ : MinimizeError E)
    (c : Counters S E R.Number R.Number n) : Prop :=
  Accounted (method.budget common) bounds.Contains c

/-- **The solver of a valid problem.** -/
theorem solver_triple (hexp : Firefly.Contracts library.exp) (hproblem : problem.validate = .ok ())
    (hcommon : common.validate = .ok ()) (hmethod : method.validate problem = .ok ()) (hbounds : problem.bounds = some bounds)
    (hfinite : bounds.FiniteEnds) (hturns : ∀ m ∈ (method.budget common).maxiter, m ≤ turns) (hn : n < turns) (s : S) :
    Triple (· = Counters.new s) (method.solver library objective problem common turns) (method.Concluded common bounds)
      (method.Failed common bounds) := by
  have hglobal : ∀ {r : Option (Minimize R.Number R.Number n)} {c : Counters S E R.Number R.Number n},
      Search.Concluded (common.resolved 1000 1000000) bounds.Contains r c →
      Accounted (common.resolved 1000 1000000) bounds.Contains c ∧
        ∃ m, r = some m ∧ (true = true → IsAnswer c.evaluations m.x m.value) :=
    fun ⟨haccounted, m, hr, hanswer, _⟩ => ⟨haccounted, m, hr, fun _ => hanswer⟩
  cases method with
  | lbfgsb options                   =>
    refine (Lbfgsb.minimize_triple hproblem hcommon hbounds hfinite (hturns _ rfl) hn s).weaken (fun _ hs => hs) ?_
    rintro r c ⟨haccounted, m, rfl⟩
    exact ⟨haccounted, m, rfl, by rintro ⟨⟩⟩
  | differentialEvolution options    =>
    exact (DifferentialEvolution.minimize_triple hmethod hbounds (hturns _ rfl) s).weaken (fun _ hs => hs) (fun _ _ => hglobal)
  | particleSwarm options            =>
    exact (ParticleSwarm.minimize_triple hmethod hbounds (hturns _ rfl) s).weaken (fun _ hs => hs) (fun _ _ => hglobal)
  | firefly options                  =>
    exact (Firefly.minimize_triple hexp hmethod hbounds (hturns _ rfl) s).weaken (fun _ hs => hs) (fun _ _ => hglobal)
  | hybridSimulatedAnnealing options =>
    exact (SimulatedAnnealing.minimize_triple hmethod hbounds (hturns _ rfl) s).weaken (fun _ hs => hs) (fun _ _ => hglobal)

/-- A run that is rejected evaluates nothing. -/
theorem minimize_triple (hexp : Firefly.Contracts library.exp) (hbounds : problem.bounds = some bounds)
    (hfinite : bounds.FiniteEnds) (hturns : ∀ m ∈ (method.budget common).maxiter, m ≤ turns) (hn : n < turns) (s : S) :
    Triple (· = Counters.new s) (minimize library objective problem method common turns) (method.Concluded common bounds)
      (method.Failed common bounds) := by
  have hcheck : ∀ (x : Except InvalidInput Unit), Triple (· = Counters.new s)
      (Prog.lift (x.mapError .invalidInput) : Prog (Counters S E R.Number R.Number n) (MinimizeError E) Unit)
      (fun _ c => c = Counters.new s ∧ x = .ok ()) (method.Failed common bounds) := fun x =>
    Triple.lift (fun _ _ hok hc => ⟨hc, mapError_eq_ok.1 hok⟩) (fun _ _ _ hc => hc ▸ Counters.accounted_new s)
  refine Triple.bind (hcheck _) (fun _ => Triple.of_fact (fun hproblem => ?_))
  refine Triple.bind (hcheck _) (fun _ => Triple.of_fact (fun hcommon => ?_))
  refine Triple.bind (hcheck _) (fun _ => Triple.of_fact (fun hmethod => ?_))
  refine Triple.bind (Triple.get _) (fun counters => ?_)
  refine Triple.bind (Triple.require (fun _ _ hc => hc.2 ▸ Counters.accounted_new s)) (fun _ => ?_)
  exact (solver_triple hexp hproblem hcommon hmethod hbounds hfinite hturns hn s).weaken (fun _ hc => hc.2.2)
    (fun _ _ hc => hc)

/-- **The bounded methods**: every evaluation is in the box and at the fixed coordinates, within the budgets; the run ends;
and the result of a method that keeps the best is the first point with the smallest finite value, or the first point. -/
theorem minimize_bounded (hexp : Firefly.Contracts library.exp) (objective : Objective S E R.Number R.Number n)
    (method : Method R n) (common : Common R.Number) (s : S) (turns : ℕ) (hbounds : problem.bounds = some bounds)
    (hfinite : bounds.FiniteEnds) (hturns : ∀ m ∈ (method.budget common).maxiter, m ≤ turns) (hn : n < turns) :
    let run := minimize library objective problem method common turns (Counters.new s)
    (∀ e ∈ run.2.evaluations, bounds.Contains e.1 ∧ bounds.AtFixed e.1) ∧
      (∀ m ∈ (method.budget common).maxfev, run.2.evaluations.length ≤ m) ∧
      (∀ m ∈ (method.budget common).maxiter, run.2.nit ≤ m) ∧ run.1 ≠ .ok none ∧
      ∀ result, run.1 = .ok (some result) → method.isGlobal = true →
        IsAnswer run.2.evaluations result.x result.value := by
  intro run
  have haccounted : ∀ {c : Counters S E R.Number R.Number n}, Accounted (method.budget common) bounds.Contains c →
      (∀ e ∈ c.evaluations, bounds.Contains e.1 ∧ bounds.AtFixed e.1) ∧
      (∀ m ∈ (method.budget common).maxfev, c.evaluations.length ≤ m) ∧ ∀ m ∈ (method.budget common).maxiter, c.nit ≤ m :=
    fun h => ⟨fun e he => ⟨h.inside e he, (h.inside e he).atFixed⟩, fun m hm => h.nfev ▸ h.maxfev m hm, h.maxiter⟩
  have htriple := @minimize_triple S E K _ _ R n _ _ library objective problem bounds method common turns hexp hbounds hfinite
    hturns hn s (Counters.new s) rfl
  rcases hrun : run with ⟨e | r, c⟩ <;>
    rw [show minimize library objective problem method common turns (Counters.new s) = _ from hrun] at htriple
  · obtain ⟨hinside, hmaxfev, hmaxiter⟩ := haccounted htriple
    exact ⟨hinside, hmaxfev, hmaxiter, nofun, nofun⟩
  · obtain ⟨haccount, m, rfl, hanswer⟩ := htriple
    obtain ⟨hinside, hmaxfev, hmaxiter⟩ := haccounted haccount
    refine ⟨hinside, hmaxfev, hmaxiter, nofun, fun result hresult hglobal => ?_⟩
    cases hresult
    exact hanswer hglobal

end

/-- Fireflies that go to the first coordinate's bound, where the second coordinate is fixed. -/
theorem minimize_bounded_fireflies :
    let bounds : Bounds Binary64.format 2 := ⟨fun i => if i = 0 then 0 else 1, fun _ => 1⟩
    let library : Library Binary64.format := ⟨fun a => if a.Equals 0 then 1 else 0, id, id, id⟩
    let objective : Objective Unit Empty Binary64.format.Number Binary64.format.Number 2 :=
      ⟨fun x => pure (x 0), fun _ => pure none, fun _ => pure .continue, fun _ => 0, fun _ _ => .eq, fun _ _ => pure 0,
        fun _ _ => pure none⟩
    let options : FireflyOptions Binary64.format 2 := ⟨⟨0#64, some 4, none, none, none⟩, 1, 1, 0, 1⟩
    let run := minimize library objective ⟨fun _ => 1, some bounds⟩ (.firefly options) ⟨some 2, some 9, none⟩ 3
      (Counters.new ())
    (∀ e ∈ run.2.evaluations, (e.1 1).Equals 1) ∧ run.2.evaluations.length ≤ 9 ∧ run.2.nit ≤ 2 ∧ run.1 ≠ .ok none ∧
      ∀ result, run.1 = .ok (some result) → IsAnswer run.2.evaluations result.x result.value := by
  intro bounds library objective options
  have hexp : Firefly.Contracts library.exp := by
    rintro a x - -
    change Number.Between 0 1 (if a.Equals 0 then 1 else 0)
    split
    · exact ⟨1, rfl, zero_le_one, le_rfl⟩
    · exact ⟨0, rfl, le_rfl, zero_le_one⟩
  have hlower : ∀ i, (bounds.lower i).IsFinite := by
    intro i
    change (if i = 0 then (0 : Binary64.format.Number) else 1).IsFinite
    split
    · exact ⟨0, rfl⟩
    · exact ⟨1, rfl⟩
  have hbounds : (⟨fun _ => 1, some bounds⟩ : Problem Binary64.format 2).bounds = some bounds := rfl
  obtain ⟨hinside, hmaxfev, hmaxiter, hends, hanswer⟩ := minimize_bounded hexp objective (.firefly options)
    ⟨some 2, some 9, none⟩ () 3 hbounds ⟨hlower, fun _ => ⟨1, rfl⟩⟩ (by rintro m ⟨⟩; decide) (by decide)
  have hone : (1 : Binary64.format.Number).Equals 1 := ⟨Number.le_self nofun, Number.le_self nofun⟩
  exact ⟨fun e he => (hinside e he).2 1 hone, hmaxfev 9 rfl, hmaxiter 2 rfl, hends,
    fun result hresult => hanswer result hresult rfl⟩

end Optimize
end Itofin
