import Itofin.Optimize.Problem
import Itofin.Optimize.Random
/-!
# Global — the options of the global methods, and their box

`global.rs` of `itofin-optimize`, and the `BoxSpace` that `differential_evolution.rs`, `particle_swarm.rs`, `firefly.rs` and
`simulated_annealing.rs` have a copy of each.

A box that is accepted has finite ends and finite widths (`Boxed`).  Then every fraction that is a number has a coordinate in
the box (`coordinate_mem`), however it was rounded.
-/
namespace Itofin
namespace Optimize

open Effect
open Format (Number)

variable {K : Type} [Field K] [LinearOrder K] {R : Format K} {n : ℕ}

/-! ## The box -/

namespace Bounds

/-- The coordinates that are not fixed. -/
def free (bounds : Bounds R n) : List (Fin n) := (List.finRange n).filter (fun i => bounds.lower i < bounds.upper i)

def width (bounds : Bounds R n) (i : Fin n) : R.Number := bounds.upper i - bounds.lower i

def fraction (bounds : Bounds R n) (i : Fin n) (x : R.Number) : R.Number :=
  ((x - bounds.lower i) / bounds.width i).clamp 0 1

def coordinate (bounds : Bounds R n) (i : Fin n) (fraction : R.Number) : R.Number :=
  (if fraction ≤ R.literal 1 2 then bounds.lower i + fraction * bounds.width i
    else bounds.upper i - (1 - fraction) * bounds.width i).clamp (bounds.lower i) (bounds.upper i)

def sample (bounds : Bounds R n) (random : Random) : Point R n × Random :=
  bounds.free.foldl (fun (drawn : Point R n × Random) i =>
    let (fraction, random) := drawn.2.unit
    (Function.update drawn.1 i (bounds.coordinate i fraction), random)) (bounds.lower, random)

/-- **A box with finite ends and widths.** -/
structure Boxed (bounds : Bounds R n) : Prop extends FiniteEnds bounds where
  le    : ∀ i, bounds.lower i ≤ bounds.upper i
  width : ∀ i, (bounds.width i).IsFinite

section

variable {bounds : Bounds R n} {x : Point R n} {i : Fin n} {v : R.Number}

theorem mem_free : i ∈ bounds.free ↔ bounds.lower i < bounds.upper i := by
  rw [free, List.mem_filter, decide_eq_true_eq]
  exact and_iff_right (List.mem_finRange i)

theorem Boxed.contains_lower (h : bounds.Boxed) : bounds.Contains bounds.lower := fun i =>
  ⟨Number.le_self (h.lower i).not_isNan, h.le i⟩

variable [IsStrictOrderedRing K]

theorem Boxed.width_pos (h : bounds.Boxed) (hi : i ∈ bounds.free) : ∃ w, (bounds.width i).val = .finite w ∧ 0 < w :=
  Number.width_pos (mem_free.1 hi) (h.lower i) (h.upper i) (h.width i)

/-- **A fraction that is a number has a coordinate in the box.** -/
theorem Boxed.coordinate_mem (h : bounds.Boxed) (hi : i ∈ bounds.free) (hv : ¬ v.IsNan) :
    bounds.lower i ≤ bounds.coordinate i v ∧ bounds.coordinate i v ≤ bounds.upper i := by
  obtain ⟨w, hw, hpos⟩ := h.width_pos hi
  refine Number.clamp_mem ?_ (h.le i)
  split
  · exact Number.add_isNan (h.lower i) (Number.mul_isNan hv hw hpos.ne')
  · have hrest : ¬ (1 - v).IsNan := Number.sub_isNan ⟨1, rfl⟩ hv
    exact Number.sub_isNan (h.upper i) (Number.mul_isNan hrest hw hpos.ne')

theorem Boxed.fraction_between (h : bounds.Boxed) (hi : i ∈ bounds.free) (hv : v.IsFinite) :
    Number.Between 0 1 (bounds.fraction i v) := by
  obtain ⟨w, hw, hpos⟩ := h.width_pos hi
  have hdistance : ¬ (v - bounds.lower i).IsNan := Number.sub_isNan hv (h.lower i).not_isNan
  exact Number.clamp_unit (Number.div_isNan hdistance hw hpos.ne')

theorem Boxed.sample_mem (h : bounds.Boxed) (random : Random) : bounds.Contains (bounds.sample random).1 := by
  refine List.foldlRecOn (motive := fun (drawn : Point R n × Random) => bounds.Contains drawn.1) bounds.free _
    ?_ (fun drawn hdrawn i hi => ?_)
  · exact h.contains_lower
  · exact hdrawn.update (h.coordinate_mem hi (Random.unit_between drawn.2).isFinite.not_isNan)

end

end Bounds

/-! ## Options -/

def range (option : String) (found min max : ℕ) : Except InvalidInput Unit :=
  check (¬ (found < min ∨ max < found)) (.globalRange option min max found)

/-- The box and the starting point of a global method. -/
def Bounds.validate (bounds : Bounds R n) (x0 : Point R n) : Except InvalidInput Unit :=
  (List.finRange n).forM fun index => do
    check ((bounds.lower index).isFinite ∧ (bounds.upper index).isFinite ∧
      (bounds.upper index - bounds.lower index).isFinite) (.nonfiniteGlobalBound index)
    check (¬ (x0 index < bounds.lower index ∨ bounds.upper index < x0 index)) (.outsideGlobalBounds "x0" 0 index)

variable (R n) in
structure GlobalOptions where
  seed              : BitVec 64
  populationSize    : Option ℕ
  initialPopulation : Option (List (Point R n))
  xatol             : Option R.Number
  fatol             : Option R.Number

namespace GlobalOptions

def populationCount (options : GlobalOptions R n) (bounds : Bounds R n) : ℕ :=
  options.populationSize.getD (match options.initialPopulation with
    | none        => max (15 * bounds.free.length) 8
    | some points => points.length)

def validatePopulation (bounds : Bounds R n) (size : ℕ) (points : List (Point R n)) : Except InvalidInput Unit := do
  check (points.length = size) (.populationPointCount size points.length)
  points.zipIdx.forM fun (x, point) =>
    (List.finRange n).forM fun index => do
      check ((x index).isFinite = true) (.nonfinitePopulation point index)
      check (¬ (x index < bounds.lower index ∨ bounds.upper index < x index))
        (.outsideGlobalBounds "initial_population" point index)

def validate (options : GlobalOptions R n) (problem : Problem R n) : Except InvalidInput Unit := do
  problem.validate
  range "dimension" n 1 256
  match problem.bounds with
  | none        => .error .missingGlobalBounds
  | some bounds => do
    bounds.validate problem.x0
    checkTolerance "xatol" options.xatol
    checkTolerance "fatol" options.fatol
    range "population_size" (options.populationCount bounds) 4 4096
    check (options.populationCount bounds * n ≤ 1000000) (.populationCells 1000000)
    match options.initialPopulation with
    | none        => .ok ()
    | some points => validatePopulation bounds (options.populationCount bounds) points

end GlobalOptions

variable (R n) in
structure DifferentialEvolutionOptions where
  global        : GlobalOptions R n
  mutation      : R.Number
  recombination : R.Number

def DifferentialEvolutionOptions.validate (options : DifferentialEvolutionOptions R n) (problem : Problem R n) :
    Except InvalidInput Unit := do
  options.global.validate problem
  check (options.mutation.isFinite ∧ 0 < options.mutation ∧ options.mutation ≤ R.ofNat 2)
    (.differentialEvolutionCoefficient "mutation" "(0, 2]")
  check (options.recombination.isFinite ∧ 0 ≤ options.recombination ∧ options.recombination ≤ 1)
    (.differentialEvolutionCoefficient "recombination" "[0, 1]")

variable (R n) in
structure ParticleSwarmOptions where
  global        : GlobalOptions R n
  inertia       : R.Number
  cognitive     : R.Number
  social        : R.Number
  velocityClamp : R.Number

def ParticleSwarmOptions.validate (options : ParticleSwarmOptions R n) (problem : Problem R n) :
    Except InvalidInput Unit := do
  options.global.validate problem
  check (options.inertia.isFinite ∧ 0 ≤ options.inertia ∧ options.inertia ≤ 1)
    (.particleSwarmCoefficient "inertia" "[0, 1]")
  check (options.cognitive.isFinite ∧ 0 ≤ options.cognitive ∧ options.cognitive ≤ R.ofNat 4)
    (.particleSwarmCoefficient "cognitive" "[0, 4]")
  check (options.social.isFinite ∧ 0 ≤ options.social ∧ options.social ≤ R.ofNat 4)
    (.particleSwarmCoefficient "social" "[0, 4]")
  check (options.velocityClamp.isFinite ∧ 0 < options.velocityClamp ∧ options.velocityClamp ≤ 1)
    (.particleSwarmCoefficient "velocity_clamp" "(0, 1]")

variable (R n) in
structure FireflyOptions where
  global     : GlobalOptions R n
  alpha      : R.Number
  beta0      : R.Number
  gamma      : R.Number
  alphaDecay : R.Number

def FireflyOptions.validate (options : FireflyOptions R n) (problem : Problem R n) : Except InvalidInput Unit := do
  options.global.validate problem
  check (options.alpha.isFinite ∧ 0 ≤ options.alpha ∧ options.alpha ≤ 1) (.fireflyCoefficient "alpha" "[0, 1]")
  check (options.beta0.isFinite ∧ 0 < options.beta0 ∧ options.beta0 ≤ 1) (.fireflyCoefficient "beta0" "(0, 1]")
  check (options.gamma.isFinite ∧ 0 ≤ options.gamma ∧ options.gamma ≤ R.ofNat 1000000)
    (.fireflyCoefficient "gamma" "[0, 1e6]")
  check (options.alphaDecay.isFinite ∧ 0 < options.alphaDecay ∧ options.alphaDecay ≤ 1)
    (.fireflyCoefficient "alpha_decay" "(0, 1]")

variable (R) in
structure HybridSimulatedAnnealingOptions where
  seed                : BitVec 64
  initialTemperature  : R.Number
  coolingRate         : R.Number
  stepSize            : R.Number
  localSearchInterval : ℕ
  localSearchSteps    : ℕ
  reannealInterval    : ℕ
  xatol               : Option R.Number
  fatol               : Option R.Number

def HybridSimulatedAnnealingOptions.validate (options : HybridSimulatedAnnealingOptions R) (problem : Problem R n) :
    Except InvalidInput Unit := do
  problem.validate
  range "dimension" n 1 256
  match problem.bounds with
  | none        => .error .missingGlobalBounds
  | some bounds => do
    bounds.validate problem.x0
    check (options.initialTemperature.isFinite ∧ 0 < options.initialTemperature)
      (.hybridSimulatedAnnealingCoefficient "initial_temperature" "(0, infinity)")
    check (options.coolingRate.isFinite ∧ 0 < options.coolingRate ∧ options.coolingRate < 1)
      (.hybridSimulatedAnnealingCoefficient "cooling_rate" "(0, 1)")
    check (options.stepSize.isFinite ∧ 0 < options.stepSize ∧ options.stepSize ≤ 1)
      (.hybridSimulatedAnnealingCoefficient "step_size" "(0, 1]")
    range "local_search_interval" options.localSearchInterval 1 1000000
    range "local_search_steps" options.localSearchSteps 1 256
    range "reanneal_interval" options.reannealInterval 1 1000000
    checkTolerance "xatol" options.xatol
    checkTolerance "fatol" options.fatol

/-- The budgets of the global methods, with their defaults. -/
def budgets (common : Common R.Number) : Except InvalidInput (Common R.Number) := do
  common.validate
  range "maxiter" (common.maxiter.getD 1000) 1 1000000
  range "maxfev" (common.maxfev.getD 1000000) 1 10000000
  .ok (common.resolved 1000 1000000)

/-! ## What valid options are -/

section

variable {problem : Problem R n} {bounds : Bounds R n} {x0 : Point R n} {condition : Prop} [Decidable condition]

theorem range_eq_ok {option : String} {found min max : ℕ} :
    range option found min max = .ok () ↔ min ≤ found ∧ found ≤ max := by
  rw [range, check_eq_ok, not_or, not_lt, not_lt]

/-- **What the check of the box promises.** -/
theorem Bounds.validate_eq_ok (h : problem.validate = .ok ()) (hbounds : problem.bounds = some bounds)
    (hvalid : bounds.validate problem.x0 = .ok ()) : bounds.Boxed ∧ bounds.Contains problem.x0 := by
  have hvalid := forM_finRange.1 hvalid
  have hfinite := fun i => (check_bind.1 (hvalid i)).1
  have hinside := fun i => not_or.1 (check_eq_ok.1 (check_bind.1 (hvalid i)).2)
  have hlower := fun i => Number.isFinite_iff.1 (hfinite i).1
  have hupper := fun i => Number.isFinite_iff.1 (hfinite i).2.1
  refine ⟨⟨⟨hlower, hupper⟩, Problem.validate_bounds h hbounds, fun i => Number.isFinite_iff.1 (hfinite i).2.2⟩,
    fun i => ?_⟩
  have hx0 := (Problem.validate_x0 h i).not_isNan
  exact ⟨Number.le_of_not_lt hx0 (hlower i).not_isNan (hinside i).1,
    Number.le_of_not_lt (hupper i).not_isNan hx0 (hinside i).2⟩

/-- **The population controls of a valid problem.** -/
structure GlobalOptions.Valid (options : GlobalOptions R n) (problem : Problem R n) (bounds : Bounds R n) : Prop where
  boxed      : bounds.Boxed
  x0         : bounds.Contains problem.x0
  dimension  : n ≤ 256
  size       : 4 ≤ options.populationCount bounds
  population : ∀ points, options.initialPopulation = some points →
    points.length = options.populationCount bounds ∧ ∀ x ∈ points, bounds.Contains x

theorem GlobalOptions.validatePopulation_eq_ok (hboxed : bounds.Boxed) {size : ℕ} {points : List (Point R n)}
    (h : validatePopulation bounds size points = .ok ()) : points.length = size ∧ ∀ x ∈ points, bounds.Contains x := by
  obtain ⟨hlength, h⟩ := check_bind.1 h
  refine ⟨hlength, fun x hx i => ?_⟩
  obtain ⟨k, hk, rfl⟩ := List.getElem_of_mem hx
  have hpoint := forM_finRange.1 (forM_eq_ok.1 h (points[k], k) (List.mk_mem_zipIdx_iff_getElem?.2
    (List.getElem?_eq_getElem hk))) i
  obtain ⟨hfinite, hpoint⟩ := check_bind.1 hpoint
  have hinside := not_or.1 (check_eq_ok.1 hpoint)
  have hx := (Number.isFinite_iff.1 hfinite).not_isNan
  exact ⟨Number.le_of_not_lt hx (hboxed.lower i).not_isNan hinside.1,
    Number.le_of_not_lt (hboxed.upper i).not_isNan hx hinside.2⟩

theorem GlobalOptions.validate_eq_ok {options : GlobalOptions R n} (h : options.validate problem = .ok ())
    (hbounds : problem.bounds = some bounds) : options.Valid problem bounds := by
  obtain ⟨hproblem, h⟩ := unit_bind.1 h
  obtain ⟨hdimension, h⟩ := unit_bind.1 h
  rw [hbounds] at h
  obtain ⟨hvalid, h⟩ := unit_bind.1 h
  obtain ⟨hboxed, hx0⟩ := Bounds.validate_eq_ok hproblem hbounds hvalid
  obtain ⟨-, h⟩ := unit_bind.1 h
  obtain ⟨-, h⟩ := unit_bind.1 h
  obtain ⟨hsize, h⟩ := unit_bind.1 h
  obtain ⟨-, h⟩ := check_bind.1 h
  refine ⟨hboxed, hx0, (range_eq_ok.1 hdimension).2, (range_eq_ok.1 hsize).1, fun points hpoints => ?_⟩
  rw [hpoints] at h
  exact validatePopulation_eq_ok hboxed h

theorem HybridSimulatedAnnealingOptions.validate_eq_ok {options : HybridSimulatedAnnealingOptions R}
    (h : options.validate problem = .ok ()) (hbounds : problem.bounds = some bounds) :
    bounds.Boxed ∧ bounds.Contains problem.x0 ∧ Number.Between 0 1 options.stepSize := by
  obtain ⟨hproblem, h⟩ := unit_bind.1 h
  obtain ⟨-, h⟩ := unit_bind.1 h
  rw [hbounds] at h
  obtain ⟨hvalid, h⟩ := unit_bind.1 h
  obtain ⟨hboxed, hx0⟩ := Bounds.validate_eq_ok hproblem hbounds hvalid
  obtain ⟨-, h⟩ := check_bind.1 h
  obtain ⟨-, h⟩ := check_bind.1 h
  obtain ⟨-, hpos, hle⟩ := (check_bind.1 h).1
  exact ⟨hboxed, hx0, Number.between_of_le rfl rfl ⟨Number.le_of_lt hpos, hle⟩⟩

/-- The budgets are those that were given, or the defaults, and are positive. -/
theorem budgets_eq_ok {common budget : Common R.Number} (h : budgets common = .ok budget) :
    budget = common.resolved 1000 1000000 ∧ 0 < common.maxiter.getD 1000 ∧ 0 < common.maxfev.getD 1000000 := by
  obtain ⟨_, _, h⟩ := bind_eq_ok.1 h
  obtain ⟨_, hiter, h⟩ := bind_eq_ok.1 h
  obtain ⟨_, hfev, h⟩ := bind_eq_ok.1 h
  exact ⟨(Except.ok.inj h).symm, (range_eq_ok.1 hiter).1, (range_eq_ok.1 hfev).1⟩

end

end Optimize
end Itofin
