import Itofin.Optimize.Search
/-!
# ParticleSwarm — particles and their velocities

`itofin-optimize/src/particle_swarm.rs`.  A particle has a velocity for each coordinate, of which those of the free ones
change.  No velocity is above one in absolute value, so that every sum in `moved` is a number (`velocity_between`).
-/
namespace Itofin
namespace Optimize
namespace ParticleSwarm

open Effect
open Format (Number)
open Search (Found Going Ended)

variable {S E K : Type} [Field K] [LinearOrder K] {R : Format K} {n : ℕ}

variable (R n) in
structure Particle where
  x         : Point R n
  f         : R.Number
  velocity  : Point R n
  best      : Point R n
  bestValue : R.Number

def converged (population : List (Particle R n)) (bounds : Bounds R n) (xatol fatol : R.Number) : Bool :=
  let values := population.map Particle.f
  if fatol < maximum values - minimum values then false
  else bounds.free.all fun i =>
    let coordinates := population.map (fun p => p.x i)
    let spread := maximum coordinates - minimum coordinates
    (if xatol.Equals 0 then spread.Equals 0 else spread / bounds.width i ≤ xatol) &&
      population.all (fun p => (p.velocity i).abs ≤ xatol)

/-- The velocity of a coordinate, before the boundary absorbs it. -/
def velocity (particle : Particle R n) (best : Point R n) (bounds : Bounds R n) (options : ParticleSwarmOptions R n)
    (i : Fin n) (r1 r2 : R.Number) : R.Number :=
  (options.inertia * particle.velocity i +
    options.cognitive * r1 * ((particle.best i - particle.x i) / bounds.width i) +
    options.social * r2 * ((best i - particle.x i) / bounds.width i)).clamp (-options.velocityClamp) options.velocityClamp

/-- The turn of a free coordinate in `moved`: the point and the velocities, and the generator. -/
def turn (particle : Particle R n) (best : Point R n) (bounds : Bounds R n) (options : ParticleSwarmOptions R n)
    (drawn : (Point R n × Point R n) × Random) (i : Fin n) : (Point R n × Point R n) × Random :=
  let (r1, random) := drawn.2.unit (R := R)
  let (r2, random) := random.unit (R := R)
  let v := velocity particle best bounds options i r1 r2
  if v.Equals 0 then ((drawn.1.1, Function.update drawn.1.2 i v), random)
  else
    let fraction := bounds.fraction i (particle.x i) + v
    let x := Function.update drawn.1.1 i (bounds.coordinate i (fraction.clamp 0 1))
    let absorbed := (fraction ≤ 0 ∧ v < 0) ∨ (1 ≤ fraction ∧ 0 < v)
    ((x, Function.update drawn.1.2 i (if absorbed then 0 else v)), random)

def moved (particle : Particle R n) (best : Point R n) (bounds : Bounds R n) (options : ParticleSwarmOptions R n)
    (random : Random) : (Point R n × Point R n) × Random :=
  bounds.free.foldl (turn particle best bounds options) ((particle.x, particle.velocity), random)

/-- `for (old, selected) in population.iter().zip(&mut next) { .. }` -/
def generation (objective : Objective S E R.Number R.Number n) (bounds : Bounds R n) (options : ParticleSwarmOptions R n)
    (budget : Common R.Number) (best : Point R n) (population : List (Particle R n)) (random : Random) :
    Searching S E R n (List (Particle R n) × Random) :=
  population.foldlM (fun next old => do
    let ((x, velocity), random) := moved old best bounds options next.2
    let f ← Search.value objective budget x
    let selected : Particle R n := if f < old.bestValue then { old with best := x, bestValue := f } else old
    return (next.1 ++ [{ selected with x, f, velocity }], random)) ([], random)

/-- `none` is that the turns did not do. -/
def run (objective : Objective S E R.Number R.Number n) (problem : Problem R n) (bounds : Bounds R n)
    (options : ParticleSwarmOptions R n) (budget : Common R.Number) (turns : ℕ) : Searching S E R n (Option Termination) := do
  if bounds.free.isEmpty then
    let _ ← Search.value objective budget problem.x0
    return some (.converged .xTol)
  else
    let first ← Search.populate objective problem bounds options.global budget bounds.sample
      (fun x f => (⟨x, f, fun _ => 0, x, f⟩ : Particle R n))
    let xatol := (options.global.xatol.or budget.tol).getD (R.literal 1 1000000)
    let fatol := (options.global.fatol.or budget.tol).getD (R.literal 1 100000000)
    Prog.loop (fun (state : List (Particle R n) × Random) => do
      if converged state.1 bounds xatol fatol then return .inl (.converged .xTol)
      else
        match (← Prog.get).best with
        | none           => return .inl .nonfinite
        | some (best, _) =>
          let next ← generation objective bounds options budget best state.1 state.2
          Search.endIteration objective budget
          return .inr next) turns first

def minimize (objective : Objective S E R.Number R.Number n) (problem : Problem R n) (options : ParticleSwarmOptions R n)
    (common : Common R.Number) (turns : ℕ) : Minimizing S E R n :=
  Search.minimize problem common (fun bounds budget => run objective problem bounds options budget turns)

/-! ## Its points -/

/-- **The coefficients of valid options.** -/
structure Valid (options : ParticleSwarmOptions R n) : Prop where
  inertia       : Number.Between 0 1 options.inertia
  cognitive     : Number.Between 0 4 options.cognitive
  social        : Number.Between 0 4 options.social
  velocityClamp : Number.Between 0 1 options.velocityClamp

/-- A particle in the box, with velocities that are not above one. -/
structure Inside (bounds : Bounds R n) (particle : Particle R n) : Prop where
  x        : bounds.Contains particle.x
  best     : bounds.Contains particle.best
  velocity : ∀ i, Number.Between (-1) 1 (particle.velocity i)

section

variable [IsStrictOrderedRing K] {bounds : Bounds R n} {options : ParticleSwarmOptions R n} {particle : Particle R n}
  {best : Point R n} {i : Fin n}

/-- **A velocity is a number** of at most one. -/
theorem velocity_between (h : bounds.Boxed) (hoptions : Valid options) (hparticle : Inside bounds particle)
    (hbest : bounds.Contains best) (hi : i ∈ bounds.free) {r1 r2 : R.Number} (hr1 : Number.Between 0 1 r1)
    (hr2 : Number.Between 0 1 r2) : Number.Between (-1) 1 (velocity particle best bounds options i r1 r2) := by
  obtain ⟨w, hw, hpos⟩ := h.width_pos hi
  have hshare : ∀ y, bounds.Contains y → Number.Bounded 1 ((y i - particle.x i) / bounds.width i) := fun y hy =>
    Number.bounded_one (Number.div_between (Number.sub_between hw (h.lower i) (h.upper i) (hy i) (hparticle.x i)) hw hpos)
  have hinertia : Number.Bounded 1 options.inertia := Number.bounded_one (Number.between_of_unit hoptions.inertia)
  have hcognitive : Number.Bounded 4 options.cognitive := Number.bounded_of_between hoptions.cognitive
  have hsocial : Number.Bounded 4 options.social := Number.bounded_of_between hoptions.social
  have hr1 : Number.Bounded 1 r1 := Number.bounded_one (Number.between_of_unit hr1)
  have hr2 : Number.Bounded 1 r2 := Number.bounded_one (Number.between_of_unit hr2)
  have hpersonal := (hcognitive.mul hr1 (by norm_num)).mul (hshare _ hparticle.best) (by norm_num)
  have hglobal := (hsocial.mul hr2 (by norm_num)).mul (hshare _ hbest) (by norm_num)
  have hsum := ((hinertia.mul (Number.bounded_one (hparticle.velocity i)) (by norm_num)).add hpersonal (by norm_num)).add
    hglobal (by norm_num)
  obtain ⟨c, hc, hc0, hc1⟩ := hoptions.velocityClamp
  exact (Number.clamp_between (Number.neg_val hc) hc (by linarith) hsum.isFinite.not_isNan).weaken (by linarith) hc1

theorem turn_inside (h : bounds.Boxed) (hoptions : Valid options) (hparticle : Inside bounds particle)
    (hbest : bounds.Contains best) (hi : i ∈ bounds.free) {drawn : (Point R n × Point R n) × Random}
    (hx : bounds.Contains drawn.1.1) (hv : ∀ j, Number.Between (-1) 1 (drawn.1.2 j)) :
    bounds.Contains (turn particle best bounds options drawn i).1.1 ∧
      ∀ j, Number.Between (-1) 1 ((turn particle best bounds options drawn i).1.2 j) := by
  have hvelocity := velocity_between h hoptions hparticle hbest hi (drawn.2.unit_between (R := R))
    (drawn.2.unit (R := R)).2.unit_between
  have hupdate : ∀ v, Number.Between (-1) 1 v → ∀ j, Number.Between (-1) 1 (Function.update drawn.1.2 i v j) := by
    intro v hbetween j
    by_cases hj : j = i
    · rw [hj, Function.update_self]
      exact hbetween
    · rw [Function.update_of_ne hj]
      exact hv j
  unfold turn
  split
  rename_i r1 random hr1
  rw [hr1] at hvelocity
  split
  rename_i r2 random' hr2
  rw [hr2] at hvelocity
  dsimp only at hvelocity ⊢
  split
  · exact ⟨hx, hupdate _ hvelocity⟩
  · have hfraction := h.fraction_between hi (h.isFinite hparticle.x i)
    have hsum := Number.add_isNan hfraction.isFinite hvelocity.isFinite.not_isNan
    have hclamp := Number.clamp_unit hsum
    refine ⟨hx.update (h.coordinate_mem hi hclamp.isFinite.not_isNan), hupdate _ ?_⟩
    split
    · exact ⟨0, rfl, by simp, zero_le_one⟩
    · exact hvelocity

theorem moved_inside (h : bounds.Boxed) (hoptions : Valid options) (hparticle : Inside bounds particle)
    (hbest : bounds.Contains best) (random : Random) :
    bounds.Contains (moved particle best bounds options random).1.1 ∧
      ∀ j, Number.Between (-1) 1 ((moved particle best bounds options random).1.2 j) := by
  refine List.foldlRecOn (motive := fun (drawn : (Point R n × Point R n) × Random) => bounds.Contains drawn.1.1 ∧
    ∀ j, Number.Between (-1) 1 (drawn.1.2 j)) bounds.free _ ⟨hparticle.x, hparticle.velocity⟩ (fun drawn hdrawn i hi => ?_)
  exact turn_inside h hoptions hparticle hbest hi hdrawn.1 hdrawn.2

/-! ## Its runs -/

variable {objective : Objective S E R.Number R.Number n} {problem : Problem R n} {budget : Common R.Number}

omit [IsStrictOrderedRing K] in
theorem validate_eq_ok (h : options.validate problem = .ok ()) (hbounds : problem.bounds = some bounds) :
    options.global.Valid problem bounds ∧ Valid options := by
  obtain ⟨hglobal, h⟩ := unit_bind.1 h
  obtain ⟨hinertia, h⟩ := check_bind.1 h
  obtain ⟨hcognitive, h⟩ := check_bind.1 h
  obtain ⟨hsocial, h⟩ := check_bind.1 h
  have hclamp := check_eq_ok.1 h
  have hfour := Number.ofNat_val (R := R) (n := 4) (by norm_num)
  exact ⟨GlobalOptions.validate_eq_ok hglobal hbounds, Number.between_of_le rfl rfl hinertia.2,
    Number.between_of_le rfl hfour hcognitive.2, Number.between_of_le rfl hfour hsocial.2,
    Number.between_of_le rfl rfl ⟨Number.le_of_lt hclamp.2.1, hclamp.2.2⟩⟩

theorem generation_triple (h : bounds.Boxed) (hoptions : Valid options) (hfev : ∀ m ∈ budget.maxfev, 0 < m) {k : ℕ}
    (hbest : bounds.Contains best) {population : List (Particle R n)} (hpopulation : ∀ p ∈ population, Inside bounds p)
    (random : Random) :
    Triple (Found budget bounds.Contains k) (generation objective bounds options budget best population random)
      (fun next search => search.Found budget bounds.Contains k ∧ ∀ p ∈ next.1, Inside bounds p)
      (Ended budget bounds.Contains) := by
  refine (Triple.foldlM (fun (next : List (Particle R n) × Random) search => search.Found budget bounds.Contains k ∧
    ∀ p ∈ next.1, Inside bounds p) _ _ (fun next old hold => ?_)).weaken (fun _ h => ⟨h, nofun⟩) (fun _ _ h => h)
  refine Triple.of_fact (fun hnext => ?_)
  have hmoved := moved_inside h hoptions (hpopulation old hold) hbest next.2
  refine Triple.bind ((Search.value_triple hfev hmoved.1).weaken (fun _ hs => hs.1) (fun _ _ hs => hs))
    (fun f => Triple.pure _ (fun search hs => ⟨hs, fun p hp => ?_⟩))
  rcases List.mem_append.1 hp with hp | hp
  · exact hnext p hp
  · rw [List.mem_singleton.1 hp]
    refine ⟨hmoved.1, ?_, hmoved.2⟩
    dsimp only
    split
    · exact hmoved.1
    · exact (hpopulation old hold).best

theorem run_triple (hvalid : options.global.Valid problem bounds) (hoptions : Valid options)
    (hfev : ∀ m ∈ budget.maxfev, 0 < m) {limit turns : ℕ} (hlimit : budget.maxiter = some limit) (hturns : limit ≤ turns) :
    Triple (Going budget bounds.Contains 0) (run objective problem bounds options budget turns)
      (fun r search => ∃ status, r = some status ∧ Ended budget bounds.Contains (.terminated status : Halt E) search)
      (Ended budget bounds.Contains) := by
  have hboxed := hvalid.boxed
  have hsize : options.global.populationCount bounds ≠ 0 := by
    have := hvalid.size
    omega
  unfold run
  refine Triple.ite (fun _ => ?_) (fun _ => ?_)
  · exact Triple.bind (Search.value_triple hfev hvalid.x0) (fun _ => Triple.pure _ (fun _ h => ⟨_, rfl, h.ended _⟩))
  · refine Triple.bind (Search.populate_triple (Inside bounds) hfev hsize hvalid.x0
      (fun points hpoints => (hvalid.population points hpoints).2) hboxed.sample_mem
      (fun _ _ hx => ⟨hx, hx, fun _ => ⟨0, rfl, by simp, zero_le_one⟩⟩)) (fun first => ?_)
    refine Search.loop_triple (fun state => ∀ p ∈ state.1, Inside bounds p) hlimit (fun k state hstate => ?_)
      hturns first
    refine Triple.ite (fun _ => Triple.pure _ (fun _ h => .inl h)) (fun _ => ?_)
    refine Triple.bind (Triple.get _) (fun search => ?_)
    cases hbest : search.best with
    | none      =>
      rintro _ ⟨rfl, h⟩
      exact .inl h
    | some best =>
      rintro _ ⟨rfl, h⟩
      refine (Triple.bind (generation_triple hboxed hoptions hfev (h.1.best_inside hbest) hstate state.2)
        (fun next => Triple.of_fact (fun hnext => ?_))) search h
      exact Triple.bind Search.endIteration_triple (fun _ => Triple.pure _ (fun _ h => ⟨h, hnext⟩))

theorem minimize_triple (hvalid : options.validate problem = .ok ()) (hbounds : problem.bounds = some bounds)
    {common : Common R.Number} {turns : ℕ} (hturns : common.maxiter.getD 1000 ≤ turns) (s : S) :
    Triple (· = Counters.new s) (minimize objective problem options common turns)
      (Search.Concluded (common.resolved 1000 1000000) bounds.Contains)
      (fun _ c => Counters.Accounted (common.resolved 1000 1000000) bounds.Contains c) := by
  obtain ⟨hglobal, hoptions⟩ := validate_eq_ok hvalid hbounds
  exact Search.minimize_triple s hbounds fun hfev => run_triple hglobal hoptions hfev rfl hturns

end

end ParticleSwarm
end Optimize
end Itofin
