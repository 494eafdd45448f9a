import Itofin.Optimize.Search
/-!
# SimulatedAnnealing — proposals and coordinate polls

`itofin-optimize/src/simulated_annealing.rs`.  `exp` is the library's; the proofs use nothing of it.
-/
namespace Itofin
namespace Optimize
namespace SimulatedAnnealing

open Effect
open Format (Number)
open Search (Found Going Ended)

variable {S E K : Type} [Field K] [LinearOrder K] {R : Format K} {n : ℕ}

variable (R n) in
/-- What a cycle starts from. -/
structure Chain where
  current      : Point R n
  currentValue : R.Number
  random       : Random
  temperature  : R.Number
  radius       : R.Number

/-- `if let Some((best, value)) = &search.best { current.clone_from(best); current_value = *value; }` -/
def Chain.restart (chain : Chain R n) : Option (Point R n × R.Number) → Chain R n
  | none               => chain
  | some (best, value) => { chain with current := best, currentValue := value }

section

variable (bounds : Bounds R n)

def moved (x : R.Number) (i : Fin n) (delta : R.Number) (reflect : Bool) : R.Number :=
  if delta.Equals 0 then x
  else
    let fraction := bounds.fraction i x + delta
    let fraction :=
      if reflect ∧ fraction < 0 then -fraction else if reflect ∧ 1 < fraction then R.ofNat 2 - fraction else fraction
    bounds.coordinate i (fraction.clamp 0 1)

def proposal (current : Point R n) (step : R.Number) (random : Random) : Point R n × Random :=
  bounds.free.foldl (fun (point : Point R n × Random) i =>
    let (unit, random) := point.2.unit
    (Function.update point.1 i (moved bounds (current i) i ((R.ofNat 2 * unit - 1) * step) true), random)) (current, random)

/-- A poll of a coordinate in a direction: the smallest and the largest value of the sweep after it. -/
def poll (objective : Objective S E R.Number R.Number n) (budget : Common R.Number) (radius : R.Number)
    (extremes : R.Number × R.Number) (entry : Fin n × R.Number) : Searching S E R n (R.Number × R.Number) := do
  match (← Prog.get).best with
  | none           => Prog.fail (.terminated .nonfinite)
  | some (best, _) =>
    let trial := Function.update best entry.1 (moved bounds (best entry.1) entry.1 (entry.2 * radius) false)
    if Point.Equals trial best then return extremes
    else
      let value ← Search.value objective budget trial
      return (extremes.1.min value, extremes.2.max value)

/-- Whether the polls converged, and the radius after them. -/
def localSearch (objective : Objective S E R.Number R.Number n) (budget : Common R.Number) (xatol fatol : R.Number) :
    ℕ → R.Number → Searching S E R n (Bool × R.Number)
  | 0, radius         => pure (false, radius)
  | steps + 1, radius => do
    match (← Prog.get).best with
    | none             => Prog.fail (.terminated .nonfinite)
    | some (_, anchor) =>
      let (minimum, maximum) ← (bounds.free.flatMap fun i => [(i, (1 : R.Number)), (i, -1)]).foldlM
        (poll bounds objective budget radius) (anchor, anchor)
      let unsuccessful := (← Prog.get).best.any (fun best => best.2.Equals anchor)
      if unsuccessful ∧ radius ≤ xatol ∧ maximum - minimum ≤ fatol then return (true, radius)
      else localSearch objective budget xatol fatol steps (if unsuccessful then radius * R.literal 1 2 else radius)

end

def uphillProbability (exp : R.Number → R.Number) (current trial temperature : R.Number) : R.Number :=
  let difference := trial - current
  let scaled := if difference.isFinite then difference / temperature else trial / temperature - current / temperature
  exp (-scaled)

section

variable (exp : R.Number → R.Number) (options : HybridSimulatedAnnealingOptions R) (bounds : Bounds R n)
  (objective : Objective S E R.Number R.Number n) (budget : Common R.Number)

/-- A proposal, which is accepted or not. -/
def propose (chain : Chain R n) : Searching S E R n (Chain R n) := do
  let (trial, random) := proposal bounds chain.current options.stepSize chain.random
  if trial.Equals chain.current then return { chain with random }
  else
    let value ← Search.value objective budget trial
    if value ≤ chain.currentValue then return { chain with current := trial, currentValue := value, random }
    else
      let (unit, random) := random.unit
      if unit < uphillProbability exp chain.currentValue value chain.temperature then
        return { chain with current := trial, currentValue := value, random }
      else return { chain with random }

/-- The local search of the cycles that have one. -/
def polish (cycle : ℕ) (chain : Chain R n) : Searching S E R n (Bool × Chain R n) := do
  if options.localSearchInterval ∣ cycle then
    let xatol := (options.xatol.or budget.tol).getD (R.literal 1 1000000)
    let fatol := (options.fatol.or budget.tol).getD (R.literal 1 100000000)
    let (converged, radius) ← localSearch bounds objective budget xatol fatol options.localSearchSteps chain.radius
    return (converged, { chain with radius }.restart (← Prog.get).best)
  else return (false, chain)

def cycle (chain : Chain R n) : Searching S E R n (Termination ⊕ Chain R n) := do
  let chain ← propose exp options bounds objective budget chain
  let cycle := (← Prog.get).counters.nit + 1
  let (converged, chain) ← polish options bounds objective budget cycle chain
  Search.endIteration objective budget
  if converged then return .inl (.converged .xTol)
  else
    let temperature := (chain.temperature * options.coolingRate).max (R.literal 1 (2 ^ 1074))
    if options.reannealInterval ∣ cycle then
      return .inr ({ chain with temperature := options.initialTemperature }.restart (← Prog.get).best)
    else return .inr { chain with temperature }

/-- `none` is that the turns did not do. -/
def run (problem : Problem R n) (turns : ℕ) : Searching S E R n (Option Termination) := do
  let value ← Search.value objective budget problem.x0
  if bounds.free.isEmpty then return some (.converged .xTol)
  else
    Prog.loop (cycle exp options bounds objective budget) turns
      ⟨problem.x0, value, ⟨options.seed⟩, options.initialTemperature, options.stepSize⟩

end

def minimize (exp : R.Number → R.Number) (objective : Objective S E R.Number R.Number n) (problem : Problem R n)
    (options : HybridSimulatedAnnealingOptions R) (common : Common R.Number) (turns : ℕ) :
    Minimizing S E R n :=
  Search.minimize problem common (fun bounds budget => run exp options bounds objective budget problem turns)

/-! ## Its points -/

section

variable [IsStrictOrderedRing K] {bounds : Bounds R n} {i : Fin n}

theorem moved_mem (h : bounds.Boxed) (hi : i ∈ bounds.free) {x delta : R.Number}
    (hx : bounds.lower i ≤ x ∧ x ≤ bounds.upper i) (hdelta : Number.Between (-1) 1 delta) (reflect : Bool) :
    bounds.lower i ≤ moved bounds x i delta reflect ∧ moved bounds x i delta reflect ≤ bounds.upper i := by
  unfold moved
  dsimp only
  split
  · exact hx
  · have hfraction := h.fraction_between hi (Number.isFinite_of_le (h.lower i) (h.upper i) hx.1 hx.2)
    have hsum := Number.add_isNan hfraction.isFinite hdelta.isFinite.not_isNan
    refine h.coordinate_mem hi (Number.clamp_unit ?_).isFinite.not_isNan
    split
    · exact Number.neg_isNan hsum
    · split
      · exact Number.sub_isNan ⟨_, Number.ofNat_val (by norm_num)⟩ hsum
      · exact hsum

/-- A direction of a proposal. -/
theorem direction_between {unit : R.Number} (h : Number.Between 0 1 unit) : Number.Between (-1) 1 (R.ofNat 2 * unit - 1) := by
  obtain ⟨x, hx, hlx, hxu⟩ := h
  have hdouble : Number.Between 0 ((2 : ℕ) : K) (R.ofNat 2 * unit) := by
    rw [Number.mul_eq (Number.ofNat_val (by norm_num)) hx]
    exact Number.between_rounded Format.fixed_zero (Format.fixed_natCast (by norm_num))
      (mul_nonneg (Nat.cast_nonneg _) hlx) (mul_le_of_le_one_right (Nat.cast_nonneg _) hxu)
  obtain ⟨y, hy, hly, hyu⟩ := hdouble
  rw [Nat.cast_two] at hyu
  rw [Number.sub_eq (y := 1) hy rfl]
  exact Number.between_rounded Format.fixed_one.neg Format.fixed_one (by linarith) (by linarith)

theorem proposal_inside (h : bounds.Boxed) {current : Point R n} (hcurrent : bounds.Contains current) {step : R.Number}
    (hstep : Number.Between 0 1 step) (random : Random) : bounds.Contains (proposal bounds current step random).1 := by
  refine List.foldlRecOn (motive := fun (point : Point R n × Random) => bounds.Contains point.1) bounds.free _ hcurrent
    (fun point hpoint i hi => hpoint.update (moved_mem h hi (hcurrent i) ?_ true))
  exact Number.mul_between (direction_between point.2.unit_between) (Number.between_of_unit hstep)

/-! ## Its runs -/

variable {objective : Objective S E R.Number R.Number n} {problem : Problem R n} {budget : Common R.Number} {k : ℕ}
  {exp : R.Number → R.Number} {options : HybridSimulatedAnnealingOptions R}

/-- **What a cycle keeps.** -/
structure Inside (bounds : Bounds R n) (chain : Chain R n) : Prop where
  current : bounds.Contains chain.current
  radius  : Number.Between 0 1 chain.radius

omit [IsStrictOrderedRing K] in
theorem Inside.restart {chain : Chain R n} (hchain : Inside bounds chain) {search : Search S E R n}
    (hs : search.Found budget bounds.Contains k) : Inside bounds (chain.restart search.best) := by
  cases hbest : search.best with
  | none      => exact hchain
  | some best => exact ⟨hs.1.best_inside hbest, hchain.radius⟩

section

variable (h : bounds.Boxed) (hfev : ∀ m ∈ budget.maxfev, 0 < m)

include h hfev

theorem poll_triple {radius : R.Number} (hradius : Number.Between 0 1 radius) (extremes : R.Number × R.Number)
    {entry : Fin n × R.Number} (hi : entry.1 ∈ bounds.free) (hdirection : Number.Between (-1) 1 entry.2) :
    Triple (Found budget bounds.Contains k) (poll bounds objective budget radius extremes entry)
      (fun _ search => search.Found budget bounds.Contains k) (Ended budget bounds.Contains) := by
  unfold poll
  refine Triple.bind (Triple.get _) (fun search => ?_)
  cases hbest : search.best with
  | none      =>
    rintro _ ⟨rfl, hs⟩
    exact hs.ended _
  | some best =>
    rintro _ ⟨rfl, hs⟩
    have hinside := hs.1.best_inside hbest
    have htrial := hinside.update (moved_mem h hi (hinside entry.1)
      (Number.mul_between hdirection (Number.between_of_unit hradius)) false)
    refine (Triple.ite (fun _ => Triple.pure _ (fun _ hs => hs)) (fun _ => ?_)) search hs
    exact Triple.bind ((Search.value_triple hfev htrial).weaken (fun _ hs => hs.1) (fun _ _ hs => hs))
      (fun _ => Triple.pure _ (fun _ hs => hs))

theorem localSearch_triple (xatol fatol : R.Number) : ∀ (steps : ℕ) {radius : R.Number}, Number.Between 0 1 radius →
    Triple (Found budget bounds.Contains k) (localSearch bounds objective budget xatol fatol steps radius)
      (fun r search => search.Found budget bounds.Contains k ∧ Number.Between 0 1 r.2) (Ended budget bounds.Contains)
  | 0, _, hradius              => Triple.pure _ (fun _ hs => ⟨hs, hradius⟩)
  | steps + 1, radius, hradius => by
    unfold localSearch
    refine Triple.bind (Triple.get _) (fun search => ?_)
    cases hbest : search.best with
    | none      =>
      rintro _ ⟨rfl, hs⟩
      exact hs.ended _
    | some best =>
      rintro _ ⟨rfl, hs⟩
      refine (Triple.bind (Triple.foldlM (fun _ search => search.Found budget bounds.Contains k) _ _
        (fun extremes entry hentry => ?_)) (fun extremes => ?_)) search hs
      · obtain ⟨i, hi, hentry⟩ := List.mem_flatMap.1 hentry
        rcases List.mem_pair.1 hentry with rfl | rfl
        · exact poll_triple h hfev hradius extremes hi ⟨1, rfl, by linarith, le_rfl⟩
        · exact poll_triple h hfev hradius extremes hi ⟨-1, Number.neg_val rfl, le_rfl, by linarith⟩
      · refine Triple.bind (Triple.get _) (fun after => ?_)
        rintro _ ⟨rfl, hs⟩
        refine Triple.ite (fun _ => Triple.pure _ (fun _ hs => ⟨hs, hradius⟩)) (fun _ => ?_) after hs
        refine localSearch_triple xatol fatol steps ?_
        split
        · exact Number.mul_between_unit hradius Number.half_between
        · exact hradius

theorem propose_triple (hstep : Number.Between 0 1 options.stepSize) {chain : Chain R n} (hchain : Inside bounds chain) :
    Triple (Found budget bounds.Contains k) (propose exp options bounds objective budget chain)
      (fun chain search => search.Found budget bounds.Contains k ∧ Inside bounds chain) (Ended budget bounds.Contains) := by
  have htrial := proposal_inside h hchain.current hstep chain.random
  unfold propose
  refine Triple.ite (fun _ => Triple.pure _ (fun _ hs => ⟨hs, hchain.current, hchain.radius⟩)) (fun _ => ?_)
  refine (Triple.bind (Search.value_triple hfev htrial) (fun value => ?_)).weaken (fun _ hs => hs.1) (fun _ _ hs => hs)
  refine Triple.ite (fun _ => Triple.pure _ (fun _ hs => ⟨hs, htrial, hchain.radius⟩)) (fun _ => ?_)
  exact Triple.ite (fun _ => Triple.pure _ (fun _ hs => ⟨hs, htrial, hchain.radius⟩))
    (fun _ => Triple.pure _ (fun _ hs => ⟨hs, hchain.current, hchain.radius⟩))

theorem polish_triple (cycle : ℕ) {chain : Chain R n} (hchain : Inside bounds chain) :
    Triple (Found budget bounds.Contains k) (polish options bounds objective budget cycle chain)
      (fun r search => search.Found budget bounds.Contains k ∧ Inside bounds r.2) (Ended budget bounds.Contains) := by
  unfold polish
  refine Triple.ite (fun _ => ?_) (fun _ => Triple.pure _ (fun _ hs => ⟨hs, hchain⟩))
  refine Triple.bind (localSearch_triple h hfev _ _ options.localSearchSteps hchain.radius) (fun r => ?_)
  refine Triple.of_fact (fun hradius => ?_)
  refine Triple.bind (Triple.get _) (fun search => ?_)
  rintro _ ⟨rfl, hs⟩
  have hinside : Inside bounds { chain with radius := r.2 } := ⟨hchain.current, hradius⟩
  exact ⟨hs, hinside.restart hs⟩

theorem cycle_triple (hstep : Number.Between 0 1 options.stepSize) {chain : Chain R n} (hchain : Inside bounds chain) :
    Triple (Found budget bounds.Contains k) (cycle exp options bounds objective budget chain)
      (Search.Turned budget bounds.Contains k (Inside bounds)) (Ended budget bounds.Contains) := by
  unfold cycle
  refine Triple.bind (propose_triple h hfev hstep hchain) (fun chain => Triple.of_fact (fun hchain => ?_))
  refine Triple.bind (Triple.get _) (fun search => ?_)
  rintro _ ⟨rfl, hs⟩
  refine (Triple.bind (polish_triple h hfev _ hchain) (fun r => Triple.of_fact (fun hr => ?_))) search hs
  refine Triple.bind Search.endIteration_triple (fun _ => ?_)
  refine Triple.ite (fun _ => Triple.pure _ (fun _ hs => .inr hs)) (fun _ => Triple.ite (fun _ => ?_) (fun _ => ?_))
  · refine Triple.bind (Triple.get _) (fun search => ?_)
    rintro _ ⟨rfl, hs⟩
    have hinside : Inside bounds { r.2 with temperature := options.initialTemperature } := ⟨hr.current, hr.radius⟩
    exact ⟨hs, hinside.restart hs⟩
  · exact Triple.pure _ (fun _ hs => ⟨hs, hr.current, hr.radius⟩)

theorem run_triple (hx0 : bounds.Contains problem.x0) (hstep : Number.Between 0 1 options.stepSize) {limit turns : ℕ}
    (hlimit : budget.maxiter = some limit) (hturns : limit ≤ turns) :
    Triple (Going budget bounds.Contains 0) (run exp options bounds objective budget problem turns)
      (fun r search => ∃ status, r = some status ∧ Ended budget bounds.Contains (.terminated status : Halt E) search)
      (Ended budget bounds.Contains) := by
  unfold run
  refine Triple.bind (Search.value_triple hfev hx0) (fun value => ?_)
  refine Triple.ite (fun _ => Triple.pure _ (fun _ hs => ⟨_, rfl, hs.ended _⟩)) (fun _ => ?_)
  exact (Search.loop_triple (Inside bounds) hlimit (fun k chain hchain => cycle_triple h hfev hstep hchain) hturns
    _).weaken (fun _ hs => ⟨hs, hx0, hstep⟩) (fun _ _ hs => hs)

end

theorem minimize_triple (hvalid : options.validate problem = .ok ()) (hbounds : problem.bounds = some bounds)
    {common : Common R.Number} {turns : ℕ} (hturns : common.maxiter.getD 1000 ≤ turns) (s : S) :
    Triple (· = Counters.new s) (minimize exp objective problem options common turns)
      (Search.Concluded (common.resolved 1000 1000000) bounds.Contains)
      (fun _ c => Counters.Accounted (common.resolved 1000 1000000) bounds.Contains c) := by
  obtain ⟨hboxed, hx0, hstep⟩ := HybridSimulatedAnnealingOptions.validate_eq_ok hvalid hbounds
  exact Search.minimize_triple s hbounds fun hfev => run_triple hboxed hfev hx0 hstep rfl hturns

end

end SimulatedAnnealing
end Optimize
end Itofin
