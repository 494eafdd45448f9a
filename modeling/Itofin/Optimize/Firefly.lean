import Itofin.Optimize.Search
import Mathlib.Algebra.Order.Floor.Ring
/-!
# Firefly — attraction and noise

`itofin-optimize/src/firefly.rs`.  `exp` is the library's, of which the proofs use that it is in the unit interval where its
argument is not positive.
-/
namespace Itofin
namespace Optimize
open Effect
open Format (Number)
open Search (Found Going Ended)

variable {S E K : Type} [Field K] [LinearOrder K] [FloorRing K] {R : Format K} {n : ℕ}

variable (R n) in
structure Firefly where
  x : Point R n
  f : R.Number

namespace Firefly

section

variable (exp : R.Number → R.Number) (options : FireflyOptions R n) (bounds : Bounds R n)

def attraction (distanceSquared : R.Number) : R.Number := options.beta0 * exp (-options.gamma * distanceSquared)

/-- The noise on a coordinate, where a sum outside the bounds is reflected. -/
def noisy (base noise : R.Number) (i : Fin n) : R.Number :=
  let physical := base + noise * bounds.width i
  if physical.isFinite ∧ bounds.lower i ≤ physical ∧ physical ≤ bounds.upper i then physical
  else
    let wrapped := (bounds.fraction i base + noise).remEuclid (R.ofNat 2)
    let reflected := if wrapped ≤ 1 then wrapped else R.ofNat 2 - wrapped
    bounds.coordinate i reflected

def coordinateMove (x target beta noise : R.Number) (i : Fin n) : R.Number :=
  let difference := target - x
  if (beta * difference + noise * bounds.width i).Equals 0 then x
  else
    let base := (if beta ≤ R.literal 1 2 then x + beta * difference else target - (1 - beta) * difference).clamp
      (bounds.lower i) (bounds.upper i)
    noisy bounds base noise i

/-- The squared distance, in widths of the box. -/
def distance (x target : Point R n) : R.Number :=
  (bounds.free.map fun i =>
    let share := (target i - x i) / bounds.width i
    share * share).foldl (· + ·) 0

def moved (x : Point R n) (target : Option (Point R n)) (alpha : R.Number) (random : Random) : Point R n × Random :=
  let beta := match target with
    | none        => 0
    | some target => attraction exp options (distance bounds x target)
  bounds.free.foldl (fun (proposal : Point R n × Random) i =>
    let (unit, random) := proposal.2.unit
    let noise := alpha * (unit - R.literal 1 2)
    let target := match target with
      | none        => x i
      | some target => target i
    (Function.update proposal.1 i (coordinateMove bounds (x i) target beta noise i), random)) (x, random)

def converged (population : List (Firefly R n)) (alpha xatol fatol : R.Number) : Bool :=
  let values := population.map Firefly.f
  if xatol < alpha then false
  else if fatol < maximum values - minimum values then false
  else bounds.free.all fun i =>
    let coordinates := population.map (fun p => p.x i)
    let min := minimum coordinates
    let max := maximum coordinates
    if xatol.Equals 0 then max.Equals min else (max - min) / bounds.width i ≤ xatol

/-- A move of a firefly, whose value is asked for when it moved. -/
def step (objective : Objective S E R.Number R.Number n) (budget : Common R.Number) (target : Option (Point R n))
    (alpha : R.Number) (selected : Firefly R n) (random : Random) : Searching S E R n (Firefly R n × Random) := do
  let (x, random) := moved exp options bounds selected.x target alpha random
  if x.Equals selected.x then return (selected, random)
  else
    let f ← Search.value objective budget x
    return (⟨x, f⟩, random)

/-- The turn of a firefly in a generation: towards every brighter one, or at random. -/
def turn (objective : Objective S E R.Number R.Number n) (budget : Common R.Number) (population : List (Firefly R n))
    (alpha : R.Number) (old : Firefly R n) (random : Random) : Searching S E R n (Firefly R n × Random) := do
  let (selected, attracted) ← population.foldlM (fun (state : (Firefly R n × Random) × Bool) target => do
    if target.f < old.f then
      let selected ← step exp options bounds objective budget (some target.x) alpha state.1.1 state.1.2
      return (selected, true)
    else return state) ((old, random), false)
  if attracted then return selected
  else step exp options bounds objective budget none alpha selected.1 selected.2

def generation (objective : Objective S E R.Number R.Number n) (budget : Common R.Number)
    (population : List (Firefly R n)) (alpha : R.Number) (random : Random) : Searching S E R n (List (Firefly R n) × Random) :=
  population.foldlM (fun next old => do
    let (selected, random) ← turn exp options bounds objective budget population alpha old next.2
    return (next.1 ++ [selected], random)) ([], random)

/-- `none` is that the turns did not do. -/
def run (objective : Objective S E R.Number R.Number n) (problem : Problem R n) (budget : Common R.Number) (turns : ℕ) :
    Searching S E R n (Option Termination) := do
  if bounds.free.isEmpty then
    let _ ← Search.value objective budget problem.x0
    return some (.converged .xTol)
  else
    let (population, random) ← Search.populate objective problem bounds options.global budget bounds.sample
      (fun x f => (⟨x, f⟩ : Firefly R n))
    let xatol := (options.global.xatol.or budget.tol).getD (R.literal 1 1000000)
    let fatol := (options.global.fatol.or budget.tol).getD (R.literal 1 100000000)
    Prog.loop (fun (state : (List (Firefly R n) × Random) × R.Number) => do
      if converged bounds state.1.1 state.2 xatol fatol then return .inl (.converged .xTol)
      else
        let next ← generation exp options bounds objective budget state.1.1 state.2 state.1.2
        let alpha := state.2 * options.alphaDecay
        Search.endIteration objective budget
        return .inr (next, alpha)) turns ((population, random), options.alpha)

end

def minimize (exp : R.Number → R.Number) (objective : Objective S E R.Number R.Number n) (problem : Problem R n)
    (options : FireflyOptions R n) (common : Common R.Number) (turns : ℕ) :
    Minimizing S E R n :=
  Search.minimize problem common (fun bounds budget => run exp options bounds objective problem budget turns)

/-! ## Its points -/

/-- **What the proofs use of the exponential.** -/
def Contracts (exp : R.Number → R.Number) : Prop := ∀ a x, a.val = .finite x → x ≤ 0 → Number.Between 0 1 (exp a)

/-- **The coefficients of valid options.** -/
structure Valid (options : FireflyOptions R n) : Prop where
  alpha      : Number.Between 0 1 options.alpha
  beta0      : Number.Between 0 1 options.beta0
  gamma      : Number.Between 0 ((1000000 : ℕ) : K) options.gamma
  alphaDecay : Number.Between 0 1 options.alphaDecay

variable [IsStrictOrderedRing K] {exp : R.Number → R.Number} {options : FireflyOptions R n} {bounds : Bounds R n} {i : Fin n}

theorem noisy_mem (h : bounds.Boxed) (hi : i ∈ bounds.free) {base noise : R.Number}
    (hbase : bounds.lower i ≤ base ∧ base ≤ bounds.upper i) (hnoise : Number.Between (-1) 1 noise) :
    bounds.lower i ≤ noisy bounds base noise i ∧ noisy bounds base noise i ≤ bounds.upper i := by
  unfold noisy
  dsimp only
  split
  · rename_i hphysical
    exact hphysical.2
  · have hfraction := h.fraction_between hi (Number.isFinite_of_le (h.lower i) (h.upper i) hbase.1 hbase.2)
    have hbounded : Number.Bounded 1 (bounds.fraction i base) := Number.bounded_of_between (by simpa using hfraction)
    have hsum := (hbounded.add (Number.bounded_one hnoise) (by norm_num)).isFinite
    have htwo := Number.ofNat_val (R := R) (n := 2) (by norm_num)
    have hwrapped := Number.remEuclid_isNan hsum htwo (Nat.cast_pos.2 two_pos)
    refine h.coordinate_mem hi ?_
    split
    · exact hwrapped
    · exact Number.sub_isNan ⟨_, htwo⟩ hwrapped

/-- **A coordinate moves within its bounds.** -/
theorem coordinateMove_mem (h : bounds.Boxed) (hi : i ∈ bounds.free) {x target beta noise : R.Number}
    (hx : bounds.lower i ≤ x ∧ x ≤ bounds.upper i) (htarget : bounds.lower i ≤ target ∧ target ≤ bounds.upper i)
    (hbeta : Number.Between 0 1 beta) (hnoise : Number.Between (-1) 1 noise) :
    bounds.lower i ≤ coordinateMove bounds x target beta noise i ∧
      coordinateMove bounds x target beta noise i ≤ bounds.upper i := by
  obtain ⟨w, hw, -⟩ := h.width_pos hi
  have hxfinite := Number.isFinite_of_le (h.lower i) (h.upper i) hx.1 hx.2
  have htfinite := Number.isFinite_of_le (h.lower i) (h.upper i) htarget.1 htarget.2
  have hdifference := (Number.sub_between hw (h.lower i) (h.upper i) htarget hx).isFinite
  have hrest : (1 - beta).IsFinite := (Number.sub_between_unit ⟨1, rfl, zero_le_one, le_rfl⟩ hbeta).isFinite
  unfold coordinateMove
  dsimp only
  split
  · exact hx
  · refine noisy_mem h hi (Number.clamp_mem ?_ (h.le i)) hnoise
    split
    · exact Number.add_isNan hxfinite (Number.mul_isNan_of_finite hbeta.isFinite hdifference)
    · exact Number.sub_isNan htfinite (Number.mul_isNan_of_finite hrest hdifference)

omit [FloorRing K] in
theorem sum_between : ∀ (values : List R.Number) (j : ℕ) (a : R.Number), (∀ v ∈ values, Number.Between 0 1 v) →
    Number.Between 0 (j : K) a → j + values.length ≤ 2 ^ 53 →
      Number.Between 0 ((j + values.length : ℕ) : K) (values.foldl (· + ·) a)
  | [], _, _, _, ha, _           => ha
  | v :: values, j, a, hv, ha, h => by
    rw [List.length_cons] at h
    have hone : Number.Between 0 ((1 : ℕ) : K) v := by simpa using hv v List.mem_cons_self
    have hsum := sum_between values (j + 1) (a + v) (fun u hu => hv u (List.mem_cons_of_mem v hu))
      (Number.add_between ha hone (by omega)) (by omega)
    rwa [show j + 1 + values.length = j + (v :: values).length by rw [List.length_cons]; omega] at hsum

omit [FloorRing K] in
theorem distance_between (h : bounds.Boxed) (hn : n ≤ 256) {x target : Point R n} (hx : bounds.Contains x)
    (htarget : bounds.Contains target) : Number.Between 0 ((256 : ℕ) : K) (distance bounds x target) := by
  have hlength : bounds.free.length ≤ 256 := (List.length_filter_le _ _).trans (by rwa [List.length_finRange])
  refine (sum_between _ 0 0 (fun v hv => ?_) ⟨0, rfl, le_rfl, by simp⟩ ?_).weaken le_rfl ?_
  · obtain ⟨i, hi, rfl⟩ := List.mem_map.1 hv
    obtain ⟨w, hw, hpos⟩ := h.width_pos hi
    have hdifference := Number.sub_between hw (h.lower i) (h.upper i) (htarget i) (hx i)
    exact Number.mul_self_between (Number.div_between hdifference hw hpos)
  · rw [List.length_map]
    omega
  · rw [List.length_map, Nat.cast_le]
    omega

omit [FloorRing K] in
theorem attraction_between (hexp : Contracts exp) (hoptions : Valid options) {d : R.Number}
    (hd : Number.Between 0 ((256 : ℕ) : K) d) : Number.Between 0 1 (attraction exp options d) := by
  obtain ⟨g, hg, hg0, hg1⟩ := hoptions.gamma
  obtain ⟨y, hy, hy0, hy1⟩ := hd
  have hproduct := Number.mul_eq (Number.neg_val hg) hy
  have hexact : Number.Between (-((1000000 * 256 : ℕ) : K)) 0 (-options.gamma * d) := by
    rw [hproduct]
    refine Number.between_rounded (Format.fixed_natCast (by norm_num)).neg Format.fixed_zero ?_ ?_
    · rw [Nat.cast_mul, neg_mul, neg_le_neg_iff]
      exact mul_le_mul hg1 hy1 hy0 (Nat.cast_nonneg _)
    · rw [neg_mul]
      exact neg_nonpos.2 (mul_nonneg hg0 hy0)
  obtain ⟨z, hz, -, hz0⟩ := hexact
  exact Number.mul_between_unit hoptions.beta0 (hexp _ z hz hz0)

theorem moved_inside (h : bounds.Boxed) (hn : n ≤ 256) (hexp : Contracts exp) (hoptions : Valid options) {x : Point R n}
    (hx : bounds.Contains x) {target : Option (Point R n)} (htarget : ∀ y ∈ target, bounds.Contains y) {alpha : R.Number}
    (halpha : Number.Between 0 1 alpha) (random : Random) :
    bounds.Contains (moved exp options bounds x target alpha random).1 := by
  unfold moved
  refine List.foldlRecOn (motive := fun (proposal : Point R n × Random) => bounds.Contains proposal.1) bounds.free _ hx
    (fun proposal hproposal i hi => hproposal.update ?_)
  have hunit := Number.sub_between_unit (Random.unit_between proposal.2) (Number.half_between (R := R))
  have hnoise := Number.mul_between (Number.between_of_unit halpha) hunit
  cases target with
  | none        => exact coordinateMove_mem h hi (hx i) (hx i) ⟨0, rfl, le_rfl, zero_le_one⟩ hnoise
  | some target =>
    have htarget := htarget target rfl
    have hbeta := attraction_between hexp hoptions (distance_between h hn hx htarget)
    exact coordinateMove_mem h hi (hx i) (htarget i) hbeta hnoise

/-! ## Its runs -/

variable {objective : Objective S E R.Number R.Number n} {problem : Problem R n} {budget : Common R.Number}

omit [FloorRing K] [IsStrictOrderedRing K] in
theorem validate_eq_ok (h : options.validate problem = .ok ()) (hbounds : problem.bounds = some bounds) :
    options.global.Valid problem bounds ∧ Valid options := by
  obtain ⟨hglobal, h⟩ := unit_bind.1 h
  obtain ⟨halpha, h⟩ := check_bind.1 h
  obtain ⟨hbeta0, h⟩ := check_bind.1 h
  obtain ⟨hgamma, h⟩ := check_bind.1 h
  have hdecay := check_eq_ok.1 h
  have hmillion := Number.ofNat_val (R := R) (n := 1000000) (by norm_num)
  exact ⟨GlobalOptions.validate_eq_ok hglobal hbounds, Number.between_of_le rfl rfl halpha.2,
    Number.between_of_le rfl rfl ⟨Number.le_of_lt hbeta0.2.1, hbeta0.2.2⟩, Number.between_of_le rfl hmillion hgamma.2,
    Number.between_of_le rfl rfl ⟨Number.le_of_lt hdecay.2.1, hdecay.2.2⟩⟩

section

variable (h : bounds.Boxed) (hn : n ≤ 256) (hexp : Contracts exp) (hoptions : Valid options)
  (hfev : ∀ m ∈ budget.maxfev, 0 < m) {k : ℕ} {alpha : R.Number} (halpha : Number.Between 0 1 alpha)

include h hn hexp hoptions hfev halpha

theorem step_triple {selected : Firefly R n} (hx : bounds.Contains selected.x) {target : Option (Point R n)}
    (htarget : ∀ y ∈ target, bounds.Contains y) (random : Random) :
    Triple (Found budget bounds.Contains k) (step exp options bounds objective budget target alpha selected random)
      (fun moved search => search.Found budget bounds.Contains k ∧ bounds.Contains moved.1.x)
      (Ended budget bounds.Contains) := by
  have hmoved := moved_inside h hn hexp hoptions hx htarget halpha random
  unfold step
  refine Triple.ite (fun _ => Triple.pure _ (fun _ hs => ⟨hs, hx⟩)) (fun _ => ?_)
  exact (Triple.bind (Search.value_triple hfev hmoved) (fun _ => Triple.pure _ (fun _ hs => ⟨hs, hmoved⟩))).weaken
    (fun _ hs => hs.1) (fun _ _ hs => hs)

theorem turn_triple {population : List (Firefly R n)} (hpopulation : ∀ p ∈ population, bounds.Contains p.x)
    {old : Firefly R n} (hold : old ∈ population) (random : Random) :
    Triple (Found budget bounds.Contains k) (turn exp options bounds objective budget population alpha old random)
      (fun moved search => search.Found budget bounds.Contains k ∧ bounds.Contains moved.1.x)
      (Ended budget bounds.Contains) := by
  refine Triple.bind (Q := fun state search => search.Found budget bounds.Contains k ∧ bounds.Contains state.1.1.x) ?_
    (fun state => ?_)
  · refine (Triple.foldlM (fun (state : (Firefly R n × Random) × Bool) search => search.Found budget bounds.Contains k ∧
      bounds.Contains state.1.1.x) population _ (fun state target htarget => ?_)).weaken
        (fun _ hs => ⟨hs, hpopulation old hold⟩) (fun _ _ hs => hs)
    refine Triple.of_fact (fun hx => Triple.ite (fun _ => ?_) (fun _ => Triple.pure _ (fun _ hs => ⟨hs, hx⟩)))
    refine Triple.bind (step_triple h hn hexp hoptions hfev halpha hx ?_ state.1.2) (fun _ => Triple.pure _ (fun _ hs => hs))
    rintro y ⟨⟩
    exact hpopulation target htarget
  · obtain ⟨selected, attracted⟩ := state
    refine Triple.of_fact (fun hx => Triple.ite (fun _ => Triple.pure _ (fun _ hs => ⟨hs, hx⟩)) (fun _ => ?_))
    exact step_triple h hn hexp hoptions hfev halpha hx (fun y hy => absurd hy (Option.not_mem_none y)) selected.2

theorem generation_triple {population : List (Firefly R n)} (hpopulation : ∀ p ∈ population, bounds.Contains p.x)
    (random : Random) :
    Triple (Found budget bounds.Contains k) (generation exp options bounds objective budget population alpha random)
      (fun next search => search.Found budget bounds.Contains k ∧ ∀ p ∈ next.1, bounds.Contains p.x)
      (Ended budget bounds.Contains) := by
  refine (Triple.foldlM (fun (next : List (Firefly R n) × Random) search => search.Found budget bounds.Contains k ∧
    ∀ p ∈ next.1, bounds.Contains p.x) _ _ (fun next old hold => ?_)).weaken (fun _ hs => ⟨hs, nofun⟩) (fun _ _ hs => hs)
  refine Triple.of_fact (fun hnext => ?_)
  refine Triple.bind (turn_triple h hn hexp hoptions hfev halpha hpopulation hold next.2) (fun moved => ?_)
  refine Triple.of_fact (fun hmoved => Triple.pure _ (fun search hs => ⟨hs, fun p hp => ?_⟩))
  rcases List.mem_append.1 hp with hp | hp
  · exact hnext p hp
  · rwa [List.mem_singleton.1 hp]

end

theorem run_triple (hvalid : options.global.Valid problem bounds) (hexp : Contracts exp) (hoptions : Valid options)
    (hfev : ∀ m ∈ budget.maxfev, 0 < m) {limit turns : ℕ} (hlimit : budget.maxiter = some limit) (hturns : limit ≤ turns) :
    Triple (Going budget bounds.Contains 0) (run exp options bounds objective problem budget turns)
      (fun r search => ∃ status, r = some status ∧ Ended budget bounds.Contains (.terminated status : Halt E) search)
      (Ended budget bounds.Contains) := by
  have hboxed := hvalid.boxed
  have hsize : options.global.populationCount bounds ≠ 0 := by
    have := hvalid.size
    omega
  unfold run
  refine Triple.ite (fun _ => ?_) (fun _ => ?_)
  · exact Triple.bind (Search.value_triple hfev hvalid.x0) (fun _ => Triple.pure _ (fun _ h => ⟨_, rfl, h.ended _⟩))
  · refine Triple.bind (Search.populate_triple (fun p => bounds.Contains p.x) hfev hsize hvalid.x0
      (fun points hpoints => (hvalid.population points hpoints).2) hboxed.sample_mem (fun _ _ hx => hx)) (fun first => ?_)
    refine (Search.loop_triple (fun state => (∀ p ∈ state.1.1, bounds.Contains p.x) ∧ Number.Between 0 1 state.2)
      hlimit (fun k state hstate => ?_) hturns (first, options.alpha)).weaken (fun _ h => ⟨h.1, h.2, hoptions.alpha⟩)
        (fun _ _ h => h)
    refine Triple.ite (fun _ => Triple.pure _ (fun _ h => .inl h)) (fun _ => ?_)
    refine Triple.bind (generation_triple hboxed hvalid.dimension hexp hoptions hfev hstate.2 hstate.1 state.1.2)
      (fun next => Triple.of_fact (fun hnext => ?_))
    exact Triple.bind Search.endIteration_triple (fun _ => Triple.pure _ (fun _ h =>
      ⟨h, hnext, Number.mul_between_unit hstate.2 hoptions.alphaDecay⟩))

theorem minimize_triple (hexp : Contracts exp) (hvalid : options.validate problem = .ok ())
    (hbounds : problem.bounds = some bounds) {common : Common R.Number} {turns : ℕ}
    (hturns : common.maxiter.getD 1000 ≤ turns) (s : S) :
    Triple (· = Counters.new s) (minimize exp objective problem options common turns)
      (Search.Concluded (common.resolved 1000 1000000) bounds.Contains)
      (fun _ c => Counters.Accounted (common.resolved 1000 1000000) bounds.Contains c) := by
  obtain ⟨hglobal, hoptions⟩ := validate_eq_ok hvalid hbounds
  exact Search.minimize_triple s hbounds fun hfev => run_triple hglobal hexp hoptions hfev rfl hturns

end Firefly
end Optimize
end Itofin
