import Itofin.Lib.Skip
import Itofin.Optimize.Search
/-!
# DifferentialEvolution — the donors of a trial, and generations of trials

`differential_evolution.rs`.  The donors are three members of the population besides the target, each drawn as an index past
the excluded ones.  The draws are below the numbers of members that are left, and are in correspondence with the triples
(`unbiased`).

A member has a fraction for each coordinate, of which those of the free ones are read.  A mutant outside the box is drawn
again, so that a trial stays in it.
-/
namespace Itofin
namespace Optimize
namespace DifferentialEvolution

open Turns Skip

/-- The slots of `chosen`, one after the other.  Where no member is left there is no index. -/
def fillSlots (turns size : ℕ) : ℕ → List ℕ → Random → Except Turns.Halt (List ℕ × Random)
  | 0, _, random                => .ok ([], random)
  | slots + 1, excluded, random => do
    let (index, random) ← random.index turns (size - excluded.length)
    let excluded := excluded.insertionSort (· ≤ ·)
    let index := excluded.foldl (fun index skip => if skip ≤ index then index + 1 else index) index
    let (chosen, random) ← fillSlots turns size slots (excluded ++ [index]) random
    return (index :: chosen, random)

def donors (turns : ℕ) (random : Random) (target size : ℕ) : Except Turns.Halt (List ℕ × Random) :=
  fillSlots turns size 3 [target] random

/-- The draws of the slots, each below the number of members left. -/
inductive Drawn (turns size : ℕ) : ℕ → Random → List ℕ → Random → Prop
  | nil {taken : ℕ} {random : Random} : Drawn turns size taken random [] random
  | cons {taken draw : ℕ} {draws : List ℕ} {random next last : Random}
      (h : random.index turns (size - taken) = .ok (draw, next)) (rest : Drawn turns size (taken + 1) next draws last) :
      Drawn turns size taken random (draw :: draws) last

variable {turns size target taken : ℕ} {random : Random}

/-- **The slots** are filled with the positions of the draws. -/
theorem fillSlots_spec (hturns : 2 ^ 64 ≤ turns) (hsize : size < 2 ^ 64) : ∀ (slots : ℕ) (excluded : List ℕ) (random : Random),
    excluded.length + slots ≤ size → ∃ draws last, Drawn turns size excluded.length random draws last ∧
      draws.length = slots ∧ Within size excluded.length draws ∧
      fillSlots turns size slots excluded random = .ok (picks excluded draws, last)
  | 0, excluded, random, _             => ⟨[], random, .nil, rfl, trivial, rfl⟩
  | slots + 1, excluded, random, hroom => by
    obtain ⟨k, hk, -, -, hlt, hindex⟩ := random.index_spec (size - excluded.length) (by omega) (by omega)
    have hdraw := hindex turns (by omega)
    generalize Random.residue (size - excluded.length) (random.word k) = draw at hdraw hlt
    generalize random.after (k + 1) = next at hdraw
    let index := pastAll (inOrder excluded) draw
    obtain ⟨draws, last, hdrawn, hlength, hwithin, hfill⟩ :=
      fillSlots_spec hturns hsize slots (inOrder excluded ++ [index]) next (by rw [length_append]; omega)
    rw [length_append] at hdrawn hwithin
    refine ⟨draw :: draws, last, .cons hdraw hdrawn, congrArg (· + 1) hlength, ⟨by omega, hwithin⟩, ?_⟩
    have hstep : fillSlots turns size (slots + 1) excluded random =
        (random.index turns (size - excluded.length)).bind fun (draw, next) =>
          (fillSlots turns size slots (inOrder excluded ++ [pastAll (inOrder excluded) draw]) next).bind fun (chosen, last) =>
            .ok (pastAll (inOrder excluded) draw :: chosen, last) := rfl
    rw [hstep, hdraw]
    change (fillSlots turns size slots (inOrder excluded ++ [index]) next).bind _ = _
    rw [hfill]
    rfl

/-- The numbers that the three draws can be. -/
def Draws (size : ℕ) : Set (List ℕ) := {draws | draws.length = 3 ∧ Within size 1 draws}

/-- The ordered triples of distinct members besides the target. -/
def Triples (size target : ℕ) : Set (List ℕ) :=
  {chosen | chosen.length = 3 ∧ chosen.Nodup ∧ ∀ x ∈ chosen, x < size ∧ x ≠ target}

theorem triples_eq (size target : ℕ) : Triples size target = {chosen | chosen.length = 3 ∧ Chosen size [target] chosen} := by
  ext chosen
  refine and_congr_right fun _ => ⟨fun h => ⟨h.1, fun x hx => ⟨(h.2 x hx).1, ?_⟩⟩, fun h => ⟨h.nodup, fun x hx =>
    ⟨(h.free x hx).1, fun heq => (h.free x hx).2 (List.mem_singleton.2 heq)⟩⟩⟩
  exact fun hmem => (h.2 x hx).2 (List.mem_singleton.1 hmem)

theorem triples_bijOn (htarget : target < size) : Set.BijOn (picks [target]) (Draws size) (Triples size target) := by
  have hexcludes : Excludes size [target] :=
    ⟨List.nodup_singleton target, fun x hx => by rw [List.mem_singleton.1 hx]; exact htarget⟩
  rw [triples_eq]
  exact picks_bijOn hexcludes 3

theorem donors_spec (hturns : 2 ^ 64 ≤ turns) (hsize : 4 ≤ size) (husize : size < 2 ^ 64) (target : ℕ) (random : Random) :
    ∃ draws last, Drawn turns size 1 random draws last ∧ draws ∈ Draws size ∧
      donors turns random target size = .ok (picks [target] draws, last) := by
  obtain ⟨draws, last, hdrawn, hlength, hwithin, hdonors⟩ :=
    fillSlots_spec hturns husize 3 [target] random (by rw [List.length_singleton]; omega)
  exact ⟨draws, last, hdrawn, ⟨hlength, hwithin⟩, hdonors⟩

/-- **The indices are unbiased**: each is of as many words, of those that `index` takes the first of; and the donors are
those of three such draws, which are in correspondence with the triples. -/
theorem unbiased (bound : ℕ) (hbound : 0 < bound) (hword : bound < 2 ^ 64) (size target : ℕ) (hsize : 4 ≤ size)
    (husize : size < 2 ^ 64) (htarget : target < size) (random : Random) :
    (∀ r, r < bound → {value : BitVec 64 | Random.Accepted bound value ∧ Random.residue bound value = r}.ncard =
      2 ^ 64 / bound) ∧
    (∃ k, (∀ i, i < k → ¬ Random.Accepted bound (random.word i)) ∧ Random.Accepted bound (random.word k) ∧
      ∀ turns, 2 ^ 64 ≤ turns →
        random.index turns bound = .ok (Random.residue bound (random.word k), random.after (k + 1))) ∧
    (∀ turns, 2 ^ 64 ≤ turns → ∃ draws last, Drawn turns size 1 random draws last ∧ draws ∈ Draws size ∧
      donors turns random target size = .ok (picks [target] draws, last) ∧ picks [target] draws ∈ Triples size target) ∧
    Set.BijOn (picks [target]) (Draws size) (Triples size target) := by
  have hbij := triples_bijOn htarget
  refine ⟨fun r hr => Random.ncard_accepted hword hr, ?_, fun turns hturns => ?_, hbij⟩
  · obtain ⟨k, hk, hrejected, haccepted, -, hindex⟩ := random.index_spec bound hbound hword
    exact ⟨k, hrejected, haccepted, fun turns hturns => hindex turns (hk.trans_le hturns)⟩
  · obtain ⟨draws, last, hdrawn, hdraws, hdonors⟩ := donors_spec hturns hsize husize target random
    exact ⟨draws, last, hdrawn, hdraws, hdonors, hbij.mapsTo hdraws⟩

/-- Four members, and indices below six. -/
theorem unbiased_four :
    {value : BitVec 64 | Random.Accepted 6 value ∧ Random.residue 6 value = 5}.ncard = 2 ^ 64 / 6 ∧
    Set.BijOn (picks [2]) (Draws 4) (Triples 4 2) :=
  have h := unbiased 6 (by decide) (by decide) 4 2 (by decide) (by decide) (by decide) ⟨0#64⟩
  ⟨h.1 5 (by decide), h.2.2.2⟩

/-- `donors` when the turns do. -/
def drawn (random : Random) (target size : ℕ) : List ℕ × Random :=
  match donors (2 ^ 64) random target size with
  | .ok drawn => drawn
  | .error _  => ([], random)

theorem fillSlots_turns (hturns : 2 ^ 64 ≤ turns) (hsize : size < 2 ^ 64) : ∀ (slots : ℕ) (excluded : List ℕ)
    (random : Random), excluded.length + slots ≤ size →
    fillSlots turns size slots excluded random = fillSlots (2 ^ 64) size slots excluded random
  | 0, _, _, _                         => rfl
  | slots + 1, excluded, random, hroom => by
    have hindex : random.index turns (size - excluded.length) = random.index (2 ^ 64) (size - excluded.length) := by
      rw [random.index_eq_below (by omega) (by omega) hturns, random.index_eq_below (by omega) (by omega) le_rfl]
    unfold fillSlots
    rw [hindex]
    refine congrArg _ (funext fun drawn => ?_)
    have hlength : (inOrder excluded ++ [pastAll (inOrder excluded) drawn.1]).length = excluded.length + 1 := length_append
    have hrest := fillSlots_turns hturns hsize slots (inOrder excluded ++ [pastAll (inOrder excluded) drawn.1]) drawn.2
      (by omega)
    exact congrArg (fun rest => rest.bind fun (chosen, last) => .ok (pastAll (inOrder excluded) drawn.1 :: chosen, last))
      hrest

/-- **The donors that are drawn** are three members besides the target, whatever turns there are. -/
theorem donors_drawn (hturns : 2 ^ 64 ≤ turns) (hsize : 4 ≤ size) (husize : size < 2 ^ 64) (htarget : target < size)
    (random : Random) : donors turns random target size = .ok (drawn random target size) ∧
      (drawn random target size).1 ∈ Triples size target := by
  obtain ⟨draws, last, -, hdraws, hrun⟩ := donors_spec le_rfl hsize husize target random
  have hdrawn : drawn random target size = (picks [target] draws, last) := by
    unfold drawn
    rw [hrun]
  rw [hdrawn, ← hrun]
  exact ⟨fillSlots_turns hturns husize 3 [target] random (by rw [List.length_singleton]; omega),
    (triples_bijOn htarget).mapsTo hdraws⟩

/-! ## Trials -/

section

open Effect
open Format (Number)
open Search (Found Going Ended)

variable {S E K : Type} [Field K] [LinearOrder K] {R : Format K} {n : ℕ}

variable (R n) in
structure Member where
  x          : Point R n
  normalized : Point R n
  f          : R.Number
deriving Inhabited

def normalized (bounds : Bounds R n) (x : Point R n) : Point R n := fun i => bounds.fraction i (x i)

def physical (bounds : Bounds R n) (normalized : List R.Number) : Point R n :=
  (bounds.free.zip normalized).foldl (fun x entry => Function.update x entry.1 (bounds.coordinate entry.1 entry.2))
    bounds.lower

/-- `(0..count).map(|_| random.unit())` -/
def units : ℕ → Random → List R.Number × Random
  | 0, random         => ([], random)
  | count + 1, random =>
    let (unit, random) := random.unit (R := R)
    let (rest, random) := units count random
    (unit :: rest, random)

def sample (bounds : Bounds R n) (random : Random) : Point R n × Random :=
  let (normalized, random) := units bounds.free.length random
  (physical bounds normalized, random)

def converged (population : List (Member R n)) (bounds : Bounds R n) (xatol fatol : R.Number) : Bool :=
  let values := population.map Member.f
  if fatol < maximum values - minimum values then false
  else bounds.free.all fun i =>
    let coordinates := population.map (fun member => member.x i)
    let spread := maximum coordinates - minimum coordinates
    if xatol.Equals 0 then spread.Equals 0 else spread / bounds.width i ≤ xatol

/-- The turn of a free coordinate in `trial`, of which `candidate` is the mutant. -/
def cross (bounds : Bounds R n) (recombination : R.Number) (forced : ℕ) (candidate : Point R n)
    (drawn : Point R n × Random) (entry : Fin n × ℕ) : Point R n × Random :=
  let (crossover, random) := drawn.2.unit
  if entry.2 = forced ∨ crossover < recombination then
    let (normalized, random) :=
      if 0 ≤ candidate entry.1 ∧ candidate entry.1 ≤ 1 then (candidate entry.1, random) else random.unit
    (Function.update drawn.1 entry.1 (bounds.coordinate entry.1 normalized), random)
  else (drawn.1, random)

def trial (population : List (Member R n)) (target : ℕ) (bounds : Bounds R n) (options : DifferentialEvolutionOptions R n)
    (random : Random) : Point R n × Random :=
  let (chosen, random) := drawn random target population.length
  let (forced, random) := random.below bounds.free.length
  let fraction (slot : ℕ) (i : Fin n) : R.Number := (population.getD (chosen.getD slot 0) default).normalized i
  let candidate (i : Fin n) : R.Number := fraction 0 i + options.mutation * (fraction 1 i - fraction 2 i)
  bounds.free.zipIdx.foldl (cross bounds options.recombination forced candidate) ((population.getD target default).x, random)

/-- `for (target, selected) in next.iter_mut().enumerate() { .. }` -/
def generation (objective : Objective S E R.Number R.Number n) (bounds : Bounds R n)
    (options : DifferentialEvolutionOptions R n) (budget : Common R.Number) (population : List (Member R n))
    (random : Random) :
    Searching S E R n (List (Member R n) × Random) :=
  population.zipIdx.foldlM (fun next entry => do
    let (x, random) := trial population entry.2 bounds options next.2
    let f ← Search.value objective budget x
    return (next.1 ++ [if f ≤ entry.1.f then ⟨x, normalized bounds x, f⟩ else entry.1], random)) ([], random)

/-- `none` is that the turns did not do. -/
def run (objective : Objective S E R.Number R.Number n) (problem : Problem R n) (bounds : Bounds R n)
    (options : DifferentialEvolutionOptions R n) (budget : Common R.Number) (turns : ℕ) :
    Searching S E R n (Option Termination) := do
  if bounds.free.isEmpty then
    let _ ← Search.value objective budget problem.x0
    return some (.converged .xTol)
  else
    let first ← Search.populate objective problem bounds options.global budget (sample bounds)
      (fun x f => (⟨x, normalized bounds x, f⟩ : Member R n))
    let xatol := (options.global.xatol.or budget.tol).getD (R.literal 1 1000000)
    let fatol := (options.global.fatol.or budget.tol).getD (R.literal 1 100000000)
    Prog.loop (fun (state : List (Member R n) × Random) => do
      if converged state.1 bounds xatol fatol then return .inl (.converged .xTol)
      else
        let next ← generation objective bounds options budget state.1 state.2
        Search.endIteration objective budget
        return .inr next) turns first

def minimize (objective : Objective S E R.Number R.Number n) (problem : Problem R n)
    (options : DifferentialEvolutionOptions R n) (common : Common R.Number) (turns : ℕ) : Minimizing S E R n :=
  Search.minimize problem common (fun bounds budget => run objective problem bounds options budget turns)

/-! ## Its points -/

section

variable [IsStrictOrderedRing K] {bounds : Bounds R n}

theorem units_between : ∀ (count : ℕ) (random : Random), ∀ u ∈ (units (R := R) count random).1, Number.Between 0 1 u
  | 0, _, _, hu            => nomatch hu
  | count + 1, random, u, hu => by
    rcases List.mem_cons.1 hu with rfl | hu
    · exact random.unit_between
    · exact units_between count _ u hu

theorem sample_inside (h : bounds.Boxed) (random : Random) : bounds.Contains (sample bounds random).1 := by
  refine List.foldlRecOn (motive := fun x => bounds.Contains x) (bounds.free.zip _) _ h.contains_lower
    (fun x hx entry hentry => ?_)
  obtain ⟨hi, hu⟩ := List.of_mem_zip hentry
  exact hx.update (h.coordinate_mem hi (units_between _ random _ hu).isFinite.not_isNan)

/-- **A mutant outside the box is drawn again**, so a trial stays in it. -/
theorem cross_inside (h : bounds.Boxed) {recombination : R.Number} {forced : ℕ} {candidate : Point R n}
    {drawn : Point R n × Random} (hdrawn : bounds.Contains drawn.1) {entry : Fin n × ℕ} (hentry : entry.1 ∈ bounds.free) :
    bounds.Contains (cross bounds recombination forced candidate drawn entry).1 := by
  unfold cross
  split
  split
  · refine hdrawn.update (h.coordinate_mem hentry ?_)
    split
    · rename_i hunit
      exact (Number.not_isNan_of_le hunit.1).2
    · exact (Random.unit_between _).isFinite.not_isNan
  · exact hdrawn

theorem trial_inside (h : bounds.Boxed) {population : List (Member R n)} {target : ℕ} {member : Member R n}
    (hmember : population[target]? = some member) (hx : bounds.Contains member.x)
    (options : DifferentialEvolutionOptions R n) (random : Random) :
    bounds.Contains (trial population target bounds options random).1 := by
  unfold trial
  refine List.foldlRecOn (motive := fun (drawn : Point R n × Random) => bounds.Contains drawn.1) bounds.free.zipIdx _ ?_
    (fun drawn hdrawn entry hentry => cross_inside h hdrawn ?_)
  · rw [List.getD_eq_getElem?_getD, hmember]
    exact hx
  · exact List.fst_mem_of_mem_zipIdx hentry

/-! ## Its runs -/

variable {objective : Objective S E R.Number R.Number n} {problem : Problem R n} {options : DifferentialEvolutionOptions R n}
  {budget common : Common R.Number}

theorem generation_triple (h : bounds.Boxed) (hpositive : ∀ m ∈ budget.maxfev, 0 < m) {k : ℕ}
    {population : List (Member R n)} (hpopulation : ∀ m ∈ population, bounds.Contains m.x) (random : Random) :
    Triple (Found budget bounds.Contains k) (generation objective bounds options budget population random)
      (fun next search => search.Found budget bounds.Contains k ∧ ∀ m ∈ next.1, bounds.Contains m.x)
      (Ended budget bounds.Contains) := by
  refine (Triple.foldlM (fun (next : List (Member R n) × Random) search => search.Found budget bounds.Contains k ∧
    ∀ m ∈ next.1, bounds.Contains m.x) _ _ (fun next entry hentry => ?_)).weaken (fun _ h => ⟨h, nofun⟩) (fun _ _ h => h)
  refine Triple.of_fact (fun hnext => ?_)
  have htarget := List.mem_zipIdx_iff_getElem?.1 hentry
  have hmember := hpopulation entry.1 (List.mem_of_getElem? htarget)
  have hx := trial_inside h htarget hmember options next.2
  refine Triple.bind ((Search.value_triple hpositive hx).weaken (fun _ hs => hs.1) (fun _ _ hs => hs))
    (fun f => Triple.pure _ (fun search hs => ⟨hs, fun m hm => ?_⟩))
  rcases List.mem_append.1 hm with hm | hm
  · exact hnext m hm
  · rw [List.mem_singleton.1 hm]
    split
    · exact hx
    · exact hmember

theorem run_triple (hvalid : options.global.Valid problem bounds) (hfev : ∀ m ∈ budget.maxfev, 0 < m) {limit turns : ℕ}
    (hlimit : budget.maxiter = some limit) (hturns : limit ≤ turns) :
    Triple (Going budget bounds.Contains 0) (run objective problem bounds options budget turns)
      (fun r search => ∃ status, r = some status ∧ Ended budget bounds.Contains (.terminated status : Optimize.Halt E) search)
      (Ended budget bounds.Contains) := by
  have hboxed := hvalid.boxed
  have hsize : options.global.populationCount bounds ≠ 0 := by
    have := hvalid.size
    omega
  unfold run
  refine Triple.ite (fun _ => ?_) (fun _ => ?_)
  · exact Triple.bind (Search.value_triple hfev hvalid.x0) (fun _ => Triple.pure _ (fun _ h => ⟨_, rfl, h.ended _⟩))
  · refine Triple.bind (Search.populate_triple (fun m => bounds.Contains m.x) hfev hsize hvalid.x0
      (fun points hpoints => (hvalid.population points hpoints).2) (sample_inside hboxed) (fun _ _ hx => hx)) (fun first => ?_)
    refine Search.loop_triple (fun state => ∀ m ∈ state.1, bounds.Contains m.x) hlimit (fun k state hstate => ?_)
      hturns first
    refine Triple.ite (fun _ => Triple.pure _ (fun _ h => .inl h)) (fun _ => ?_)
    refine Triple.bind (generation_triple hboxed hfev hstate state.2) (fun next => Triple.of_fact (fun hnext => ?_))
    exact Triple.bind Search.endIteration_triple (fun _ => Triple.pure _ (fun _ h => ⟨h, hnext⟩))

theorem minimize_triple (hvalid : options.validate problem = .ok ()) (hbounds : problem.bounds = some bounds) {turns : ℕ}
    (hturns : common.maxiter.getD 1000 ≤ turns) (s : S) :
    Triple (· = Counters.new s) (minimize objective problem options common turns)
      (Search.Concluded (common.resolved 1000 1000000) bounds.Contains)
      (fun _ c => Counters.Accounted (common.resolved 1000 1000000) bounds.Contains c) :=
  Search.minimize_triple s hbounds fun hfev =>
    run_triple (GlobalOptions.validate_eq_ok (unit_bind.1 hvalid).1 hbounds) hfev rfl hturns

end

end

end DifferentialEvolution
end Optimize
end Itofin
