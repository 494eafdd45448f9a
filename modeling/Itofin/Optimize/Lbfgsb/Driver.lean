import Itofin.Optimize.FiniteDifference
import Itofin.Optimize.Lbfgsb.Rounded
/-!
# Driver — the bound-constrained iteration

`lbfgsb/driver.rs` and `lbfgsb/gradient.rs`, over the numbers of a floating format.  A difference is taken towards a neighbour
in the box, and a trial point is clamped to the box.  A slope that is finite has a direction that is finite (`dot_isFinite`) and
no step is longer than the first one may be (`following_between`), so that what is clamped is a number.
-/
namespace Itofin
namespace Optimize

open Effect
open Format (Number)
open Counters (Accounted)

section

variable {K : Type} [Field K] [LinearOrder K] (R : Format K)

structure LbfgsbOptions where
  ftol             : Option R.Number
  gtol             : Option R.Number
  maxcor           : Option ℕ
  eps              : Option R.Number
  finiteDifference : FiniteDifference

end

variable {S E K : Type} [Field K] [LinearOrder K] {R : Format K} {n : ℕ}

def LbfgsbOptions.validate (options : LbfgsbOptions R) : Except InvalidInput Unit := do
  checkTolerance "ftol" options.ftol
  checkTolerance "gtol" options.gtol
  check (options.maxcor ≠ some 0) (.notPositive "maxcor")
  check (¬ options.eps.any fun value => !value.isFinite || value ≤ 0) (.notFinitePositive "eps")

namespace Lbfgsb

/-! ## Differences -/

def finite {σ : Type} (value : R.Number) : Prog σ (Halt E) R.Number := do
  Prog.require (value.isFinite = true) (.terminated .nonfinite)
  return value

variable (R) in
structure Difference where
  scheme : FiniteDifference
  eps    : Option R.Number

section

variable (library : Library R) (objective : Objective S E R.Number R.Number n) (budget : Common R.Number) (bounds : Bounds R n)
  (difference : Difference R)

def probe (x : Point R n) (i : Fin n) (value : R.Number) : Counting S E R n R.Number :=
  Counters.value objective budget (Function.update x i value) >>= finite

def relative : FiniteDifference → R.Number
  | .forward => R.literal 1 (2 ^ 26)
  | .central => library.cbrt epsilon

/-- The neighbour above, in the box. -/
def plus (i : Fin n) (xi h : R.Number) : R.Number :=
  let plus := (xi + h).min (bounds.upper i)
  if plus.Equals xi ∧ xi < bounds.upper i then (library.nextUp xi).min (bounds.upper i) else plus

/-- The neighbour below. -/
def minus (i : Fin n) (xi h : R.Number) : R.Number :=
  let minus := (xi - h).max (bounds.lower i)
  if minus.Equals xi ∧ bounds.lower i < xi then (library.nextDown xi).max (bounds.lower i) else minus

/-- The difference quotient along a coordinate. -/
def quotient (x : Point R n) (fx : R.Number) (i : Fin n) : Counting S E R n R.Number := do
  if (bounds.lower i).Equals (bounds.upper i) then return 0
  else
    let h := difference.eps.getD (relative library difference.scheme * (x i).abs.max 1)
    let plus := plus library bounds i (x i) h
    let minus := minus library bounds i (x i) h
    if (plus.isFinite ∧ x i < plus) ∧ (minus.isFinite ∧ minus < x i) ∧ difference.scheme = .central then
      let fp ← probe objective budget x i plus
      let fm ← probe objective budget x i minus
      return (fp - fm) / (plus - minus)
    else if plus.isFinite ∧ x i < plus then
      let fp ← probe objective budget x i plus
      return (fp - fx) / (plus - x i)
    else if minus.isFinite ∧ minus < x i then
      let fm ← probe objective budget x i minus
      return (fx - fm) / (x i - minus)
    else return 0

def differences (x : Point R n) (fx : R.Number) : Counting S E R n (Point R n) := do
  let out ← (List.finRange n).foldlM (fun out i => do
    let q ← quotient library objective budget bounds difference x fx i
    return Function.update out i q) (fun _ => 0)
  Counters.chargeGradient
  return out

/-- The gradient of the objective or, where it has none, the differences. -/
def boundedGradient (x : Point R n) (fx : R.Number) :
    Counting S E R n (Point R n) := do
  let supplied ← Counters.gradient objective x
  let out ← supplied.elim (differences library objective budget bounds difference x fx) pure
  Prog.require (∀ i, (out i).isFinite = true) (.terminated .nonfinite)
  return out

/-! ## The line search -/

variable (R n) in
structure State where
  x : Point R n
  f : R.Number
  g : Point R n

def trial (state : State R n) (direction : Point R n) (alpha : R.Number) :
    Counting S E R n (State R n) := do
  let x : Point R n := fun i => (state.x i + alpha * direction i).clamp (bounds.lower i) (bounds.upper i)
  let f ← Counters.value objective budget x
  Prog.require (f.isFinite = true) (.terminated .nonfinite)
  let g ← boundedGradient library objective budget bounds difference x f
  return ⟨x, f, g⟩

/-- The step that reaches the face of a coordinate. -/
def distance (x direction : Point R n) (i : Fin n) : R.Number :=
  if 0 < direction i then (bounds.upper i - x i) / direction i
  else if direction i < 0 then (bounds.lower i - x i) / direction i
  else R.infinity

/-- The longest step and whether a face limits it. -/
def longest (x direction : Point R n) : R.Number × Bool :=
  (List.finRange n).foldl (fun (longest : R.Number × Bool) i =>
    let distance := distance bounds x direction i
    if distance.isFinite ∧ distance ≤ longest.1 then (distance, true) else longest) (R.ofNat (10 ^ 10), false)

/-- The step after one that was not accepted, between the ends that are known. -/
def following (amax alpha low : R.Number) : Option R.Number → R.Number
  | some upper => (low + upper) * R.literal 1 2
  | none       => (alpha * R.ofNat 2).min amax

/-- The steps that are tried. -/
def trials (state : State R n) (direction : Point R n) (slope0 amax : R.Number) (limitingFace : Bool) :
    ℕ → R.Number → R.Number → Option R.Number → Counting S E R n (Option (State R n))
  | 0, _, _, _                 => pure none
  | count + 1, alpha, low, high => do
    let next ← trial library objective budget bounds difference state direction alpha
    let decreases := next.f ≤ state.f + R.literal 1 10000 * alpha * slope0
    let slope := dot next.g direction
    if decreases ∧ (slope.abs ≤ R.literal 9 10 * slope0.abs ∨ limitingFace ∧ alpha.Equals amax ∧ next.f < state.f) then
      return some next
    else
      let bracket := if ¬ decreases ∨ 0 ≤ slope then (low, some alpha) else (alpha, high)
      let following := following amax alpha bracket.1 bracket.2
      if following.Equals alpha ∨ following.Equals 0 then return none
      else trials state direction slope0 amax limitingFace count following bracket.1 bracket.2

def search (state : State R n) (direction : Point R n) :
    Counting S E R n (Option (State R n)) := do
  let slope0 := dot state.g direction
  if ¬ slope0.isFinite ∨ 0 ≤ slope0 then return none
  else
    let (amax, limitingFace) := longest bounds state.x direction
    if ¬ amax.isFinite ∨ amax ≤ 0 then return none
    else
      trials library objective budget bounds difference state direction slope0 amax limitingFace 60 (Number.min 1 amax) 0 none

end

/-! ## The iteration -/

def projectedNorm (bounds : Bounds R n) (x g : Point R n) : R.Number :=
  (List.finRange n).foldl (fun largest i =>
    largest.max (if 0 < g i then (g i).min ((x i - bounds.lower i).max 0) else (-g i).min ((bounds.upper i - x i).max 0))) 0

/-- The bounds, which are open where none are given, and the starting point in them. -/
def projectedStart (problem : Problem R n) : Point R n × Bounds R n :=
  let bounds := problem.bounds.getD ⟨fun _ => -R.infinity, fun _ => R.infinity⟩
  (fun i => (problem.x0 i).clamp (bounds.lower i) (bounds.upper i), bounds)

variable (S E R n) in
/-- The counters and the state of a run. -/
structure Descent where
  counters : Counters S E R.Number R.Number n
  state    : State R n

/-- The Cauchy point and the step on its free coordinates. -/
def modelStep (bounds : Bounds R n) (state : State R n) (turns : ℕ) (c : Compact R n) :
    Option (Option (Cauchy R n × Point R n)) :=
  (generalizedCauchy bounds c state.x state.g turns).map fun cauchy =>
    cauchy.bind fun cauchy => (primalMinimize bounds c state.x state.g cauchy).map fun target => (cauchy, target)

/-- The step of the matrix or, where it has none, of a new one. -/
def modelStepOrNew (bounds : Bounds R n) (state : State R n) (turns maxcor : ℕ) (c : Compact R n) :
    Option (Option (Cauchy R n × Point R n)) × Compact R n :=
  match modelStep bounds state turns c with
  | some none =>
    if c.pairs.isEmpty then (some none, c) else (modelStep bounds state turns (Compact.new maxcor), Compact.new maxcor)
  | step      => (step, c)

namespace Descent

/-- A program on the counters. -/
def onCounters {α : Type} (x : Counting S E R n α) : Prog (Descent S E R n) (Halt E) α :=
  x.zoom counters (fun counters descent => { descent with counters })

end Descent

section

variable (library : Library R) (objective : Objective S E R.Number R.Number n) (budget : Common R.Number) (bounds : Bounds R n)
  (options : LbfgsbOptions R) (turns : ℕ)

/-- A turn of the loop of `run`; `.inl none` is that the turns of the search along the path did not do. -/
def iteration (c : Compact R n) : Prog (Descent S E R n) (Halt E) (Option Termination ⊕ Compact R n) := do
  let ftol := (options.ftol.or budget.tol).getD (R.literal 1 (10 ^ 9))
  let gtol := (options.gtol.or budget.tol).getD (R.literal 1 (10 ^ 5))
  let state := (← Prog.get).state
  if projectedNorm bounds state.x state.g ≤ gtol then return .inl (some (.converged .gTol))
  else
    match modelStepOrNew bounds state turns (options.maxcor.getD 10) c with
    | (none, _)                          => return .inl none
    | (some none, _)                     => return .inl (some .lineSearchFailed)
    | (some (some (cauchy, target)), c) => do
      let towards : Point R n := fun i => target i - state.x i
      let direction := if 0 ≤ dot state.g towards then fun i => cauchy.point i - state.x i else towards
      let difference : Difference R := ⟨options.finiteDifference, options.eps⟩
      match ← Descent.onCounters (search library objective budget bounds difference state direction) with
      | none      => return .inl (some .lineSearchFailed)
      | some next => do
        let c := (c.update (fun i => next.x i - state.x i) (fun i => next.g i - state.g i)).2
        Prog.modify (fun descent => { descent with state := next })
        Descent.onCounters (Counters.endIteration objective budget next.x next.f)
        if projectedNorm bounds next.x next.g ≤ gtol then return .inl (some (.converged .gTol))
        else if state.f - next.f ≤ ftol * (state.f.abs.max next.f.abs).max 1 then return .inl (some (.converged .fTol))
        else return .inr c

def run : Prog (Descent S E R n) (Halt E) (Option Termination) := do
  let x := (← Prog.get).state.x
  let f ← Descent.onCounters (Counters.value objective budget x)
  Prog.modify (fun descent => { descent with state.f := f })
  if ¬ f.isFinite then return some .nonfinite
  else
    let g ← Descent.onCounters (boundedGradient library objective budget bounds ⟨options.finiteDifference, options.eps⟩ x f)
    Prog.modify (fun descent => { descent with state.g := g })
    let c := Compact.new (options.maxcor.getD 10)
    let status ← Prog.loop (iteration library objective budget bounds options turns) turns c
    return status.join

end

def minimize (library : Library R) (objective : Objective S E R.Number R.Number n) (problem : Problem R n)
    (options : LbfgsbOptions R) (common : Common R.Number) (turns : ℕ) : Minimizing S E R n := fun c =>
  let (x, bounds) := projectedStart problem
  let result (descent : Descent S E R n) (status : Termination) : Minimize R.Number R.Number n :=
    ⟨descent.state.x, descent.state.f, descent.counters.nit, descent.counters.nfev, descent.counters.njev, status⟩
  match run library objective (common.resolved 15000 15000) bounds options turns ⟨c, ⟨x, R.nan, fun _ => 0⟩⟩ with
  | (.ok none, descent)                     => (.ok none, descent.counters)
  | (.ok (some status), descent)            => (.ok (some (result descent status)), descent.counters)
  | (.error (.terminated status), descent)  => (.ok (some (result descent status)), descent.counters)
  | (.error (.failed error), descent)       => (.error (.objective error), descent.counters)

/-! ## Its points -/

variable {library : Library R} {objective : Objective S E R.Number R.Number n} {budget : Common R.Number} {bounds : Bounds R n}
  {difference : Difference R} {x direction : Point R n} {i : Fin n} {k : ℕ}

/-- **Neighbours are in the box**, whatever the step. -/
theorem plus_le (h : ¬ (bounds.upper i).IsNan) (xi step : R.Number) : plus library bounds i xi step ≤ bounds.upper i := by
  unfold plus
  dsimp only
  split_ifs
  · exact Number.min_le_right h
  · exact Number.min_le_right h

theorem le_minus (h : ¬ (bounds.lower i).IsNan) (xi step : R.Number) : bounds.lower i ≤ minus library bounds i xi step := by
  unfold minus
  dsimp only
  split_ifs
  · exact Number.le_max_right h
  · exact Number.le_max_right h

/-- **A direction with a slope is finite.** -/
theorem dot_isFinite {a b : Point R n} (h : (dot a b).IsFinite) (i : Fin n) : (b i).IsFinite := by
  have hproduct := (Number.isFinite_foldl _ _ h).2 (a i * b i) (List.mem_map_of_mem (List.mem_finRange i))
  exact (Number.isFinite_mul hproduct).2

theorem trial_inside (h : bounds.FiniteEnds) (hle : ∀ i, bounds.lower i ≤ bounds.upper i) (hx : bounds.Contains x)
    (hdirection : ∀ i, (direction i).IsFinite) {alpha : R.Number} (halpha : alpha.IsFinite) :
    bounds.Contains fun i => (x i + alpha * direction i).clamp (bounds.lower i) (bounds.upper i) := fun i =>
  Number.clamp_mem (Number.add_isNan (h.isFinite hx i) (Number.mul_isNan_of_finite halpha (hdirection i))) (hle i)

/-! ## Its runs -/

/-- **The counters of a run after `k` iterations.** -/
structure Running (budget : Common R.Number) (bounds : Bounds R n) (k : ℕ) (c : Counters S E R.Number R.Number n) : Prop where
  accounted : Accounted budget bounds.Contains c
  nit       : c.nit = k
  room      : ∀ m ∈ budget.maxiter, k < m

/-- What is left when a run ends. -/
abbrev Over (budget : Common R.Number) (bounds : Bounds R n) : Halt E → Counters S E R.Number R.Number n → Prop :=
  fun _ c => Accounted budget bounds.Contains c

theorem value_triple (hx : bounds.Contains x) : Triple (Running budget bounds k) (Counters.value objective budget x)
    (fun _ => Running budget bounds k) (Over budget bounds) :=
  Counters.value_triple x (fun _ hc _ => hc.accounted)
    (fun _ f s hc hm => ⟨hc.accounted.value hx hm (.ok f) s, hc.nit, hc.room⟩)
    (fun _ e s hc hm => hc.accounted.value hx hm (.error e) s)

theorem require_triple (condition : Prop) [Decidable condition] (status : Termination) :
    Triple (Running budget bounds k) (Prog.require condition (.terminated status) : Counting S E R n Unit)
      (fun _ => Running budget bounds k) (Over budget bounds) :=
  (Triple.require (fun _ _ hc => hc.accounted)).weaken (fun _ hc => hc) (fun _ _ hc => hc.2)

theorem probe_triple {value : R.Number} (hx : bounds.Contains x) (hvalue : bounds.lower i ≤ value ∧ value ≤ bounds.upper i) :
    Triple (Running budget bounds k) (probe objective budget x i value) (fun _ => Running budget bounds k)
      (Over budget bounds) := by
  refine Triple.bind (value_triple (hx.update hvalue)) (fun f => ?_)
  exact Triple.bind (require_triple _ _) (fun _ => Triple.pure _ (fun _ hs => hs))

theorem quotient_triple (h : bounds.FiniteEnds) (hx : bounds.Contains x) (fx : R.Number) (i : Fin n) :
    Triple (Running budget bounds k) (quotient library objective budget bounds difference x fx i)
      (fun _ => Running budget bounds k) (Over budget bounds) := by
  have hplus : ∀ step, x i < plus library bounds i (x i) step → bounds.lower i ≤ plus library bounds i (x i) step ∧
      plus library bounds i (x i) step ≤ bounds.upper i := fun step hlt =>
    ⟨Number.le_trans (hx i).1 (Number.le_of_lt hlt), plus_le (h.upper i).not_isNan _ _⟩
  have hminus : ∀ step, minus library bounds i (x i) step < x i → bounds.lower i ≤ minus library bounds i (x i) step ∧
      minus library bounds i (x i) step ≤ bounds.upper i := fun step hlt =>
    ⟨le_minus (h.lower i).not_isNan _ _, Number.le_trans (Number.le_of_lt hlt) (hx i).2⟩
  unfold quotient
  refine Triple.ite (fun _ => Triple.pure _ (fun _ hs => hs)) (fun _ => ?_)
  refine Triple.ite (fun hboth => ?_) (fun _ => ?_)
  · refine Triple.bind (probe_triple hx (hplus _ hboth.1.2)) (fun fp => ?_)
    exact Triple.bind (probe_triple hx (hminus _ hboth.2.1.2)) (fun fm => Triple.pure _ (fun _ hs => hs))
  refine Triple.ite (fun hright => ?_) (fun _ => ?_)
  · exact Triple.bind (probe_triple hx (hplus _ hright.2)) (fun fp => Triple.pure _ (fun _ hs => hs))
  refine Triple.ite (fun hleft => ?_) (fun _ => ?_)
  · exact Triple.bind (probe_triple hx (hminus _ hleft.2)) (fun fm => Triple.pure _ (fun _ hs => hs))
  · exact Triple.pure _ (fun _ hs => hs)

/-- What the objective does with its state, and gradients, matter to nothing else. -/
theorem Running.charge {c : Counters S E R.Number R.Number n} (h : Running budget bounds k c) (njev : ℕ) (objective : S) :
    Running budget bounds k { c with njev, objective } where
  accounted := { h.accounted with }
  nit       := h.nit
  room      := h.room

theorem differences_triple (h : bounds.FiniteEnds) (hx : bounds.Contains x) (fx : R.Number) :
    Triple (Running budget bounds k) (differences library objective budget bounds difference x fx)
      (fun _ => Running budget bounds k) (Over budget bounds) := by
  refine Triple.bind (Triple.foldlM (fun _ => Running budget bounds k) _ _ (fun out i _ => ?_)) (fun out => ?_)
  · exact Triple.bind (quotient_triple h hx fx i) (fun q => Triple.pure _ (fun _ hs => hs))
  · exact Triple.bind (Triple.modify (fun c hc => hc.charge _ c.objective)) (fun _ => Triple.pure _ (fun _ hs => hs))

theorem boundedGradient_triple (h : bounds.FiniteEnds) (hx : bounds.Contains x) (fx : R.Number) :
    Triple (Running budget bounds k) (boundedGradient library objective budget bounds difference x fx)
      (fun _ => Running budget bounds k) (Over budget bounds) := by
  have hgradient : Triple (Running budget bounds k) (Counters.gradient objective x) (fun _ => Running budget bounds k)
      (fun _ => Running budget bounds k) := Counters.gradient_triple x (fun _ j s hc => hc.charge j s)
  refine Triple.bind (hgradient.onError (fun _ _ hc => hc.accounted)) (fun supplied => ?_)
  refine Triple.bind (Q := fun _ => Running budget bounds k) ?_ (fun out => ?_)
  · cases supplied with
    | some out => exact Triple.pure _ (fun _ hs => hs)
    | none     => exact differences_triple h hx fx
  · exact Triple.bind (require_triple _ _) (fun _ => Triple.pure _ (fun _ hs => hs))

theorem trial_triple (h : bounds.FiniteEnds) (hle : ∀ i, bounds.lower i ≤ bounds.upper i) {state : State R n}
    (hx : bounds.Contains state.x) (hdirection : ∀ i, (direction i).IsFinite) {alpha : R.Number} (halpha : alpha.IsFinite) :
    Triple (Running budget bounds k) (trial library objective budget bounds difference state direction alpha)
      (fun next c => Running budget bounds k c ∧ bounds.Contains next.x) (Over budget bounds) := by
  have hinside := trial_inside h hle hx hdirection halpha
  refine Triple.bind (value_triple hinside) (fun f => Triple.bind (require_triple _ _) (fun _ => ?_))
  exact Triple.bind (boundedGradient_triple h hinside f) (fun g => Triple.pure _ (fun _ hs => ⟨hs, hinside⟩))

section

variable [IsStrictOrderedRing K]

/-- A step that is not longer than the first one may be. -/
abbrev Step (alpha : R.Number) : Prop := Number.Between 0 ((10 ^ 10 : ℕ) : K) alpha

omit [IsStrictOrderedRing K] in
theorem longest_le (bounds : Bounds R n) (x direction : Point R n) : (longest bounds x direction).1 ≤ R.ofNat (10 ^ 10) := by
  unfold longest
  refine List.foldlRecOn (motive := fun (longest : R.Number × Bool) => longest.1 ≤ R.ofNat (10 ^ 10)) _ _ ?_
    (fun longest hlongest i _ => ?_)
  · exact Number.le_self (fun h => nomatch h.symm.trans (Number.ofNat_val (R := R) (n := 10 ^ 10) (by norm_num)))
  · dsimp only
    split
    · rename_i hdistance
      exact Number.le_trans hdistance.2 hlongest
    · exact hlongest

omit [IsStrictOrderedRing K] in
theorem step_of_le {amax : R.Number} (hpos : 0 < amax) (hle : amax ≤ R.ofNat (10 ^ 10)) : Step amax :=
  Number.between_of_le rfl (Number.ofNat_val (by norm_num)) ⟨Number.le_of_lt hpos, hle⟩

/-- **The steps stay as short.** -/
theorem following_between {amax alpha low : R.Number} {high : Option R.Number} (hamax : Step amax) (halpha : Step alpha)
    (hlow : Step low) (hhigh : ∀ upper ∈ high, Step upper) : Step (following amax alpha low high) := by
  cases high with
  | none       =>
    have htwo : Number.Between (0 : K) (2 : ℕ) (R.ofNat 2) :=
      ⟨(2 : ℕ), Number.ofNat_val (by norm_num), Nat.cast_nonneg _, le_rfl⟩
    exact Number.min_between (Number.mul_between_natCast halpha htwo (by norm_num)) hamax
  | some upper =>
    exact Number.half_between_natCast (Number.add_between hlow (hhigh upper rfl) (by norm_num)) (by norm_num)

theorem trials_triple (h : bounds.FiniteEnds) (hle : ∀ i, bounds.lower i ≤ bounds.upper i) {state : State R n}
    (hx : bounds.Contains state.x) (hdirection : ∀ i, (direction i).IsFinite) {amax : R.Number} (hamax : Step amax)
    (slope0 : R.Number) (limitingFace : Bool) : ∀ (count : ℕ) {alpha low : R.Number} {high : Option R.Number}, Step alpha →
    Step low → (∀ upper ∈ high, Step upper) →
    Triple (Running budget bounds k)
      (trials library objective budget bounds difference state direction slope0 amax limitingFace count alpha low high)
      (fun next c => Running budget bounds k c ∧ ∀ state ∈ next, bounds.Contains state.x) (Over budget bounds)
  | 0, _, _, _, _, _, _                             => Triple.pure _ (fun _ hs => ⟨hs, by simp⟩)
  | count + 1, alpha, low, high, halpha, hlow, hhigh => by
    unfold trials
    refine Triple.bind (trial_triple h hle hx hdirection halpha.isFinite) (fun next => Triple.of_fact (fun hnext => ?_))
    refine Triple.ite (fun _ => Triple.pure _ (fun _ hs => ⟨hs, by simpa using hnext⟩)) (fun _ => ?_)
    dsimp only
    have hbracket : ∀ (c : Prop) [Decidable c], Step (if c then (low, some alpha) else (alpha, high)).1 ∧
        ∀ upper ∈ (if c then (low, some alpha) else (alpha, high)).2, Step upper := by
      intro c _
      split_ifs
      · exact ⟨hlow, by simpa using halpha⟩
      · exact ⟨halpha, hhigh⟩
    obtain ⟨hlow', hhigh'⟩ := hbracket (¬ next.f ≤ state.f + R.literal 1 10000 * alpha * slope0 ∨ 0 ≤ dot next.g direction)
    refine Triple.ite (fun _ => Triple.pure _ (fun _ hs => ⟨hs, by simp⟩)) (fun _ => ?_)
    have hfollowing := following_between hamax halpha hlow' hhigh'
    exact trials_triple h hle hx hdirection hamax slope0 limitingFace count hfollowing hlow' hhigh'

theorem search_triple (h : bounds.FiniteEnds) (hle : ∀ i, bounds.lower i ≤ bounds.upper i) {state : State R n}
    (hx : bounds.Contains state.x) (direction : Point R n) :
    Triple (Running budget bounds k) (search library objective budget bounds difference state direction)
      (fun next c => Running budget bounds k c ∧ ∀ state ∈ next, bounds.Contains state.x) (Over budget bounds) := by
  unfold search
  refine Triple.ite (fun _ => Triple.pure _ (fun _ hs => ⟨hs, by simp⟩)) (fun hslope => ?_)
  obtain ⟨hfinite, -⟩ := not_or.1 hslope
  have hdirection := dot_isFinite (Number.isFinite_iff.1 (not_not.1 hfinite))
  have hlongest := longest_le bounds state.x direction
  dsimp only
  refine Triple.ite (fun _ => Triple.pure _ (fun _ hs => ⟨hs, by simp⟩)) (fun hamax => ?_)
  obtain ⟨hnan, hpos⟩ := not_or.1 hamax
  have hzero : (0 : R.Number).IsFinite := ⟨0, rfl⟩
  have hpos := Number.lt_of_not_le (Number.isFinite_iff.1 (not_not.1 hnan)).not_isNan hzero.not_isNan hpos
  have hamax := step_of_le hpos hlongest
  have hone : Number.Between (0 : K) ((1 : ℕ) : K) (1 : R.Number) := ⟨1, rfl, zero_le_one, Nat.cast_one.ge⟩
  have hlow : Step (0 : R.Number) := ⟨0, rfl, le_rfl, Nat.cast_nonneg _⟩
  exact trials_triple h hle hx hdirection hamax _ _ 60 (Number.min_between hone hamax) hlow (by simp)

omit [IsStrictOrderedRing K] in
theorem endIteration_triple (x : Point R n) (f : R.Number) : Triple (Running budget bounds k)
    (Counters.endIteration objective budget x f) (fun _ => Running budget bounds (k + 1)) (Over budget bounds) := by
  intro c hc
  obtain ⟨r, s, hrun, hroom⟩ := @Counters.endIteration_run _ _ _ _ _ objective budget x f c
  have haccounted : Accounted budget bounds.Contains ({ c with nit := c.nit + 1, objective := s } : Counters S E _ _ n) :=
    { hc.accounted with maxiter := fun m hm => hc.nit ▸ hc.room m hm }
  rw [hrun]
  rcases r with halt | _
  · exact haccounted
  · exact ⟨haccounted, congrArg (· + 1) hc.nit, hc.nit ▸ hroom rfl⟩

omit [IsStrictOrderedRing K] in
theorem modelStepOrNew_ne_none {turns : ℕ} (hturns : n < turns) (bounds : Bounds R n) (state : State R n) (maxcor : ℕ)
    (c : Compact R n) : (modelStepOrNew bounds state turns maxcor c).1 ≠ none := by
  have hstep : ∀ c, modelStep bounds state turns c ≠ none := fun c h =>
    generalizedCauchy_ne_none hturns (Option.map_eq_none_iff.1 h)
  unfold modelStepOrNew
  split
  · split
    · exact Option.some_ne_none none
    · exact hstep _
  · exact hstep _

/-- **What a run keeps.** -/
def Held (budget : Common R.Number) (bounds : Bounds R n) (k : ℕ) (descent : Descent S E R n) : Prop :=
  Running budget bounds k descent.counters ∧ bounds.Contains descent.state.x

/-- What is left when it ends. -/
abbrev Left (budget : Common R.Number) (bounds : Bounds R n) : Halt E → Descent S E R n → Prop :=
  fun _ descent => Accounted budget bounds.Contains descent.counters

omit [IsStrictOrderedRing K] in
theorem onCounters_triple {α : Type} {P : Counters S E R.Number R.Number n → Prop}
    {Q : α → Counters S E R.Number R.Number n → Prop} {program : Counting S E R n α}
    (h : Triple P program Q (Over budget bounds)) (frame : State R n → Prop) :
    Triple (fun descent => P descent.counters ∧ frame descent.state) (Descent.onCounters program)
      (fun a descent => Q a descent.counters ∧ frame descent.state) (Left budget bounds) := by
  refine ((Triple.zoom h (fun descent : Descent S E R n => frame descent.state)).weaken (fun _ hs => hs) ?_).onError ?_
  · rintro a _ ⟨descent, c, rfl, hc, hframe⟩
    exact ⟨hc, hframe⟩
  · rintro e _ ⟨descent, c, rfl, hc, -⟩
    exact hc

variable {options : LbfgsbOptions R}

theorem iteration_triple (h : bounds.FiniteEnds) (hle : ∀ i, bounds.lower i ≤ bounds.upper i) {turns : ℕ} (hturns : n < turns)
    (c : Compact R n) :
    Triple (Held budget bounds k) (iteration library objective budget bounds options turns c)
      (fun r descent => match r with
        | .inl status => (∃ s, status = some s) ∧ Accounted budget bounds.Contains descent.counters
        | .inr _      => Held budget bounds (k + 1) descent)
      (Left budget bounds) := by
  unfold iteration
  refine Triple.bind (Triple.get _) (fun descent => ?_)
  rintro _ ⟨rfl, hdescent⟩
  have hx := hdescent.2
  refine Triple.ite (fun _ => Triple.pure _ (fun _ hs => ⟨⟨_, rfl⟩, hs.1.accounted⟩)) (fun _ => ?_) descent hdescent
  have hsome := modelStepOrNew_ne_none hturns bounds descent.state (options.maxcor.getD 10) c
  rcases hstep : modelStepOrNew bounds descent.state turns (options.maxcor.getD 10) c with ⟨_ | _ | ⟨cauchy, target⟩, c'⟩
  · rw [hstep] at hsome
    exact absurd rfl hsome
  · exact Triple.pure _ (fun _ hs => ⟨⟨_, rfl⟩, hs.1.accounted⟩)
  · refine Triple.bind (onCounters_triple (search_triple h hle hx _) (fun state => bounds.Contains state.x)) (fun next => ?_)
    cases next with
    | none      => exact Triple.pure _ (fun _ hs => ⟨⟨_, rfl⟩, hs.1.1.accounted⟩)
    | some next =>
      refine Triple.bind (Triple.modify (Q := Held budget bounds k) (fun _ hs => ⟨hs.1.1, hs.1.2 next rfl⟩)) (fun _ => ?_)
      refine Triple.bind (onCounters_triple (endIteration_triple next.x next.f) (fun state => bounds.Contains state.x))
        (fun _ => ?_)
      refine Triple.ite (fun _ => Triple.pure _ (fun _ hs => ⟨⟨_, rfl⟩, hs.1.accounted⟩)) (fun _ => ?_)
      refine Triple.ite (fun _ => Triple.pure _ (fun _ hs => ⟨⟨_, rfl⟩, hs.1.accounted⟩)) (fun _ => ?_)
      exact Triple.pure _ (fun _ hs => hs)

/-- **A run ends**, within as many turns as there may be iterations and coordinates. -/
theorem run_triple (h : bounds.FiniteEnds) (hle : ∀ i, bounds.lower i ≤ bounds.upper i) {limit turns : ℕ}
    (hlimit : budget.maxiter = some limit) (hturns : limit ≤ turns) (hwalk : n < turns) :
    Triple (Held budget bounds 0) (run library objective budget bounds options turns)
      (fun r descent => (∃ status, r = some status) ∧ Accounted budget bounds.Contains descent.counters)
      (Left budget bounds) := by
  unfold run
  refine Triple.bind (Triple.get _) (fun descent => ?_)
  rintro _ ⟨rfl, hdescent⟩
  have hx := hdescent.2
  refine Triple.bind (onCounters_triple (value_triple hx) (fun state => bounds.Contains state.x)) (fun f => ?_)
    descent hdescent
  refine Triple.bind (Triple.modify (Q := Held budget bounds 0) (fun _ hs => hs)) (fun _ => ?_)
  refine Triple.ite (fun _ => Triple.pure _ (fun _ hs => ⟨⟨_, rfl⟩, hs.1.accounted⟩)) (fun _ => ?_)
  refine Triple.bind (onCounters_triple (boundedGradient_triple h hx f) (fun state => bounds.Contains state.x)) (fun g => ?_)
  refine Triple.bind (Triple.modify (Q := Held budget bounds 0) (fun _ hs => hs)) (fun _ => ?_)
  refine Triple.bind (Triple.loop limit (fun k _ => Held budget bounds k) (fun k _ descent hs => hs.1.room limit hlimit)
    (fun k c => (iteration_triple h hle hwalk c).weaken (fun _ hs => hs) (fun r _ hs => by cases r <;> exact hs))
    turns 0 _ (by omega)) (fun status => ?_)
  refine Triple.pure _ (fun descent hs => ?_)
  obtain ⟨_, rfl, ⟨status, rfl⟩, haccounted⟩ := hs
  exact ⟨⟨status, rfl⟩, haccounted⟩

/-- **What the method does** in a finite box. -/
theorem minimize_triple {problem : Problem R n} {common : Common R.Number} (hvalid : problem.validate = .ok ())
    (hcommon : common.validate = .ok ()) (hbounds : problem.bounds = some bounds) (h : bounds.FiniteEnds) {turns : ℕ}
    (hturns : common.maxiter.getD 15000 ≤ turns) (hwalk : n < turns) (s : S) :
    Triple (· = Counters.new s) (minimize library objective problem options common turns)
      (fun r c => Accounted (common.resolved 15000 15000) bounds.Contains c ∧ ∃ m, r = some m)
      (fun _ c => Accounted (common.resolved 15000 15000) bounds.Contains c) := by
  rintro c rfl
  have hle := Problem.validate_bounds hvalid hbounds
  have hstart : bounds.Contains (projectedStart problem).1 := by
    unfold projectedStart
    rw [hbounds]
    exact fun i => Number.clamp_mem (Problem.validate_x0 hvalid i).not_isNan (hle i)
  have hpositive := Common.validate_eq_ok hcommon 15000 15000 (by norm_num) (by norm_num)
  have hrun := @run_triple S E K _ _ R n library objective (common.resolved 15000 15000) bounds _ options h hle _ _ rfl hturns
    hwalk ⟨Counters.new s, ⟨(projectedStart problem).1, R.nan, fun _ => 0⟩⟩
    ⟨⟨Counters.accounted_new s, rfl, by rintro m ⟨⟩; exact hpositive.1⟩, hstart⟩
  have hbox : (projectedStart problem).2 = bounds := by
    unfold projectedStart
    rw [hbounds]
    rfl
  unfold minimize
  dsimp only
  rw [hbox]
  rcases hresult : run library objective (common.resolved 15000 15000) bounds options turns
    ⟨Counters.new s, ⟨(projectedStart problem).1, R.nan, fun _ => 0⟩⟩ with ⟨(status | error) | status, descent⟩ <;>
    rw [hresult] at hrun
  · exact ⟨hrun, _, rfl⟩
  · exact hrun
  · obtain ⟨⟨status, rfl⟩, haccounted⟩ := hrun
    exact ⟨haccounted, _, rfl⟩

end

end Lbfgsb
end Optimize
end Itofin
