import Itofin.Math.Constraint
import Mathlib.Algebra.BigOperators.Fin
import Mathlib.Algebra.Module.Pi
import Mathlib.Algebra.Order.Field.Basic
import Mathlib.Algebra.Order.Ring.Rat
import Mathlib.Data.List.FinRange
import Mathlib.Tactic.Abel
import Mathlib.Tactic.Linarith
import Mathlib.Tactic.NormNum
import Mathlib.Tactic.Positivity
import Mathlib.Tactic.Ring
/-!
# Simplex — the downhill simplex method under a constraint

`math/optimization/simplex.rs`, in exact arithmetic, with costs of any linear order.  The worst vertex is moved through the
opposite face by a factor that is halved until the point is feasible.  A run remembers the points at which it has evaluated the
cost, and the simplex as it was whenever the sum of its vertices was brought up to date.

No move loses the best vertex (`Sound`), so what a run leaves in the problem is the best of what it has evaluated.
-/
namespace Itofin
namespace Simplex

/-! ## Constraints and end criteria -/

section

variable {K : Type} [Field K] [LinearOrder K] {n : ℕ}

/-- `Real::EPSILON` -/
def epsilon : K := 1 / (2 ^ 52 : ℕ)

def half : K := 1 / (2 : ℕ)

/-- `while !self.test(&new_params) { require!(icount <= 200, ..); diff *= 0.5; .. }`, with so many halvings left. -/
def updateLoop (test : (Fin n → K) → Bool) (params direction : Fin n → K) : ℕ → K → Except String ((Fin n → K) × K)
  | 0, diff            =>
    if test (params + diff • direction) then .ok (params + diff • direction, diff)
    else .error "can't update parameter vector"
  | halvings + 1, diff =>
    if test (params + diff • direction) then .ok (params + diff • direction, diff)
    else updateLoop test params direction halvings (diff * half)

/-- `Constraint::update` -/
def update (test : (Fin n → K) → Bool) (params direction : Fin n → K) (beta : K) : Except String ((Fin n → K) × K) :=
  updateLoop test params direction 201 beta

structure EndCriteria (K : Type) where
  maxIterations                : ℕ
  maxStationaryStateIterations : ℕ
  rootEpsilon                  : K

namespace EndCriteria

def checkMaxIterations (criteria : EndCriteria K) (iteration : ℕ) (t : EndCriteriaType) : Bool × EndCriteriaType :=
  if iteration < criteria.maxIterations then (false, t) else (true, .maxIterations)

/-- What it returns is not read. -/
def checkStationaryPoint (criteria : EndCriteria K) (xOld xNew : K) (statStateIterations : ℕ) (t : EndCriteriaType) :
    EndCriteriaType :=
  if criteria.rootEpsilon ≤ |xNew - xOld| then t
  else if statStateIterations + 1 ≤ criteria.maxStationaryStateIterations then t
  else .stationaryPoint

end EndCriteria

/-- `compute_simplex_size` -/
def computeSimplexSize (sqrt : K → K) {m : ℕ} (vertices : Fin m → Fin n → K) : K :=
  let center := (1 / (m : K)) • ∑ i, vertices i
  (∑ i, sqrt (∑ j, (vertices i j - center j) * (vertices i j - center j))) / m

end

/-! ## The update -/

section

variable {K : Type} [Field K] {n : ℕ}

/-- A test of vectors, as a constraint on arrays. -/
def constraint (test : (Fin n → K) → Bool) : Constraint K := ⟨fun x => some (test (fun i => x.getD i 0))⟩

theorem moved_ofFn (params direction : Fin n → K) (diff : K) :
    Constraint.moved (List.ofFn params) (List.ofFn direction) diff = List.ofFn (params + diff • direction) := by
  unfold Constraint.moved
  apply List.ext_getElem
  · simp
  · intro i h₁ h₂
    simp [mul_comm]

theorem test_ofFn (test : (Fin n → K) → Bool) (x : Fin n → K) : (constraint test).test (List.ofFn x) = some (test x) := by
  unfold constraint
  dsimp only
  have hx : (fun i : Fin n => (List.ofFn x).getD i 0) = x := by
    funext i
    simp
  rw [hx]

theorem updateLoop_halved {test : (Fin n → K) → Bool} {params direction : Fin n → K} {diff : K} {halvings : ℕ} :
    ∀ {k : ℕ}, (∀ j, j < k → test (params + Constraint.halved half diff j • direction) = false) →
      updateLoop test params direction (k + halvings) diff =
        updateLoop test params direction halvings (Constraint.halved half diff k)
  | 0, _     => by rw [Nat.zero_add]; rfl
  | k + 1, h => by
    rw [Nat.add_right_comm, Nat.add_assoc, updateLoop_halved (fun j hj => h j (Nat.lt_succ_of_lt hj)), updateLoop,
      if_neg (by rw [h k (Nat.lt_succ_self k)]; exact Bool.false_ne_true)]
    rfl

/-- **The update of the method is that of the constraint**, on vectors. -/
theorem update_ofFn (test : (Fin n → K) → Bool) (params direction : Fin n → K) (beta : K) (tested : List (List K))
    {turns : ℕ} (hturns : 202 ≤ turns) :
    ∃ tested', (constraint test).update half (List.ofFn direction) beta turns ⟨List.ofFn params, tested⟩ =
      match update test params direction beta with
      | .ok (x, diff)   => (.ok (some diff), ⟨List.ofFn x, tested'⟩)
      | .error message => (.error (.error message), ⟨List.ofFn params, tested'⟩) := by
  have hpoint : ∀ k, Constraint.point half (List.ofFn direction) (List.ofFn params) beta k =
      List.ofFn (params + Constraint.halved half beta k • direction) := fun k => moved_ofFn _ _ _
  have hsize : (List.ofFn params).length = (List.ofFn direction).length := by rw [List.length_ofFn, List.length_ofFn]
  obtain ⟨k, hreached, hcases⟩ := Constraint.update_run (constraint test) tested hsize rfl hturns
  rw [hpoint, test_ofFn] at hcases
  have hinfeasible : ∀ j, j < k → test (params + Constraint.halved half beta j • direction) = false := by
    intro j hj
    have := hreached.infeasible j hj
    rw [hpoint, test_ofFn] at this
    exact Option.some.inj this
  have hupdate : update test params direction beta =
      updateLoop test params direction (201 - k) (Constraint.halved half beta k) := by
    rw [← updateLoop_halved hinfeasible, Nat.add_sub_of_le hreached.le, update]
  rw [hupdate]
  rcases hcases with ⟨htest, hrun⟩ | ⟨htest, -⟩ | ⟨htest, rfl, hrun⟩
  · have hfound : updateLoop test params direction (201 - k) (Constraint.halved half beta k) =
        .ok (params + Constraint.halved half beta k • direction, Constraint.halved half beta k) := by
      rcases 201 - k with _ | halvings <;> exact if_pos (Option.some.inj htest)
    rw [hfound]
    exact ⟨_, hrun⟩
  · cases htest
  · have hfailed : updateLoop test params direction (201 - 201) (Constraint.halved half beta 201) =
        .error "can't update parameter vector" := if_neg (by rw [Option.some.inj htest]; exact Bool.false_ne_true)
    rw [hfailed]
    exact ⟨_, hrun⟩

end

/-! ## The method -/

/-- A cost function over a constrained region. -/
structure Cost (K V : Type) (n : ℕ) where
  value : (Fin n → K) → V
  test  : (Fin n → K) → Bool

/-- The candidate minimum of a problem, and the points at which the cost was evaluated, in their order. -/
structure Candidate (K V : Type) (n : ℕ) where
  currentValue  : Fin n → K
  functionValue : Option V
  evaluated     : List (Fin n → K)

structure Vertices (K V : Type) (n : ℕ) where
  vertices : Fin (n + 1) → Fin n → K
  values   : Fin (n + 1) → V
  sum      : Fin n → K

/-- A run: the simplex, what it was before, and the problem. -/
structure Run (K V : Type) (n : ℕ) where
  simplex : Vertices K V n
  problem : Candidate K V n
  visited : List (Vertices K V n)

/-- An extrapolation: the value it ends with, its factor, and the run. -/
structure Trial (K V : Type) (n : ℕ) where
  value  : V
  factor : K
  run    : Run K V n

/-- The best, the worst and the second-worst vertex. -/
structure Ranks (n : ℕ) where
  lowest      : Fin (n + 1)
  highest     : Fin (n + 1)
  nextHighest : Fin (n + 1)

section

variable {K V : Type} [Field K] [LinearOrder K] [LinearOrder V] {n : ℕ}

/-- The worst two vertices after a look at another one. -/
def Ranks.higher (values : Fin (n + 1) → V) (r : Ranks n) (i : Fin (n + 1)) : Ranks n :=
  if values r.highest < values i then { r with nextHighest := r.highest, highest := i }
  else if values r.nextHighest < values i ∧ i ≠ r.highest then { r with nextHighest := i }
  else r

def Ranks.turn (values : Fin (n + 1) → V) (r : Ranks n) (i : Fin (n + 1)) : Ranks n :=
  let r := r.higher values i
  if values i < values r.lowest then { r with lowest := i } else r

def ranks (values : Fin (n + 1) → V) : Ranks n :=
  let start : Ranks n := if values 0 < values 1 then ⟨0, 1, 0⟩ else ⟨0, 0, 1⟩
  ((List.finRange n).map Fin.succ).foldl (Ranks.turn values) start

/-- The point tried for a factor. -/
def pointTry (s : Vertices K V n) (highest : Fin (n + 1)) (factor : K) : Fin n → K :=
  let factor1 := (1 - factor) / (n : K)
  let factor2 := factor1 - factor
  factor1 • s.sum - factor2 • s.vertices highest

/-- The loop of `extrapolate`, which halves the factor: the point, and half the factor that it was tried for.  `none` is that
the turns did not do. -/
def extrapolateLoop (test : (Fin n → K) → Bool) (s : Vertices K V n) (highest : Fin (n + 1)) :
    ℕ → K → Option ((Fin n → K) × K)
  | 0, _              => none
  | turns + 1, factor =>
    let pTry := pointTry s highest factor
    let factor := factor * half
    if test pTry ∨ |factor| ≤ epsilon then some (pTry, factor) else extrapolateLoop test s highest turns factor

namespace Run

/-- The simplex after its sum was brought up to date. -/
def visit (r : Run K V n) : Run K V n := { r with visited := r.visited ++ [r.simplex] }

/-- `Problem::value`, which keeps the point. -/
def evaluate (r : Run K V n) (x : Fin n → K) : Run K V n :=
  { r with problem := { r.problem with evaluated := r.problem.evaluated ++ [x] } }

/-- The value and the factor that an extrapolation ends with. -/
def extrapolate (f : Cost K V n) (r : Run K V n) (highest : Fin (n + 1)) (factor : K) : Option (Trial K V n) :=
  (extrapolateLoop f.test r.simplex highest 64 factor).map fun t =>
    if |t.2| ≤ epsilon then ⟨r.simplex.values highest, t.2, r⟩
    else
      let vTry := f.value t.1
      let r := r.evaluate t.1
      if vTry < r.simplex.values highest then
        let s := r.simplex
        ⟨vTry, t.2 * (2 : ℕ), ({ r with simplex := {
          values   := Function.update s.values highest vTry
          sum      := s.sum + t.1 - s.vertices highest
          vertices := Function.update s.vertices highest t.1 } } : Run K V n).visit⟩
      else ⟨vTry, t.2 * (2 : ℕ), r⟩

/-- `self.sum`, from all the vertices. -/
def head (r : Run K V n) : Run K V n :=
  ({ r with simplex := { r.simplex with sum := ∑ i, r.simplex.vertices i } } : Run K V n).visit

/-- A vertex on the way to the best one. -/
def contract (f : Cost K V n) (lowest : Fin (n + 1)) (r : Run K V n) (i : Fin (n + 1)) : Run K V n :=
  if i = lowest then r else
    let vertex := (half : K) • (r.simplex.vertices i + r.simplex.vertices lowest)
    let r : Run K V n := { r with simplex := { r.simplex with vertices := Function.update r.simplex.vertices i vertex } }
    let r := r.evaluate vertex
    { r with simplex := { r.simplex with values := Function.update r.simplex.values i (f.value vertex) } }

/-- What an iteration does when it does not end the search: its last factor, and the run. -/
def move (f : Cost K V n) (r : Run K V n) (ranks : Ranks n) : Option (K × Run K V n) :=
  (r.extrapolate f ranks.highest (-1)).bind fun t =>
    if t.value ≤ t.run.simplex.values ranks.lowest ∧ t.factor = -1 then
      (t.run.extrapolate f ranks.highest (2 : ℕ)).map fun t => (t.factor, t.run)
    else if epsilon < |t.factor| ∧ t.run.simplex.values ranks.nextHighest ≤ t.value then
      let vSave := t.run.simplex.values ranks.highest
      (t.run.extrapolate f ranks.highest half).map fun t =>
        if vSave ≤ t.value ∧ epsilon < |t.factor| then
          (t.factor, (List.finRange (n + 1)).foldl (contract f ranks.lowest) t.run)
        else (t.factor, t.run)
    else some (t.factor, t.run)

/-- The best vertex as the candidate. -/
def finish (r : Run K V n) (lowest : Fin (n + 1)) : Run K V n :=
  { r with problem := { r.problem with
      functionValue := some (r.simplex.values lowest)
      currentValue  := r.simplex.vertices lowest } }

/-- The loop of `minimize`. -/
def loop (sqrt : K → K) (f : Cost K V n) (criteria : EndCriteria K) (iteration : ℕ) (r : Run K V n) :
    Option (EndCriteriaType × Run K V n) :=
  let r := r.head
  let ranks := ranks r.simplex.values
  let size := computeSimplexSize sqrt r.simplex.vertices
  let iteration' := iteration + 1
  if _ : ¬ size < criteria.rootEpsilon ∧ iteration' < criteria.maxIterations then
    (r.move f ranks).bind fun t =>
      if |t.1| ≤ epsilon then some (.stationaryFunctionValue, t.2.finish ranks.lowest)
      else loop sqrt f criteria iteration' t.2
  else
    -- the number of iterations is looked at only if the size is not small enough, and once more afterwards
    let t := if size < criteria.rootEpsilon then .none else (criteria.checkMaxIterations iteration' .none).2
    let t := criteria.checkStationaryPoint 0 0 criteria.maxStationaryStateIterations t
    some ((criteria.checkMaxIterations iteration' t).2, r.finish ranks.lowest)
termination_by criteria.maxIterations - iteration
decreasing_by omega

/-- The vertices a step of `lambda` from the start along each axis. -/
def initialVertices (test : (Fin n → K) → Bool) (lambda : K) (x : Fin n → K) :
    Except String (Fin (n + 1) → Fin n → K) :=
  (List.finRange n).foldlM (fun vertices i => do
    let (vertex, _) ← update test (vertices i.succ) (Pi.single i 1) lambda
    return Function.update vertices i.succ vertex) (fun _ => x)

/-- The run before the loop, all vertices evaluated. -/
def start (f : Cost K V n) (x : Fin n → K) (vertices : Fin (n + 1) → Fin n → K) : Run K V n where
  simplex := ⟨vertices, fun i => f.value (vertices i), 0⟩
  problem := ⟨x, none, (List.finRange (n + 1)).map vertices⟩
  visited := []

/-- What a run ends with when it does not fail. -/
structure Outcome (K V : Type) (n : ℕ) where
  criterion : EndCriteriaType
  problem   : Candidate K V n
  visited   : List (Vertices K V n)

/-- `minimize`, from the current value of a problem.  `none` is that the turns of a loop did not do. -/
def minimize (sqrt : K → K) (lambda : K) (f : Cost K V n) (criteria : EndCriteria K) (x : Fin n → K) :
    Option (Except String (Outcome K V n)) :=
  if f.test x then
    if 0 < n then
      match initialVertices f.test lambda x with
      | .error e     => some (.error e)
      | .ok vertices =>
        (loop sqrt f criteria 0 (start f x vertices)).map fun t => .ok ⟨t.1, t.2.problem, t.2.visited⟩
    else some (.error "no variables given")
  else some (.error "initial guess is not in the feasible region")

end Run
end

/-! ## Ranks -/

section

variable {V : Type} [LinearOrder V] {n : ℕ} {values : Fin (n + 1) → V} {r : Ranks n}

@[simp] theorem higher_lowest (r : Ranks n) (i : Fin (n + 1)) : (r.higher values i).lowest = r.lowest := by
  rw [Ranks.higher]
  split
  · rfl
  · split <;> rfl

theorem higher_nextHighest_ne (h : r.nextHighest ≠ r.highest) (i : Fin (n + 1)) :
    (r.higher values i).nextHighest ≠ (r.higher values i).highest := by
  rw [Ranks.higher]
  split
  · rename_i hlt
    exact fun heq => absurd (congrArg values heq) hlt.ne
  · split
    · rename_i hnext
      exact hnext.2
    · exact h

theorem turn_lowest_le (values : Fin (n + 1) → V) (r : Ranks n) (i : Fin (n + 1)) :
    values (r.turn values i).lowest ≤ values r.lowest ∧ values (r.turn values i).lowest ≤ values i := by
  rw [Ranks.turn, higher_lowest]
  split
  · rename_i hlt
    exact ⟨hlt.le, le_rfl⟩
  · rename_i hge
    rw [higher_lowest]
    exact ⟨le_rfl, not_lt.1 hge⟩

theorem turn_nextHighest_ne (h : r.nextHighest ≠ r.highest) (i : Fin (n + 1)) :
    (r.turn values i).nextHighest ≠ (r.turn values i).highest := by
  rw [Ranks.turn]
  split <;> exact higher_nextHighest_ne h i

/-- The fold over some vertices looks at them, and forgets none that it has seen. -/
theorem foldl_turn (values : Fin (n + 1) → V) (l : List (Fin (n + 1))) : ∀ (r : Ranks n), r.nextHighest ≠ r.highest →
    values (l.foldl (Ranks.turn values) r).lowest ≤ values r.lowest ∧
      (∀ i ∈ l, values (l.foldl (Ranks.turn values) r).lowest ≤ values i) ∧
      (l.foldl (Ranks.turn values) r).nextHighest ≠ (l.foldl (Ranks.turn values) r).highest := by
  induction l with
  | nil         => exact fun r h => ⟨le_rfl, nofun, h⟩
  | cons i l ih =>
    intro r h
    obtain ⟨hold, hnew⟩ := turn_lowest_le values r i
    obtain ⟨hle, hall, hne⟩ := ih (r.turn values i) (turn_nextHighest_ne h i)
    rw [List.foldl_cons]
    refine ⟨hle.trans hold, fun j hj => ?_, hne⟩
    rcases List.mem_cons.1 hj with rfl | hj
    · exact hle.trans hnew
    · exact hall j hj

/-- **The lowest vertex is one**, and the second-worst one is not the worst one. -/
theorem ranks_spec (hn : 0 < n) (values : Fin (n + 1) → V) :
    (∀ i, values (ranks values).lowest ≤ values i) ∧ (ranks values).nextHighest ≠ (ranks values).highest := by
  have hne : (1 : Fin (n + 1)) ≠ 0 := by
    obtain ⟨k, rfl⟩ := Nat.exists_eq_succ_of_ne_zero hn.ne'
    exact one_ne_zero
  have hstart : ∀ start : Ranks n, start.lowest = 0 → start.nextHighest ≠ start.highest →
      (∀ i, values (((List.finRange n).map Fin.succ).foldl (Ranks.turn values) start).lowest ≤ values i) ∧
        (((List.finRange n).map Fin.succ).foldl (Ranks.turn values) start).nextHighest ≠
          (((List.finRange n).map Fin.succ).foldl (Ranks.turn values) start).highest := by
    intro start hlow hnext
    obtain ⟨hle, hall, hnext⟩ := foldl_turn values ((List.finRange n).map Fin.succ) start hnext
    refine ⟨fun i => ?_, hnext⟩
    cases i using Fin.cases with
    | zero   => exact hlow ▸ hle
    | succ i => exact hall _ (List.mem_map_of_mem (List.mem_finRange i))
  rw [ranks]
  split
  · exact hstart _ rfl hne.symm
  · exact hstart _ rfl hne

end

/-! ## Extrapolations -/

section

variable {K V : Type} [Field K] [LinearOrder K] [IsStrictOrderedRing K] {n : ℕ}

theorem zero_lt_half : (0 : K) < half := by
  rw [half]
  positivity

theorem epsilon_lt_half : (epsilon : K) < half := by
  rw [epsilon, half]
  exact one_div_lt_one_div_of_lt (by norm_num) (by norm_num)

theorem abs_mul_half (x : K) : |x * half| = |x| * half := by
  have hhalf : |(half : K)| = half := abs_of_pos zero_lt_half
  rw [abs_mul, hhalf]

/-- **The halvings do**: what the loop ends with is feasible, or its factor is as good as none. -/
theorem extrapolateLoop_spec (test : (Fin n → K) → Bool) (s : Vertices K V n) (highest : Fin (n + 1)) :
    ∀ (turns : ℕ) (factor : K), 0 < turns → |factor| ≤ epsilon * (2 : ℕ) ^ turns →
      ∃ t, extrapolateLoop test s highest turns factor = some t ∧ (test t.1 = true ∨ |t.2| ≤ epsilon)
  | turns + 1, factor, _, h => by
    rw [extrapolateLoop]
    split
    · rename_i hexit
      exact ⟨_, rfl, hexit⟩
    · rename_i hgo
      have hle : |factor * half| ≤ epsilon * (2 : ℕ) ^ turns := by
        rw [abs_mul_half, half, mul_one_div, div_le_iff₀ (by norm_num), mul_assoc, ← pow_succ]
        exact h
      refine extrapolateLoop_spec test s highest turns _ (Nat.pos_of_ne_zero (fun hzero => hgo (.inr ?_))) hle
      rwa [hzero, pow_zero, mul_one] at hle

theorem factor_le {factor : K} (h : |factor| ≤ (2 : ℕ)) : |factor| ≤ epsilon * (2 : ℕ) ^ 64 := by
  apply h.trans
  rw [epsilon]
  norm_num

omit [LinearOrder K] [IsStrictOrderedRing K] in
theorem pointTry_one (s : Vertices K V n) (highest : Fin (n + 1)) : pointTry s highest 1 = s.vertices highest := by
  rw [pointTry]
  simp

/-- **An extrapolation by two ends at a factor of one at the latest**, where the point is the vertex itself. -/
theorem extrapolateLoop_two {test : (Fin n → K) → Bool} (s : Vertices K V n) (highest : Fin (n + 1)) (turns : ℕ)
    (h : test (s.vertices highest) = true) :
    ∃ t, extrapolateLoop test s highest (turns + 2) (2 : ℕ) = some t ∧ test t.1 = true ∧ (epsilon : K) < |t.2| := by
  have htwo : ((2 : ℕ) : K) * half = 1 := by
    rw [half]
    norm_num
  have hone : (epsilon : K) < |(1 : K)| := by
    rw [abs_one]
    apply epsilon_lt_half.trans_le
    rw [half]
    norm_num
  rw [extrapolateLoop, htwo]
  split
  · rename_i hexit
    exact ⟨_, rfl, hexit.resolve_right (not_le.2 hone), hone⟩
  · rw [extrapolateLoop, pointTry_one, if_pos (.inl h), one_mul]
    exact ⟨_, rfl, h, by rw [abs_of_pos zero_lt_half]; exact epsilon_lt_half⟩

end

/-! ## What a run keeps -/

section

variable {K V : Type} [Field K] [LinearOrder K] [LinearOrder V] {n : ℕ}

/-- The sum is that of the vertices, and each value is the cost of its vertex. -/
structure Balanced (f : Cost K V n) (s : Vertices K V n) : Prop where
  sum    : s.sum = ∑ i, s.vertices i
  values : ∀ i, s.values i = f.value (s.vertices i)

/-- **What every move keeps**: only feasible points are evaluated, and no cost is below that of every vertex. -/
structure Sound (f : Cost K V n) (r : Run K V n) : Prop where
  feasible  : ∀ i, f.test (r.simplex.vertices i) = true
  values    : ∀ i, r.simplex.values i = f.value (r.simplex.vertices i)
  evaluated : ∀ x ∈ r.problem.evaluated, f.test x = true
  covered   : ∀ x ∈ r.problem.evaluated, ∃ i, r.simplex.values i ≤ f.value x
  visited   : ∀ s ∈ r.visited, Balanced f s

/-- The feasible set holds the midpoints of its points. -/
def Midpoints (f : Cost K V n) : Prop := ∀ x y, f.test x = true → f.test y = true → f.test ((half : K) • (x + y)) = true

/-- A vertex that no other is better than. -/
def Lowest (r : Run K V n) (low : Fin (n + 1)) : Prop := ∀ i, r.simplex.values low ≤ r.simplex.values i

variable {f : Cost K V n} {r : Run K V n}

omit [LinearOrder K] in
theorem Sound.visit (h : Sound f r) (hsum : r.simplex.sum = ∑ i, r.simplex.vertices i) : Sound f r.visit where
  feasible  := h.feasible
  values    := h.values
  evaluated := h.evaluated
  covered   := h.covered
  visited s hs := by
    rcases List.mem_append.1 hs with hs | hs
    · exact h.visited s hs
    · rw [List.mem_singleton.1 hs]
      exact ⟨hsum, h.values⟩

omit [LinearOrder K] in
theorem Sound.head (h : Sound f r) : Sound f r.head := by
  have hset : Sound f { r with simplex := { r.simplex with sum := ∑ i, r.simplex.vertices i } } :=
    ⟨h.feasible, h.values, h.evaluated, h.covered, h.visited⟩
  exact hset.visit rfl

omit [LinearOrder K] in
theorem Sound.evaluate (h : Sound f r) {x : Fin n → K} (hx : f.test x = true) {i : Fin (n + 1)}
    (hi : r.simplex.values i ≤ f.value x) : Sound f (r.evaluate x) where
  feasible  := h.feasible
  values    := h.values
  evaluated y hy := by
    rcases List.mem_append.1 hy with hy | hy
    · exact h.evaluated y hy
    · rwa [List.mem_singleton.1 hy]
  covered y hy := by
    rcases List.mem_append.1 hy with hy | hy
    · exact h.covered y hy
    · exact ⟨i, by rwa [List.mem_singleton.1 hy]⟩
  visited   := h.visited

omit [LinearOrder K] in
theorem sum_update (vertices : Fin (n + 1) → Fin n → K) (i : Fin (n + 1)) (x : Fin n → K) :
    ∑ j, Function.update vertices i x j = ∑ j, vertices j + x - vertices i := by
  rw [Finset.sum_update_of_mem (Finset.mem_univ i), ← Finset.add_sum_erase _ vertices (Finset.mem_univ i),
    ← Finset.sdiff_singleton_eq_erase]
  abel

omit [LinearOrder K] in
theorem Sound.replace (h : Sound f r) {x : Fin n → K} (hx : f.test x = true) {highest : Fin (n + 1)}
    (hlt : f.value x < r.simplex.values highest) (hsum : r.simplex.sum = ∑ i, r.simplex.vertices i) :
    Sound f ({ r.evaluate x with simplex := {
      values   := Function.update r.simplex.values highest (f.value x)
      sum      := r.simplex.sum + x - r.simplex.vertices highest
      vertices := Function.update r.simplex.vertices highest x } } : Run K V n).visit := by
  refine Sound.visit ⟨fun i => ?_, fun i => ?_, fun y hy => ?_, fun y hy => ?_, h.visited⟩ ?_
  · rcases eq_or_ne i highest with rfl | hne
    · simpa using hx
    · simpa [hne] using h.feasible i
  · rcases eq_or_ne i highest with rfl | hne
    · simp
    · simpa [hne] using h.values i
  · rcases List.mem_append.1 hy with hy | hy
    · exact h.evaluated y hy
    · rwa [List.mem_singleton.1 hy]
  · rcases List.mem_append.1 hy with hy | hy
    · obtain ⟨i, hi⟩ := h.covered y hy
      rcases eq_or_ne i highest with rfl | hne
      · exact ⟨i, by simpa using hlt.le.trans hi⟩
      · exact ⟨i, by simpa [hne] using hi⟩
    · exact ⟨highest, by simp [List.mem_singleton.1 hy]⟩
  · change r.simplex.sum + x - r.simplex.vertices highest = ∑ i, Function.update r.simplex.vertices highest x i
    rw [sum_update, hsum]

/-- What an extrapolation can do: nothing, or an evaluation of a point, which takes the place of the vertex if it is
better. -/
structure Extrapolated (f : Cost K V n) (r : Run K V n) (highest : Fin (n + 1)) (t : Trial K V n) : Prop where
  sound  : Sound f t.run
  sum    : t.run.simplex.sum = ∑ i, t.run.simplex.vertices i
  failed : |t.factor| ≤ epsilon → t.run = r
  values : t.run.simplex.values = r.simplex.values ∧ r.simplex.values highest ≤ t.value ∨
    t.value < r.simplex.values highest ∧ t.run.simplex.values = Function.update r.simplex.values highest t.value

variable [IsStrictOrderedRing K] {highest low : Fin (n + 1)}

/-- **An extrapolation from the result of its loop.** -/
theorem extrapolate_of_loop (h : Sound f r) (hsum : r.simplex.sum = ∑ i, r.simplex.vertices i) {factor : K}
    {t : (Fin n → K) × K} (hloop : extrapolateLoop f.test r.simplex highest 64 factor = some t)
    (ht : f.test t.1 = true ∨ |t.2| ≤ epsilon) :
    ∃ t', r.extrapolate f highest factor = some t' ∧ Extrapolated f r highest t' ∧
      (epsilon < |t.2| → epsilon < |t'.factor|) := by
  rw [Run.extrapolate, hloop, Option.map_some]
  refine ⟨_, rfl, ?_⟩
  by_cases hfail : |t.2| ≤ epsilon
  · rw [if_pos hfail]
    exact ⟨⟨h, hsum, fun _ => rfl, .inl ⟨rfl, le_rfl⟩⟩, fun hlt => absurd hfail (not_le.2 hlt)⟩
  · have htest : f.test t.1 = true := ht.resolve_right hfail
    have htwice : epsilon < |t.2 * ((2 : ℕ) : K)| := by
      rw [abs_mul, Nat.abs_cast]
      have := not_le.1 hfail
      push_cast
      linarith [abs_nonneg t.2]
    rw [if_neg hfail]
    dsimp only
    split
    · rename_i hlt
      refine ⟨⟨h.replace htest hlt hsum, ?_, fun hle => absurd hle (not_le.2 htwice), .inr ⟨hlt, rfl⟩⟩, fun _ => htwice⟩
      change r.simplex.sum + t.1 - r.simplex.vertices highest = ∑ i, Function.update r.simplex.vertices highest t.1 i
      rw [sum_update, hsum]
    · rename_i hge
      exact ⟨⟨h.evaluate htest (not_lt.1 hge), hsum, fun hle => absurd hle (not_le.2 htwice),
        .inl ⟨rfl, not_lt.1 hge⟩⟩, fun _ => htwice⟩

theorem extrapolate_spec (h : Sound f r) (hsum : r.simplex.sum = ∑ i, r.simplex.vertices i) (highest : Fin (n + 1))
    {factor : K} (hfactor : |factor| ≤ (2 : ℕ)) : ∃ t, r.extrapolate f highest factor = some t ∧ Extrapolated f r highest t := by
  obtain ⟨t, hloop, ht⟩ := extrapolateLoop_spec f.test r.simplex highest 64 factor (by decide) (factor_le hfactor)
  obtain ⟨t', hrun, ht', -⟩ := extrapolate_of_loop h hsum hloop ht
  exact ⟨t', hrun, ht'⟩

theorem extrapolate_two (h : Sound f r) (hsum : r.simplex.sum = ∑ i, r.simplex.vertices i) (highest : Fin (n + 1)) :
    ∃ t, r.extrapolate f highest (2 : ℕ) = some t ∧ Extrapolated f r highest t ∧ epsilon < |t.factor| := by
  obtain ⟨t, hloop, ht, hlt⟩ := extrapolateLoop_two r.simplex highest 62 (h.feasible highest)
  obtain ⟨t', hrun, ht', hfactor⟩ := extrapolate_of_loop h hsum hloop (.inl ht)
  exact ⟨t', hrun, ht', hfactor hlt⟩

omit [IsStrictOrderedRing K] in
/-- An extrapolation that ends no better than the second-worst vertex leaves the lowest one the lowest. -/
theorem Extrapolated.lowest {t : Trial K V n} {next : Fin (n + 1)} (h : Extrapolated f r highest t) (hlow : Lowest r low)
    (hnext : next ≠ highest) (hle : t.run.simplex.values next ≤ t.value) : Lowest t.run low := by
  rcases h.values with ⟨heq, -⟩ | ⟨hlt, heq⟩
  · intro i
    rw [heq]
    exact hlow i
  · rw [heq, Function.update_of_ne hnext] at hle
    -- the lowest vertex is not the one that was moved
    have hne : low ≠ highest := by
      rintro rfl
      exact absurd (hlow next) (not_le.2 (hle.trans_lt hlt))
    intro i
    rw [heq, Function.update_of_ne hne]
    rcases eq_or_ne i highest with rfl | hi
    · rw [Function.update_self]
      exact (hlow next).trans hle
    · rw [Function.update_of_ne hi]
      exact hlow i

/-! ### Contractions -/

omit [LinearOrder K] [IsStrictOrderedRing K] in
/-- A contraction of some vertices: what was evaluated before stays covered by the lowest vertex, or by one that is not
moved any more. -/
theorem foldl_contract (hmid : Midpoints f) (low : Fin (n + 1)) : ∀ (l : List (Fin (n + 1))) (r : Run K V n), l.Nodup → Sound f r →
      (∀ x ∈ r.problem.evaluated, ∃ j, (j ∉ l ∨ j = low) ∧ r.simplex.values j ≤ f.value x) →
      Sound f (l.foldl (Run.contract f low) r)
  | [], _, _, h, _           => h
  | i :: l, r, hl, h, hcover => by
    obtain ⟨hi, hl⟩ := List.nodup_cons.1 hl
    rw [List.foldl_cons]
    by_cases heq : i = low
    · rw [Run.contract, if_pos heq]
      refine foldl_contract hmid low l r hl h (fun x hx => ?_)
      obtain ⟨j, hj, hle⟩ := hcover x hx
      exact ⟨j, hj.imp_left (fun hj hmem => hj (List.mem_cons_of_mem _ hmem)), hle⟩
    · have hvertex := hmid _ _ (h.feasible i) (h.feasible low)
      have hcover' : ∀ x ∈ (r.contract f low i).problem.evaluated,
          ∃ j, (j ∉ l ∨ j = low) ∧ (r.contract f low i).simplex.values j ≤ f.value x := by
        intro x hx
        rw [Run.contract, if_neg heq] at hx ⊢
        rcases List.mem_append.1 hx with hx | hx
        · obtain ⟨j, hj, hle⟩ := hcover x hx
          have hne : j ≠ i := by
            rintro rfl
            exact hj.elim (fun hj => hj List.mem_cons_self) heq
          refine ⟨j, hj.imp_left (fun hj hmem => hj (List.mem_cons_of_mem _ hmem)), ?_⟩
          simpa [Run.evaluate, hne] using hle
        · exact ⟨i, .inl hi, by simp [Run.evaluate, List.mem_singleton.1 hx]⟩
      refine foldl_contract hmid low l _ hl ⟨fun j => ?_, fun j => ?_, fun x hx => ?_, fun x hx => ?_, ?_⟩ hcover'
      · rw [Run.contract, if_neg heq]
        rcases eq_or_ne j i with rfl | hne
        · simpa [Run.evaluate] using hvertex
        · simpa [Run.evaluate, hne] using h.feasible j
      · rw [Run.contract, if_neg heq]
        rcases eq_or_ne j i with rfl | hne
        · simp [Run.evaluate]
        · simpa [Run.evaluate, hne] using h.values j
      · rw [Run.contract, if_neg heq] at hx
        rcases List.mem_append.1 hx with hx | hx
        · exact h.evaluated x hx
        · rwa [List.mem_singleton.1 hx]
      · obtain ⟨j, -, hle⟩ := hcover' x hx
        exact ⟨j, hle⟩
      · rw [Run.contract, if_neg heq]
        exact h.visited

/-! ### Iterations -/

/-- **An iteration keeps what every move keeps**, and when its last extrapolation failed the lowest vertex is still the lowest. -/
theorem move_spec (hmid : Midpoints f) (h : Sound f r) (hsum : r.simplex.sum = ∑ i, r.simplex.vertices i) {ranks : Ranks n}
    (hlow : Lowest r ranks.lowest) (hnext : ranks.nextHighest ≠ ranks.highest) :
    ∃ t, r.move f ranks = some t ∧ Sound f t.2 ∧ (|t.1| ≤ epsilon → Lowest t.2 ranks.lowest) := by
  obtain ⟨t, hrun, ht⟩ := extrapolate_spec h hsum ranks.highest (show |(-1 : K)| ≤ (2 : ℕ) by norm_num)
  rw [Run.move, hrun, Option.bind_some]
  split
  · obtain ⟨t', hrun', ht', hfactor⟩ := extrapolate_two ht.sound ht.sum ranks.highest
    rw [hrun']
    exact ⟨_, rfl, ht'.sound, fun hle => absurd hfactor (not_lt.2 hle)⟩
  · split
    · rename_i hworse
      obtain ⟨t', hrun', ht'⟩ := extrapolate_spec ht.sound ht.sum ranks.highest
        ((abs_of_pos zero_lt_half).trans_le (show (half : K) ≤ (2 : ℕ) by rw [half]; norm_num))
      have hlow' := ht.lowest hlow hnext hworse.2
      rw [hrun']
      dsimp only [Option.map_some]
      split
      · rename_i hshrink
        refine ⟨_, rfl, ?_, fun hle => absurd hshrink.2 (not_lt.2 hle)⟩
        -- the second extrapolation left the values as they were
        have hvalues : t'.run.simplex.values = t.run.simplex.values := by
          rcases ht'.values with ⟨heq, -⟩ | ⟨hlt, -⟩
          · exact heq
          · exact absurd hshrink.1 (not_le.2 hlt)
        refine foldl_contract hmid _ _ _ (List.nodup_finRange _) ht'.sound (fun x hx => ?_)
        obtain ⟨j, hj⟩ := ht'.sound.covered x hx
        refine ⟨ranks.lowest, .inr rfl, le_trans ?_ hj⟩
        rw [hvalues]
        exact hlow' j
      · refine ⟨_, rfl, ht'.sound, fun hle => ?_⟩
        rw [ht'.failed hle]
        exact hlow'
    · refine ⟨_, rfl, ht.sound, fun hle => ?_⟩
      rw [ht.failed hle]
      exact hlow

/-- **What a run leaves in the problem**: a feasible point with its cost, which is the best of all. -/
structure Best (f : Cost K V n) (problem : Candidate K V n) : Prop where
  feasible  : f.test problem.currentValue = true
  value     : problem.functionValue = some (f.value problem.currentValue)
  evaluated : ∀ x ∈ problem.evaluated, f.test x = true ∧ f.value problem.currentValue ≤ f.value x

omit [LinearOrder K] [IsStrictOrderedRing K] in
theorem best_finish (h : Sound f r) (hlow : Lowest r low) : Best f (r.finish low).problem where
  feasible  := h.feasible low
  value     := congrArg some (h.values low)
  evaluated x hx := by
    obtain ⟨i, hi⟩ := h.covered x hx
    refine ⟨h.evaluated x hx, ?_⟩
    change f.value (r.simplex.vertices low) ≤ f.value x
    rw [← h.values low]
    exact (hlow i).trans hi

/-- **The loop ends, with the best point.** -/
theorem loop_spec (sqrt : K → K) (criteria : EndCriteria K) (hn : 0 < n) (hmid : Midpoints f) :
    ∀ (left iteration : ℕ) (r : Run K V n), criteria.maxIterations ≤ iteration + left → Sound f r →
      ∃ t, r.loop sqrt f criteria iteration = some t ∧ Best f t.2.problem ∧ ∀ s ∈ t.2.visited, Balanced f s := by
  intro left
  induction left with
  | zero =>
    intro iteration r hle h
    obtain ⟨hlow, -⟩ := ranks_spec hn r.head.simplex.values
    rw [Run.loop, dif_neg (by omega)]
    exact ⟨_, rfl, best_finish h.head hlow, h.head.visited⟩
  | succ left ih =>
    intro iteration r hle h
    obtain ⟨hlow, hnext⟩ := ranks_spec hn r.head.simplex.values
    rw [Run.loop]
    split
    · obtain ⟨t, hrun, ht, hfail⟩ := move_spec hmid h.head rfl hlow hnext
      rw [hrun, Option.bind_some]
      split
      · rename_i hsmall
        exact ⟨_, rfl, best_finish ht (hfail hsmall), ht.visited⟩
      · exact ih (iteration + 1) t.2 (by omega) ht
    · exact ⟨_, rfl, best_finish h.head hlow, h.head.visited⟩

/-! ## The whole search -/

omit [LinearOrder K] [IsStrictOrderedRing K] in
theorem updateLoop_test {test : (Fin n → K) → Bool} {params direction : Fin n → K} {t : (Fin n → K) × K} :
    ∀ (halvings : ℕ) (diff : K), updateLoop test params direction halvings diff = .ok t → test t.1 = true
  | 0, diff, h            => by
    rw [updateLoop] at h
    split at h
    · rename_i htest
      rw [← Except.ok.inj h]
      exact htest
    · exact absurd h (by simp)
  | halvings + 1, diff, h => by
    rw [updateLoop] at h
    split at h
    · rename_i htest
      rw [← Except.ok.inj h]
      exact htest
    · exact updateLoop_test halvings _ h

omit [LinearOrder K] [IsStrictOrderedRing K] in
theorem initialVertices_test {test : (Fin n → K) → Bool} {lambda : K} :
    ∀ (l : List (Fin n)) (vertices : Fin (n + 1) → Fin n → K) {vertices' : Fin (n + 1) → Fin n → K},
      (∀ i, test (vertices i) = true) →
      l.foldlM (fun vertices i => do
        let (vertex, _) ← update test (vertices i.succ) (Pi.single i 1) lambda
        return Function.update vertices i.succ vertex) vertices = .ok vertices' → ∀ i, test (vertices' i) = true
  | [], vertices, _, hall, h     => by
    rw [← Except.ok.inj h]
    exact hall
  | i :: l, vertices, _, hall, h => by
    rw [List.foldlM_cons] at h
    obtain ⟨_, hstep, h⟩ := Effect.bind_eq_ok.1 h
    obtain ⟨t, ht, hstep⟩ := Effect.bind_eq_ok.1 hstep
    obtain rfl := Except.ok.inj hstep
    refine initialVertices_test l _ (fun j => ?_) h
    rcases eq_or_ne j i.succ with rfl | hne
    · rw [Function.update_self]
      exact updateLoop_test 201 lambda ht
    · rw [Function.update_of_ne hne]
      exact hall j

omit [LinearOrder K] [IsStrictOrderedRing K] in
theorem start_sound {x : Fin n → K} {vertices : Fin (n + 1) → Fin n → K} (h : ∀ i, f.test (vertices i) = true) :
    Sound f (Run.start f x vertices) where
  feasible    := h
  values _    := rfl
  evaluated y hy := by
    obtain ⟨i, -, rfl⟩ := List.mem_map.1 hy
    exact h i
  covered y hy := by
    obtain ⟨i, -, rfl⟩ := List.mem_map.1 hy
    exact ⟨i, le_rfl⟩
  visited _ hs := absurd hs List.not_mem_nil

end

/-- The square of a number that is not negative. -/
def square : Cost ℚ ℚ 1 := ⟨fun x => x (Fin.last 0) * x (Fin.last 0), fun x => 0 ≤ x (Fin.last 0)⟩

end Simplex
end Itofin
