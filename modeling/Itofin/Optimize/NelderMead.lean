import Itofin.Lib.Double
import Itofin.Lib.Incumbent
import Itofin.Optimize.Objective
import Mathlib.Algebra.Field.Rat
import Mathlib.Algebra.Order.Ring.Rat
import Mathlib.Data.List.Sort
/-!
# NelderMead — the simplex method

`nelder_mead.rs`, over machine numbers whose sums and products round to anything.  The search keeps `n + 1` vertices in the
order of their values and replaces the worst one in each iteration, or shrinks them all towards the best one.  A search also
keeps its iterations: the vertices at the end of each, what was reported of them, and the evaluations until then.

Every value that was found is at or above the value of a vertex (`Simplex.lowest`): a move leaves the best vertex where it is
and drops only what the others or what it tried are not above (`move_triple`).  So the first vertex has the smallest value of
all, and what is reported never rises.
-/
namespace Itofin
namespace Optimize
namespace NelderMead

open Effect Double

section

variable (K : Type) (n : ℕ)

/-- One simplex vertex and the value of the objective there. -/
structure Vertex where
  x : Fin n → Double K
  f : Double K

/-- The four move lengths, along the line from the worst vertex through the centroid of the others. -/
structure Coefficients where
  reflection  : Double K
  expansion   : Double K
  contraction : Double K
  shrink      : Double K

/-- The options; a simplex that is given has the `n + 1` points that `validate` asks for. -/
structure NelderMeadOptions where
  xatol          : Option (Double K)
  fatol          : Option (Double K)
  adaptive       : Bool
  initialSimplex : Option (Fin (n + 1) → Fin n → Double K)

end

structure Iteration (E K : Type) (n : ℕ) where
  vertices    : List (Vertex K n)
  reported    : Vertex K n
  evaluations : List (Evaluation E (Double K) (Double K) n)

/-- The evaluation site, and the iterations so far. -/
structure Search (S E K : Type) (n : ℕ) where
  counters   : Counters S E (Double K) (Double K) n
  best       : Option ((Fin n → Double K) × Double K)
  first      : Option ((Fin n → Double K) × Double K)
  iterations : List (Iteration E K n)

instance {K : Type} {n : ℕ} : Inhabited (Vertex K n) := ⟨⟨fun _ => .nan, .nan⟩⟩

variable {S E K : Type} [LinearOrder K] [Double.Arithmetic K] {n : ℕ}

def defaultTolerance : Double K := literal (1 / 10 ^ 4)

def coordinateStep : Double K := literal (5 / 100)

def zeroCoordinateStep : Double K := literal (25 / 10 ^ 5)

def budgetPerCoordinate : ℕ := 200

def tolerance (option shared : Option (Double K)) : Double K := (option.or shared).getD defaultTolerance

/-- Fills in the default budgets. -/
def budgets (common : Common (Double K)) (n : ℕ) : Common (Double K) :=
  if common.maxiter.isSome ∨ common.maxfev.isSome then common
  else
    let budget := some (n * budgetPerCoordinate)
    ⟨budget, budget, common.tol⟩

/-- The starting points: the ones the caller supplied, or `x0` with one coordinate perturbed per further vertex. -/
def startingPoints (x0 : Fin n → Double K) (given : Option (Fin (n + 1) → Fin n → Double K)) : List (Fin n → Double K) :=
  match given with
  | some points => List.ofFn points
  | none        => x0 :: (List.finRange n).map (fun index =>
      let coordinate := x0 index
      -- `coordinate == 0.0`: either zero, and not `nan`.
      Function.update x0 index (if coordinate ≤ literal 0 ∧ literal 0 ≤ coordinate then zeroCoordinateStep
        else coordinate * (literal 1 + coordinateStep)))

def coefficients (adaptive : Bool) (n : ℕ) : Coefficients K :=
  if ¬ adaptive then ⟨literal 1, literal 2, literal (1 / 2), literal (1 / 2)⟩
  else
    let dimension : Double K := literal n
    ⟨literal 1, literal 1 + literal 2 / dimension, literal (3 / 4) - literal 1 / (literal 2 * dimension),
      literal 1 - literal 1 / dimension⟩

/-- Orders the vertices by value, keeping the previous order among ties. -/
def order (vertices : List (Vertex K n)) : List (Vertex K n) :=
  vertices.insertionSort (fun left right => totalLe left.f right.f = true)

def centroid (vertices : List (Vertex K n)) : Fin n → Double K :=
  let total := (vertices.take n).foldl (fun centre vertex i => centre i + vertex.x i) (fun _ => literal 0)
  fun i => total i / literal n

/-- The point `step` of the way from the centroid along the direction leading away from the worst vertex. -/
def along (centre worst : Fin n → Double K) (step : Double K) : Fin n → Double K :=
  fun i => centre i + step * (centre i - worst i)

/-- Whether the simplex is small enough in both `x` and `f`. -/
def converged (vertices : List (Vertex K n)) (xatol fatol : Double K) : Bool :=
  match vertices with
  | []           => true
  | best :: rest => rest.all (fun vertex => abs (vertex.f - best.f) ≤ fatol ∧ ∀ i, abs (vertex.x i - best.x i) ≤ xatol)

/-! ## The search -/

def counting {α : Type} (x : Prog (Counters S E (Double K) (Double K) n) (Halt E) α) : Prog (Search S E K n) (Halt E) α :=
  x.zoom Search.counters (fun counters search => { search with counters })

def keep (best : Option ((Fin n → Double K) × Double K)) (x : Fin n → Double K) (value : Double K) :
    Option ((Fin n → Double K) × Double K) :=
  if value.isFinite = true ∧ best.all (fun best => value < best.2) then some (x, value) else best

section

variable (objective : Objective S E (Double K) (Double K) n) (budget : Common (Double K))

/-- Evaluates the objective at a point, charging the call and recording it. -/
def value (x : Fin n → Double K) : Prog (Search S E K n) (Halt E) (Double K) := do
  let value ← counting (Counters.value objective budget x)
  Prog.modify (fun search => { search with first := search.first.or (some (x, value)) })
  Prog.require (value.isLost = false) (.terminated .nonfinite)
  Prog.modify (fun search => { search with best := keep search.best x value })
  return value

def vertex (x : Fin n → Double K) : Prog (Search S E K n) (Halt E) (Vertex K n) := do
  let f ← value objective budget x
  return ⟨x, f⟩

/-- Pulls every vertex but the best towards the best one. -/
def shrink (factor : Double K) (vertices : List (Vertex K n)) : Prog (Search S E K n) (Halt E) (List (Vertex K n)) := do
  match vertices with
  | []           => return []
  | best :: rest => do
    let rest ← Prog.collect (fun v => vertex objective budget (fun i => best.x i + factor * (v.x i - best.x i))) rest
    return best :: rest

/-- The vertex that takes the place of the worst one: the reflected, the expanded, or a contracted one.  `none` is that no
candidate improves on it. -/
def move (step : Coefficients K) (vertices : List (Vertex K n)) : Prog (Search S E K n) (Halt E) (Option (Vertex K n)) := do
  let centre := centroid vertices
  let best := (vertices.getD 0 default).f
  let nextWorst := (vertices.getD (n - 1) default).f
  let worst := vertices.getD n default
  let reflected ← vertex objective budget (along centre worst.x step.reflection)
  if reflected.f < best then do
    let expanded ← vertex objective budget (along centre worst.x (step.reflection * step.expansion))
    return some (if expanded.f < reflected.f then expanded else reflected)
  else if reflected.f < nextWorst then return some reflected
  else if reflected.f < worst.f then do
    let outside ← vertex objective budget (along centre worst.x (step.contraction * step.reflection))
    return if outside.f ≤ reflected.f then some outside else none
  else do
    let inside ← vertex objective budget (along centre worst.x (-step.contraction))
    return if inside.f < worst.f then some inside else none

/-- What is made of the vertices: the worst one is replaced, or all but the best one are. -/
def replace (factor : Double K) (vertices : List (Vertex K n)) (replacement : Option (Vertex K n)) :
    Prog (Search S E K n) (Halt E) (List (Vertex K n)) :=
  match replacement with
  | some vertex => pure (vertices.set n vertex)
  | none        => shrink objective budget factor vertices

def endIteration (vertices : List (Vertex K n)) : Prog (Search S E K n) (Halt E) Unit := do
  let best := vertices.getD 0 default
  Prog.modify (fun search => { search with
    iterations := search.iterations ++ [⟨vertices, best, search.counters.evaluations⟩] })
  counting (Counters.endIteration objective budget best.x best.f)

/-- A turn of the run: the status that ends it, or the vertices after the iteration. -/
def turn (step : Coefficients K) (xatol fatol : Double K) (vertices : List (Vertex K n)) :
    Prog (Search S E K n) (Halt E) (Termination ⊕ List (Vertex K n)) := do
  if converged vertices xatol fatol then return .inl (.converged .xTol)
  else do
    let replacement ← move objective budget step vertices
    let vertices ← replace objective budget step.shrink vertices replacement
    let vertices := order vertices
    endIteration objective budget vertices
    return .inr vertices

/-- `run`, with a bound on its turns; `none` is that they did not do. -/
def run (turns : ℕ) (x0 : Fin n → Double K) (options : NelderMeadOptions K n) (xatol fatol : Double K) :
    Prog (Search S E K n) (Halt E) (Option Termination) := do
  let vertices ← Prog.collect (vertex objective budget) (startingPoints x0 options.initialSimplex)
  Prog.loop (turn objective budget (coefficients options.adaptive n) xatol fatol) turns (order vertices)

end

def result (x0 : Fin n → Double K) (search : Search S E K n) (status : Termination) :
    Minimize (Double K) (Double K) n :=
  let (x, f) := (search.best.or search.first).getD (x0, .nan)
  ⟨x, f, search.counters.nit, search.counters.nfev, search.counters.njev, status⟩

def conclude (x0 : Fin n → Double K) (ran : Except (Halt E) (Option Termination) × Search S E K n) :
    Except E (Option (Minimize (Double K) (Double K) n)) × Search S E K n :=
  match ran with
  | (.ok none, search)                    => (.ok none, search)
  | (.ok (some status), search)           => (.ok (some (result x0 search status)), search)
  | (.error (.terminated status), search) => (.ok (some (result x0 search status)), search)
  | (.error (.failed error), search)      => (.error error, search)

/-- `minimize`, and the search that it ends with.  `none` is that the turns did not do. -/
def minimize (objective : Objective S E (Double K) (Double K) n) (turns : ℕ) (x0 : Fin n → Double K)
    (options : NelderMeadOptions K n) (common : Common (Double K)) (objective₀ : S) :
    Except E (Option (Minimize (Double K) (Double K) n)) × Search S E K n :=
  let resolved := budgets common n
  let xatol := tolerance options.xatol common.tol
  let fatol := tolerance options.fatol common.tol
  conclude x0 (run objective resolved turns x0 options xatol fatol ⟨.new objective₀, none, none, []⟩)

/-! ## What a search remembers -/

/-- **The first of the points with the smallest finite value**, or the first point of all if no value is finite. -/
def IsAnswer (evaluations : List (Evaluation E (Double K) (Double K) n)) (x : Fin n → Double K) (f : Double K) : Prop :=
  (∃ before after, evaluations = before ++ (x, .ok f) :: after ∧ f.isFinite = true ∧
    (∀ y g, (y, .ok g) ∈ before → g.isFinite = true → f < g) ∧ ∀ y g, (y, .ok g) ∈ after → g.isFinite = true → f ≤ g) ∨
  (∀ y g, (y, .ok g) ∈ evaluations → g.isFinite = false) ∧ evaluations.head? = some (x, .ok f)

/-- **What holds at the end of an iteration.** -/
structure Closed (i : Iteration E K n) : Prop where
  count     : i.vertices.length = n + 1
  sorted    : i.vertices.Pairwise (fun v w => v.f ≤ w.f)
  reported  : i.vertices.head? = some i.reported
  evaluated : ∀ v ∈ i.vertices, (v.x, .ok v.f) ∈ i.evaluations
  smallest  : ∀ x f, (x, .ok f) ∈ i.evaluations → f.isFinite = true → i.reported.f.isFinite = true ∧ i.reported.f ≤ f
  barrier   : (∀ x f, (x, .ok f) ∈ i.evaluations → f.isFinite = false) → i.reported.f.val = .infinite false

/-- A later iteration has evaluated more, and reports nothing larger. -/
def Later (i j : Iteration E K n) : Prop := i.evaluations <+: j.evaluations ∧ j.reported.f ≤ i.reported.f

/-- A point that was evaluated with its value. -/
abbrev Tried (K : Type) (n : ℕ) : Type := (Fin n → Double K) × Double K

abbrev admits (e : Tried K n) : Prop := e.2.isFinite = true

abbrev below (a b : Tried K n) : Prop := a.2 < b.2

/-- A search whose evaluations gave the values `tried`. -/
structure Tracked (tried : List (Tried K n)) (s : Search S E K n) : Prop where
  evaluations : s.counters.evaluations = tried.map (fun e => (e.1, .ok e.2))
  charged     : s.counters.nfev = tried.length
  best        : s.best = Incumbent.best admits below tried
  first       : s.first = tried.head?

/-- And goes on within its budget, after some iterations. -/
structure Going (budget : Common (Double K)) (tried : List (Tried K n)) (iterations : List (Iteration E K n))
    (s : Search S E K n) : Prop extends Tracked tried s where
  kept    : ∀ e ∈ tried, e.2.isLost = false
  within  : ∀ m ∈ budget.maxfev, tried.length ≤ m
  closed  : s.iterations = iterations
  counted : s.counters.nit = iterations.length

def Answered (budget : Common (Double K)) (s : Search S E K n) : Prop :=
  ∃ tried, Tracked tried s ∧ (tried = [] → budget.maxfev = some 0)

/-- A search that was stopped after some iterations. -/
structure Ended (budget : Common (Double K)) (iterations : List (Iteration E K n)) (halt : Halt E) (s : Search S E K n) :
    Prop where
  closed   : s.iterations = iterations
  counted  : s.counters.nit = iterations.length
  answered : ∀ status, halt = .terminated status → Answered budget s

variable {objective : Objective S E (Double K) (Double K) n} {budget : Common (Double K)} {tried : List (Tried K n)}
  {iterations : List (Iteration E K n)} {vertices : List (Vertex K n)} {s : Search S E K n}

omit [Double.Arithmetic K] in
theorem Tracked.keep (h : Tracked tried s) (x : Fin n → Double K) (f : Double K) :
    keep s.best x f = Incumbent.best admits below (tried ++ [(x, f)]) := by
  rw [Incumbent.best_append, ← h.best]
  rfl

theorem head?_append_singleton {α : Type} (l : List α) (a : α) : l.head?.or (some a) = (l ++ [a]).head? := by
  cases l <;> rfl

omit [Double.Arithmetic K] in
/-- **What an evaluation does to a search.** -/
theorem value_triple (x : Fin n → Double K) :
    Triple (Going budget tried iterations) (value objective budget x)
      (fun f s => Going budget (tried ++ [(x, f)]) iterations s ∧ f.isLost = false) (Ended budget iterations) := by
  rintro ⟨c, best, first, its⟩ h
  have hbest := fun f => h.toTracked.keep x f
  have hfirst := fun f => (congrArg (Option.or · (some (x, f))) h.first).trans (head?_append_singleton tried (x, f))
  obtain ⟨⟨hevals, hcharged, hb, hf⟩, hkept, hwithin, hits, hcounted⟩ := h
  rcases Counters.value_cases objective budget x c with ⟨⟨m, hm, hle⟩, hrun⟩ | ⟨hlt, r, s', hrun⟩
  · simp only [value, counting, Prog.run_bind, Prog.zoom, hrun]
    refine ⟨hits, hcounted, fun _ _ => ⟨tried, ⟨hevals, hcharged, hb, hf⟩, fun h0 => ?_⟩⟩
    rw [hcharged, h0] at hle
    rw [Option.mem_def.1 hm, Nat.le_zero.1 hle]
  · cases r with
    | error e =>
      simp only [value, counting, Prog.run_bind, Prog.zoom, hrun, Except.mapError]
      exact ⟨hits, hcounted, fun status h => by cases h⟩
    | ok f    =>
      simp only [value, counting, Prog.run_bind, Prog.zoom, hrun, Except.mapError, Prog.run_modify, Prog.run_require]
      have hevals' : c.evaluations ++ [(x, .ok f)] = (tried ++ [(x, f)]).map (fun e => (e.1, .ok e.2)) := by
        rw [hevals, List.map_append]
        rfl
      have hcharged' : c.nfev + 1 = (tried ++ [(x, f)]).length := by
        rw [List.length_append, hcharged]
        rfl
      by_cases hlost : f.isLost = false
      · simp only [hlost, if_true, Prog.run_pure]
        refine ⟨⟨⟨hevals', hcharged', hbest f, hfirst f⟩, ?_, fun m hm => ?_, hits, hcounted⟩, trivial⟩
        · exact List.forall_mem_append.2 ⟨hkept, List.forall_mem_singleton.2 hlost⟩
        · rw [← hcharged']
          exact hlt m hm
      · simp only [hlost]
        refine ⟨hits, hcounted, fun _ _ => ⟨tried ++ [(x, f)], ⟨hevals', hcharged', ?_, hfirst f⟩, by simp⟩⟩
        have hinfinite : ¬ admits (x, f) := fun h => hlost (isLost_of_isFinite h)
        rw [Incumbent.best_append, Incumbent.keep_of_not_admits _ hinfinite]
        exact hb

def Vertex.entry (v : Vertex K n) : Tried K n := (v.x, v.f)

omit [Double.Arithmetic K] in
theorem vertex_triple (x : Fin n → Double K) :
    Triple (Going budget tried iterations) (vertex objective budget x)
      (fun v s => Going budget (tried ++ [v.entry]) iterations s ∧ v.f.isLost = false) (Ended budget iterations) :=
  Triple.bind (value_triple x) (fun _ => Triple.pure _ (fun _ hs => hs))

omit [Double.Arithmetic K] in
theorem collect_triple {β : Type} (point : β → Fin n → Double K) (l : List β) :
    Triple (Going budget tried iterations) (Prog.collect (fun b => vertex objective budget (point b)) l)
      (fun vs s => vs.length = l.length ∧ Going budget (tried ++ vs.map Vertex.entry) iterations s)
      (Ended budget iterations) := by
  refine Triple.weaken (Triple.collect l (fun vs => Going budget (tried ++ vs.map Vertex.entry) iterations)
    (fun vs b _ => ?_)) (fun s hs => ?_) (fun _ _ hs => hs)
  · refine Triple.weaken (vertex_triple (point b)) (fun _ hs => hs) (fun v s hs => ?_)
    rw [List.map_append, ← List.append_assoc]
    exact hs.1
  · rwa [List.map_nil, List.append_nil]

/-! ## The simplex -/

/-- `n + 1` vertices that were tried, and of which one is as good as anything that was. -/
structure Spanning (vertices : List (Vertex K n)) (tried : List (Tried K n)) : Prop where
  count     : vertices.length = n + 1
  evaluated : ∀ v ∈ vertices, v.entry ∈ tried
  lowest    : ∀ e ∈ tried, ∃ v ∈ vertices, v.f ≤ e.2

/-- **The invariant of the search.** -/
structure Simplex (vertices : List (Vertex K n)) (tried : List (Tried K n)) : Prop extends Spanning vertices tried where
  sorted : vertices.Pairwise (fun v w => v.f ≤ w.f)

omit [Double.Arithmetic K] in
theorem Spanning.order (h : Spanning vertices tried) (hkept : ∀ e ∈ tried, e.2.isLost = false) :
    Simplex (order vertices) tried where
  count     := (List.length_insertionSort _ _).trans h.count
  evaluated := fun v hv => h.evaluated v ((List.mem_insertionSort _).1 hv)
  lowest    := fun e he => by
    obtain ⟨v, hv, hle⟩ := h.lowest e he
    exact ⟨v, (List.mem_insertionSort _).2 hv, hle⟩
  sorted    := by
    have htotal : Std.Total (fun left right : Vertex K n => totalLe left.f right.f = true) := ⟨fun _ _ => totalLe_total _ _⟩
    have htrans : IsTrans (Vertex K n) (fun left right => totalLe left.f right.f = true) := ⟨fun _ _ _ => totalLe_trans⟩
    refine (List.pairwise_insertionSort _ vertices).imp_of_mem (fun hv hw hle => ?_)
    have hkept' : ∀ {v}, v ∈ NelderMead.order vertices → v.f.isLost = false :=
      fun hv => hkept _ (h.evaluated _ ((List.mem_insertionSort _).1 hv))
    exact le_of_totalLe (hkept' hv) (hkept' hw) hle

omit [Double.Arithmetic K] in
/-- **The first vertex has the smallest value of all.** -/
theorem Simplex.first_le (h : Simplex vertices tried) :
    ∃ best rest, vertices = best :: rest ∧ best.entry ∈ tried ∧ ∀ e ∈ tried, best.f ≤ e.2 := by
  cases vertices with
  | nil              => exact absurd h.count (by simp)
  | cons best rest =>
    have hbest := h.evaluated best List.mem_cons_self
    refine ⟨best, rest, rfl, hbest, fun e he => ?_⟩
    obtain ⟨v, hv, hle⟩ := h.lowest e he
    rcases List.mem_cons.1 hv with rfl | hv
    · exact hle
    · exact Double.le_trans ((List.pairwise_cons.1 h.sorted).1 v hv) hle

omit [Double.Arithmetic K] in
theorem Simplex.worst_mem (h : Simplex vertices tried) : vertices.getD n default ∈ vertices := by
  have hn : n < vertices.length := h.count ▸ Nat.lt_succ_self n
  rw [List.getD_eq_getElem?_getD, List.getElem?_eq_getElem hn]
  exact List.getElem_mem hn

/-- What a move makes of the values it tries: each is at or above its vertex, or the best one. -/
structure Moved (best : Double K) (tried : List (Tried K n)) (replacement : Option (Vertex K n)) : Prop where
  tries  : tried ≠ []
  member : ∀ v ∈ replacement, v.entry ∈ tried
  above  : ∀ e ∈ tried, (∃ v ∈ replacement, v.f ≤ e.2) ∨ best ≤ e.2

/-- **What a move does.** -/
theorem move_triple (step : Coefficients K) (h : Simplex vertices tried) :
    Triple (Going budget tried iterations) (move objective budget step vertices)
      (fun r s => ∃ new, Going budget (tried ++ new) iterations s ∧ Moved (vertices.getD 0 default).f new r)
      (Ended budget iterations) := by
  intro s hs
  have hworst := h.evaluated _ h.worst_mem
  obtain ⟨best, rest, hcons, hbest, hle⟩ := h.first_le
  have hbest' : best.f.isLost = false := hs.kept _ hbest
  have hworst' : (vertices.getD n default).f.isLost = false := hs.kept _ hworst
  have hworst'' : best.f ≤ (vertices.getD n default).f := hle _ hworst
  have hfirst : vertices.getD 0 default = best := by rw [hcons]; rfl
  revert s
  unfold move
  simp only [hfirst]
  generalize vertices.getD n default = worst at *
  refine Triple.bind (vertex_triple _) (fun reflected => ?_)
  refine Triple.of_fact (fun hr => ?_)
  refine Triple.ite (fun hlt => ?_) (fun hnot => ?_)
  · refine Triple.bind (vertex_triple _) (fun expanded => Triple.pure _ (fun s hs => ?_))
    refine ⟨[reflected.entry, expanded.entry], by simpa using hs.1, ?_⟩
    by_cases he : expanded.f < reflected.f
    · rw [if_pos he]
      exact ⟨nofun, by simp, by simp [Vertex.entry, Double.le_of_lt he, Double.le_refl hs.2]⟩
    · rw [if_neg he]
      exact ⟨nofun, by simp, by simp [Vertex.entry, Double.le_of_not_lt hs.2 hr he, Double.le_refl hr]⟩
  have hr' : best.f ≤ reflected.f := Double.le_of_not_lt hr hbest' hnot
  refine Triple.ite (fun hlt => ?_) (fun _ => ?_)
  · exact Triple.pure _ (fun s hs => ⟨[reflected.entry], hs, nofun, by simp, by simp [Vertex.entry, hr']⟩)
  refine Triple.ite (fun hlt => ?_) (fun hnot' => ?_)
  · refine Triple.bind (vertex_triple _) (fun outside => Triple.pure _ (fun s hs => ?_))
    refine ⟨[reflected.entry, outside.entry], by simpa using hs.1, ?_⟩
    by_cases ho : outside.f ≤ reflected.f
    · rw [if_pos ho]
      exact ⟨nofun, by simp, by simp [Vertex.entry, hr', Double.le_refl hs.2]⟩
    · rw [if_neg ho]
      have ho' : best.f ≤ outside.f := Double.le_trans hr' (Double.le_of_not_le hs.2 hr ho)
      exact ⟨nofun, by simp, by simp [Vertex.entry, hr', ho']⟩
  · refine Triple.bind (vertex_triple _) (fun inside => Triple.pure _ (fun s hs => ?_))
    refine ⟨[reflected.entry, inside.entry], by simpa using hs.1, ?_⟩
    by_cases hi : inside.f < worst.f
    · rw [if_pos hi]
      exact ⟨nofun, by simp, by simp [Vertex.entry, hr', Double.le_refl hs.2]⟩
    · rw [if_neg hi]
      have hi' : best.f ≤ inside.f := Double.le_trans hworst'' (Double.le_of_not_lt hs.2 hworst' hi)
      exact ⟨nofun, by simp, by simp [Vertex.entry, hr', hi']⟩

section

variable {new : List (Tried K n)} {best : Vertex K n} {rest : List (Vertex K n)}

omit [Double.Arithmetic K] in
/-- **The worst vertex gives way**, and the best one stays: it is not above what was tried before. -/
theorem Simplex.set {v : Vertex K n} (h : Simplex (best :: rest) tried) (hn : n ≠ 0) (hle : ∀ e ∈ tried, best.f ≤ e.2)
    (hm : Moved best.f new (some v)) : Spanning ((best :: rest).set n v) (tried ++ new) := by
  obtain ⟨n, rfl⟩ := Nat.exists_eq_succ_of_ne_zero hn
  have hlength : n < rest.length := by
    have := h.count
    rw [List.length_cons] at this
    omega
  have hbest : best ∈ (best :: rest).set (n + 1) v := by
    rw [List.set_cons_succ]
    exact List.mem_cons_self
  refine ⟨?_, fun w hw => ?_, List.forall_mem_append.2 ⟨fun e he => ⟨best, hbest, hle e he⟩, fun e he => ?_⟩⟩
  · rw [List.length_set]
    exact h.count
  · rcases List.mem_or_eq_of_mem_set hw with hw | rfl
    · exact List.mem_append_left _ (h.evaluated w hw)
    · exact List.mem_append_right _ (hm.member w rfl)
  · rcases hm.above e he with ⟨w, hw, hle'⟩ | hle'
    · cases hw
      rw [List.set_cons_succ]
      exact ⟨v, List.mem_cons_of_mem _ (List.mem_set hlength v), hle'⟩
    · exact ⟨best, hbest, hle'⟩

omit [Double.Arithmetic K] in
/-- **All but the best vertex move**: what a shrink tries is a vertex afterwards. -/
theorem Simplex.shrunk {vs : List (Vertex K n)} (h : Simplex (best :: rest) tried) (hle : ∀ e ∈ tried, best.f ≤ e.2)
    (hm : Moved best.f new none) (hlength : vs.length = rest.length)
    (hkept : ∀ e ∈ tried ++ (new ++ vs.map Vertex.entry), e.2.isLost = false) :
    Spanning (best :: vs) (tried ++ (new ++ vs.map Vertex.entry)) := by
  refine ⟨?_, fun w hw => ?_, fun e he => ?_⟩
  · rw [List.length_cons, hlength]
    exact h.count
  · rcases List.mem_cons.1 hw with rfl | hw
    · exact List.mem_append_left _ (h.evaluated w List.mem_cons_self)
    · exact List.mem_append_right _ (List.mem_append_right _ (List.mem_map_of_mem hw))
  · have hrefl := Double.le_refl (hkept e he)
    rcases List.mem_append.1 he with he | he
    · exact ⟨best, List.mem_cons_self, hle e he⟩
    rcases List.mem_append.1 he with he | he
    · rcases hm.above e he with ⟨w, hw, _⟩ | hle'
      · cases hw
      · exact ⟨best, List.mem_cons_self, hle'⟩
    · obtain ⟨w, hw, rfl⟩ := List.mem_map.1 he
      exact ⟨w, List.mem_cons_of_mem _ hw, hrefl⟩

end

theorem replace_triple {new : List (Tried K n)} {replacement : Option (Vertex K n)} (factor : Double K) (hn : n ≠ 0)
    (h : Simplex vertices tried) (hm : Moved (vertices.getD 0 default).f new replacement) :
    Triple (Going budget (tried ++ new) iterations) (replace objective budget factor vertices replacement)
      (fun vs s => ∃ tries, Going budget (tried ++ (new ++ tries)) iterations s ∧ Spanning vs (tried ++ (new ++ tries)))
      (Ended budget iterations) := by
  obtain ⟨best, rest, rfl, -, hle⟩ := h.first_le
  cases replacement with
  | some v =>
    refine Triple.pure _ (fun s hs => ⟨[], ?_⟩)
    rw [List.append_nil]
    exact ⟨hs, h.set hn hle hm⟩
  | none   =>
    refine Triple.bind (collect_triple _ rest) (fun vs => Triple.pure _ (fun s hs => ?_))
    obtain ⟨hlength, hs⟩ := hs
    rw [List.append_assoc] at hs
    exact ⟨vs.map Vertex.entry, hs, h.shrunk hle hm hlength hs.kept⟩

/-! ## The iterations -/

/-- The iterations so far, each of which had a part of what was tried. -/
structure History (iterations : List (Iteration E K n)) (tried : List (Tried K n)) : Prop where
  closed : ∀ i ∈ iterations, Closed i
  later  : iterations.Pairwise Later
  past   : ∀ i ∈ iterations, i.evaluations <+: tried.map (fun e => (e.1, .ok e.2))

omit [LinearOrder K] [Double.Arithmetic K] in
theorem mem_evaluations {x : Fin n → Double K} {f : Double K} :
    (x, (.ok f : Except E (Double K))) ∈ tried.map (fun e => (e.1, .ok e.2)) ↔ (x, f) ∈ tried := by
  rw [List.mem_map]
  constructor
  · rintro ⟨e, he, heq⟩
    cases heq
    exact he
  · exact fun h => ⟨_, h, rfl⟩

omit [Double.Arithmetic K] in
theorem Simplex.closed (h : Simplex vertices tried) (hkept : ∀ e ∈ tried, e.2.isLost = false) :
    Closed (E := E) ⟨vertices, vertices.getD 0 default, tried.map (fun e => (e.1, .ok e.2))⟩ := by
  obtain ⟨best, rest, rfl, hbest, hle⟩ := h.first_le
  have hlost : best.f.isLost = false := hkept _ hbest
  refine ⟨h.count, h.sorted, rfl, fun v hv => mem_evaluations.2 (h.evaluated v hv), fun x f he hf => ?_, fun hno => ?_⟩
  · have hbelow : best.f ≤ f := hle _ (mem_evaluations.1 he)
    exact ⟨isFinite_of_le hlost hf hbelow, hbelow⟩
  · exact val_of_not_isFinite hlost (hno _ _ (mem_evaluations.2 hbest))

omit [Double.Arithmetic K] in
theorem History.nil (tried : List (Tried K n)) : History ([] : List (Iteration E K n)) tried :=
  ⟨fun _ h => absurd h List.not_mem_nil, .nil, fun _ h => absurd h List.not_mem_nil⟩

omit [Double.Arithmetic K] in
theorem History.append {new : List (Tried K n)} (hi : History iterations tried) (h : Simplex vertices (tried ++ new))
    (hkept : ∀ e ∈ tried ++ new, e.2.isLost = false) :
    History (iterations ++ [⟨vertices, vertices.getD 0 default, (tried ++ new).map (fun e => (e.1, .ok e.2))⟩])
      (tried ++ new) := by
  have hpast : ∀ i ∈ iterations, i.evaluations <+: (tried ++ new).map (fun e => (e.1, .ok e.2)) := by
    intro i hi'
    rw [List.map_append]
    exact (hi.past i hi').trans (List.prefix_append _ _)
  refine ⟨List.forall_mem_append.2 ⟨hi.closed, List.forall_mem_singleton.2 (h.closed hkept)⟩,
    List.pairwise_append.2 ⟨hi.later, List.pairwise_singleton _ _, fun i hi' j hj => ?_⟩,
    List.forall_mem_append.2 ⟨hpast, List.forall_mem_singleton.2 (List.prefix_refl _)⟩⟩
  rw [List.mem_singleton.1 hj]
  refine ⟨hpast i hi', ?_⟩
  -- What was reported before is a value that was found.
  have hreported := (hi.closed i hi').evaluated _ (List.mem_of_head? (hi.closed i hi').reported)
  obtain ⟨best, rest, hcons, -, hle⟩ := h.first_le
  have := hle _ (mem_evaluations.1 ((hpast i hi').subset hreported))
  rwa [hcons]

/-! ## The run -/

/-- **What a search has of its iterations**, whatever ends it. -/
structure Booked (s : Search S E K n) : Prop where
  counted : s.counters.nit = s.iterations.length
  closed  : ∀ i ∈ s.iterations, Closed i
  later   : s.iterations.Pairwise Later

/-- **What holds between two turns**, after some of them. -/
def Between (budget : Common (Double K)) (k : ℕ) (vertices : List (Vertex K n)) (s : Search S E K n) : Prop :=
  ∃ tried iterations, Going budget tried iterations s ∧ Simplex vertices tried ∧ History iterations tried ∧
    iterations.length = k ∧ (∀ m ∈ budget.maxiter, k = 0 ∨ k < m) ∧ k < tried.length

/-- **What holds in the end.** -/
def Over (budget : Common (Double K)) (halt : Halt E) (s : Search S E K n) : Prop :=
  Booked s ∧ ∀ status, halt = .terminated status → Answered budget s

omit [Double.Arithmetic K] in
theorem Ended.over {halt : Halt E} (h : Ended budget iterations halt s) (hi : History iterations tried) : Over budget halt s :=
  ⟨⟨h.closed ▸ h.counted, h.closed ▸ hi.closed, h.closed ▸ hi.later⟩, h.answered⟩

omit [Double.Arithmetic K] in
theorem Going.booked (h : Going budget tried iterations s) (hi : History iterations tried) : Booked s :=
  ⟨h.closed ▸ h.counted, h.closed ▸ hi.closed, h.closed ▸ hi.later⟩

omit [Double.Arithmetic K] in
theorem Going.answered (h : Going budget tried iterations s) (hne : tried ≠ []) : Answered budget s :=
  ⟨tried, h.toTracked, fun h0 => absurd h0 hne⟩

theorem pos_of_not_converged {xatol fatol : Double K} (h : Simplex vertices tried)
    (hconverged : ¬ converged vertices xatol fatol = true) : n ≠ 0 := by
  rintro rfl
  obtain ⟨best, rest, rfl, -⟩ := h.first_le
  have : rest = [] := List.length_eq_zero_iff.1 (Nat.succ_injective h.count)
  rw [this] at hconverged
  exact hconverged rfl

omit [Double.Arithmetic K] in
theorem endIteration_triple {k : ℕ} {new : List (Tried K n)} (hi : History iterations tried) (hk : iterations.length = k)
    (hlt : k + 1 < (tried ++ new).length) (h : Simplex vertices (tried ++ new)) :
    Triple (Going budget (tried ++ new) iterations) (endIteration objective budget vertices)
      (fun _ => Between budget (k + 1) vertices) (Over budget) := by
  rintro ⟨c, best, first, its⟩ hs
  have hhistory := hi.append h hs.kept
  obtain ⟨⟨hevals, hcharged, hb, hf⟩, hkept, hwithin, hits, hcounted⟩ := hs
  obtain ⟨r, s', hrun, hmore⟩ := @Counters.endIteration_run S E (Double K) (Double K) n objective budget
    (vertices.getD 0 default).x (vertices.getD 0 default).f c
  simp only [endIteration, Prog.run_bind, Prog.run_modify, counting, Prog.zoom, hrun]
  have hnext : Going budget (tried ++ new)
      (iterations ++ [⟨vertices, vertices.getD 0 default, (tried ++ new).map (fun e => (e.1, .ok e.2))⟩])
      (⟨{ c with nit := c.nit + 1, objective := s' }, best, first,
        its ++ [⟨vertices, vertices.getD 0 default, c.evaluations⟩]⟩ : Search S E K n) := by
    refine ⟨⟨hevals, hcharged, hb, hf⟩, hkept, hwithin, ?_, ?_⟩
    · change its ++ _ = _
      rw [show its = iterations from hits, show c.evaluations = _ from hevals]
    · rw [List.length_append]
      exact congrArg (· + 1) hcounted
  have hne : tried ++ new ≠ [] := List.ne_nil_of_length_pos (Nat.zero_lt_of_lt hlt)
  cases r with
  | error halt => exact ⟨hnext.booked hhistory, fun _ _ => hnext.answered hne⟩
  | ok         =>
    refine ⟨tried ++ new, _, hnext, h, hhistory, ?_, fun m hm => .inr ?_, hlt⟩
    · rw [List.length_append, hk]
      rfl
    · have := hmore rfl m hm
      rw [show c.nit = _ from hcounted, hk] at this
      exact this

theorem turn_triple (step : Coefficients K) (xatol fatol : Double K) (k : ℕ) (vertices : List (Vertex K n)) :
    Triple (Between budget k vertices) (turn objective budget step xatol fatol vertices)
      (fun r s => match r with
        | .inl _        => Booked s ∧ Answered budget s
        | .inr vertices => Between budget (k + 1) vertices s) (Over budget) := by
  refine Triple.of_exists (fun tried => Triple.of_exists (fun iterations => ?_))
  rintro s ⟨hs, h, hi, hk, hmaxiter, hlt⟩
  by_cases hconverged : converged vertices xatol fatol = true
  · rw [turn, if_pos hconverged]
    exact ⟨hs.booked hi, hs.answered (List.ne_nil_of_length_pos (Nat.zero_lt_of_lt hlt))⟩
  have hn := pos_of_not_converged h hconverged
  revert s
  rw [turn, if_neg hconverged]
  have hover : ∀ halt s, Ended (E := E) (S := S) budget iterations halt s → Over budget halt s := fun _ _ hs => hs.over hi
  refine Triple.bind ((move_triple step h).onError hover) (fun replacement => ?_)
  refine Triple.of_exists (fun new => Triple.of_fact (fun hm => ?_))
  refine Triple.bind ((replace_triple step.shrink hn h hm).onError hover) (fun vs => ?_)
  refine Triple.of_exists (fun tries => ?_)
  rintro s ⟨hs, hspanning⟩
  have hlt' : k + 1 < (tried ++ (new ++ tries)).length := by
    have := List.length_pos_iff.2 hm.tries
    rw [List.length_append, List.length_append]
    omega
  refine Triple.bind (endIteration_triple hi hk hlt' (hspanning.order hs.kept)) (fun _ => ?_) s hs
  exact Triple.pure _ (fun _ hs => hs)

theorem start_triple (x0 : Fin n → Double K) (given : Option (Fin (n + 1) → Fin n → Double K)) :
    Triple (Going budget [] []) (Prog.collect (vertex objective budget) (startingPoints x0 given))
      (fun vertices => Between budget 0 (order vertices)) (Over budget) := by
  refine Triple.weaken ((collect_triple id _).onError (fun _ _ hs => hs.over (.nil [])))
    (fun _ hs => hs) (fun vertices s hs => ?_)
  obtain ⟨hlength, hs⟩ := hs
  have hcount : vertices.length = n + 1 := by
    rw [hlength]
    unfold startingPoints
    split <;> simp
  have hspanning : Spanning vertices (vertices.map Vertex.entry) := by
    refine ⟨hcount, fun v hv => List.mem_map_of_mem hv, fun e he => ?_⟩
    obtain ⟨v, hv, rfl⟩ := List.mem_map.1 he
    exact ⟨v, hv, Double.le_refl (hs.kept _ he)⟩
  refine ⟨vertices.map Vertex.entry, [], hs, hspanning.order hs.kept, .nil _, rfl, fun _ _ => .inl rfl, ?_⟩
  rw [List.length_map, hcount]
  exact Nat.succ_pos n

omit [Double.Arithmetic K] in
theorem Between.booked {k : ℕ} (h : Between budget k vertices s) : Booked s ∧ Answered budget s := by
  obtain ⟨tried, iterations, hs, -, hi, -, -, hlt⟩ := h
  exact ⟨hs.booked hi, hs.answered (List.ne_nil_of_length_pos (Nat.zero_lt_of_lt hlt))⟩

variable (objective) in
/-- **Every run**, however many its turns. -/
theorem run_triple (turns : ℕ) (x0 : Fin n → Double K) (options : NelderMeadOptions K n) (xatol fatol : Double K) :
    Triple (Going budget [] []) (run objective budget turns x0 options xatol fatol)
      (fun _ s => Booked s ∧ Answered budget s) (Over budget) := by
  refine Triple.bind (start_triple x0 options.initialSimplex) (fun vertices => ?_)
  refine Triple.weaken (Triple.loop_always (Q := fun _ s => Booked s ∧ Answered budget s)
    (fun vs s => ∃ k, Between budget k vs s) (fun vs => Triple.of_exists (fun k => ?_)) turns (order vertices))
    (fun s hs => ⟨0, hs⟩) (fun r s hs => ?_)
  · refine Triple.weaken (turn_triple _ xatol fatol k vs) (fun _ hs => hs) (fun r s hs => ?_)
    cases r with
    | inl status => exact hs
    | inr vs'    => exact ⟨k + 1, hs⟩
  · cases r with
    | some status => exact hs
    | none        =>
      obtain ⟨vs, k, hs⟩ := hs
      exact hs.booked

variable (objective) in
/-- **A run ends**, when one of its budgets is finite. -/
theorem run_ends (x0 : Fin n → Double K) (options : NelderMeadOptions K n) (xatol fatol : Double K) {m turns : ℕ}
    (hm : budget.maxiter = some m ∨ budget.maxfev = some m) (hturns : m < turns) :
    Triple (Going budget [] []) (run objective budget turns x0 options xatol fatol) (fun r _ => ∃ status, r = some status)
      (Over budget) := by
  refine Triple.bind (start_triple x0 options.initialSimplex) (fun vertices => ?_)
  refine Triple.weaken (Triple.loop (Q := fun _ s => Booked s ∧ Answered budget s) (m + 1) (Between budget)
    (fun k vs s hs => ?_) (fun k vs => ?_) turns 0 (order vertices) (by omega)) (fun s hs => hs) (fun r s hs => ?_)
  · obtain ⟨tried, iterations, hs, -, -, -, hmaxiter, hlt⟩ := hs
    rcases hm with hm | hm
    · rcases hmaxiter m hm with rfl | hk
      · exact Nat.succ_pos m
      · omega
    · have := hs.within m hm
      omega
  · refine Triple.weaken (turn_triple _ xatol fatol k vs) (fun _ hs => hs) (fun r s hs => ?_)
    cases r <;> exact hs
  · obtain ⟨status, hr, -⟩ := hs
    exact ⟨status, hr⟩

omit [Double.Arithmetic K] in
theorem Tracked.isAnswer (h : Tracked tried s) (hne : tried ≠ []) (d : Tried K n) :
    IsAnswer s.counters.evaluations ((s.best.or s.first).getD d).1 ((s.best.or s.first).getD d).2 := by
  have hmem : ∀ {l : List (Tried K n)} {x : Fin n → Double K} {f : Double K},
      (x, (.ok f : Except E (Double K))) ∈ l.map (fun e => (e.1, .ok e.2)) → (x, f) ∈ l := mem_evaluations.1
  have hcases := @Incumbent.best_cases (Tried K n) admits _ below _ (fun a b hlt => Double.lt_asymm hlt)
    (fun a b c _ hb hc hlt hnot => Double.lt_of_lt_of_le hlt
      (Double.le_of_not_lt (isLost_of_isFinite hc) (isLost_of_isFinite hb) hnot)) tried
  rw [h.evaluations, h.best, h.first]
  rcases hcases with ⟨hnone, hno⟩ | ⟨before, e, after, hsplit, hbest, he, hbefore, hafter⟩
  · obtain ⟨e, tried', rfl⟩ := List.exists_cons_of_ne_nil hne
    rw [hnone]
    exact .inr ⟨fun y g hg => Bool.eq_false_iff.2 (hno (y, g) (hmem hg)), rfl⟩
  · rw [hbest, hsplit, List.map_append]
    refine .inl ⟨_, _, rfl, he, fun y g hg hf => hbefore (y, g) (hmem hg) hf, fun y g hg hf => ?_⟩
    exact Double.le_of_not_lt (isLost_of_isFinite hf) (isLost_of_isFinite he) (hafter (y, g) (hmem hg) hf)

omit [LinearOrder K] [Double.Arithmetic K] in
theorem budgets_finite (common : Common (Double K)) (n : ℕ) :
    ∃ m, (budgets common n).maxiter = some m ∨ (budgets common n).maxfev = some m := by
  rw [budgets]
  split
  · rename_i h
    rcases h with h | h
    · obtain ⟨m, hm⟩ := Option.isSome_iff_exists.1 h
      exact ⟨m, .inl hm⟩
    · obtain ⟨m, hm⟩ := Option.isSome_iff_exists.1 h
      exact ⟨m, .inr hm⟩
  · exact ⟨_, .inl rfl⟩

omit [LinearOrder K] [Double.Arithmetic K] in
theorem budgets_maxfev {common : Common (Double K)} (hn : 0 < n) (h : common.maxfev ≠ some 0) :
    (budgets common n).maxfev ≠ some 0 := by
  rw [budgets]
  split
  · exact h
  · intro h0
    have := Option.some.inj h0
    rw [budgetPerCoordinate] at this
    omega

section

variable {P : Search S E K n → Prop} {R : Halt E → Search S E K n → Prop} {s₀ : Search S E K n}
  {x : Prog (Search S E K n) (Halt E) (Option Termination)}

omit [LinearOrder K] [Double.Arithmetic K] in
theorem conclude_ends (x0 : Fin n → Double K) (h : Triple P x (fun r _ => ∃ status, r = some status) R) (hs : P s₀) :
    (conclude x0 (x s₀)).1 ≠ .ok none := by
  have hran := h s₀ hs
  rcases hx : x s₀ with ⟨(status | error) | status, s⟩
  · exact nofun
  · exact nofun
  · rw [hx] at hran
    obtain ⟨status, rfl⟩ := hran
    exact nofun

omit [Double.Arithmetic K] in
/-- **What a run returns.** -/
theorem conclude_spec (x0 : Fin n → Double K)
    (h : Triple P x (fun _ s => Booked s ∧ Answered budget s) (Over budget)) (hs : P s₀) (hmaxfev : budget.maxfev ≠ some 0) :
    Booked (conclude x0 (x s₀)).2 ∧ ∀ r, (conclude x0 (x s₀)).1 = .ok (some r) →
      IsAnswer (conclude x0 (x s₀)).2.counters.evaluations r.x r.value := by
  have hanswer : ∀ s : Search S E K n, Answered budget s → ∀ d : Tried K n,
      IsAnswer s.counters.evaluations ((s.best.or s.first).getD d).1 ((s.best.or s.first).getD d).2 := by
    rintro s ⟨tried, hs, hne⟩ d
    exact hs.isAnswer (fun h0 => hmaxfev (hne h0)) d
  have hran := h s₀ hs
  rcases hx : x s₀ with ⟨(status | error) | (_ | status), s⟩ <;> rw [hx] at hran
  · refine ⟨hran.1, fun r hr => ?_⟩
    cases hr
    exact hanswer s (hran.2 status rfl) _
  · exact ⟨hran.1, nofun⟩
  · exact ⟨hran.1, nofun⟩
  · refine ⟨hran.1, fun r hr => ?_⟩
    cases hr
    exact hanswer s hran.2 _

end

/-- **The simplex method**: every run ends, its iterations are closed, and what it returns is the first of the best. -/
theorem nelderMead_spec (objective : Objective S E (Double K) (Double K) n) (x0 : Fin n → Double K)
    (options : NelderMeadOptions K n) (common : Common (Double K)) (objective₀ : S) (hn : 0 < n)
    (hmaxfev : common.maxfev ≠ some 0) :
    (∃ limit, ∀ turns, limit ≤ turns → (minimize objective turns x0 options common objective₀).1 ≠ .ok none) ∧
    ∀ turns, Booked (minimize objective turns x0 options common objective₀).2 ∧
      ∀ result, (minimize objective turns x0 options common objective₀).1 = .ok (some result) →
        IsAnswer (minimize objective turns x0 options common objective₀).2.counters.evaluations result.x result.value := by
  have hstart : Going (budgets common n) [] [] (⟨.new objective₀, none, none, []⟩ : Search S E K n) :=
    ⟨⟨rfl, rfl, rfl, rfl⟩, nofun, fun m _ => Nat.zero_le m, rfl, rfl⟩
  obtain ⟨m, hm⟩ := budgets_finite common n
  refine ⟨⟨m + 1, fun turns hturns => ?_⟩, fun turns => ?_⟩
  · exact conclude_ends x0 (run_ends objective x0 options _ _ hm hturns) hstart
  · exact conclude_spec x0 (run_triple objective turns x0 options _ _) hstart (budgets_maxfev hn hmaxfev)

/-! ### Runs -/

instance : Double.Arithmetic ℚ := .exact ℚ

/-- An objective of one coordinate that nothing fails and nothing stops. -/
def plain (f : Double ℚ → Double ℚ) : Objective Unit Empty (Double ℚ) (Double ℚ) 1 where
  value x              := pure (f (x (Fin.last 0)))
  gradient _           := pure none
  callback _           := pure .continue
  constraintCount _    := 0
  constraintKind _ _   := .eq
  constraint _ _       := pure .nan
  constraintJacobian _ _ := pure none

/-- A run with its defaults from the point one, of one iteration at most. -/
def standard (f : Double ℚ → Double ℚ) (turns : ℕ) :
    Except Empty (Option (Minimize (Double ℚ) (Double ℚ) 1)) × Search Unit Empty ℚ 1 :=
  minimize (plain f) turns (fun _ => literal 1) ⟨none, none, false, none⟩ ⟨some 1, none, none⟩ ()

theorem nelderMead_spec_parabola :
    (∃ limit, ∀ turns, limit ≤ turns → (standard (fun x => x * x) turns).1 ≠ .ok none) ∧
      Booked (standard (fun x => x * x) 2).2 ∧
      ∀ result, (standard (fun x => x * x) 2).1 = .ok (some result) →
        IsAnswer (standard (fun x => x * x) 2).2.counters.evaluations result.x result.value :=
  have h := nelderMead_spec (plain (fun x => x * x)) (fun _ => literal 1) ⟨none, none, false, none⟩ ⟨some 1, none, none⟩ ()
    Nat.one_pos nofun
  ⟨h.1, h.2 2⟩

/-- Where nothing is finite, no value that is reported is. -/
theorem barrier_reported : ¬ ∀ i ∈ (standard (fun _ => infinity) 1).2.iterations, i.reported.f.isFinite = true := by
  decide +kernel

end NelderMead
end Optimize
end Itofin
