import Itofin.Optimize.Global
/-!
# Search — the best and the first point of a run

The `Search` that `differential_evolution.rs`, `particle_swarm.rs`, `firefly.rs` and `simulated_annealing.rs` have a copy of
each, and what surrounds their `run`: the first population, and the result.

The best point is the one that a look at all the evaluations finds (`Tracked`), in every state of a run and in the one in
which it ends.
-/
namespace Itofin
namespace Optimize

open Effect
open Format (Number)
open Counters (Accounted)

section

variable (S E : Type) {K : Type} [Field K] [LinearOrder K] (R : Format K) (n : ℕ)

structure Search where
  counters : Counters S E R.Number R.Number n
  best     : Option (Point R n × R.Number)
  first    : Option (Point R n × R.Number)

/-- What a method runs. -/
abbrev Searching : Type → Type := Prog (Search S E R n) (Halt E)

end

variable {S E K : Type} [Field K] [LinearOrder K] {R : Format K} {n : ℕ}

/-- **The first point with the smallest finite value**, or the first point if no value was finite. -/
def IsAnswer (evaluations : List (Evaluation E R.Number R.Number n)) (x : Point R n) (f : R.Number) : Prop :=
  (∃ before after, evaluations = before ++ (x, .ok f) :: after ∧ f.IsFinite ∧
    (∀ y g, (y, .ok g) ∈ before → g.IsFinite → f < g) ∧ (∀ y g, (y, .ok g) ∈ after → g.IsFinite → f ≤ g)) ∨
  ((∀ y g, (y, .ok g) ∈ evaluations → ¬ g.IsFinite) ∧ evaluations.head? = some (x, .ok f))

/-! ## Populations -/

def minimum (values : List R.Number) : R.Number := values.foldl Number.min R.infinity

def maximum (values : List R.Number) : R.Number := values.foldl Number.max (-R.infinity)

namespace Search

/-- A program on the counters. -/
def onCounters {α : Type} (x : Counting S E R n α) : Searching S E R n α :=
  x.zoom counters (fun counters search => { search with counters })

/-- The better one of the best point and a new one. -/
def keep (best : Option (Point R n × R.Number)) (x : Point R n) (value : R.Number) : Option (Point R n × R.Number) :=
  if best.all (fun best => value < best.2) then some (x, value) else best

def value (objective : Objective S E R.Number R.Number n) (budget : Common R.Number) (x : Point R n) :
    Searching S E R n R.Number := do
  let value ← onCounters (Counters.value objective budget x)
  Prog.modify (fun search => { search with first := search.first.or (some (x, value)) })
  Prog.require (value.isFinite = true) (.terminated .nonfinite)
  Prog.modify (fun search => { search with best := keep search.best x value })
  return value

/-- `if let Some((x, fun)) = &search.best { search.counters.end_iteration(objective, x, *fun)?; }` -/
def endIteration (objective : Objective S E R.Number R.Number n) (budget : Common R.Number) : Searching S E R n Unit := do
  match (← Prog.get).best with
  | none        => pure ()
  | some (x, f) => onCounters (Counters.endIteration objective budget x f)

/-- The point of a row of the first population. -/
def point (options : GlobalOptions R n) (problem : Problem R n) (sample : Random → Point R n × Random) (row : ℕ)
    (random : Random) : Point R n × Random :=
  match options.initialPopulation with
  | some points => (points.getD row problem.x0, random)
  | none        => if row = 0 then (problem.x0, random) else sample random

/-- The first population, of members made of a point and its value. -/
def populate {M : Type} (objective : Objective S E R.Number R.Number n) (problem : Problem R n) (bounds : Bounds R n)
    (options : GlobalOptions R n) (budget : Common R.Number) (sample : Random → Point R n × Random)
    (member : Point R n → R.Number → M) : Searching S E R n (List M × Random) :=
  (List.range (options.populationCount bounds)).foldlM (fun drawn row => do
    let (x, random) := point options problem sample row drawn.2
    let f ← value objective budget x
    return (drawn.1 ++ [member x f], random)) ([], ⟨options.seed⟩)

/-- The result of a run. -/
def conclude (x0 : Point R n) (run : Searching S E R n (Option Termination)) :
    Minimizing S E R n := fun c =>
  let result (search : Search S E R n) (status : Termination) : Minimize R.Number R.Number n :=
    let (x, f) := (search.best.or search.first).getD (x0, R.nan)
    ⟨x, f, search.counters.nit, search.counters.nfev, search.counters.njev, status⟩
  match run ⟨c, none, none⟩ with
  | (.ok none, search)                     => (.ok none, search.counters)
  | (.ok (some status), search)            => (.ok (some (result search status)), search.counters)
  | (.error (.terminated status), search)  => (.ok (some (result search status)), search.counters)
  | (.error (.failed error), search)       => (.error (.objective error), search.counters)

/-- A method within its budgets, from the run of a box. -/
def minimize (problem : Problem R n) (common : Common R.Number)
    (run : Bounds R n → Common R.Number → Searching S E R n (Option Termination)) :
    Minimizing S E R n := do
  let budget ← Prog.lift ((budgets common).mapError .invalidInput)
  match problem.bounds with
  | none        => Prog.fail (.invalidInput .missingGlobalBounds)
  | some bounds => conclude problem.x0 (run bounds budget)

/-! ## The best of the evaluations -/

def bestOf (tried : List (Point R n × R.Number)) : Option (Point R n × R.Number) :=
  tried.foldl (fun best e => if e.2.isFinite then keep best e.1 e.2 else best) none

theorem bestOf_append (tried : List (Point R n × R.Number)) (x : Point R n) (f : R.Number) :
    bestOf (tried ++ [(x, f)]) = if f.isFinite then keep (bestOf tried) x f else bestOf tried := by
  rw [bestOf, List.foldl_append, bestOf]
  rfl

theorem keep_isSome (best : Option (Point R n × R.Number)) (x : Point R n) (f : R.Number) : (keep best x f).isSome := by
  rw [keep]
  split
  · rfl
  · rename_i h
    cases best with
    | none      => exact absurd rfl h
    | some best => rfl

/-- **What the best is**: the first of the finite values that no other is below. -/
theorem bestOf_cases (tried : List (Point R n × R.Number)) :
    (bestOf tried = none ∧ ∀ e ∈ tried, ¬ e.2.IsFinite) ∨
      ∃ before e after, tried = before ++ e :: after ∧ bestOf tried = some e ∧ e.2.IsFinite ∧
        (∀ a ∈ before, a.2.IsFinite → e.2 < a.2) ∧ ∀ a ∈ after, a.2.IsFinite → e.2 ≤ a.2 := by
  induction tried using List.reverseRecOn with
  | nil             => exact .inl ⟨rfl, nofun⟩
  | append_singleton tried e ih =>
    obtain ⟨x, f⟩ := e
    rw [bestOf_append]
    by_cases hf : f.isFinite = true
    · have hfinite := Number.isFinite_iff.1 hf
      rw [if_pos hf]
      rcases ih with ⟨hnone, hno⟩ | ⟨before, b, after, hsplit, hbest, hb, hbefore, hafter⟩
      · refine .inr ⟨tried, (x, f), [], rfl, ?_, hfinite, fun a ha hfa => absurd hfa (hno a ha), nofun⟩
        rw [hnone]
        rfl
      · rw [hbest, keep]
        by_cases hlt : f < b.2
        · refine .inr ⟨tried, (x, f), [], rfl, if_pos (decide_eq_true hlt), hfinite, fun a ha hfa => ?_, nofun⟩
          rw [hsplit, List.mem_append, List.mem_cons] at ha
          rcases ha with ha | rfl | ha
          · exact Number.lt_of_lt_of_le hlt (Number.le_of_lt (hbefore a ha hfa))
          · exact hlt
          · exact Number.lt_of_lt_of_le hlt (hafter a ha hfa)
        · refine .inr ⟨before, b, after ++ [(x, f)], ?_, if_neg (fun h => hlt (of_decide_eq_true h)), hb, hbefore,
            fun a ha hfa => ?_⟩
          · rw [hsplit, List.append_assoc, List.cons_append]
          · rcases List.mem_append.1 ha with ha | ha
            · exact hafter a ha hfa
            · rw [List.mem_singleton.1 ha]
              exact Number.le_of_not_lt hfinite.not_isNan hb.not_isNan hlt
    · have hnot : ¬ f.IsFinite := fun h => hf (Number.isFinite_iff.2 h)
      rw [if_neg hf]
      rcases ih with ⟨hnone, hno⟩ | ⟨before, b, after, hsplit, hbest, hb, hbefore, hafter⟩
      · refine .inl ⟨hnone, fun a ha => ?_⟩
        rcases List.mem_append.1 ha with ha | ha
        · exact hno a ha
        · rwa [List.mem_singleton.1 ha]
      · refine .inr ⟨before, b, after ++ [(x, f)], ?_, hbest, hb, hbefore, fun a ha hfa => ?_⟩
        · rw [hsplit, List.append_assoc, List.cons_append]
        · rcases List.mem_append.1 ha with ha | ha
          · exact hafter a ha hfa
          · rw [List.mem_singleton.1 ha] at hfa
            exact absurd hfa hnot

/-! ## What a run keeps -/

/-- **The best and the first are those of the evaluations.** -/
def Tracked (search : Search S E R n) : Prop :=
  ∃ tried : List (Point R n × R.Number), search.counters.evaluations = tried.map (fun e => (e.1, .ok e.2)) ∧
    search.first = tried.head? ∧ search.best = bestOf tried

/-- **A run after `k` iterations.** -/
structure Going (budget : Common R.Number) (inside : Point R n → Prop) (k : ℕ) (search : Search S E R n) : Prop where
  accounted : Accounted budget inside search.counters
  tracked   : search.Tracked
  nit       : search.counters.nit = k
  room      : ∀ m ∈ budget.maxiter, k < m

/-- A run that has a best point. -/
def Found (budget : Common R.Number) (inside : Point R n → Prop) (k : ℕ) (search : Search S E R n) : Prop :=
  search.Going budget inside k ∧ search.best.isSome

/-- What holds after a turn of the loop of a run, which is the last one or makes an iteration. -/
def Turned {α : Type} (budget : Common R.Number) (inside : Point R n → Prop) (k : ℕ) (good : α → Prop) :
    Termination ⊕ α → Search S E R n → Prop
  | .inl _, search => search.Found budget inside k ∨ search.Found budget inside (k + 1)
  | .inr a, search => search.Found budget inside (k + 1) ∧ good a

/-- **What holds at the end of a run**, with or without a result. -/
def Ended (budget : Common R.Number) (inside : Point R n → Prop) : Halt E → Search S E R n → Prop
  | .terminated _, search => Accounted budget inside search.counters ∧ search.Tracked ∧ search.counters.evaluations ≠ []
  | .failed _, search     => Accounted budget inside search.counters

/-- **What a method leaves**: the answer of its evaluations. -/
def Concluded (budget : Common R.Number) (inside : Point R n → Prop) (result : Option (Minimize R.Number R.Number n))
    (c : Counters S E R.Number R.Number n) : Prop :=
  Accounted budget inside c ∧ ∃ m, result = some m ∧ IsAnswer c.evaluations m.x m.value ∧ m.nit = c.nit ∧ m.nfev = c.nfev

section

variable {objective : Objective S E R.Number R.Number n} {budget : Common R.Number} {inside : Point R n → Prop} {k : ℕ}
  {search : Search S E R n}  {x : Point R n} {f : R.Number}

theorem Tracked.best_cases (h : search.Tracked) :
    (search.best = none ∧ ∀ y g, (y, .ok g) ∈ search.counters.evaluations → ¬ g.IsFinite) ∨
      ∃ x f before after, search.best = some (x, f) ∧
        search.counters.evaluations = before ++ (x, .ok f) :: after ∧ f.IsFinite ∧
        (∀ y g, (y, .ok g) ∈ before → g.IsFinite → f < g) ∧ ∀ y g, (y, .ok g) ∈ after → g.IsFinite → f ≤ g := by
  obtain ⟨tried, hevaluations, -, hbest⟩ := h
  have hmem : ∀ {l : List (Point R n × R.Number)} {y g},
      ((y, .ok g) : Evaluation E R.Number R.Number n) ∈ l.map (fun e => (e.1, .ok e.2)) → (y, g) ∈ l := by
    intro l y g hy
    obtain ⟨e, he, heq⟩ := List.mem_map.1 hy
    obtain ⟨rfl, hg⟩ := Prod.mk.inj heq
    rwa [← Except.ok.inj hg]
  rw [hevaluations, hbest]
  rcases bestOf_cases tried with ⟨hnone, hno⟩ | ⟨before, ⟨x, f⟩, after, rfl, hsome, hf, hbefore, hafter⟩
  · exact .inl ⟨hnone, fun y g hy => hno _ (hmem hy)⟩
  · refine .inr ⟨x, f, _, _, hsome, ?_, hf, fun y g hy => hbefore _ (hmem hy), fun y g hy => hafter _ (hmem hy)⟩
    rw [List.map_append, List.map_cons]

/-- **The result of a run is the answer.** -/
theorem Tracked.isAnswer (h : search.Tracked) (hne : search.counters.evaluations ≠ []) (x0 : Point R n) :
    IsAnswer search.counters.evaluations ((search.best.or search.first).getD (x0, R.nan)).1
      ((search.best.or search.first).getD (x0, R.nan)).2 := by
  rcases h.best_cases with ⟨hnone, hno⟩ | ⟨x, f, before, after, hsome, hsplit, hf, hbefore, hafter⟩
  · refine .inr ⟨hno, ?_⟩
    obtain ⟨tried, hevaluations, hfirst, -⟩ := h
    rw [hevaluations] at hne
    cases tried with
    | nil      => exact absurd rfl hne
    | cons e l => rw [hnone, hfirst, hevaluations]; rfl
  · rw [hsome]
    exact .inl ⟨before, after, hsplit, hf, hbefore, hafter⟩

/-- The best point was evaluated. -/
theorem Going.best_inside (h : search.Going budget inside k) (hbest : search.best = some (x, f)) : inside x := by
  rcases h.tracked.best_cases with ⟨hnone, -⟩ | ⟨y, g, before, after, hsome, hsplit, -⟩
  · exact nomatch hnone.symm.trans hbest
  · obtain ⟨rfl, rfl⟩ := Prod.mk.inj (Option.some.inj (hsome.symm.trans hbest))
    refine h.accounted.inside (y, .ok g) ?_
    rw [hsplit]
    exact List.mem_append_right _ List.mem_cons_self

theorem Found.evaluations_ne (h : search.Found budget inside k) : search.counters.evaluations ≠ [] := by
  rcases h.1.tracked.best_cases with ⟨hnone, -⟩ | ⟨y, g, before, after, -, hsplit, -⟩
  · have hsome := h.2
    rw [hnone] at hsome
    exact nomatch hsome
  · rw [hsplit]
    exact List.append_ne_nil_of_right_ne_nil _ (List.cons_ne_nil _ _)

theorem Found.ended (h : search.Found budget inside k) (status : Termination) :
    Ended budget inside (.terminated status : Halt E) search :=
  ⟨h.1.accounted, h.1.tracked, h.evaluations_ne⟩

theorem Tracked.value (h : search.Tracked) (f : R.Number) (o : S) :
    Tracked { counters := { search.counters with
                nfev := search.counters.nfev + 1
                objective := o
                evaluations := search.counters.evaluations ++ [(x, .ok f)] }
              best     := if f.isFinite then keep search.best x f else search.best
              first    := search.first.or (some (x, f)) } := by
  obtain ⟨tried, hevaluations, hfirst, hbest⟩ := h
  refine ⟨tried ++ [(x, f)], ?_, ?_, ?_⟩
  · rw [List.map_append, ← hevaluations]
    rfl
  · rw [hfirst]
    cases tried <;> rfl
  · rw [bestOf_append, ← hbest]

/-- **An evaluation within the budget, at a point that may be evaluated.** -/
theorem value_triple (hpositive : ∀ m ∈ budget.maxfev, 0 < m) (hx : inside x) :
    Triple (Going budget inside k) (value objective budget x) (fun _ search => search.Found budget inside k)
      (Ended budget inside) := by
  intro search h
  rcases Counters.value_cases objective budget x search.counters with
    ⟨⟨m, hm, hle⟩, hrun⟩ | ⟨hbudget, f, o, hrun⟩
  · have hvalue : value objective budget x search = (.error (.terminated .maxEvaluations), search) := by
      simp [value, onCounters, Prog.zoom, hrun]
    rw [hvalue]
    refine ⟨h.accounted, h.tracked, fun hnil => ?_⟩
    have hnfev := h.accounted.nfev
    rw [hnil] at hnfev
    exact (hpositive m hm).not_ge (hle.trans hnfev.le)
  · have haccounted := h.accounted.value hx hbudget f o
    cases f with
    | error e =>
      have hvalue : (value objective budget x search) = (.error (.failed e), { search with
          counters := { search.counters with
            nfev := search.counters.nfev + 1
            objective := o
            evaluations := search.counters.evaluations ++ [(x, .error e)] } }) := by
        simp [value, onCounters, Prog.zoom, hrun, Except.mapError]
      rw [hvalue]
      exact haccounted
    | ok f    =>
      have htracked := h.tracked.value (x := x) f o
      by_cases hf : f.isFinite = true
      · rw [if_pos hf] at htracked
        have hvalue : (value objective budget x search) = (.ok f, {
            counters := { search.counters with
              nfev := search.counters.nfev + 1
              objective := o
              evaluations := search.counters.evaluations ++ [(x, .ok f)] }
            best     := keep search.best x f
            first    := search.first.or (some (x, f)) }) := by
          simp [value, onCounters, Prog.zoom, hrun, Except.mapError, hf]
        rw [hvalue]
        exact ⟨⟨haccounted, htracked, h.nit, h.room⟩, keep_isSome _ _ _⟩
      · rw [if_neg hf] at htracked
        have hvalue : (value objective budget x search) = (.error (.terminated .nonfinite), {
            counters := { search.counters with
              nfev := search.counters.nfev + 1
              objective := o
              evaluations := search.counters.evaluations ++ [(x, .ok f)] }
            best     := search.best
            first    := search.first.or (some (x, f)) }) := by
          simp [value, onCounters, Prog.zoom, hrun, Except.mapError, hf]
        rw [hvalue]
        exact ⟨haccounted, htracked, List.append_ne_nil_of_right_ne_nil _ (List.cons_ne_nil _ _)⟩

/-- **An iteration of a run.** -/
theorem endIteration_triple : Triple (Found budget inside k) (endIteration objective budget)
    (fun _ search => search.Found budget inside (k + 1)) (Ended budget inside) := by
  intro search h
  obtain ⟨⟨x, f⟩, hbest⟩ := Option.isSome_iff_exists.1 h.2
  obtain ⟨r, o, hrun, hroom⟩ := @Counters.endIteration_run _ _ _ _ _ objective budget x f search.counters
  have hiteration : endIteration objective budget search =
      (r, { search with counters := { search.counters with nit := search.counters.nit + 1, objective := o } }) := by
    simp [endIteration, hbest, onCounters, Prog.zoom, hrun]
  have haccounted : Accounted budget inside
      ({ search.counters with nit := search.counters.nit + 1, objective := o } : Counters S E R.Number R.Number n) :=
    { h.1.accounted with maxiter := fun m hm => h.1.nit ▸ h.1.room m hm }
  have htracked : Tracked
      { search with counters := { search.counters with nit := search.counters.nit + 1, objective := o } } := h.1.tracked
  rw [hiteration]
  rcases r with (status | error) | _
  · exact ⟨haccounted, htracked, h.evaluations_ne⟩
  · exact haccounted
  · exact ⟨⟨haccounted, htracked, congrArg (· + 1) h.1.nit, h.1.nit ▸ hroom rfl⟩, h.2⟩

theorem point_inside {problem : Problem R n} {options : GlobalOptions R n} {sample : Random → Point R n × Random}
    (hx0 : inside problem.x0) (hpoints : ∀ points, options.initialPopulation = some points → ∀ x ∈ points, inside x)
    (hsample : ∀ random, inside (sample random).1) (row : ℕ) (random : Random) :
    inside (point options problem sample row random).1 := by
  rw [point]
  cases hpopulation : options.initialPopulation with
  | some points =>
    change inside (points.getD row problem.x0)
    rw [List.getD_eq_getElem?_getD]
    cases hrow : points[row]? with
    | some x => exact hpoints points hpopulation x (List.mem_of_getElem? hrow)
    | none   => exact hx0
  | none        =>
    change inside (if row = 0 then (problem.x0, random) else sample random).1
    split
    · exact hx0
    · exact hsample random

/-- **The first population**: its points are evaluated, and may be. -/
theorem populate_triple {M : Type} {problem : Problem R n} {bounds : Bounds R n} {options : GlobalOptions R n}
    {sample : Random → Point R n × Random} {member : Point R n → R.Number → M} (good : M → Prop)
    (hpositive : ∀ m ∈ budget.maxfev, 0 < m) (hsize : options.populationCount bounds ≠ 0) (hx0 : inside problem.x0)
    (hpoints : ∀ points, options.initialPopulation = some points → ∀ x ∈ points, inside x)
    (hsample : ∀ random, inside (sample random).1) (hmember : ∀ x f, inside x → good (member x f)) :
    Triple (Going budget inside k) (populate objective problem bounds options budget sample member)
      (fun drawn search => search.Found budget inside k ∧ ∀ m ∈ drawn.1, good m) (Ended budget inside) := by
  -- the first row makes the first best point, which the other rows keep
  have hrow : ∀ (drawn : List M × Random) (row : ℕ), Triple
      (fun search : Search S E R n => search.Going budget inside k ∧ ∀ m ∈ drawn.1, good m)
      (do
        let (x, random) := point options problem sample row drawn.2
        let f ← value objective budget x
        return (drawn.1 ++ [member x f], random))
      (fun drawn search => search.Found budget inside k ∧ ∀ m ∈ drawn.1, good m) (Ended budget inside) := by
    intro drawn row
    refine Triple.of_fact (fun hgood => ?_)
    have hinside := point_inside hx0 hpoints hsample row drawn.2
    refine Triple.bind (value_triple hpositive hinside) (fun f => Triple.pure _ (fun search h => ⟨h, fun m hm => ?_⟩))
    rcases List.mem_append.1 hm with hm | hm
    · exact hgood m hm
    · rw [List.mem_singleton.1 hm]
      exact hmember _ f hinside
  obtain ⟨size, hcount⟩ := Nat.exists_eq_succ_of_ne_zero hsize
  rw [populate, hcount, List.range_succ_eq_map, List.foldlM_cons]
  refine Triple.bind ((hrow _ 0).weaken (fun _ h => ⟨h, nofun⟩) (fun _ _ h => h)) (fun drawn => ?_)
  exact Triple.foldlM (fun drawn search => search.Found budget inside k ∧ ∀ m ∈ drawn.1, good m) _ drawn
    (fun drawn row _ => (hrow drawn row).weaken (fun _ h => ⟨h.1.1, h.2⟩) (fun _ _ h => h))

theorem going_new (hpositive : ∀ m ∈ budget.maxiter, 0 < m) (s : S) :
    Going budget inside 0 (⟨Counters.new s, none, none⟩ : Search S E R n) :=
  ⟨Counters.accounted_new s, ⟨[], rfl, rfl, rfl⟩, rfl, hpositive⟩

/-- **The loop of a run ends**, within as many turns as there may be iterations, when every turn ends the run or an
iteration. -/
theorem loop_triple {α : Type} {body : α → Searching S E R n (Termination ⊕ α)} (good : α → Prop) {limit : ℕ}
    (hlimit : budget.maxiter = some limit)
    (hbody : ∀ k a, good a → Triple (Found budget inside k) (body a) (Turned budget inside k good) (Ended budget inside))
    {turns : ℕ} (hturns : limit ≤ turns) (a : α) :
    Triple (fun search : Search S E R n => search.Found budget inside 0 ∧ good a) (Prog.loop body turns a)
      (fun r search => ∃ status, r = some status ∧ Ended budget inside (.terminated status : Halt E) search)
      (Ended budget inside) := by
  refine Triple.loop limit (fun k a (search : Search S E R n) => search.Found budget inside k ∧ good a)
    (Q := fun status search => Ended budget inside (.terminated status : Halt E) search)
    (fun k a search h => h.1.1.room limit hlimit) (fun k a => ?_) turns 0 a (by omega)
  refine Triple.of_fact (fun hgood => (hbody k a hgood).weaken (fun _ h => h) (fun r search h => ?_))
  cases r with
  | inl status => exact h.elim (fun h => h.ended status) (fun h => h.ended status)
  | inr a      => exact h

/-- **The result of a run**, when the run ends. -/
theorem conclude_triple {x0 : Point R n} {s : S} {run : Searching S E R n (Option Termination)}
    (hrun : Triple (· = ⟨Counters.new s, none, none⟩) run
      (fun r search => ∃ status, r = some status ∧ Ended budget inside (.terminated status : Halt E) search)
      (Ended budget inside)) :
    Triple (· = Counters.new s) (conclude x0 run) (Concluded budget inside) (fun _ c => Accounted budget inside c) := by
  rintro c rfl
  have h := hrun _ rfl
  rw [conclude]
  rcases hrun : run ⟨Counters.new s, none, none⟩ with ⟨(status | error) | status, search⟩ <;> rw [hrun] at h
  · exact ⟨h.1, _, rfl, h.2.1.isAnswer h.2.2 x0, rfl, rfl⟩
  · exact h
  · obtain ⟨status, rfl, h⟩ := h
    exact ⟨h.1, _, rfl, h.2.1.isAnswer h.2.2 x0, rfl, rfl⟩

/-- **What a method does**, whose runs end. -/
theorem minimize_triple {problem : Problem R n} {bounds : Bounds R n} {common : Common R.Number} (s : S)
    {run : Bounds R n → Common R.Number → Searching S E R n (Option Termination)}
    (hbounds : problem.bounds = some bounds)
    (hrun : (∀ m ∈ (common.resolved 1000 1000000).maxfev, 0 < m) →
      Triple (Going (common.resolved 1000 1000000) inside 0) (run bounds (common.resolved 1000 1000000))
        (fun r search => ∃ status, r = some status ∧
          Ended (common.resolved 1000 1000000) inside (.terminated status : Halt E) search)
        (Ended (common.resolved 1000 1000000) inside)) :
    Triple (· = Counters.new s) (minimize problem common run) (Concluded (common.resolved 1000 1000000) inside)
      (fun _ c => Accounted (common.resolved 1000 1000000) inside c) := by
  refine Triple.bind (Q := fun budget c => c = Counters.new s ∧ budgets common = .ok budget)
    (Triple.lift (fun budget c hok hc => ⟨hc, mapError_eq_ok.1 hok⟩) (fun _ c _ hc => hc ▸ Counters.accounted_new s))
    (fun budget => Triple.of_fact (fun hbudget => ?_))
  obtain ⟨rfl, hiter, hfev⟩ := budgets_eq_ok hbudget
  rw [hbounds]
  refine conclude_triple ((hrun ?_).weaken ?_ (fun _ _ h => h))
  · rintro m ⟨⟩
    exact hfev
  · rintro search rfl
    refine going_new ?_ s
    rintro m ⟨⟩
    exact hiter

end

end Search
end Optimize
end Itofin
