import Itofin.TermStructures.GlobalBootstrapVars
/-!
# GlobalBootstrap.Layout — what every coordinate of the solve is

A trial vector is the interior nodes followed by the additional variables, and a residual vector the alive helpers followed
by the penalties.  `Stable` is a property of the nodes that all their writes keep; `Laid`, that the nodes are those of the
grid and the reference node follows the convention, is one.  A setup lays the nodes out (`setup_lays`), a trial point and
the solution are written alike (`setArgument_written`, `setToValid_written`), and `lays_out` puts them together on every
curve that calculations reach.
-/
namespace Itofin

open Effect

namespace GlobalBootstrap

section Stable

variable {K I W : Type} [SqrtFloats K]

/-- A property of so many nodes that the writes keep. -/
structure Stable (G : GlobalBootstrap K I W) (n : ℕ) (P : CurveData K I → Prop) : Prop where
  length : ∀ {cd}, P cd → cd.data.length = n
  written : ∀ {cd} value {i}, i + 1 < n → P cd → P (G.writeNode value (i + 1) cd)
  rebuilt : ∀ {cd} interpolation, P cd → P { cd with interpolation := interpolation }
  marked : ∀ {cd} valid, P cd → P { cd with valid := valid }

namespace Stable

variable {G : GlobalBootstrap K I W} {n : ℕ} {P : CurveData K I → Prop} (h : Stable G n P)
include h

theorem writeNodes : ∀ (i : ℕ) (xs : List K) (cd : CurveData K I), i + xs.length < n → P cd → P (G.writeNodes i xs cd)
  | _, [], _, _, hcd       => hcd
  | i, _ :: xs, _, hn, hcd => by
    rw [List.length_cons] at hn
    exact writeNodes (i + 1) xs _ (by omega) (h.written _ (by omega) hcd)

theorem seed (validData : Bool) : ∀ (is : List ℕ) (cd : CurveData K I), (∀ i ∈ is, i + 1 < n) → P cd →
    P (G.seed validData is cd).1
  | [], _, _, hcd       => hcd
  | i :: is, _, hn, hcd => seed validData is _ (fun j hj => hn j (List.mem_cons_of_mem _ hj))
    (h.written _ (hn i List.mem_cons_self) hcd)

omit [SqrtFloats K] in
theorem rebuild (upto : ℕ) : Keeps P (G.rebuild upto) := by
  refine Keeps.bind Keeps.get fun cd => Keeps.bind (Keeps.lift _) fun interpolation => ?_
  exact Keeps.modify fun cd hcd => h.rebuilt _ hcd

theorem place {interior : ℕ} (hn : interior < n) (x : List K) : Keeps P (G.place interior x) := by
  refine Keeps.bind (Keeps.require _ _) fun _ => Keeps.bind (Keeps.modify fun cd hcd => ?_) fun _ => h.rebuild _
  refine h.writeNodes 0 _ cd ?_ hcd
  rw [List.length_take]
  omega

variable {state : GlobalBootstrapState K I W} (hn : state.interior < n)
include hn

theorem setArgument (x : List K) : Keeps (fun s => P s.cd) (G.setArgument state x) :=
  Keeps.bind (onNodes_keeps (h.place hn x)) fun _ => updateVariables_keeps _

theorem tryValues (x : List K) : Keeps (fun s => P s.cd) (G.tryValues state x) :=
  Keeps.bind (h.setArgument hn x) fun _ => evaluate_keeps state

theorem values (x : List K) : Keeps (fun c => P c.curve.cd) (G.values state x) := by
  intro c hc
  have htry := h.tryValues hn x c.curve hc
  unfold GlobalBootstrap.values
  rcases hrun : G.tryValues state x c.curve with ⟨(e | _) | v, s⟩ <;> rw [hrun] at htry <;> exact htry

theorem minimize (minimizer : Minimizer K) (guess : List K) :
    Keeps (fun s => P s.cd) (G.minimize state minimizer guess) := by
  intro s hs
  have hvalues (x : List K) := (h.values hn x).triple
  have hvalue (x : List K) : Triple (fun c => P c.curve.cd) ((CostFunction.ofValues (G.values state)).value x)
      (fun _ c => P c.curve.cd) (fun _ c => P c.curve.cd) := by
    refine Triple.bind (hvalues x) fun v => Triple.bind (Keeps.require _ _).triple fun _ => ?_
    exact Triple.pure _ fun _ hs => hs
  have hrun := (Problem.minimize_keeps hvalue hvalues minimizer ⟨guess, 0⟩).after
    (s := ⟨{ s with penaltyLen := 0 }, none⟩) hs
  unfold GlobalBootstrap.minimize
  rcases hm : Problem.minimize (CostFunction.ofValues (G.values state)) minimizer ⟨guess, 0⟩
    ⟨{ s with penaltyLen := 0 }, none⟩ with ⟨e | ⟨ended, problem⟩, c⟩ <;> rw [hm] at hrun <;> exact hrun

theorem setToValid (solution : List K) : Keeps (fun s => P s.cd) (G.setToValid state solution) := by
  refine Keeps.bind (onNodes_keeps ?_) fun _ => updateVariables_keeps _
  refine Keeps.bind (h.place hn solution) fun _ => Keeps.modify fun cd hcd => ?_
  exact h.marked true hcd

omit hn

/-- What `setup` does after the grid. -/
theorem start (grid : Grid K I W) (hgrid : grid.dates.length = n) (validData : Bool) :
    Keeps (fun s => P s.cd) (G.start grid validData) := by
  refine Keeps.bind (handOver_keeps grid) fun _ => Keeps.bind (initializeVariables_keeps _) fun additionalGuesses => ?_
  intro s hs
  refine Keeps.bind (onNodes_keeps (h.rebuild _)) (fun _ => Keeps.pure _) _ (h.seed validData _ s.cd ?_ hs)
  intro i hi
  rw [List.mem_range] at hi
  omega

end Stable

end Stable

/-! ## The grid -/

section Grid

variable {K I W : Type} [SqrtFloats K]

theorem sorted_merged {α : Type} [LinearOrder α] [DecidableEq α] (l : List α) :
    ((l.insertionSort (· ≤ ·)).destutter (· ≠ ·)).Pairwise (· < ·) ∧
      ∀ a, a ∈ (l.insertionSort (· ≤ ·)).destutter (· ≠ ·) ↔ a ∈ l := by
  have hsorted := List.pairwise_insertionSort (· ≤ ·) l
  rw [hsorted.destutter_eq_dedup]
  constructor
  · have hle := hsorted.sublist (List.dedup_sublist _)
    exact hle.imp₂ (fun a b hab hne => lt_of_le_of_ne hab hne) (List.nodup_dedup _)
  · intro a
    rw [List.mem_dedup, List.mem_insertionSort]

/-- The weights of the instruments, 1 unless given. -/
def weights (G : GlobalBootstrap K I W) : List K :=
  if G.instrumentWeights = [] then List.replicate G.instruments.length (Floats.ofNat 1) else G.instrumentWeights

/-- **The pillars**: the first date, the alive pillars and the additional dates after it, in order. -/
structure Pillars (G : GlobalBootstrap K I W) (firstDate : Date) (dates : List Date) (times : List K) : Prop where
  initialDate : G.initialDate = .ok firstDate
  increasing : dates.Pairwise (· < ·)
  members : ∃ additionalDates, G.additionalDates.getD (.ok []) = .ok additionalDates ∧ ∀ date, date ∈ dates ↔
    date = firstDate ∨ firstDate < date ∧ ((∃ helper ∈ G.instruments, helper.pillarDate = date) ∨ date ∈ additionalDates)
  times : dates.mapM G.timeFromReference = .ok times

/-- **The helpers**: those alive in their order, each with its own weight. -/
structure Alive (G : GlobalBootstrap K I W) (firstDate : Date) (alive : List (RateHelper K I W)) (aliveWeights : List K) :
    Prop where
  sized : G.weights.length = G.instruments.length
  helpers : alive = G.instruments.filter (fun helper => firstDate < helper.pillarDate)
  weighted : alive.zip aliveWeights = (G.instruments.zip G.weights).filter (fun p => firstDate < p.1.pillarDate)
  length : aliveWeights.length = alive.length

theorem weights_length {G : GlobalBootstrap K I W}
    (h : G.instrumentWeights = [] ∨ G.instrumentWeights.length = G.instruments.length) :
    G.weights.length = G.instruments.length := by
  unfold weights
  split
  · exact List.length_replicate
  · rename_i hne
    exact h.resolve_left hne

theorem alive_spec {G : GlobalBootstrap K I W} (firstDate : Date) (h : G.weights.length = G.instruments.length) :
    Alive G firstDate
      (((G.instruments.zip G.weights).filter (fun p => firstDate < p.1.pillarDate)).map Prod.fst)
      (((G.instruments.zip G.weights).filter (fun p => firstDate < p.1.pillarDate)).map Prod.snd) := by
  refine ⟨h, ?_, ?_, ?_⟩
  · conv_rhs => rw [← List.map_fst_zip h.ge]
    rw [List.filter_map]
    rfl
  · rw [← List.unzip_fst, ← List.unzip_snd, List.zip_unzip]
  · rw [List.length_map, List.length_map]

theorem grid_spec {G : GlobalBootstrap K I W} {grid : Grid K I W} (h : G.grid = .ok grid) : ∃ firstDate,
    Pillars G firstDate grid.dates grid.times ∧ Alive G firstDate grid.alive grid.aliveWeights ∧
      G.initialValue = .ok grid.initialValue := by
  unfold GlobalBootstrap.grid at h
  dsimp only at h
  rw [ite_not, show (if G.instrumentWeights = [] then List.replicate G.instruments.length (Floats.ofNat 1)
    else G.instrumentWeights) = G.weights from rfl] at h
  split_ifs at h with hsized
  obtain ⟨firstDate, hfirst, h⟩ := bind_eq_ok.1 h
  obtain ⟨additional, hadditional, h⟩ := bind_eq_ok.1 h
  split_ifs at h with hpoints
  obtain ⟨times, htimes, h⟩ := bind_eq_ok.1 h
  obtain ⟨initialValue, hinitial, h⟩ := bind_eq_ok.1 h
  cases h
  have halive := alive_spec firstDate (weights_length hsized)
  obtain ⟨hincreasing, hmembers⟩ := sorted_merged (firstDate :: ((G.instruments.zip G.weights).filter
    (fun p => decide (firstDate < p.1.pillarDate))).map (fun p => p.1.pillarDate) ++
      additional.filter (fun date => decide (firstDate < date)))
  refine ⟨firstDate, ⟨hfirst, hincreasing, ⟨additional, hadditional, fun date => ?_⟩, htimes⟩, halive, hinitial⟩
  have hpillars : ((G.instruments.zip G.weights).filter (fun p => decide (firstDate < p.1.pillarDate))).map
      (fun p => p.1.pillarDate) = (G.instruments.filter (fun helper => firstDate < helper.pillarDate)).map
        RateHelper.pillarDate := by
    rw [← halive.helpers, List.map_map]
    rfl
  rw [hmembers, List.cons_append, List.mem_cons, List.mem_append, hpillars, List.mem_map, List.mem_filter]
  simp only [List.mem_filter, decide_eq_true_eq]
  constructor
  · rintro (rfl | ⟨helper, ⟨hmem, hlt⟩, rfl⟩ | ⟨hmem, hlt⟩)
    · exact .inl rfl
    · exact .inr ⟨hlt, .inl ⟨helper, hmem, rfl⟩⟩
    · exact .inr ⟨hlt, .inr hmem⟩
  · rintro (rfl | ⟨hlt, ⟨helper, hmem, rfl⟩ | hmem⟩)
    · exact .inl rfl
    · exact .inr (.inl ⟨helper, ⟨hmem, hlt⟩, rfl⟩)
    · exact .inr (.inr ⟨hmem, hlt⟩)

end Grid

/-! ## What the steps leave where they succeed -/

section Succeeds

variable {K I W : Type} [SqrtFloats K] {G : GlobalBootstrap K I W} {s s' s₁ : Bootstrapped K I W} {cd cd' : CurveData K I}
  {state : GlobalBootstrapState K I W} {guess : List K}

omit [SqrtFloats K] in
theorem onNodes_eq_ok {α : Type} {x : Prog (CurveData K I) Stop α} {a : α} (h : onNodes x s = (.ok a, s')) :
    ∃ cd, x s.cd = (.ok a, cd) ∧ s' = { s with cd := cd } := by
  rcases hx : x s.cd with ⟨r, cd⟩
  rw [onNodes, hx] at h
  cases h
  exact ⟨cd, rfl, rfl⟩

omit [SqrtFloats K] in
theorem rebuild_eq_ok {upto : ℕ} (h : G.rebuild upto cd = (.ok (), cd')) :
    ∃ interpolation, cd' = { cd with interpolation := some interpolation } := by
  unfold rebuild at h
  obtain ⟨_, _, hget, h⟩ := Prog.run_bind_eq_ok.1 h
  cases hget
  obtain ⟨interpolation, -, h⟩ := Prog.lift_bind_eq_ok.1 h
  cases h
  exact ⟨interpolation, rfl⟩

theorem setup_eq_ok (h : G.setup s = (.ok (state, guess), s₁)) : ∃ grid, G.grid = .ok grid ∧
    G.start grid (reusable grid s.cd) { s with cd := install grid s.cd } = (.ok (state, guess), s₁) := by
  unfold setup at h
  obtain ⟨grid, hgrid, h⟩ := Prog.lift_bind_eq_ok.1 h
  exact ⟨grid, hgrid, h⟩

/-- The seeds, and the guesses of the variables after those of the nodes. -/
theorem start_eq_ok {grid : Grid K I W} {validData : Bool} (h : G.start grid validData s = (.ok (state, guess), s₁)) :
    state = ⟨grid.alive, grid.aliveWeights, grid.dates.length - 1⟩ ∧ ∃ additionalGuesses t,
      G.initializeVariables validData s = (.ok additionalGuesses, t) ∧
      s₁.cd.data = (G.seed validData (List.range (grid.dates.length - 1)) t.cd).1.data ∧
      guess = (G.seed validData (List.range (grid.dates.length - 1)) t.cd).2 ++ additionalGuesses := by
  unfold start at h
  obtain ⟨_, t₀, hhand, hrest⟩ := Prog.run_bind_eq_ok.1 h
  have hsame := handOver_keeps (G := G) (P := (· = s)) grid s rfl
  rw [hhand] at hsame
  dsimp only at hsame
  rw [hsame] at hrest
  obtain ⟨additionalGuesses, t, hvariables, hrest⟩ := Prog.run_bind_eq_ok.1 hrest
  obtain ⟨_, _, hget, hrest⟩ := Prog.run_bind_eq_ok.1 hrest
  cases hget
  obtain ⟨_, _, hmodify, hrest⟩ := Prog.run_bind_eq_ok.1 hrest
  cases hmodify
  obtain ⟨_, _, hrebuild, hrest⟩ := Prog.run_bind_eq_ok.1 hrest
  obtain ⟨cd, hcd, rfl⟩ := onNodes_eq_ok hrebuild
  obtain ⟨interpolation, rfl⟩ := rebuild_eq_ok hcd
  cases hrest
  exact ⟨rfl, additionalGuesses, t, hvariables, rfl, rfl⟩

theorem place_eq_ok {interior : ℕ} {x : List K} (h : G.place interior x cd = (.ok (), cd')) : interior ≤ x.length ∧
    ∃ interpolation, cd' = { G.writeNodes 0 (x.take interior) cd with interpolation := some interpolation } := by
  unfold place at h
  obtain ⟨_, _, hrequire, h⟩ := Prog.run_bind_eq_ok.1 h
  rw [Prog.run_require] at hrequire
  split_ifs at hrequire with hle
  · cases hrequire
    obtain ⟨_, _, hmodify, h⟩ := Prog.run_bind_eq_ok.1 h
    cases hmodify
    exact ⟨hle, rebuild_eq_ok h⟩
  · cases hrequire

/-- A calculation that succeeds: its setup, the end of its search, and the solution that it takes. -/
theorem calculate_eq_ok {method : List K → Minimizer K} (h : G.calculate method s = (.ok (), s')) :
    ∃ state guess s₁ endType solution s₂, G.setup s = (.ok (state, guess), s₁) ∧
      G.minimize state (method guess) guess s₁ = (.ok (none, .ok endType, solution), s₂) ∧
      G.setToValid state solution s₂ = (.ok (), s') := by
  unfold calculate at h
  obtain ⟨⟨state, guess⟩, s₁, hsetup, hrest⟩ := Prog.run_bind_eq_ok.1 h
  obtain ⟨_, -, hrest⟩ := Prog.lift_bind_eq_ok.1 hrest
  obtain ⟨⟨parked, ended, solution⟩, s₂, hrun, hrest⟩ := Prog.run_bind_eq_ok.1 hrest
  cases parked with
  | some inner => cases hrest
  | none       =>
    obtain ⟨endType, hended, hrest⟩ := Prog.lift_bind_eq_ok.1 hrest
    obtain ⟨_, t, hrequire, hset⟩ := Prog.run_bind_eq_ok.1 hrest
    rw [Prog.run_require] at hrequire
    have ht : t = s₂ := (congrArg Prod.snd hrequire).symm
    rw [ht] at hset
    rw [mapError_eq_ok.1 hended] at hrun
    exact ⟨state, guess, s₁, endType, solution, s₂, hsetup, hrun, hset⟩

/-! ### The writes -/

/-- Seeds at the nodes after `a`. -/
theorem seed_spec (validData : Bool) : ∀ (n a : ℕ) (cd : CurveData K I), a + n < cd.data.length →
    (∀ j < a, (G.seed validData (List.range' a n) cd).1.data[j + 1]? = cd.data[j + 1]?) ∧
    (G.seed validData (List.range' a n) cd).2.length = n ∧
    ∀ k < n, ∃ value, (G.seed validData (List.range' a n) cd).1.data[a + k + 1]? = some value ∧
      (G.seed validData (List.range' a n) cd).2[k]? =
        some (G.traits.transformInverse value (cd.times.getD (a + k + 1) 0))
  | 0, _, _, _      => ⟨fun _ _ => rfl, rfl, nofun⟩
  | n + 1, a, cd, h => by
    let value := G.traits.guess (a + 1) cd.times cd.data validData
    have hlen : (G.writeNode value (a + 1) cd).data.length = cd.data.length :=
      IterativeBootstrap.updateGuess_length _ _ _ _
    obtain ⟨hbefore, hlength, hat⟩ := seed_spec validData n (a + 1) (G.writeNode value (a + 1) cd) (by rw [hlen]; omega)
    have hself : (G.writeNode value (a + 1) cd).data[a + 1]? = some value :=
      IterativeBootstrap.updateGuess_self _ _ _ (by omega)
    rw [List.range'_succ]
    simp only [seed]
    refine ⟨fun j hj => ?_, congrArg (· + 1) hlength, fun k hk => ?_⟩
    · rw [hbefore j (by omega)]
      exact IterativeBootstrap.updateGuess_other _ _ _ (by omega)
    · cases k with
      | zero   =>
        refine ⟨value, (hbefore a (by omega)).trans hself, ?_⟩
        rw [List.getD_eq_getElem?_getD, hself]
        rfl
      | succ k =>
        obtain ⟨value', hvalue', hguess⟩ := hat k (by omega)
        rw [show a + 1 + k + 1 = a + (k + 1) + 1 by omega] at hvalue' hguess
        exact ⟨value', hvalue', hguess⟩

/-- Coordinates at the nodes after `a`. -/
theorem writeNodes_spec : ∀ (xs : List K) (a : ℕ) (cd : CurveData K I), a + xs.length < cd.data.length →
    (G.writeNodes a xs cd).times = cd.times ∧
    (∀ j < a, (G.writeNodes a xs cd).data[j + 1]? = cd.data[j + 1]?) ∧
    ∀ k x, xs[k]? = some x → (G.writeNodes a xs cd).data[a + k + 1]? =
      some (G.traits.transformDirect x (cd.times.getD (a + k + 1) 0))
  | [], _, _, _       => ⟨rfl, fun _ _ => rfl, nofun⟩
  | x :: xs, a, cd, h => by
    let value := G.traits.transformDirect x (cd.times.getD (a + 1) 0)
    rw [List.length_cons] at h
    have hlen : (G.writeNode value (a + 1) cd).data.length = cd.data.length :=
      IterativeBootstrap.updateGuess_length _ _ _ _
    obtain ⟨htimes, hbefore, hat⟩ := writeNodes_spec xs (a + 1) (G.writeNode value (a + 1) cd) (by rw [hlen]; omega)
    have hself : (G.writeNode value (a + 1) cd).data[a + 1]? = some value :=
      IterativeBootstrap.updateGuess_self _ _ _ (by omega)
    refine ⟨htimes, fun j hj => ?_, fun k y hy => ?_⟩
    · rw [writeNodes, hbefore j (by omega)]
      exact IterativeBootstrap.updateGuess_other _ _ _ (by omega)
    · cases k with
      | zero   =>
        cases hy
        exact (hbefore a (by omega)).trans hself
      | succ k =>
        have := hat k y hy
        rwa [show a + 1 + k + 1 = a + (k + 1) + 1 by omega] at this

end Succeeds

section Layout

variable {K X I : Type} [ExpFloats K]

/-- The curve under a convention, with quotes as its additional additional. -/
def under (G : GlobalBootstrap K I (Quoted K X)) (c : Convention) (additional : Option (SimpleQuoteVariables K)) :
    GlobalBootstrap K I (Quoted K X) :=
  { G with
    traits := c.traits
    initialValue := .ok c.initialValue
    additionalVariables := additional.map SimpleQuoteVariables.toVariables }

/-- The reference node has the initial value of the convention, or mirrors the first pillar. -/
def Referenced (c : Convention) (data : List K) : Prop :=
  data[0]? = if c.mirrored = true ∧ 1 < data.length then data[1]? else some c.initialValue

/-- The nodes are laid out. -/
structure Laid (c : Convention) (dates : List Date) (times : List K) (cd : CurveData K I) : Prop where
  dates_eq : cd.dates = dates
  times_eq : cd.times = times
  timed : times.length = dates.length
  length : cd.data.length = dates.length
  reference : Referenced c cd.data

/-- A curve that no calculation has reached, or with nodes that are laid out. -/
def Started (c : Convention) (cd : CurveData K I) : Prop := cd.data = [] ∨ Laid c cd.dates cd.times cd

/-- The coordinates of a point are at the nodes and the additional. -/
structure Written (c : Convention) (additional : Option (SimpleQuoteVariables K)) (interior : ℕ) (x : List K)
    (s : Bootstrapped K I (Quoted K X)) : Prop where
  nodes : ∀ i < interior, ∃ coordinate time, x[i]? = some coordinate ∧ s.cd.times[i + 1]? = some time ∧
    s.cd.data[i + 1]? = some (c.transformDirect coordinate time)
  quotes : ∀ vars, additional = some vars → vars.Holds (x.drop interior) s.outer

/-- Every helper in its turn is priced on the curve, and its error weighed. -/
inductive Weighed {W : Type} (cd : CurveData K I) : List (RateHelper K I W × K) → W → List K → W → Prop where
  | nil (w : W) : Weighed cd [] w [] w
  | cons {helper weight helpers w error w' errors w''} (priced : helper.quoteError cd w = (.ok error, w'))
      (rest : Weighed cd helpers w' errors w'') : Weighed cd ((helper, weight) :: helpers) w (error * weight :: errors) w''

/-- The penalties of the curve, if there are any. -/
def Penalized {W : Type} (G : GlobalBootstrap K I W) (s : Bootstrapped K I W) (penaltyErrors : List K) (w : W) : Prop :=
  match G.penalties with
  | some penalties => penalties s.cd.times s.cd.data s.outer = (.ok penaltyErrors, w)
  | none           => penaltyErrors = [] ∧ w = s.outer

/-- The residuals: the weighed errors of the alive helpers, and the penalties after them. -/
def Residuals {W : Type} (G : GlobalBootstrap K I W) (state : GlobalBootstrapState K I W) (s : Bootstrapped K I W)
    (residuals : List K) : Prop :=
  ∃ penaltyErrors w errors w', Penalized G s penaltyErrors w ∧
    Weighed s.cd (state.alive.zip state.aliveWeights) w errors w' ∧ residuals = errors ++ penaltyErrors

/-- What a setup lays out: the grid, the alive helpers, and a trial vector of the nodes and the additional. -/
structure SetUp (G : GlobalBootstrap K I (Quoted K X)) (c : Convention) (additional : Option (SimpleQuoteVariables K))
    (s s₁ : Bootstrapped K I (Quoted K X)) (state : GlobalBootstrapState K I (Quoted K X)) (guess : List K) : Prop where
  grid : ∃ firstDate, Pillars G firstDate s₁.cd.dates s₁.cd.times ∧ Alive G firstDate state.alive state.aliveWeights
  laid : Laid c s₁.cd.dates s₁.cd.times s₁.cd
  interior : state.interior + 1 = s₁.cd.dates.length
  size : guess.length = state.interior + additional.elim 0 (fun vars => vars.quotes.length)
  nodes : ∀ i < state.interior, ∃ value time, s₁.cd.data[i + 1]? = some value ∧ s₁.cd.times[i + 1]? = some time ∧
    guess[i]? = some (c.transformInverse value time)
  quotes : ∀ vars, additional = some vars → ∀ i quote, vars.quotes[i]? = some quote → ∃ value,
    vars.StartsAt (s.cd.valid && s.cd.data.length == s₁.cd.dates.length) s.outer i quote value ∧
      guess[state.interior + i]? = some (vars.transformInverse value i)

/-- What a trial point does, from nodes that are laid out. -/
structure Trial (G : GlobalBootstrap K I (Quoted K X)) (c : Convention) (additional : Option (SimpleQuoteVariables K))
    (dates : List Date) (times : List K) (state : GlobalBootstrapState K I (Quoted K X)) (x : List K)
    (t : Bootstrapped K I (Quoted K X)) : Prop where
  laid : Laid c dates times ((G.under c additional).tryValues state x t).2.cd
  values : ∀ residuals t', (G.under c additional).tryValues state x t = (.ok residuals, t') →
    ∃ u, (G.under c additional).setArgument state x t = (.ok (), u) ∧ t'.cd = u.cd ∧
      Written c additional state.interior x u ∧ Residuals G state u residuals

/-- **The layout of a solve**, at its setup, at every trial point, and where it succeeds. -/
structure LaysOut (G : GlobalBootstrap K I (Quoted K X)) (c : Convention) (additional : Option (SimpleQuoteVariables K))
    (method : List K → Minimizer K) (s : Bootstrapped K I (Quoted K X)) : Prop where
  setup : ∀ state guess s₁, (G.under c additional).setup s = (.ok (state, guess), s₁) →
    SetUp G c additional s s₁ state guess
  trial : ∀ state guess s₁, (G.under c additional).setup s = (.ok (state, guess), s₁) → ∀ x t,
    Laid c s₁.cd.dates s₁.cd.times t.cd → Trial G c additional s₁.cd.dates s₁.cd.times state x t
  solved : ∀ s', (G.under c additional).calculate method s = (.ok (), s') → ∃ state guess s₁ endType solution s₂,
    (G.under c additional).setup s = (.ok (state, guess), s₁) ∧
    (G.under c additional).minimize state (method guess) guess s₁ = (.ok (none, .ok endType, solution), s₂) ∧
    Laid c s₁.cd.dates s₁.cd.times s'.cd ∧ Written c additional state.interior solution s' ∧
    ((method guess).Sized guess.length → solution.length = guess.length)

/-- The curves that calculations and the steps of joint solves reach, where no write leaves the nodes. -/
inductive Reached (c : Convention) : Bootstrapped K I (Quoted K X) → Prop where
  | new {s} (empty : s.cd.data = []) : Reached c s
  | outside {s} (h : Reached c s) (state penaltyLen outer) :
      Reached c { s with state := state, penaltyLen := penaltyLen, outer := outer }
  | setup {s} (h : Reached c s) (G : GlobalBootstrap K I (Quoted K X)) (additional) :
      Reached c ((G.under c additional).setup s).2
  | setArgument {s} (h : Reached c s) (G : GlobalBootstrap K I (Quoted K X)) (additional) {state}
      (inside : state.interior < s.cd.data.length) (x) : Reached c ((G.under c additional).setArgument state x s).2
  | evaluate {s} (h : Reached c s) (G : GlobalBootstrap K I (Quoted K X)) (additional state) :
      Reached c ((G.under c additional).evaluate state s).2
  | setToValid {s} (h : Reached c s) (G : GlobalBootstrap K I (Quoted K X)) (additional) {state}
      (inside : state.interior < s.cd.data.length) (solution) :
      Reached c ((G.under c additional).setToValid state solution s).2
  | calculate {s} (h : Reached c s) (G : GlobalBootstrap K I (Quoted K X)) (additional method) :
      Reached c ((G.under c additional).calculate method s).2

variable {c : Convention} {G : GlobalBootstrap K I (Quoted K X)} {additional : Option (SimpleQuoteVariables K)}
  {dates : List Date} {times : List K} {s s' : Bootstrapped K I (Quoted K X)} {cd cd' : CurveData K I}

/-! ### The nodes stay laid out -/

theorem Referenced.updateGuess {data : List K} (h : Referenced c data) (value : K) {i : ℕ} (hi : i + 1 < data.length) :
    Referenced c (c.traits.updateGuess data value (i + 1)) := by
  unfold Referenced at h ⊢
  rw [IterativeBootstrap.updateGuess_length]
  unfold BootstrapTraits.updateGuess rateUpdateGuess
  change (if c.mirrored = true then _ else _)[0]? = if _ then (if c.mirrored = true then _ else _)[1]? else _
  by_cases hm : c.mirrored = true
  · have hlen : 1 < data.length := by omega
    simp only [hm, hlen, and_self, if_true] at h ⊢
    cases i with
    | zero   => simp [hlen, Nat.lt_of_succ_lt hlen]
    | succ i => simpa using h
  · simp only [hm, false_and, if_false, Bool.false_eq_true] at h ⊢
    rwa [List.getElem?_set_ne (Nat.succ_ne_zero i)]

variable (c G additional dates times) in
theorem laid_stable : Stable (G.under c additional) dates.length (Laid c dates times) where
  length h := h.length
  written value _ hi h := by
    refine ⟨h.dates_eq, h.times_eq, h.timed, (IterativeBootstrap.updateGuess_length _ _ _ _).trans h.length, ?_⟩
    exact h.reference.updateGuess value (h.length ▸ hi)
  rebuilt _ h := ⟨h.dates_eq, h.times_eq, h.timed, h.length, h.reference⟩
  marked _ h := ⟨h.dates_eq, h.times_eq, h.timed, h.length, h.reference⟩

theorem Laid.started (h : Laid c dates times cd) : Started c cd := by
  obtain ⟨rfl, rfl, htimed, hlength, hreference⟩ := h
  exact .inr ⟨rfl, rfl, htimed, hlength, hreference⟩

omit [ExpFloats K] in
theorem Pillars.nonempty {W : Type} {G : GlobalBootstrap K I W} {firstDate : Date} (h : Pillars G firstDate dates times) :
    0 < dates.length := by
  obtain ⟨additional, -, hmem⟩ := h.members
  exact List.length_pos_of_mem ((hmem firstDate).2 (.inl rfl))

theorem install_laid {grid : Grid K I (Quoted K X)} (hgrid : (G.under c additional).grid = .ok grid) (h : Started c cd) :
    Laid c grid.dates grid.times (install grid cd) := by
  obtain ⟨firstDate, hpillars, -, hinitial⟩ := grid_spec hgrid
  have htimed := length_of_mapM_eq_ok hpillars.times
  have hpos := hpillars.nonempty
  have hvalue : c.initialValue = grid.initialValue := Except.ok.inj hinitial
  by_cases hr : reusable grid cd = true
  · have hlength : cd.data.length = grid.dates.length := by
      rw [reusable, Bool.and_eq_true, beq_iff_eq] at hr
      exact hr.2
    simp only [install, hr, if_true]
    refine ⟨rfl, rfl, htimed, hlength, ?_⟩
    rcases h with hempty | hlaid
    · rw [hempty, List.length_nil] at hlength
      omega
    · exact hlaid.reference
  · simp only [install, hr, Bool.false_eq_true, if_false]
    refine ⟨rfl, rfl, htimed, List.length_replicate, ?_⟩
    simp only [Referenced, CurveData.resetData, hvalue, List.length_replicate, List.getElem?_replicate_of_lt hpos]
    split
    · rename_i hlen
      rw [List.getElem?_replicate_of_lt hlen.2]
    · rfl

variable (G additional) in
/-- **A setup** lays the nodes out, unless there is no grid. -/
theorem setup_laid (h : Started c s.cd) : match (G.under c additional).grid with
    | .ok grid => Laid c grid.dates grid.times ((G.under c additional).setup s).2.cd
    | .error _ => ((G.under c additional).setup s).2 = s := by
  cases hgrid : (G.under c additional).grid with
  | error e =>
    simp only [setup, Prog.run_bind, Prog.run_lift, hgrid]
  | ok grid =>
    simp only [setup, Prog.run_bind, Prog.run_lift, hgrid, Prog.run_get, onNodes, Prog.run_modify]
    exact (laid_stable ..).start grid rfl (reusable grid s.cd) { s with cd := install grid s.cd } (install_laid hgrid h)

variable (G additional) in
theorem setup_started (h : Started c s.cd) : Started c ((G.under c additional).setup s).2.cd := by
  have := setup_laid G additional h
  split at this
  · exact this.started
  · rwa [this]

theorem Started.step {α : Type} {x : Prog (Bootstrapped K I (Quoted K X)) Stop α} {n : ℕ} (h : Started c s.cd)
    (hn : n < s.cd.data.length) (hx : ∀ dates times, n < dates.length → Keeps (fun s => Laid c dates times s.cd) x) :
    Started c (x s).2.cd := by
  rcases h with hempty | hlaid
  · rw [hempty] at hn
    exact absurd hn (Nat.not_lt_zero n)
  · exact (hx s.cd.dates s.cd.times (hlaid.length ▸ hn) s hlaid).started

theorem calculate_started (h : Started c s.cd) (method : List K → Minimizer K) :
    Started c ((G.under c additional).calculate method s).2.cd := by
  have hstarted := setup_started G additional h
  unfold calculate
  rw [Prog.run_bind]
  rcases hrun : (G.under c additional).setup s with ⟨e | ⟨state, guess⟩, s₁⟩ <;> rw [hrun] at hstarted
  · exact hstarted
  obtain ⟨grid, hgrid, hstart⟩ := setup_eq_ok hrun
  obtain ⟨rfl, -⟩ := start_eq_ok hstart
  obtain ⟨firstDate, hpillars, -, -⟩ := grid_spec hgrid
  have hinside : grid.dates.length - 1 < grid.dates.length := Nat.sub_lt hpillars.nonempty Nat.one_pos
  have hlaid := setup_laid G additional h
  rw [hgrid, hrun] at hlaid
  have hrest := laid_stable c G additional grid.dates grid.times
  refine @Laid.started _ _ _ _ grid.dates grid.times _ ?_
  refine Keeps.bind (P := fun s => Laid c grid.dates grid.times s.cd) (Keeps.lift _) (fun _ => ?_) s₁ hlaid
  refine Keeps.bind (hrest.minimize hinside (method guess) guess) fun ⟨parked, ended, solution⟩ => ?_
  cases parked with
  | some inner => exact Keeps.fail _
  | none       =>
    refine Keeps.bind (Keeps.lift _) fun endType => Keeps.bind (Keeps.require _ _) fun _ => ?_
    exact hrest.setToValid hinside solution

/-- **Every curve that is reached** is laid out, but for a new one. -/
theorem Reached.started (h : Reached c s) : Started c s.cd := by
  induction h with
  | new empty                                   => exact .inl empty
  | outside _ _ _ _ ih                          => exact ih
  | setup _ G additional ih                     => exact setup_started G additional ih
  | setArgument _ G additional inside x ih      =>
    exact ih.step inside fun dates times hn => (laid_stable ..).setArgument hn x
  | evaluate _ G additional state ih            => exact evaluate_keeps (P := Started c) state _ ih
  | setToValid _ G additional inside solution ih =>
    exact ih.step inside fun dates times hn => (laid_stable ..).setToValid hn solution
  | calculate _ G additional method ih          => exact calculate_started ih method

/-! ### A point is written -/

theorem place_written {interior : ℕ} {x : List K} (h : Laid c dates times cd) (hinterior : interior + 1 = dates.length)
    (hplace : (G.under c additional).place interior x cd = (.ok (), cd')) : Laid c dates times cd' ∧
      ∀ i < interior, ∃ coordinate time, x[i]? = some coordinate ∧ cd'.times[i + 1]? = some time ∧
        cd'.data[i + 1]? = some (c.transformDirect coordinate time) := by
  have hinside : interior < dates.length := by omega
  have hlaid := (laid_stable c G additional dates times).place hinside x cd h
  rw [hplace] at hlaid
  refine ⟨hlaid, fun i hi => ?_⟩
  obtain ⟨hle, interpolation, rfl⟩ := place_eq_ok hplace
  have hlen : (x.take interior).length = interior := List.length_take_of_le hle
  obtain ⟨htimes, -, hat⟩ := writeNodes_spec (G := G.under c additional) (x.take interior) 0 cd
    (by rw [hlen, h.length]; omega)
  have hx : x[i]? = some x[i] := List.getElem?_eq_getElem (by omega)
  have htimed : i + 1 < cd.times.length := by
    rw [h.times_eq, h.timed]
    omega
  refine ⟨x[i], cd.times[i + 1], hx, ?_, ?_⟩
  · change ((G.under c additional).writeNodes 0 (x.take interior) cd).times[i + 1]? = _
    rw [htimes, List.getElem?_eq_getElem htimed]
  · have := hat i x[i] (by rw [List.getElem?_take_of_lt hi, hx])
    rw [Nat.zero_add, List.getD_eq_getElem?_getD, List.getElem?_eq_getElem htimed] at this
    exact this

theorem updateVariables_eq_ok {x : List K} (h : (G.under c additional).updateVariables x s = (.ok (), s')) :
    s'.cd = s.cd ∧ ∀ vars, additional = some vars → vars.Holds x s'.outer := by
  refine ⟨?_, ?_⟩
  · have := updateVariables_keeps (G := G.under c additional) (P := (· = s.cd)) x s rfl
    rwa [h] at this
  · rintro vars rfl
    change callback (fun _ => vars.update x) s = _ at h
    rcases hrun : vars.update x s.outer with ⟨r, w⟩
    rw [callback, hrun] at h
    cases h
    exact vars.update_eq_ok hrun

theorem setArgument_written {state : GlobalBootstrapState K I (Quoted K X)} {x : List K} (h : Laid c dates times s.cd)
    (hinterior : state.interior + 1 = dates.length)
    (hset : (G.under c additional).setArgument state x s = (.ok (), s')) :
    Laid c dates times s'.cd ∧ Written c additional state.interior x s' := by
  unfold setArgument at hset
  obtain ⟨_, t, hplace, hupdate⟩ := Prog.run_bind_eq_ok.1 hset
  obtain ⟨cd, hcd, rfl⟩ := onNodes_eq_ok hplace
  obtain ⟨hlaid, hnodes⟩ := place_written h hinterior hcd
  obtain ⟨hsame, hquotes⟩ := updateVariables_eq_ok hupdate
  dsimp only at hsame
  rw [← hsame] at hlaid hnodes
  exact ⟨hlaid, hnodes, hquotes⟩

theorem setToValid_written {state : GlobalBootstrapState K I (Quoted K X)} {solution : List K}
    (h : Laid c dates times s.cd) (hinterior : state.interior + 1 = dates.length)
    (hset : (G.under c additional).setToValid state solution s = (.ok (), s')) :
    Laid c dates times s'.cd ∧ Written c additional state.interior solution s' := by
  unfold setToValid at hset
  obtain ⟨_, t, hpin, hupdate⟩ := Prog.run_bind_eq_ok.1 hset
  obtain ⟨cd, hcd, rfl⟩ := onNodes_eq_ok hpin
  unfold pin at hcd
  obtain ⟨_, cd', hplace, hmark⟩ := Prog.run_bind_eq_ok.1 hcd
  cases hmark
  obtain ⟨hlaid, hnodes⟩ := place_written h hinterior hplace
  obtain ⟨hsame, hquotes⟩ := updateVariables_eq_ok hupdate
  dsimp only at hsame
  have hmarked := (laid_stable c G additional dates times).marked true hlaid
  rw [← hsame] at hmarked
  refine ⟨hmarked, ?_, hquotes⟩
  rw [hsame]
  exact hnodes

/-! ### The residuals -/

theorem quoteErrors_eq_ok {W : Type} : ∀ {helpers : List (RateHelper K I W × K)} {s s' : Bootstrapped K I W}
    {errors : List K}, quoteErrors helpers s = (.ok errors, s') →
      s'.cd = s.cd ∧ Weighed s.cd helpers s.outer errors s'.outer
  | [], _, _, _, h                     => by
    cases h
    exact ⟨rfl, .nil _⟩
  | (helper, weight) :: helpers, s, s', _, h => by
    obtain ⟨error, t, hcallback, hrest⟩ := Prog.run_bind_eq_ok.1 h
    obtain ⟨errors, t', hrest, hpure⟩ := Prog.run_bind_eq_ok.1 hrest
    cases hpure
    rcases hrun : helper.quoteError s.cd s.outer with ⟨r, w⟩
    rw [callback, hrun] at hcallback
    cases hcallback
    obtain ⟨hcd, hweighed⟩ := quoteErrors_eq_ok hrest
    exact ⟨hcd, .cons hrun hweighed⟩

theorem evaluate_eq_ok {W : Type} {G : GlobalBootstrap K I W} {state : GlobalBootstrapState K I W}
    {s s' : Bootstrapped K I W} {residuals : List K} (h : G.evaluate state s = (.ok residuals, s')) :
    s'.cd = s.cd ∧ Residuals G state s residuals := by
  unfold evaluate at h
  unfold Residuals Penalized
  cases hpenalties : G.penalties with
  | none           =>
    simp only [hpenalties] at h
    obtain ⟨_, _, hpure, hrest⟩ := Prog.run_bind_eq_ok.1 h
    cases hpure
    obtain ⟨_, _, hmodify, hrest⟩ := Prog.run_bind_eq_ok.1 hrest
    cases hmodify
    obtain ⟨errors, t, herrors, hpure⟩ := Prog.run_bind_eq_ok.1 hrest
    cases hpure
    obtain ⟨hcd, hweighed⟩ := quoteErrors_eq_ok herrors
    exact ⟨hcd, [], s.outer, errors, _, ⟨rfl, rfl⟩, hweighed, rfl⟩
  | some penalties =>
    simp only [hpenalties] at h
    obtain ⟨penaltyErrors, t, hcallback, hrest⟩ := Prog.run_bind_eq_ok.1 h
    rcases hrun : penalties s.cd.times s.cd.data s.outer with ⟨r, w⟩
    rw [callback, hrun] at hcallback
    cases hcallback
    obtain ⟨_, _, hmodify, hrest⟩ := Prog.run_bind_eq_ok.1 hrest
    cases hmodify
    obtain ⟨errors, t, herrors, hpure⟩ := Prog.run_bind_eq_ok.1 hrest
    cases hpure
    obtain ⟨hcd, hweighed⟩ := quoteErrors_eq_ok herrors
    exact ⟨hcd, penaltyErrors, w, errors, _, hrun, hweighed, rfl⟩

/-! ### The layout -/

theorem initializeVariables_eq_ok {validData : Bool} {guesses : List K}
    (h : (G.under c additional).initializeVariables validData s = (.ok guesses, s')) :
    s'.cd = s.cd ∧ guesses.length = additional.elim 0 (fun vars => vars.quotes.length) ∧
      ∀ vars, additional = some vars → ∀ i quote, vars.quotes[i]? = some quote → ∃ value,
        vars.StartsAt validData s.outer i quote value ∧ guesses[i]? = some (vars.transformInverse value i) := by
  have hcd := initializeVariables_keeps (G := G.under c additional) (P := (· = s.cd)) validData s rfl
  rw [h] at hcd
  refine ⟨hcd, ?_⟩
  cases additional with
  | none      =>
    cases h
    exact ⟨rfl, nofun⟩
  | some vars =>
    change callback (fun _ => vars.initializeFrom validData 0 vars.quotes) s = _ at h
    rcases hrun : vars.initializeFrom validData 0 vars.quotes s.outer with ⟨r, w⟩
    rw [callback, hrun] at h
    cases h
    obtain ⟨hlength, hvalues⟩ := vars.initializeFrom_eq_ok hrun
    refine ⟨hlength, ?_⟩
    rintro _ ⟨⟩ i quote hquote
    simpa only [Nat.zero_add] using hvalues i quote hquote

theorem setup_lays {state : GlobalBootstrapState K I (Quoted K X)} {guess : List K} (h : Started c s.cd)
    (hsetup : (G.under c additional).setup s = (.ok (state, guess), s')) : SetUp G c additional s s' state guess := by
  have hlaid := setup_laid G additional h
  obtain ⟨grid, hgrid, hstart⟩ := setup_eq_ok hsetup
  rw [hgrid, hsetup] at hlaid
  dsimp only at hlaid
  have hinstalled := install_laid hgrid h
  obtain ⟨firstDate, hpillars, halive, -⟩ := grid_spec hgrid
  have hpos := hpillars.nonempty
  obtain ⟨rfl, additionalGuesses, t, hvariables, hdata, rfl⟩ := start_eq_ok hstart
  obtain ⟨hsame, hlength, hvalues⟩ := initializeVariables_eq_ok hvariables
  dsimp only at hsame hvalues
  rw [← hsame] at hinstalled
  have hseed := seed_spec (G := G.under c additional) (reusable grid s.cd) (grid.dates.length - 1) 0 t.cd
    (by rw [hinstalled.length]; omega)
  rw [← List.range_eq_range', ← hdata] at hseed
  obtain ⟨-, hsize, hseeds⟩ := hseed
  have hdates := hlaid.dates_eq
  have htimes := hlaid.times_eq
  rw [← hdates, ← htimes] at hpillars
  refine ⟨⟨firstDate, ⟨hpillars.initialDate, hpillars.increasing, hpillars.members, hpillars.times⟩,
    ⟨halive.sized, halive.helpers, halive.weighted, halive.length⟩⟩, ?_, ?_, ?_, fun i hi => ?_, ?_⟩
  · rwa [hdates, htimes]
  · rw [hdates]
    exact Nat.sub_add_cancel hpos
  · rw [List.length_append, hsize, hlength]
  · have hi' : i < grid.dates.length - 1 := hi
    obtain ⟨value, hvalue, hguess⟩ := hseeds i hi'
    have htimed : i + 1 < grid.times.length := by
      rw [hinstalled.timed]
      omega
    rw [Nat.zero_add] at hvalue hguess
    refine ⟨value, grid.times[i + 1], hvalue, ?_, ?_⟩
    · rw [htimes, List.getElem?_eq_getElem htimed]
    · rw [List.getElem?_append_left (by omega), hguess, hinstalled.times_eq, List.getD_eq_getElem?_getD,
        List.getElem?_eq_getElem htimed]
      rfl
  · intro vars hvars i quote hquote
    obtain ⟨value, hstarts, hguess⟩ := hvalues vars hvars i quote hquote
    refine ⟨value, ?_, ?_⟩
    · rw [hdates]
      exact hstarts
    · change (_ ++ additionalGuesses)[grid.dates.length - 1 + i]? = _
      rw [List.getElem?_append_right (by omega), hsize, Nat.add_sub_cancel_left, hguess]

theorem tryValues_lays {state : GlobalBootstrapState K I (Quoted K X)} {x : List K} (h : Laid c dates times s.cd)
    (hinterior : state.interior + 1 = dates.length) : Trial G c additional dates times state x s := by
  constructor
  · exact (laid_stable ..).tryValues (by omega) x s h
  · intro residuals t' hrun
    unfold tryValues at hrun
    obtain ⟨_, u, hset, hevaluate⟩ := Prog.run_bind_eq_ok.1 hrun
    obtain ⟨hsame, hresiduals⟩ := evaluate_eq_ok hevaluate
    exact ⟨u, hset, hsame, (setArgument_written h hinterior hset).2, hresiduals⟩

/-- A minimizer whose points are all of one size finds a solution of that size. -/
theorem minimize_sized {W : Type} {G : GlobalBootstrap K I W} {state : GlobalBootstrapState K I W} {minimizer : Minimizer K}
    {guess solution : List K} {s s' : Bootstrapped K I W} {parked : Option String} {ended : Except String EndCriteriaType}
    (hsized : minimizer.Sized guess.length) (h : G.minimize state minimizer guess s = (.ok (parked, ended, solution), s')) :
    solution.length = guess.length := by
  have htrue {α : Type} (x : Prog (GlobalCost K I W) Stop α) :
      Triple (fun _ => True) x (fun _ _ => True) (fun _ _ => True) := by
    intro s _
    split <;> trivial
  have hrun := Problem.minimize_sized (fun x _ => htrue _) (fun x _ => htrue _) minimizer ⟨guess, 0⟩ hsized rfl
    (f := CostFunction.ofValues (G.values state)) ⟨{ s with penaltyLen := 0 }, none⟩ trivial
  unfold minimize at h
  rcases hm : Problem.minimize (CostFunction.ofValues (G.values state)) minimizer ⟨guess, 0⟩
    ⟨{ s with penaltyLen := 0 }, none⟩ with ⟨e | ⟨ended', problem⟩, c⟩ <;> rw [hm] at h hrun <;> cases h
  exact hrun.2

/-- **The layout**, on every curve that calculations reach. -/
theorem lays_out (G : GlobalBootstrap K I (Quoted K X)) (c : Convention) (additional : Option (SimpleQuoteVariables K))
    (method : List K → Minimizer K) {s : Bootstrapped K I (Quoted K X)} (h : Reached c s) :
    LaysOut G c additional method s := by
  have hstarted := h.started
  constructor
  · exact fun state guess s₁ hsetup => setup_lays hstarted hsetup
  · intro state guess s₁ hsetup x t hlaid
    exact tryValues_lays hlaid (setup_lays hstarted hsetup).interior
  · intro s' hcalculate
    obtain ⟨state, guess, s₁, endType, solution, s₂, hsetup, hrun, hset⟩ := calculate_eq_ok hcalculate
    have hlays := setup_lays hstarted hsetup
    have hlaid₂ := (laid_stable c G additional s₁.cd.dates s₁.cd.times).minimize
      (show state.interior < s₁.cd.dates.length by have := hlays.interior; omega) (method guess) guess s₁ hlays.laid
    rw [hrun] at hlaid₂
    obtain ⟨hlaid, hwritten⟩ := setToValid_written hlaid₂ hlays.interior hset
    exact ⟨state, guess, s₁, endType, solution, s₂, hsetup, hrun, hlaid, hwritten, fun hsized => minimize_sized hsized hrun⟩

end Layout

/-! ## A zero curve with a quote -/

namespace ZeroCurve

local instance rates : ExpFloats ℚ where
  lt a b     := a < b
  le a b     := a ≤ b
  isFinite _ := true
  abs a      := max a (-a)
  max a b    := max a b
  min a b    := min a b
  ofNat n    := n
  nan        := 0
  infinity   := 0
  sqrt a     := Nat.sqrt a.num.toNat
  exp a      := 1 + a
  ln a       := a - 1

/-- A helper quoted at what the curve has, less quote 7, at a pillar. -/
def helper (pillar : Date) : RateHelper ℚ Unit (Quoted ℚ Unit) where
  pillarDate := pillar
  latestRelevantDate := pillar
  maturityDate := pillar
  quoteValue _ := .ok 0
  quoteError cd := do
    let w ← Prog.get
    return cd.data.getD 1 0 - (w.quotes 7).getD 0

theorem january3 : (45660 : ℤ) = 0 ∨ (minimumSerialNumber ≤ 45660 ∧ 45660 ≤ maximumSerialNumber) := by decide

theorem january17 : (45674 : ℤ) = 0 ∨ (minimumSerialNumber ≤ 45674 ∧ 45674 ≤ maximumSerialNumber) := by decide

theorem january31 : (45688 : ℤ) = 0 ∨ (minimumSerialNumber ≤ 45688 ∧ 45688 ≤ maximumSerialNumber) := by decide

/-- A curve from 3 January 2025, with a helper that has expired, one on 17 January, and a node more on 31 January. -/
def curve : GlobalBootstrap ℚ Unit (Quoted ℚ Unit) where
  instruments := [helper ⟨45646, by decide⟩, helper ⟨45674, january17⟩]
  requiredPoints := 2
  interpolate _ _ := .ok ()
  traits := Convention.zeroYield.traits
  initialDate := .ok ⟨45660, january3⟩
  initialValue := .ok 0
  timeFromReference date := .ok ((date.serialNumber - 45660) / 365)
  termStructureShared := .ok ()
  additionalHelpers := []
  additionalDates := some (.ok [⟨45688, january31⟩])
  endCriteria := .ok ()
  instrumentWeights := [5, 3]
  penalties := some (fun _ data => pure [data.getD 2 0 - data.getD 1 0])
  additionalVariables := none

/-- Quote 7, guessed at 4 %. -/
def variables7 : SimpleQuoteVariables ℚ := ⟨[7], [4 / 100], [], by decide, by decide⟩

def found : List ℚ → Minimizer ℚ :=
  fun _ => .values [2 / 100, 2 / 100, 2 / 100] (fun _ =>
    .setCurrentValue [2 / 100, 3 / 100, 2 / 100] (.done (.ok .stationaryPoint)))

def start : Bootstrapped ℚ Unit (Quoted ℚ Unit) := ⟨⟨[], [], [], none, none, false⟩, none, 0, ⟨fun _ => none, ()⟩⟩

/-- The nodes, the mark of the curve, and the quote. -/
def view (s : Bootstrapped ℚ Unit (Quoted ℚ Unit)) : List ℚ × Bool × Option ℚ := (s.cd.data, s.cd.valid, s.outer.quotes 7)

theorem lays_out_zeroCurve : LaysOut curve .zeroYield (some variables7) found start ∧
    view ((curve.under .zeroYield (some variables7)).calculate found start).2 =
      ([2 / 100, 2 / 100, 3 / 100], true, some (2 / 100)) :=
  ⟨lays_out curve .zeroYield (some variables7) found (.new rfl), by decide +kernel⟩

end ZeroCurve

end GlobalBootstrap

end Itofin
