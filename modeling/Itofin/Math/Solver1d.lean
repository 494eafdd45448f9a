import Mathlib.Algebra.Order.Field.Basic
import Mathlib.Tactic.Linarith
import Itofin.Lib.Effect
import Itofin.Math.Comparison
/-!
# Solver1D — bracketing a root

The driver of the one-dimensional solvers, `math/solver1d.rs`, in exact arithmetic.  A function has a value at a point, or
one that is not finite; the state is the list of the points at which it was evaluated.

`Searching` is what holds of the bracket at every turn of the expansion, which `expand` keeps (`expand_spec`): its ends are
in the enforced bounds and in the order in which the step went, with the values of the function there.  So a state that is
handed to a solver is a bracket with a change of sign (`search_spec`).
-/
namespace Itofin

open Effect

structure SolverConfig (K : Type) where
  maxEvaluations : ℕ
  lowerBound : Option K
  upperBound : Option K

structure Solver1DState (K : Type) where
  root : K
  xMin : K
  xMax : K
  fxMin : K
  fxMax : K
  evaluationNumber : ℕ
deriving DecidableEq

inductive Bracketed (K : Type) where
  | root (x : K)
  | ready (st : Solver1DState K)
deriving DecidableEq

namespace Solver1D

inductive Failure (K : Type) where
  /-- `function value must be finite, got f({x}) = {value}` -/
  | notFinite (x : K)
  /-- `unable to bracket root in {} function evaluations (last bracket attempt: f[{}, {}] -> [{}, {}])` -/
  | unableToBracket (maxEvaluations : ℕ) (xMin xMax fxMin fxMax : K)
  /-- `invalid range: x_min ({x_min}) >= x_max ({x_max})` -/
  | invalidRange (xMin xMax : K)
  /-- `x_min ({x_min}) < enforced lower bound ({lb})` -/
  | belowLowerBound (xMin lb : K)
  /-- `x_max ({x_max}) > enforced upper bound ({ub})` -/
  | aboveUpperBound (xMax ub : K)
  /-- `root not bracketed: f[{x_min}, {x_max}] -> [{}, {}]` -/
  | notBracketed (xMin xMax fxMin fxMax : K)
  /-- `guess ({guess}) < x_min ({x_min})` -/
  | guessBelow (guess xMin : K)
  /-- `guess ({guess}) > x_max ({x_max})` -/
  | guessAbove (guess xMax : K)
  /-- A loop without an end. -/
  | outOfTurns
deriving DecidableEq

variable {K : Type} [Field K] [LinearOrder K]

def enforceBounds (self : SolverConfig K) (x : K) : K :=
  match self.lowerBound.filter (fun lb => x < lb), self.upperBound.filter (fun ub => ub < x) with
  | some lb, _    => lb
  | none, some ub => ub
  | none, none    => x

/-- The steps of a driver, which evaluate the function. -/
abbrev Driver (K α : Type) : Type := Prog (List K) (Failure K) α

/-- `checked_value` of a function whose value at a point may not be finite. -/
def checkedValue (f : K → Option K) (x : K) : Driver K K := do
  Prog.modify (· ++ [x])
  match f x with
  | some value => pure value
  | none       => Prog.fail (.notFinite x)

def growthFactor : K := ((8 : ℕ) : K) / ((5 : ℕ) : K)

/-- The expansion of the bracket beyond `x_min`. -/
def expandMin (config : SolverConfig K) (f : K → Option K) (st : Solver1DState K) : Driver K (Solver1DState K) := do
  let xMin := enforceBounds config (st.xMin + growthFactor * (st.xMin - st.xMax))
  let fxMin ← checkedValue f xMin
  pure { st with xMin := xMin, fxMin := fxMin }

/-- The expansion of the bracket beyond `x_max`. -/
def expandMax (config : SolverConfig K) (f : K → Option K) (st : Solver1DState K) : Driver K (Solver1DState K) := do
  let xMax := enforceBounds config (st.xMax + growthFactor * (st.xMax - st.xMin))
  let fxMax ← checkedValue f xMax
  pure { st with xMax := xMax, fxMax := fxMax }

def count (n : ℕ) (st : Solver1DState K) : Solver1DState K := { st with evaluationNumber := st.evaluationNumber + n }

/-- The end with the smaller value moves, and the two in turn where the values are as large. -/
def expand (config : SolverConfig K) (f : K → Option K) (st : Solver1DState K) (flipflop : ℤ) :
    Driver K (Solver1DState K × ℤ) :=
  if |st.fxMin| < |st.fxMax| then do
    let st ← expandMin config f st
    pure (count 1 st, flipflop)
  else if |st.fxMax| < |st.fxMin| then do
    let st ← expandMax config f st
    pure (count 1 st, flipflop)
  else if flipflop = -1 then do
    let st ← expandMin config f st
    pure (count 1 (count 1 st), 1)
  else if flipflop = 1 then do
    let st ← expandMax config f st
    pure (count 1 st, -1)
  else pure (count 1 st, flipflop)

/-- `while st.evaluation_number <= config.max_evaluations { .. }` -/
def search (config : SolverConfig K) (f : K → Option K) : ℕ → Solver1DState K → ℤ → Driver K (Bracketed K)
  | 0, _, _                 => Prog.fail .outOfTurns
  | turns + 1, st, flipflop =>
    if st.evaluationNumber ≤ config.maxEvaluations then
      if st.fxMin * st.fxMax ≤ 0 then
        if Math.close st.fxMin 0 then pure (.root st.xMin)
        else if Math.close st.fxMax 0 then pure (.root st.xMax)
        else pure (.ready { st with root := (st.xMax + st.xMin) / ((2 : ℕ) : K) })
      else do
        let (st, flipflop) ← expand config f st flipflop
        search config f turns st flipflop
    else Prog.fail (.unableToBracket config.maxEvaluations st.xMin st.xMax st.fxMin st.fxMax)

/-- The bracket of the first two evaluations. -/
def start (config : SolverConfig K) (f : K → Option K) (root fx step : K) : Driver K (Solver1DState K) :=
  if 0 < fx then do
    let xMin := enforceBounds config (root - step)
    let fxMin ← checkedValue f xMin
    pure ⟨root, xMin, root, fxMin, fx, 2⟩
  else do
    let xMax := enforceBounds config (root + step)
    let fxMax ← checkedValue f xMax
    pure ⟨root, root, xMax, fx, fxMax, 2⟩

def bracketByStepping (config : SolverConfig K) (f : K → Option K) (guess step : K) : Driver K (Bracketed K) := do
  let root := enforceBounds config guess
  let fx ← checkedValue f root
  if Math.close fx 0 then pure (.root root)
  else
    let st ← start config f root fx step
    search config f (config.maxEvaluations + 1) st (-1)

/-- The checks of a bracket against the configuration. -/
def checkBracket (config : SolverConfig K) (xMin xMax : K) : Except (Failure K) Unit :=
  if xMax ≤ xMin then .error (.invalidRange xMin xMax)
  else
    match config.lowerBound.filter (fun lb => xMin < lb), config.upperBound.filter (fun ub => ub < xMax) with
    | some lb, _    => .error (.belowLowerBound xMin lb)
    | none, some ub => .error (.aboveUpperBound xMax ub)
    | none, none    => .ok ()

def bracketGiven (config : SolverConfig K) (f : K → Option K) (guess xMin xMax : K) : Driver K (Bracketed K) := do
  Prog.lift (checkBracket config xMin xMax)
  let fxMin ← checkedValue f xMin
  if Math.close fxMin 0 then pure (.root xMin)
  else
    let fxMax ← checkedValue f xMax
    if Math.close fxMax 0 then pure (.root xMax)
    else if (0 < fxMin ↔ 0 < fxMax) then Prog.fail (.notBracketed xMin xMax fxMin fxMax)
    else if guess ≤ xMin then Prog.fail (.guessBelow guess xMin)
    else if xMax ≤ guess then Prog.fail (.guessAbove guess xMax)
    else pure (.ready ⟨guess, xMin, xMax, fxMin, fxMax, 2⟩)

/-! ## The enforced bounds -/

variable {config : SolverConfig K} {f : K → Option K} {st : Solver1DState K} {x y : K}

def InBounds (config : SolverConfig K) (x : K) : Prop :=
  (∀ lb, config.lowerBound = some lb → lb ≤ x) ∧ ∀ ub, config.upperBound = some ub → x ≤ ub

/-- Some point is in the bounds. -/
def Consistent (config : SolverConfig K) : Prop :=
  ∀ lb ub, config.lowerBound = some lb → config.upperBound = some ub → lb ≤ ub

omit [Field K] in
theorem enforceBounds_cases (config : SolverConfig K) (x : K) :
    (∃ lb, config.lowerBound = some lb ∧ x < lb ∧ enforceBounds config x = lb) ∨
    (∃ ub, config.upperBound = some ub ∧ ub < x ∧ enforceBounds config x = ub ∧
      ∀ lb, config.lowerBound = some lb → lb ≤ x) ∨
    InBounds config x ∧ enforceBounds config x = x := by
  unfold enforceBounds
  cases hl : config.lowerBound.filter (fun lb => decide (x < lb)) with
  | some lb =>
    obtain ⟨hlb, hx⟩ := Option.filter_eq_some_iff.mp hl
    exact .inl ⟨lb, hlb, of_decide_eq_true hx, rfl⟩
  | none =>
    have hlow : ∀ lb, config.lowerBound = some lb → lb ≤ x := fun lb hlb => by
      have := Option.filter_eq_none_iff.mp hl lb hlb
      exact not_lt.mp (by simpa using this)
    cases hu : config.upperBound.filter (fun ub => decide (ub < x)) with
    | some ub =>
      obtain ⟨hub, hx⟩ := Option.filter_eq_some_iff.mp hu
      exact .inr (.inl ⟨ub, hub, of_decide_eq_true hx, rfl, hlow⟩)
    | none =>
      refine .inr (.inr ⟨⟨hlow, fun ub hub => ?_⟩, rfl⟩)
      have := Option.filter_eq_none_iff.mp hu ub hub
      exact not_lt.mp (by simpa using this)

omit [Field K] in
theorem enforceBounds_inBounds (h : Consistent config) (x : K) : InBounds config (enforceBounds config x) := by
  rcases enforceBounds_cases config x with ⟨lb, hlb, hx, he⟩ | ⟨ub, hub, hx, he, hlow⟩ | ⟨hin, he⟩
  · rw [he]
    refine ⟨fun lb' hlb' => ?_, fun ub hub => h lb ub hlb hub⟩
    rw [hlb] at hlb'
    exact (Option.some.inj hlb').ge
  · rw [he]
    refine ⟨fun lb hlb => h lb ub hlb hub, fun ub' hub' => ?_⟩
    rw [hub] at hub'
    exact (Option.some.inj hub').le
  · rw [he]
    exact hin

omit [Field K] in
theorem enforceBounds_le (hy : InBounds config y) (hxy : x ≤ y) : enforceBounds config x ≤ y := by
  rcases enforceBounds_cases config x with ⟨lb, hlb, -, he⟩ | ⟨ub, -, hx, he, -⟩ | ⟨-, he⟩ <;> rw [he]
  · exact hy.1 lb hlb
  · exact hx.le.trans hxy
  · exact hxy

omit [Field K] in
theorem le_enforceBounds (hy : InBounds config y) (hxy : y ≤ x) : y ≤ enforceBounds config x := by
  rcases enforceBounds_cases config x with ⟨lb, -, hx, he⟩ | ⟨ub, hub, -, he, -⟩ | ⟨-, he⟩ <;> rw [he]
  · exact hxy.trans hx.le
  · exact hy.2 ub hub
  · exact hxy

/-! ## The bracket of a search -/

/-- At most so many evaluations, all in the bounds. -/
def Traced (config : SolverConfig K) (n : ℕ) (evaluated : List K) : Prop :=
  (∀ x ∈ evaluated, InBounds config x) ∧ evaluated.length ≤ n

omit [Field K] in
theorem Traced.mono {n m : ℕ} {evaluated : List K} (h : Traced config n evaluated) (hnm : n ≤ m) :
    Traced config m evaluated := ⟨h.1, h.2.trans hnm⟩

/-- A failure within so many evaluations, but for a loop without an end. -/
def Fails (config : SolverConfig K) (n : ℕ) (e : Failure K) (evaluated : List K) : Prop :=
  Traced config n evaluated ∧ e ≠ .outOfTurns

/-- The ends of the bracket are in the order in which the step went. -/
def Ordered (forwards : Prop) (xMin xMax : K) : Prop := (forwards → xMin ≤ xMax) ∧ (¬ forwards → xMax ≤ xMin)

/-- **The bracket at every turn**: its ends in the bounds and in order, with the values of the function there. -/
structure Searching (config : SolverConfig K) (f : K → Option K) (forwards : Prop) (st : Solver1DState K) : Prop where
  min_eq : f st.xMin = some st.fxMin
  max_eq : f st.xMax = some st.fxMax
  min_in : InBounds config st.xMin
  max_in : InBounds config st.xMax
  ordered : Ordered forwards st.xMin st.xMax

/-- **A bracket for a solver**: the function changes sign between its ends, and the starting root is between them. -/
structure Valid (f : K → Option K) (forwards : Prop) (st : Solver1DState K) : Prop where
  min_eq : f st.xMin = some st.fxMin
  max_eq : f st.xMax = some st.fxMax
  sign : st.fxMin * st.fxMax < 0
  inside : forwards → st.xMin < st.root ∧ st.root < st.xMax
  inside_backwards : ¬ forwards → st.xMax < st.root ∧ st.root < st.xMin

variable {forwards : Prop} {n : ℕ}

omit [Field K] in
theorem checkedValue_spec (f : K → Option K) (n : ℕ) (hx : InBounds config x) : Triple (Traced config n) (checkedValue f x)
    (fun v tr => Traced config (n + 1) tr ∧ f x = some v) (Fails config (n + 1)) := by
  have hmodify : Triple (Traced config n) (Prog.modify (· ++ [x]) : Driver K Unit) (fun _ => Traced config (n + 1))
      (Fails config (n + 1)) := by
    refine Triple.modify (fun tr ht => ⟨fun y hy => ?_, ?_⟩)
    · rcases List.mem_append.mp hy with hy | hy
      · exact ht.1 y hy
      · exact List.mem_singleton.mp hy ▸ hx
    · rw [List.length_append, List.length_singleton]
      exact Nat.succ_le_succ ht.2
  refine Triple.bind hmodify (fun _ => ?_)
  cases hf : f x with
  | some v => exact Triple.pure v (fun tr ht => ⟨ht, rfl⟩)
  | none   => exact Triple.fail _ (fun tr ht => ⟨ht, nofun⟩)

variable [IsStrictOrderedRing K]

theorem grow_le (h : x ≤ y) : x + growthFactor * (x - y) ≤ x := by
  unfold growthFactor
  linarith

theorem le_grow (h : y ≤ x) : x ≤ x + growthFactor * (x - y) := by
  unfold growthFactor
  linarith

theorem expandMin_spec (hc : Consistent config) (h : Searching config f forwards st) (n : ℕ) :
    Triple (Traced config n) (expandMin config f st) (fun st' tr => Traced config (n + 1) tr ∧
      Searching config f forwards st' ∧ st'.evaluationNumber = st.evaluationNumber) (Fails config (n + 1)) := by
  have hin := enforceBounds_inBounds hc (st.xMin + growthFactor * (st.xMin - st.xMax))
  refine Triple.bind (checkedValue_spec f n hin) (fun v => Triple.pure _ (fun tr ht => ⟨ht.1, ?_, rfl⟩))
  exact ⟨ht.2, h.max_eq, hin, h.max_in,
    fun hf => (enforceBounds_le h.min_in (grow_le (h.ordered.1 hf))).trans (h.ordered.1 hf),
    fun hf => (h.ordered.2 hf).trans (le_enforceBounds h.min_in (le_grow (h.ordered.2 hf)))⟩

theorem expandMax_spec (hc : Consistent config) (h : Searching config f forwards st) (n : ℕ) :
    Triple (Traced config n) (expandMax config f st) (fun st' tr => Traced config (n + 1) tr ∧
      Searching config f forwards st' ∧ st'.evaluationNumber = st.evaluationNumber) (Fails config (n + 1)) := by
  have hin := enforceBounds_inBounds hc (st.xMax + growthFactor * (st.xMax - st.xMin))
  refine Triple.bind (checkedValue_spec f n hin) (fun v => Triple.pure _ (fun tr ht => ⟨ht.1, ?_, rfl⟩))
  exact ⟨h.min_eq, ht.2, h.min_in, hin,
    fun hf => (h.ordered.1 hf).trans (le_enforceBounds h.max_in (le_grow (h.ordered.1 hf))),
    fun hf => (enforceBounds_le h.max_in (grow_le (h.ordered.2 hf))).trans (h.ordered.2 hf)⟩

omit [Field K] [IsStrictOrderedRing K] in
theorem Searching.count (h : Searching config f forwards st) (n : ℕ) : Searching config f forwards (count n st) :=
  ⟨h.min_eq, h.max_eq, h.min_in, h.max_in, h.ordered⟩

/-- **One turn keeps the bracket**, with one evaluation and a count of one or two. -/
theorem expand_spec (hc : Consistent config) (h : Searching config f forwards st) (n : ℕ) (flipflop : ℤ) :
    Triple (Traced config n) (expand config f st flipflop) (fun p tr => Traced config (n + 1) tr ∧
      Searching config f forwards p.1 ∧ st.evaluationNumber + 1 ≤ p.1.evaluationNumber) (Fails config (n + 1)) := by
  have hmin := expandMin_spec hc h n
  have hmax := expandMax_spec hc h n
  have once (st' : Solver1DState K) (b : ℤ) : Triple (fun tr => Traced config (n + 1) tr ∧ Searching config f forwards st' ∧
      st'.evaluationNumber = st.evaluationNumber) (pure (Solver1D.count 1 st', b) : Driver K (Solver1DState K × ℤ))
      (fun p tr => Traced config (n + 1) tr ∧ Searching config f forwards p.1 ∧
        st.evaluationNumber + 1 ≤ p.1.evaluationNumber) (Fails config (n + 1)) :=
    Triple.pure _ (fun tr ht => ⟨ht.1, ht.2.1.count 1, by rw [← ht.2.2]; rfl⟩)
  unfold expand
  split_ifs
  · exact Triple.bind hmin (fun st' => once st' _)
  · exact Triple.bind hmax (fun st' => once st' _)
  · refine Triple.bind hmin (fun st' => Triple.pure _ (fun tr ht => ⟨ht.1, (ht.2.1.count 1).count 1, ?_⟩))
    rw [← ht.2.2]
    exact Nat.le_succ _
  · exact Triple.bind hmax (fun st' => once st' _)
  · exact Triple.pure _ (fun tr ht => ⟨ht.mono (Nat.le_succ n), h.count 1, le_rfl⟩)

omit [IsStrictOrderedRing K] in
theorem ne_zero_of_not_close (h : ¬ Math.close x 0 = true) : x ≠ 0 := Math.ne_of_close_eq_false h

theorem midpoint_between (h : x < y) : x < (y + x) / ((2 : ℕ) : K) ∧ (y + x) / ((2 : ℕ) : K) < y := ⟨by linarith, by linarith⟩

/-- **A change of sign ends the search**: the ends differ, so the midpoint is between them. -/
theorem Searching.valid (h : Searching config f forwards st) (hs : st.fxMin * st.fxMax ≤ 0)
    (hmin : ¬ Math.close st.fxMin 0 = true) (hmax : ¬ Math.close st.fxMax 0 = true) :
    Valid f forwards { st with root := (st.xMax + st.xMin) / ((2 : ℕ) : K) } := by
  have hsign : st.fxMin * st.fxMax < 0 :=
    lt_of_le_of_ne hs (mul_ne_zero (ne_zero_of_not_close hmin) (ne_zero_of_not_close hmax))
  have hne : st.xMin ≠ st.xMax := fun he => by
    have : st.fxMin = st.fxMax := Option.some.inj (h.min_eq.symm.trans ((congrArg f he).trans h.max_eq))
    rw [this] at hsign
    exact absurd hsign (not_lt.mpr (mul_self_nonneg _))
  refine ⟨h.min_eq, h.max_eq, hsign, fun hf => midpoint_between (lt_of_le_of_ne (h.ordered.1 hf) hne), fun hf => ?_⟩
  have := midpoint_between (lt_of_le_of_ne (h.ordered.2 hf) hne.symm)
  dsimp only
  rwa [add_comm]

def limit (config : SolverConfig K) : ℕ := max 2 (config.maxEvaluations + 1)

/-- What a driver hands over. -/
def Hands (config : SolverConfig K) (f : K → Option K) (forwards : Prop) (b : Bracketed K) (evaluated : List K) : Prop :=
  Traced config (limit config) evaluated ∧ ∀ st, b = .ready st → Valid f forwards st

/-- **The search**, with more turns than evaluations are left. -/
theorem search_spec (hc : Consistent config) : ∀ (turns : ℕ) {st : Solver1DState K} (flipflop : ℤ),
    Searching config f forwards st → 0 < turns → config.maxEvaluations + 2 ≤ turns + st.evaluationNumber →
      Triple (Traced config (min st.evaluationNumber (limit config))) (search config f turns st flipflop)
        (Hands config f forwards) (Fails config (limit config))
  | 0, st, flipflop, h, hpos, _         => absurd hpos (lt_irrefl 0)
  | turns + 1, st, flipflop, h, _, hle => by
    rw [search]
    split_ifs with hn hs hmin hmax
    · exact Triple.pure _ (fun tr ht => ⟨ht.mono (min_le_right _ _), nofun⟩)
    · exact Triple.pure _ (fun tr ht => ⟨ht.mono (min_le_right _ _), nofun⟩)
    · refine Triple.pure _ (fun tr ht => ⟨ht.mono (min_le_right _ _), fun st' hst => ?_⟩)
      obtain rfl := Bracketed.ready.inj hst
      exact h.valid hs hmin hmax
    · have hlim : config.maxEvaluations + 1 ≤ limit config := le_max_right _ _
      have he : min st.evaluationNumber (limit config) + 1 ≤ limit config := by omega
      refine Triple.bind ((expand_spec hc h _ flipflop).onError (fun e tr hf => ⟨hf.1.mono he, hf.2⟩)) (fun p => ?_)
      obtain ⟨st', flipflop'⟩ := p
      intro tr ht
      obtain ⟨htr, hst, hcount⟩ := ht
      dsimp only at hst hcount ⊢
      exact search_spec hc turns flipflop' hst (by omega) (by omega) tr (htr.mono (by omega))
    · exact Triple.fail _ (fun tr ht => ⟨ht.mono (min_le_right _ _), nofun⟩)

theorem start_spec (hc : Consistent config) {root fx : K} (hroot : InBounds config root) (hfx : f root = some fx) (step : K) :
    Triple (Traced config 1) (start config f root fx step) (fun st tr => Traced config 2 tr ∧
      Searching config f (0 ≤ step) st ∧ st.evaluationNumber = 2) (Fails config 2) := by
  have hmin := enforceBounds_inBounds hc (root - step)
  have hmax := enforceBounds_inBounds hc (root + step)
  unfold start
  split_ifs
  · refine Triple.bind (checkedValue_spec f 1 hmin) (fun v => Triple.pure _ (fun tr ht => ⟨ht.1, ?_, rfl⟩))
    exact ⟨ht.2, hfx, hmin, hroot, fun h => enforceBounds_le hroot (by linarith),
      fun h => le_enforceBounds hroot (by linarith)⟩
  · refine Triple.bind (checkedValue_spec f 1 hmax) (fun v => Triple.pure _ (fun tr ht => ⟨ht.1, ?_, rfl⟩))
    exact ⟨hfx, ht.2, hroot, hmax, fun h => le_enforceBounds hroot (by linarith),
      fun h => enforceBounds_le hroot (by linarith)⟩

theorem bracketByStepping_spec (hc : Consistent config) (f : K → Option K) (guess step : K) :
    Triple (Traced config 0) (bracketByStepping config f guess step) (Hands config f (0 ≤ step))
      (Fails config (limit config)) := by
  have hlim : 2 ≤ limit config := le_max_left _ _
  have hroot := enforceBounds_inBounds hc guess
  refine Triple.bind ((checkedValue_spec f 0 hroot).onError (fun e tr h => ⟨h.1.mono (by omega), h.2⟩)) (fun fx => ?_)
  split_ifs with hz
  · exact Triple.pure _ (fun tr ht => ⟨ht.1.mono (by omega), nofun⟩)
  · intro tr ht
    have hfails : ∀ e tr, Fails config 2 e tr → Fails config (limit config) e tr :=
      fun e tr h => ⟨h.1.mono hlim, h.2⟩
    refine Triple.bind ((start_spec hc hroot ht.2 step).onError hfails) (fun st => ?_) tr ht.1
    intro tr ht
    obtain ⟨htr, hst, hn⟩ := ht
    exact search_spec hc _ _ hst (Nat.succ_pos _) (by omega) tr (htr.mono (by omega))

omit [Field K] [IsStrictOrderedRing K] in
theorem checkBracket_eq_ok {xMin xMax : K} (h : checkBracket config xMin xMax = .ok ()) :
    xMin < xMax ∧ InBounds config xMin ∧ InBounds config xMax := by
  unfold checkBracket at h
  split at h
  · cases h
  rename_i hlt
  rw [not_le] at hlt
  split at h
  · cases h
  · cases h
  · rename_i hl hu
    have hlow : ∀ lb, config.lowerBound = some lb → lb ≤ xMin := fun lb hlb => by
      have := Option.filter_eq_none_iff.mp hl lb hlb
      exact not_lt.mp (by simpa using this)
    have hup : ∀ ub, config.upperBound = some ub → xMax ≤ ub := fun ub hub => by
      have := Option.filter_eq_none_iff.mp hu ub hub
      exact not_lt.mp (by simpa using this)
    exact ⟨hlt, ⟨hlow, fun ub hub => hlt.le.trans (hup ub hub)⟩, fun lb hlb => (hlow lb hlb).trans hlt.le, hup⟩

theorem mul_neg_of_signs (hx : x ≠ 0) (hy : y ≠ 0) (h : ¬ (0 < x ↔ 0 < y)) : x * y < 0 := by
  rcases lt_or_gt_of_ne hx with hx | hx
  · rcases lt_or_gt_of_ne hy with hy | hy
    · exact absurd (iff_of_false hx.not_gt hy.not_gt) h
    · exact mul_neg_of_neg_of_pos hx hy
  · rcases lt_or_gt_of_ne hy with hy | hy
    · exact mul_neg_of_pos_of_neg hx hy
    · exact absurd (iff_of_true hx hy) h

theorem bracketGiven_spec (config : SolverConfig K) (f : K → Option K) (guess xMin xMax : K) :
    Triple (Traced config 0) (bracketGiven config f guess xMin xMax) (Hands config f True) (Fails config (limit config)) := by
  have hlim : 2 ≤ limit config := le_max_left _ _
  have hlift : Triple (Traced config 0) (Prog.lift (checkBracket config xMin xMax) : Driver K Unit)
      (fun _ tr => Traced config 0 tr ∧ checkBracket config xMin xMax = .ok ()) (Fails config (limit config)) := by
    refine Triple.lift (fun a tr h ht => ⟨ht, h⟩) (fun e tr h ht => ⟨ht.mono (Nat.zero_le _), fun he => ?_⟩)
    rw [he] at h
    unfold checkBracket at h
    split at h
    · cases h
    · split at h <;> cases h
  refine Triple.bind hlift (fun _ => Triple.of_fact (fun hcheck => ?_))
  obtain ⟨hlt, hmin, hmax⟩ := checkBracket_eq_ok hcheck
  refine Triple.bind ((checkedValue_spec f 0 hmin).onError (fun e tr h => ⟨h.1.mono (by omega), h.2⟩)) (fun fxMin => ?_)
  by_cases hzmin : Math.close fxMin 0 = true
  · rw [if_pos hzmin]
    exact Triple.pure _ (fun tr ht => ⟨ht.1.mono (by omega), nofun⟩)
  rw [if_neg hzmin]
  refine Triple.of_fact (fun hfmin => Triple.bind
    ((checkedValue_spec f 1 hmax).onError (fun e tr h => ⟨h.1.mono hlim, h.2⟩)) (fun fxMax => ?_))
  split_ifs with hzmax hsign hlow hhigh
  · exact Triple.pure _ (fun tr ht => ⟨ht.1.mono hlim, nofun⟩)
  · exact Triple.fail _ (fun tr ht => ⟨ht.1.mono hlim, nofun⟩)
  · exact Triple.fail _ (fun tr ht => ⟨ht.1.mono hlim, nofun⟩)
  · exact Triple.fail _ (fun tr ht => ⟨ht.1.mono hlim, nofun⟩)
  · refine Triple.pure _ (fun tr ht => ⟨ht.1.mono hlim, fun st hst => ?_⟩)
    obtain rfl := Bracketed.ready.inj hst
    exact ⟨hfmin, ht.2, mul_neg_of_signs (ne_zero_of_not_close hzmin) (ne_zero_of_not_close hzmax) hsign,
      fun _ => ⟨not_le.mp hlow, not_le.mp hhigh⟩, fun h => absurd trivial h⟩

/-- **Root bracketing.**  From no evaluations, a driver ends.  It evaluates the function in the enforced bounds only, at
most once more than the limit and at least twice; and what it hands to a solver is a bracket, in the order of the step,
with a change of sign and the starting root inside.  A search by steps has to have a point in its bounds. -/
theorem bracketing (config : SolverConfig K) (f : K → Option K) (guess step xMin xMax : K) :
    (Consistent config → Triple (· = []) (bracketByStepping config f guess step) (Hands config f (0 ≤ step))
      (Fails config (limit config))) ∧
    Triple (· = []) (bracketGiven config f guess xMin xMax) (Hands config f True) (Fails config (limit config)) := by
  have hnil : ∀ tr : List K, tr = [] → Traced config 0 tr := fun tr htr => by
    rw [htr]
    exact ⟨fun x hx => absurd hx List.not_mem_nil, le_rfl⟩
  exact ⟨fun hc => (bracketByStepping_spec hc f guess step).weaken hnil (fun _ _ h => h),
    (bracketGiven_spec config f guess xMin xMax).weaken hnil (fun _ _ h => h)⟩

/-- A line through a third, from one back to zero. -/
theorem bracketing_line : ∃ st tr, bracketByStepping ⟨100, none, none⟩ (fun x : ℚ => some (x - 1 / 3)) 1 1 [] =
    (.ok (.ready st), tr) ∧ Valid (fun x : ℚ => some (x - 1 / 3)) (0 ≤ (1 : ℚ)) st := by
  have hrun : bracketByStepping ⟨100, none, none⟩ (fun x : ℚ => some (x - 1 / 3)) 1 1 [] =
      (.ok (.ready ⟨1 / 2, 0, 1, -(1 / 3), 2 / 3, 2⟩), [1, 0]) := by
    decide +kernel
  have h := (bracketing ⟨100, none, none⟩ (fun x : ℚ => some (x - 1 / 3)) 1 1 0 1).1 (fun lb ub hlb => nomatch hlb) [] rfl
  rw [hrun] at h
  exact ⟨_, _, hrun, h.2 _ rfl⟩

/-- **What a driver accepts**: a step backwards gives a bracket backwards; two evaluations are made with none allowed; and
where no point is in the bounds, the evaluation is not. -/
theorem bracketing_accepts :
    (∃ st tr, bracketByStepping ⟨100, none, none⟩ (fun x : ℚ => some x) 1 (-2) [] = (.ok (.ready st), tr) ∧ st.xMax < st.xMin) ∧
    bracketByStepping ⟨0, none, none⟩ (fun x : ℚ => some x) 1 2 [] = (.error (.unableToBracket 0 (-1) 1 (-1) 1), [1, -1]) ∧
    bracketByStepping ⟨100, some 2, some 1⟩ (fun x : ℚ => some (x - 2)) 0 1 [] = (.ok (.root 2), [2]) ∧
    ¬ InBounds ⟨100, some 2, some 1⟩ (2 : ℚ) := by
  refine ⟨⟨⟨2 / 5, 3, -(11 / 5), 3, -(11 / 5), 3⟩, [1, 3, -(11 / 5)], by decide +kernel, by decide +kernel⟩,
    by decide +kernel, by decide +kernel, fun h => ?_⟩
  exact absurd (h.2 1 rfl) (by decide +kernel)

end Solver1D
end Itofin
