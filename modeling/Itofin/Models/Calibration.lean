import Itofin.Models.Model
/-!
# Calibration — the fit of a model to its instruments, all or nothing

`calibrate` of `models/model.rs`.  Every evaluation of the cost function writes the projected parameters into the live
model and reads the errors of the instruments off it; an instrument reads the model, and may move the derived state and
the world outside.  After a failure the holder restores what it captured before the run.

The evaluations keep the sizes of the arguments and everything that earlier fits stored (`Kept`), and that is all a
rollback needs: `calibrate_spec` is the result for every minimizer.
-/
namespace Itofin

open Effect
open Floats (isFinite)

variable {K D W : Type} [SqrtFloats K]

/-- What an instrument reads off the model, and what it changes besides. -/
structure CalibrationHelper (K D W : Type) where
  calibrationError : ModelState K D W → Except String K × D × W

namespace Calibration

/-- `instrument.calibration_error()`. -/
def calibrationError (instrument : CalibrationHelper K D W) : Prog (ModelState K D W) Stop (Except String K) := fun s =>
  (.ok (instrument.calibrationError s).1,
    { s with derived := (instrument.calibrationError s).2.1, world := (instrument.calibrationError s).2.2 })

section

variable (holder : Holder K D W) (instruments : List (CalibrationHelper K D W)) (weights : List K)
  (projection : Projection K)

/-- The loop of `values` over the instruments and their weights. -/
def residuals : List (CalibrationHelper K D W × K) → Prog (ModelState K D W) Stop (List K)
  | []                             => pure []
  | (instrument, weight) :: others => do
    let error ← calibrationError instrument
    let value := match error with
      | .ok error => error * SqrtFloats.sqrt weight
      | .error _  => Floats.nan
    return value :: (← residuals others)

/-- The loop of `value`; no sum after an instrument failed. -/
def weightedSquares : List (CalibrationHelper K D W × K) → K → Prog (ModelState K D W) Stop (Option K)
  | [], value                             => pure (some value)
  | (instrument, weight) :: others, value => do
    match ← calibrationError instrument with
    | .ok diff => weightedSquares others (value + diff * diff * weight)
    | .error _ => pure none

/-- `CalibrationFunction::set_params`: whether the write succeeded. -/
def trySetParams (full : List K) : Prog (ModelState K D W) Stop Bool := do
  match ← (holder.setParams full).attempt with
  | .ok ()   => pure true
  | .error _ => pure false

def values (params : List K) : Prog (ModelState K D W) Stop (List K) := do
  let full ← Prog.lift (projection.includeFree params)
  if ← trySetParams holder full then residuals (instruments.zip weights)
  else pure (List.replicate instruments.length Floats.nan)

def value (params : List K) : Prog (ModelState K D W) Stop K := do
  let full ← Prog.lift (projection.includeFree params)
  if ← trySetParams holder full then
    match ← weightedSquares (instruments.zip weights) 0 with
    | some value => pure (SqrtFloats.sqrt value)
    | none       => pure Floats.nan
  else pure Floats.nan

def calibrationFunction : CostFunction K (ModelState K D W) where
  value  := value holder instruments weights projection
  values := values holder instruments weights projection

/-- `ProjectedConstraint::test`, over the intersection with the additional constraint. -/
def projectedTest (constraint : List K → Bool) (additional : Option (List K → Bool)) (x : List K) : Option Bool :=
  match projection.includeFree x with
  | .ok full => match additional with
    | none            => some (constraint full)
    | some additional => some (constraint full && additional full)
  | .error _ => none

/-- The closure whose outcome decides on the rollback. -/
def fit (method : Minimizer K) (start : List K) : Prog (ModelState K D W) Stop Unit := do
  let f := calibrationFunction holder instruments weights projection
  let (ended, problem) ← Problem.minimize f method ⟨start, 0⟩
  let endCriteriaResult ← Prog.lift (ended.mapError .error)
  let result := problem.currentValue
  let full ← Prog.lift (projection.includeFree result)
  (holder.setParams full).mapError .error
  let (problemValues, problem) ← problem.values f result
  Prog.require (problemValues.all isFinite = true) (.error "nonfinite final calibration residuals")
  Prog.require (isFinite ((problemValues.map (fun value => value * value)).foldl (· + ·) 0) = true)
    (.error "nonfinite final calibration cost")
  Prog.modify (fun s => { s with model := { s.model with
    endCriteria        := endCriteriaResult
    problemValues      := problemValues
    functionEvaluation := problem.functionEvaluation } })
  Prog.modify holder.notifyObservers

/-- The action that `calibration_rollback` captured in the state `s₀`: the trait's own reapplies the parameters, and
`GjrGarchModel` writes them and puts its process back. -/
def rollback (s₀ : ModelState K D W) : Prog (ModelState K D W) String Unit :=
  match holder.setter with
  | .rebuilt _ => do
    Holder.writeParams s₀.model.params
    Prog.modify (fun s => { s with derived := s₀.derived, generated := s₀.generated })
    Prog.modify holder.notifyObservers
  | _          => holder.setParams s₀.model.params

end

def calibrate (holder : Holder K D W) (instruments : List (CalibrationHelper K D W)) (method : OptimizationMethod K)
    (additional : Option (List K → Bool)) (weights : List K) (fixParameters : List Bool) :
    Prog (ModelState K D W) Stop Unit := do
  Prog.require (instruments.isEmpty = false) (.error "no instruments provided")
  let s₀ ← Prog.get
  let constraint := holder.constraint s₀.model.arguments
  Prog.require (weights = [] ∨ weights.length = instruments.length)
    (.error s!"mismatch between number of instruments ({instruments.length}) and weights ({weights.length})")
  Prog.require (weights.all (fun weight => isFinite weight && Floats.le 0 weight) = true)
    (.error "calibration weights must be finite and non-negative")
  let weights := if weights.isEmpty then List.replicate instruments.length (Floats.ofNat 1) else weights
  let prms := s₀.model.params
  Prog.require (fixParameters = [] ∨ fixParameters.length = prms.length)
    (.error (s!"mismatch between number of parameters ({prms.length}) " ++
      s!"and fixed-parameter specs ({fixParameters.length})"))
  let projection ← Prog.lift ((Projection.new prms fixParameters).mapError .error)
  let start ← Prog.lift (projection.project prms)
  let minimizer := method (projectedTest projection constraint additional) start
  match ← (fit holder instruments weights projection minimizer start).attempt with
  | .ok ()            => pure ()
  | .error .panic     => Prog.fail .panic
  | .error (.error e) => do
    (rollback holder s₀).mapError .error
    Prog.fail (.error e)

/-! ## What the evaluations keep -/

/-- The arguments have their sizes, and what earlier fits stored is there. -/
def Kept (s₀ s : ModelState K D W) : Prop :=
  ∃ arguments, arguments.map List.length = s₀.model.arguments.map List.length ∧
    s.model = { s₀.model with arguments := arguments }

/-- The parameters are `full` besides. -/
def At (s₀ : ModelState K D W) (full : List K) (s : ModelState K D W) : Prop := Kept s₀ s ∧ s.model.params = full

section

variable {holder : Holder K D W} {instruments : List (CalibrationHelper K D W)} {weights : List K}
  {projection : Projection K} {s₀ : ModelState K D W} {full : List K}

omit [SqrtFloats K]

theorem Kept.refl (s₀ : ModelState K D W) : Kept s₀ s₀ := ⟨s₀.model.arguments, rfl, rfl⟩

theorem Kept.params_length {s : ModelState K D W} (h : Kept s₀ s) : s.model.params.length = s₀.model.params.length := by
  obtain ⟨arguments, hshape, hm⟩ := h
  simp [hm, CalibratedModel.params, List.length_flatten, hshape]

/-- **A `set_params` with a vector of the right size** leaves it in the model, or stops before the write. -/
theorem setParams_cases (holder : Holder K D W) (hfull : full.length = s₀.model.params.length) {s : ModelState K D W}
    (hs : Kept s₀ s) :
    (∃ e, holder.check full s = .error e ∧ holder.setParams full s = (.error e, s)) ∨
    ∃ s', holder.setParams full s = (.ok (), s') ∧ At s₀ full s' := by
  have hlen : full.length = s.model.params.length := hfull.trans hs.params_length.symm
  rcases holder.setParams_cases full s with
    ⟨e, hc, hset⟩ | ⟨-, arguments, hflat, hshape, ⟨hne, -⟩ | ⟨-, s', hset, hm, -⟩⟩
  · exact .inl ⟨e, hc, hset⟩
  · exact absurd hlen hne
  · right
    obtain ⟨old, hold, hs⟩ := hs
    refine ⟨s', hset, ⟨arguments, ?_, ?_⟩, ?_⟩
    · rw [hshape, hs, hold]
    · rw [hm, hs]
    · rw [hm, CalibratedModel.params, hflat, overlay_of_length hlen]

theorem setParams_at (hfull : full.length = s₀.model.params.length) :
    Triple (Kept s₀) (holder.setParams full) (fun _ => At s₀ full) (fun _ => Kept s₀) := by
  intro s hs
  rcases setParams_cases holder hfull hs with ⟨e, -, h⟩ | ⟨s', h, hat⟩
  · rw [h]
    exact hs
  · rw [h]
    exact hat

theorem setParams_again (hfull : full.length = s₀.model.params.length) :
    Triple (At s₀ full) (holder.setParams full) (fun _ => At s₀ full) (fun _ => At s₀ full) := by
  intro s hs
  rcases setParams_cases holder hfull hs.1 with ⟨e, -, h⟩ | ⟨s', h, hat⟩
  · rw [h]
    exact hs
  · rw [h]
    exact hat

theorem includeFree_length {x : List K} (hseed : projection.seed = s₀.model.params)
    (h : projection.includeFree x = .ok full) : full.length = s₀.model.params.length := by
  unfold Projection.includeFree at h
  split at h
  · rw [← Except.ok.inj h, withFree_length, hseed]
  · exact nomatch h

end

section

variable {holder : Holder K D W} {instruments : List (CalibrationHelper K D W)} {weights : List K}
  {projection : Projection K} {I : ModelState K D W → Prop} (hI : ∀ s s', s.model = s'.model → I s → I s')

include hI

omit [SqrtFloats K] in
theorem calibrationError_keeps (instrument : CalibrationHelper K D W) :
    Triple I (calibrationError instrument) (fun _ => I) (fun _ => I) := fun s hs => hI s _ rfl hs

theorem residuals_keeps : ∀ (pairs : List (CalibrationHelper K D W × K)),
    Triple I (residuals pairs) (fun _ => I) (fun _ => I)
  | []           => Triple.pure _ (fun _ hs => hs)
  | (i, w) :: ps => by
    apply Triple.bind (calibrationError_keeps hI i)
    intro error
    apply Triple.bind (residuals_keeps ps)
    intro rest
    exact Triple.pure _ (fun _ hs => hs)

theorem weightedSquares_keeps : ∀ (pairs : List (CalibrationHelper K D W × K)) (v : K),
    Triple I (weightedSquares pairs v) (fun _ => I) (fun _ => I)
  | [], v           => Triple.pure _ (fun _ hs => hs)
  | (i, w) :: ps, v => by
    apply Triple.bind (calibrationError_keeps hI i)
    intro error
    cases error with
    | ok diff => exact weightedSquares_keeps ps _
    | error e => exact Triple.pure _ (fun _ hs => hs)

omit [SqrtFloats K] hI in
theorem trySetParams_keeps {full : List K} (h : Triple I (holder.setParams full) (fun _ => I) (fun _ => I)) :
    Triple I (trySetParams holder full) (fun _ => I) (fun _ => I) := by
  apply Triple.bind (Triple.attempt h)
  intro r
  cases r with
  | ok u    => exact Triple.pure _ (fun _ hs => hs)
  | error e => exact Triple.pure _ (fun _ hs => hs)

/-- **An evaluation keeps what its writes keep.** -/
theorem values_keeps (x : List K) (hset : ∀ full, projection.includeFree x = .ok full →
    Triple I (holder.setParams full) (fun _ => I) (fun _ => I)) :
    Triple I (values holder instruments weights projection x) (fun _ => I) (fun _ => I) := by
  apply Triple.bind (Triple.lift_keeps (projection.includeFree x))
  intro full
  apply Triple.of_fact
  intro hfull
  apply Triple.bind (trySetParams_keeps (hset full hfull))
  intro written
  cases written with
  | true  => exact residuals_keeps hI _
  | false => exact Triple.pure _ (fun _ hs => hs)

theorem value_keeps (x : List K) (hset : ∀ full, projection.includeFree x = .ok full →
    Triple I (holder.setParams full) (fun _ => I) (fun _ => I)) :
    Triple I (value holder instruments weights projection x) (fun _ => I) (fun _ => I) := by
  apply Triple.bind (Triple.lift_keeps (projection.includeFree x))
  intro full
  apply Triple.of_fact
  intro hfull
  apply Triple.bind (trySetParams_keeps (hset full hfull))
  intro written
  cases written with
  | true  =>
    apply Triple.bind (weightedSquares_keeps hI _ 0)
    intro r
    cases r with
    | none   => exact Triple.pure _ (fun _ hs => hs)
    | some v => exact Triple.pure _ (fun _ hs => hs)
  | false => exact Triple.pure _ (fun _ hs => hs)

end

/-! ## The fit and its rollback -/

section

variable {holder : Holder K D W} {instruments : List (CalibrationHelper K D W)} {weights : List K}
  {projection : Projection K} {s₀ : ModelState K D W} {method : Minimizer K} {start : List K}

/-- **A fit that fails** leaves the sizes and what was stored; one that succeeds leaves the result of the minimizer
among the parameters that were held fixed. -/
theorem fit_spec (hseed : projection.seed = s₀.model.params) : Triple (· = s₀)
    (fit holder instruments weights projection method start)
    (fun _ s => ∃ criterion problem s₁ full,
      Problem.minimize (calibrationFunction holder instruments weights projection) method ⟨start, 0⟩ s₀ =
        (.ok (.ok criterion, problem), s₁) ∧
      projection.includeFree problem.currentValue = .ok full ∧ s.model.params = full ∧ s.model.endCriteria = criterion)
    (fun _ s => Kept s₀ s) := by
  have hkept : ∀ s s' : ModelState K D W, s.model = s'.model → Kept s₀ s → Kept s₀ s' := by
    rintro s s' h ⟨arguments, hshape, hs⟩
    exact ⟨arguments, hshape, h ▸ hs⟩
  have hwrite : ∀ x full, projection.includeFree x = .ok full →
      Triple (Kept s₀) (holder.setParams full) (fun _ => Kept s₀) (fun _ => Kept s₀) := by
    intro x full h
    exact (setParams_at (includeFree_length hseed h)).weaken (fun _ hs => hs) (fun _ _ hs => hs.1)
  have hmin := Problem.minimize_keeps (f := calibrationFunction holder instruments weights projection) (I := Kept s₀)
    (fun x => value_keeps hkept x (hwrite x)) (fun x => values_keeps hkept x (hwrite x)) method ⟨start, 0⟩
  have hfrom : Triple (· = s₀) (Problem.minimize (calibrationFunction holder instruments weights projection) method
      ⟨start, 0⟩) (fun _ => Kept s₀) (fun _ => Kept s₀) :=
    hmin.weaken (by rintro s rfl; exact Kept.refl s) (fun _ _ hs => hs)
  apply Triple.bind hfrom.with_run_from
  rintro ⟨ended, problem⟩
  refine Triple.weaken (P := fun s => Kept s₀ s ∧ ∃ s₁, Problem.minimize
    (calibrationFunction holder instruments weights projection) method ⟨start, 0⟩ s₀ = (.ok (ended, problem), s₁))
    ?_ (fun s hs => ⟨hs.1, s, hs.2⟩) (fun _ _ hs => hs)
  apply Triple.of_fact
  rintro ⟨s₁, hrun⟩
  dsimp only
  apply Triple.bind (Triple.lift_keeps (ended.mapError Stop.error))
  intro criterion
  apply Triple.of_fact
  intro hcriterion
  obtain rfl : ended = .ok criterion := mapError_eq_ok.1 hcriterion
  apply Triple.bind (Triple.lift_keeps (projection.includeFree problem.currentValue))
  intro full
  apply Triple.of_fact
  intro hfull
  have hlen := includeFree_length hseed hfull
  have hat : ∀ s s' : ModelState K D W, s.model = s'.model → At s₀ full s → At s₀ full s' :=
    fun s s' h hs => ⟨hkept s s' h hs.1, h ▸ hs.2⟩
  have hset : Triple (Kept s₀) ((holder.setParams full).mapError Stop.error) (fun _ => At s₀ full) (fun _ => Kept s₀) :=
    Triple.mapError (setParams_at hlen)
  apply Triple.bind hset
  intro _
  -- the last evaluation writes the same vector again
  have hagain : Triple (At s₀ full) (values holder instruments weights projection problem.currentValue)
      (fun _ => At s₀ full) (fun _ => At s₀ full) := by
    apply values_keeps hat
    intro full' hfull'
    rw [hfull] at hfull'
    rw [← Except.ok.inj hfull']
    exact setParams_again hlen
  have hlast := Problem.values_keeps (f := calibrationFunction holder instruments weights projection) problem hagain
  apply Triple.bind (hlast.onError (fun _ _ hs => hs.1))
  rintro ⟨problemValues, problem'⟩
  dsimp only
  apply Triple.bind (Triple.require (fun _ _ hs => hs.1))
  intro _
  apply Triple.bind (Triple.require (fun _ _ hs => hs.2.1))
  intro _
  apply Triple.bind (Q := fun _ s => s.model.params = full ∧ s.model.endCriteria = criterion)
  · exact Triple.modify (fun s hs => ⟨hs.2.2.2, rfl⟩)
  · intro _
    exact Triple.modify (fun s hs => ⟨criterion, problem, s₁, full, hrun, hfull, hs⟩)

/-- The check that a model's own parameters pass; the constructors make it, and `set_params` does. -/
def Accepts (holder : Holder K D W) (params : List K) : Prop :=
  match holder.setter with
  | .validated validate => validate params = .ok ()
  | _                   => True

omit [SqrtFloats K] in
/-- Arguments of the old sizes with the old values are the old arguments. -/
theorem restored {s : ModelState K D W} {arguments : List (List K)} (hs : Kept s₀ s)
    (hflat : arguments.flatten = overlay s.model.params s₀.model.params)
    (hshape : arguments.map List.length = s.model.arguments.map List.length) :
    { s.model with arguments := arguments } = s₀.model := by
  rw [overlay_of_length hs.params_length.symm] at hflat
  obtain ⟨old, hold, hs⟩ := hs
  have hargs : arguments = s₀.model.arguments := by
    rw [List.eq_iff_flatten_eq]
    exact ⟨hflat, by rw [hshape, hs, hold]⟩
  rw [hargs, hs]

omit [SqrtFloats K] in
/-- **The rollback does not fail**, and puts the model back as it was. -/
theorem rollback_spec (haccepts : Accepts holder s₀.model.params) {s : ModelState K D W} (hs : Kept s₀ s) :
    ∃ s', rollback holder s₀ s = (.ok (), s') ∧ s'.model = s₀.model := by
  have hlen : s₀.model.params.length = s.model.params.length := hs.params_length.symm
  have hset (hcheck : holder.check s₀.model.params s = .ok ()) :
      ∃ s', holder.setParams s₀.model.params s = (.ok (), s') ∧ s'.model = s₀.model := by
    rcases holder.setParams_cases s₀.model.params s with
      ⟨e, hc, -⟩ | ⟨-, arguments, hflat, hshape, ⟨hne, -⟩ | ⟨-, s', hrun, hm, -⟩⟩
    · rw [hcheck] at hc
      exact nomatch hc
    · exact absurd hlen hne
    · exact ⟨s', hrun, hm.trans (restored hs hflat hshape)⟩
  unfold rollback
  cases hsetter : holder.setter with
  | standard           =>
    apply hset
    simp [Holder.check, hsetter]
  | validated validate =>
    apply hset
    simpa [Holder.check, Accepts, hsetter] using haccepts
  | rebuilt rebuild    =>
    obtain ⟨r, arguments, hwrite, hflat, hshape, hr⟩ := CalibratedModel.writeParams_spec s₀.model.params s.model
    obtain rfl := hr.2 hlen
    let s' := { s with
      model := { s.model with arguments := arguments }, derived := s₀.derived, generated := s₀.generated }
    refine ⟨holder.notifyObservers s', ?_, restored hs hflat hshape⟩
    simp [Holder.writeParams, hwrite, s']

end

/-- A model that passes its holder's check: its constructor made it, and so does every `set_params`. -/
structure LiveModel (holder : Holder K D W) where
  state   : ModelState K D W
  accepts : Accepts holder state.model.params

omit [SqrtFloats K] in
theorem seed_of_new {values : List K} {fix : List Bool} {p : Projection K} (h : Projection.new values fix = .ok p) :
    p.seed = values ∧ p.fixParameters = if fix = [] then List.replicate values.length false else fix := by
  dsimp only [Projection.new] at h
  generalize (if fix = [] then List.replicate values.length false else fix) = fix' at h ⊢
  split at h
  · split at h
    · rw [← Except.ok.inj h]
      exact ⟨rfl, rfl⟩
    · exact nomatch h
  · exact nomatch h

omit [SqrtFloats K] in
/-- The full vector: the fixed entries of the seed, and among them the free ones. -/
theorem includeFree_ok {p : Projection K} {x full : List K} (h : p.includeFree x = .ok full) :
    full.length = p.seed.length ∧ (∀ i : ℕ, p.fixParameters[i]? = some true → full[i]? = p.seed[i]?) ∧
      freeEntries p.fixParameters full = x := by
  unfold Projection.includeFree at h
  split at h
  · rename_i hx
    rw [← Except.ok.inj h]
    exact ⟨withFree_length .., fun i hi => withFree_fixed _ _ _ i hi, freeEntries_withFree _ _ _ p.sized hx⟩
  · exact nomatch h

/-- What a calibration promises, for the state before it and the way it ended. -/
def Transactional (holder : Holder K D W) (instruments : List (CalibrationHelper K D W)) (method : OptimizationMethod K)
    (additional : Option (List K → Bool)) (weights : List K) (fixParameters : List Bool)
    (s₀ : ModelState K D W) : Except Stop Unit × ModelState K D W → Prop
  | (.ok (), s)            => ∃ projection start criterion problem s₁,
    Projection.new s₀.model.params fixParameters = .ok projection ∧
    projection.project s₀.model.params = .ok start ∧
    Problem.minimize (calibrationFunction holder instruments
        (if weights.isEmpty then List.replicate instruments.length (Floats.ofNat 1) else weights) projection)
      (method (projectedTest projection (holder.constraint s₀.model.arguments) additional) start)
      ⟨start, 0⟩ s₀ = (.ok (.ok criterion, problem), s₁) ∧
    s.model.params.length = s₀.model.params.length ∧
    (∀ i : ℕ, fixParameters[i]? = some true → s.model.params[i]? = s₀.model.params[i]?) ∧
    freeEntries projection.fixParameters s.model.params = problem.currentValue ∧ s.model.endCriteria = criterion
  | (.error (.error _), s) => s.model = s₀.model
  | (.error .panic, _)     => True

/-- **Calibration is transactional.**  An error leaves the parameters, the end criterion, the residuals and the count of
the last fit as they were; a success leaves every fixed parameter at its value and the free ones at the result of the
minimizer. -/
theorem calibrate_transactional (holder : Holder K D W) (m : LiveModel holder)
    (instruments : List (CalibrationHelper K D W)) (method : OptimizationMethod K)
    (additional : Option (List K → Bool)) (weights : List K) (fixParameters : List Bool) :
    Transactional holder instruments method additional weights fixParameters m.state
      (calibrate holder instruments method additional weights fixParameters m.state) := by
  obtain ⟨s₀, haccepts⟩ := m
  dsimp only
  -- nothing is written before the fit
  have huntouched : ∀ (e : Stop) (s : ModelState K D W), s = s₀ →
      Transactional holder instruments method additional weights fixParameters s₀ (.error e, s) := by
    rintro (e | _) s rfl
    · exact rfl
    · trivial
  suffices h : Triple (· = s₀) (calibrate holder instruments method additional weights fixParameters)
      (fun u s => Transactional holder instruments method additional weights fixParameters s₀ (.ok u, s))
      (fun e s => Transactional holder instruments method additional weights fixParameters s₀ (.error e, s)) by
    have := h s₀ rfl
    rcases hrun : calibrate holder instruments method additional weights fixParameters s₀ with ⟨e | u, s⟩ <;>
      rwa [hrun] at this
  have hrequire (c : Prop) [Decidable c] (e : Stop) : Triple (· = s₀) (Prog.require c e) (fun _ s => s = s₀ ∧ c)
      (fun e s => Transactional holder instruments method additional weights fixParameters s₀ (.error e, s)) :=
    (Triple.require_keeps c e).onError huntouched
  have hlift {α : Type} (x : Except Stop α) : Triple (· = s₀) (Prog.lift x) (fun a s => s = s₀ ∧ x = .ok a)
      (fun e s => Transactional holder instruments method additional weights fixParameters s₀ (.error e, s)) :=
    (Triple.lift_keeps x).onError huntouched
  unfold calibrate
  refine Triple.bind (hrequire _ _) (fun _ => Triple.of_fact (fun _ => ?_))
  refine Triple.bind (Q := fun a s => s = s₀ ∧ a = s₀) (fun s hs => ⟨hs, hs⟩) (fun a => Triple.of_fact ?_)
  rintro rfl
  refine Triple.bind (hrequire _ _) (fun _ => Triple.of_fact (fun _ => ?_))
  refine Triple.bind (hrequire _ _) (fun _ => Triple.of_fact (fun _ => ?_))
  refine Triple.bind (hrequire _ _) (fun _ => Triple.of_fact (fun hsize => ?_))
  refine Triple.bind (hlift _) (fun projection => Triple.of_fact (fun hnew => ?_))
  refine Triple.bind (hlift _) (fun start => Triple.of_fact (fun hstart => ?_))
  rw [mapError_eq_ok] at hnew
  obtain ⟨hseed, hfix⟩ := seed_of_new hnew
  refine Triple.bind (Triple.attempt (fit_spec hseed)) ?_
  rintro ((e | _) | u)
  · have hback : Triple (Kept a) ((rollback holder a).mapError Stop.error) (fun _ s => s.model = a.model)
        (fun _ _ => False) := by
      intro s hs
      obtain ⟨s', hrun, hm⟩ := rollback_spec haccepts hs
      simp only [Prog.mapError, hrun, Except.mapError]
      exact hm
    refine Triple.bind (hback.onError (fun _ _ hs => hs.elim)) (fun _ => ?_)
    exact Triple.fail _ (fun s hs => hs)
  · exact Triple.fail _ (fun s _ => trivial)
  · apply Triple.pure _
    rintro s ⟨criterion, problem, s₁, full, hrun, hfull, hparams, hcriterion⟩
    obtain ⟨hlen, hfixed, hfree⟩ := includeFree_ok hfull
    rw [← hparams] at hlen hfixed hfree
    refine ⟨projection, start, criterion, problem, s₁, hnew, hstart, hrun, hseed ▸ hlen, ?_, hfree, hcriterion⟩
    intro i hi
    rw [← hseed]
    apply hfixed
    have hne : fixParameters ≠ [] := by
      rintro rfl
      simp at hi
    rwa [hfix, if_neg hne]

end Calibration
end Itofin
