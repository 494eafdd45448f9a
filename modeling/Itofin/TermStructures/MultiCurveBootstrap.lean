import Mathlib.Algebra.Ring.Nat
import Mathlib.Data.List.SplitLengths
import Itofin.Math.Optimization
/-!
# MultiCurveBootstrap — the joint solve of several curves

`MultiCurveBootstrap::run` of `termstructures/globalbootstrap.rs`.  Each contributor gives a block of the guess; every
trial point is cut into the blocks again, written to all contributors, announced to the observers, and only then are the
residuals collected.  The steps of the contributors and the observers are any functions of the curves' state (`Steps`),
which can fail, panic, and mark or unmark any curve; the minimizer is any strategy.

Every call of the run goes to a log with its result.  `run_spec` reads the whole log off the way the run ended.
-/
namespace Itofin
namespace MultiCurveBootstrap

open Effect

variable {K W : Type} [SqrtFloats K]

/-- The marks of the curves (their "calculated" flags), and everything else. -/
structure Curves (W : Type) where
  marked : ℕ → Bool
  world  : W

/-- A call of the parent, with its result. -/
inductive Event (K : Type) where
  | setup (i : ℕ) (result : Except Stop (List K))
  | set (i : ℕ) (slice : List K) (result : Except Stop Unit)
  | notify (observer : ℕ)
  | evaluate (i : ℕ) (result : Except Stop (List K))
  | valid (i : ℕ) (slice : List K) (result : Except Stop Unit)
  | invalidate (i : ℕ)

/-- The four steps of the contributors, by number, and the observers. -/
structure Steps (K W : Type) where
  setupCostFunction       : ℕ → Prog (Curves W) Stop (List K)
  setCostFunctionArgument : ℕ → List K → Prog (Curves W) Stop Unit
  evaluateCostFunction    : ℕ → Prog (Curves W) Stop (List K)
  setToValid              : ℕ → List K → Prog (Curves W) Stop Unit
  /-- The registered observers that can be upgraded. -/
  observers               : Curves W → List ℕ
  update                  : ℕ → Curves W → Curves W

structure Joint (K W : Type) where
  curves : Curves W
  /-- How many setups were entered. -/
  setUp  : ℕ
  log    : List (Event K)

/-- A step of a contributor, with its line of the log. -/
def logged {α : Type} (event : Except Stop α → Event K) (step : Prog (Curves W) Stop α) : Prog (Joint K W) Stop α :=
  fun j => ((step j.curves).1, { j with curves := (step j.curves).2, log := j.log ++ [event (step j.curves).1] })

/-- `&x[offset..offset + size]`. -/
def slice (x : List K) (offset size : ℕ) : Except Stop (List K) :=
  if offset + size ≤ x.length then .ok ((x.drop offset).take size) else .error .panic

section
variable (P : Steps K W)

/-- The loop over the setups; `set_up` counts before the call. -/
def setup : List ℕ → Prog (Joint K W) Stop (List (List K))
  | []      => pure []
  | i :: cs => do
    Prog.modify (fun j => { j with setUp := j.setUp + 1 })
    let block ← logged (.setup i) (P.setupCostFunction i)
    let blocks ← setup cs
    return block :: blocks

/-- The loop that hands every contributor its slice of a vector. -/
def handOut (event : ℕ → List K → Except Stop Unit → Event K) (step : ℕ → List K → Prog (Curves W) Stop Unit)
    (x : List K) : List (ℕ × ℕ) → ℕ → Prog (Joint K W) Stop Unit
  | [], _                      => pure ()
  | (i, size) :: rest, offset  => do
    let block ← Prog.lift (slice x offset size)
    logged (event i block) (step i block)
    handOut event step x rest (offset + size)

/-- The first loop of `try_values`. -/
def setArguments (x : List K) : List (ℕ × ℕ) → ℕ → Prog (Joint K W) Stop Unit :=
  handOut .set P.setCostFunctionArgument x

/-- `for observer in observers { observer.borrow_mut().update(); }` -/
def notifyAll : List ℕ → Prog (Joint K W) Stop Unit
  | []      => pure ()
  | o :: os => do
    Prog.modify (fun j => { j with curves := P.update o j.curves, log := j.log ++ [.notify o] })
    notifyAll os

def evaluateAll : List ℕ → Prog (Joint K W) Stop (List (List K))
  | []      => pure []
  | i :: cs => do
    let block ← logged (.evaluate i) (P.evaluateCostFunction i)
    let blocks ← evaluateAll cs
    return block :: blocks

/-- The validity sweep. -/
def setToValidAll (solution : List K) : List (ℕ × ℕ) → ℕ → Prog (Joint K W) Stop Unit :=
  handOut .valid P.setToValid solution

def invalidateAll : List ℕ → Prog (Joint K W) Stop Unit
  | []      => pure ()
  | i :: cs => do
    Prog.modify (fun j => { j with
      curves := { j.curves with marked := Function.update j.curves.marked i false }, log := j.log ++ [.invalidate i] })
    invalidateAll cs

/-- `StackedCost`: the run so far, the parked error and the length of the last residuals. -/
structure StackedCost (K W : Type) where
  joint   : Joint K W
  error   : Option String
  lastLen : ℕ

variable (cs : List ℕ) (sizes : List ℕ)

def tryValues (x : List K) : Prog (Joint K W) Stop (List K) := do
  setArguments P x (cs.zip sizes) 0
  let j ← Prog.get
  notifyAll P (P.observers j.curves)
  let residuals ← evaluateAll P cs
  return residuals.flatten

/-- `StackedCost::values`: the first error is parked, and the residuals are NaNs. -/
def values (x : List K) : Prog (StackedCost K W) Stop (List K) := fun c =>
  match tryValues P cs sizes x c.joint with
  | (.ok values, j)       => (.ok values, ⟨j, c.error, values.length⟩)
  | (.error .panic, j)    => (.error .panic, ⟨j, c.error, c.lastLen⟩)
  | (.error (.error e), j) => (.ok (List.replicate c.lastLen Floats.nan), ⟨j, c.error.or (some e), c.lastLen⟩)

/-- The solve: how the minimizer ended, its solution, and the parked error. -/
def minimize (minimizer : Minimizer K) (guess : List K) :
    Prog (Joint K W) Stop (Option String × Except String EndCriteriaType × List K) := fun j =>
  match Problem.minimize (.ofValues (values P cs sizes)) minimizer ⟨guess, 0⟩ ⟨j, none, guess.length⟩ with
  | (.ok (ended, problem), c) => (.ok (c.error, ended, problem.currentValue), c.joint)
  | (.error e, c)             => (.error e, c.joint)

end

/-- `solve`, for the outcome of `EndCriteria::new` and the minimizer that starts at a guess. -/
def solve (P : Steps K W) (endCriteria : Except String Unit) (method : List K → Minimizer K) (cs : List ℕ) :
    Prog (Joint K W) Stop Unit := do
  let blocks ← setup P cs
  let sizes := blocks.map List.length
  let guess := blocks.flatten
  Prog.lift (endCriteria.mapError .error)
  let (parked, ended, solution) ← minimize P cs sizes (method guess) guess
  match parked with
  | some inner => Prog.fail (.error inner)
  | none       => do
    let endType ← Prog.lift (ended.mapError .error)
    Prog.require (endType.succeeded = true) (.error ("global bootstrap failed to minimize to required accuracy " ++
      "(during multi curve bootstrap): " ++ endType.display))
    setToValidAll P solution (cs.zip sizes) 0

/-- `run`; a contributor that was dropped cannot be upgraded. -/
def run (P : Steps K W) (endCriteria : Except String Unit) (method : List K → Minimizer K)
    (contributors : List (Option ℕ)) : Prog (Joint K W) Stop Unit :=
  match contributors.mapM id with
  | none    => Prog.fail (.error "multi-curve bootstrap: a contributing curve was dropped")
  | some cs => do
    Prog.modify (fun j => { j with setUp := 0 })
    match ← (solve P endCriteria method cs).attempt with
    | .ok ()            => pure ()
    | .error .panic     => Prog.fail .panic
    | .error (.error e) => do
      let j ← Prog.get
      invalidateAll (cs.take j.setUp)
      Prog.fail (.error e)

/-- Upgrading the contributors fails on one that was dropped, or gives all of them. -/
theorem upgrade_spec {α : Type} (l : List (Option α)) : match l.mapM id with
    | none    => none ∈ l
    | some as => l = as.map some := by
  induction l with
  | nil         => rfl
  | cons a l ih =>
    cases a with
    | none   => exact List.mem_cons_self
    | some a =>
      rw [List.mapM_cons]
      cases hall : l.mapM id with
      | none    =>
        rw [hall] at ih
        exact List.mem_cons_of_mem _ ih
      | some as =>
        rw [hall] at ih
        exact congrArg (some a :: ·) ih

/-! ## What the loops log -/

/-- **The calls of a loop**, in order and up to the first that fails, with what the loop gives. -/
inductive Calls {ι β : Type} (event : ι → Except Stop β → Event K) :
    List ι → List (Event K) → Except Stop (List β) → Prop where
  | done : Calls event [] [] (.ok [])
  | failed (i : ι) (is : List ι) (e : Stop) : Calls event (i :: is) [event i (.error e)] (.error e)
  | next {i : ι} {is : List ι} {calls : List (Event K)} {r : Except Stop (List β)} (b : β) (rest : Calls event is calls r) :
      Calls event (i :: is) (event i (.ok b) :: calls) (r.map (fun bs => b :: bs))

section

variable {P : Steps K W}

omit [SqrtFloats K]

/-- **The setups**; the count is that of the setups entered. -/
theorem setup_spec : ∀ (cs : List ℕ) (j : Joint K W), ∃ calls, (setup P cs j).2.log = j.log ++ calls ∧
    Calls .setup cs calls (setup P cs j).1 ∧ (setup P cs j).2.setUp = j.setUp + calls.length
  | [], j      => ⟨[], by simp [setup], by simpa [setup] using .done, by simp [setup]⟩
  | i :: cs, j => by
    simp only [setup, Prog.run_bind, Prog.run_modify, logged]
    cases hstep : (P.setupCostFunction i j.curves).1 with
    | error e  => exact ⟨_, rfl, .failed i cs e, rfl⟩
    | ok block =>
      dsimp only
      obtain ⟨calls, hlog, hcalls, hcount⟩ :=
        setup_spec cs ⟨(P.setupCostFunction i j.curves).2, j.setUp + 1, j.log ++ [.setup i (.ok block)]⟩
      refine ⟨.setup i (.ok block) :: calls, ?_⟩
      rcases hrest : setup P cs ⟨_, _, _⟩ with ⟨e | blocks, j'⟩ <;> rw [hrest] at hlog hcalls hcount <;>
        dsimp only at hlog hcalls hcount <;> refine ⟨by simp [hlog], .next block hcalls, ?_⟩
      · rw [hcount, List.length_cons]
        omega
      · change j'.setUp = _
        rw [hcount, List.length_cons]
        omega

theorem evaluateAll_spec : ∀ (cs : List ℕ) (j : Joint K W), ∃ calls, (evaluateAll P cs j).2.log = j.log ++ calls ∧
    Calls .evaluate cs calls (evaluateAll P cs j).1 ∧ (evaluateAll P cs j).2.setUp = j.setUp
  | [], j      => ⟨[], by simp [evaluateAll], by simpa [evaluateAll] using .done, rfl⟩
  | i :: cs, j => by
    simp only [evaluateAll, Prog.run_bind, logged]
    cases hstep : (P.evaluateCostFunction i j.curves).1 with
    | error e  => exact ⟨_, rfl, .failed i cs e, rfl⟩
    | ok block =>
      dsimp only
      obtain ⟨calls, hlog, hcalls, hcount⟩ :=
        evaluateAll_spec cs ⟨(P.evaluateCostFunction i j.curves).2, j.setUp, j.log ++ [.evaluate i (.ok block)]⟩
      refine ⟨.evaluate i (.ok block) :: calls, ?_⟩
      rcases hrest : evaluateAll P cs ⟨_, _, _⟩ with ⟨e | blocks, j'⟩ <;> rw [hrest] at hlog hcalls hcount <;>
        dsimp only at hlog hcalls hcount <;> exact ⟨by simp [hlog], .next block hcalls, hcount⟩

/-- **Every contributor gets its slice**: the vector is cut, from the offset on, into the blocks. -/
theorem handOut_spec {event : ℕ → List K → Except Stop Unit → Event K}
    {step : ℕ → List K → Prog (Curves W) Stop Unit} (x : List K) : ∀ (cs sizes : List ℕ) (offset : ℕ) (j : Joint K W),
    offset ≤ x.length → (handOut event step x (cs.zip sizes) offset j).1 ≠ .error .panic → ∃ calls r,
      (handOut event step x (cs.zip sizes) offset j).2.log = j.log ++ calls ∧
      Calls (fun p => event p.1 p.2) (cs.zip (sizes.splitLengths (x.drop offset))) calls r ∧
      offset + (sizes.take calls.length).sum ≤ x.length ∧
      (handOut event step x (cs.zip sizes) offset j).1 = r.map (fun _ => ()) ∧
      (handOut event step x (cs.zip sizes) offset j).2.setUp = j.setUp
  | [], _, _, j, ho, _                       => ⟨[], .ok [], by simp [handOut], .done, by simpa using ho, rfl, rfl⟩
  | _ :: _, [], _, j, ho, _                  => ⟨[], .ok [], by simp [handOut], .done, by simpa using ho, rfl, rfl⟩
  | i :: cs, size :: sizes, offset, j, _, h => by
    by_cases hle : offset + size ≤ x.length
    · simp only [List.zip_cons_cons, handOut, Prog.run_bind, Prog.run_lift, logged, slice, if_pos hle,
        List.splitLengths_cons] at h ⊢
      cases hstep : (step i ((x.drop offset).take size) j.curves).1 with
      | error e => exact ⟨_, _, rfl, .failed (i, _) _ e, by simpa using hle, rfl, rfl⟩
      | ok u    =>
        rw [hstep] at h
        dsimp only at h ⊢
        obtain ⟨calls, r, hlog, hcalls, hinside, hr, hcount⟩ := handOut_spec x cs sizes (offset + size) _ hle h
        rw [← List.drop_drop] at hcalls
        refine ⟨event i _ (.ok ()) :: calls, _, ?_, .next () hcalls, ?_, ?_, hcount⟩
        · simp [hlog]
        · rw [List.length_cons, List.take_succ_cons, List.sum_cons]
          omega
        · rw [hr]
          cases r <;> rfl
    · refine absurd ?_ h
      simp [handOut, slice, hle]

theorem setArguments_spec (x : List K) (cs sizes : List ℕ) (j : Joint K W)
    (h : (setArguments P x (cs.zip sizes) 0 j).1 ≠ .error .panic) : ∃ calls r,
    (setArguments P x (cs.zip sizes) 0 j).2.log = j.log ++ calls ∧
    Calls (fun p => .set p.1 p.2) (cs.zip (sizes.splitLengths x)) calls r ∧ (sizes.take calls.length).sum ≤ x.length ∧
    (setArguments P x (cs.zip sizes) 0 j).1 = r.map (fun _ => ()) ∧
    (setArguments P x (cs.zip sizes) 0 j).2.setUp = j.setUp := by
  obtain ⟨calls, r, hlog, hcalls, hinside, hr, hcount⟩ := handOut_spec x cs sizes 0 j (Nat.zero_le _) h
  exact ⟨calls, r, hlog, hcalls, by simpa using hinside, hr, hcount⟩

theorem setToValidAll_spec (x : List K) (cs sizes : List ℕ) (j : Joint K W)
    (h : (setToValidAll P x (cs.zip sizes) 0 j).1 ≠ .error .panic) : ∃ calls r,
    (setToValidAll P x (cs.zip sizes) 0 j).2.log = j.log ++ calls ∧
    Calls (fun p => .valid p.1 p.2) (cs.zip (sizes.splitLengths x)) calls r ∧ (sizes.take calls.length).sum ≤ x.length ∧
    (setToValidAll P x (cs.zip sizes) 0 j).1 = r.map (fun _ => ()) ∧
    (setToValidAll P x (cs.zip sizes) 0 j).2.setUp = j.setUp := by
  obtain ⟨calls, r, hlog, hcalls, hinside, hr, hcount⟩ := handOut_spec x cs sizes 0 j (Nat.zero_le _) h
  exact ⟨calls, r, hlog, hcalls, by simpa using hinside, hr, hcount⟩

theorem notifyAll_spec : ∀ (os : List ℕ) (j : Joint K W), ∃ j', notifyAll P os j = (.ok (), j') ∧
    j'.log = j.log ++ os.map .notify ∧ j'.setUp = j.setUp
  | [], j      => ⟨j, rfl, by simp, rfl⟩
  | o :: os, j => by
    obtain ⟨j', hrun, hlog, hcount⟩ :=
      notifyAll_spec os { j with curves := P.update o j.curves, log := j.log ++ [.notify o] }
    refine ⟨j', ?_, by simp [hlog], hcount⟩
    simp [notifyAll, hrun]

theorem invalidateAll_spec : ∀ (cs : List ℕ) (j : Joint K W), ∃ j', invalidateAll cs j = (.ok (), j') ∧
    j'.log = j.log ++ cs.map .invalidate ∧ ∀ i, j'.curves.marked i = (decide (i ∉ cs) && j.curves.marked i)
  | [], j      => ⟨j, rfl, by simp, by simp⟩
  | i :: cs, j => by
    obtain ⟨j', hrun, hlog, hmarked⟩ := invalidateAll_spec cs { j with
      curves := { j.curves with marked := Function.update j.curves.marked i false }, log := j.log ++ [.invalidate i] }
    refine ⟨j', by simp [invalidateAll, hrun], by simp [hlog], fun k => ?_⟩
    rw [hmarked]
    by_cases hk : k = i
    · subst hk
      simp
    · simp [hk]

end

/-! ## The evaluations -/

/-- **An evaluation** at the point `x`, from the state `j`: every contributor is handed its slice, in order; only after
the last write are the observers notified; only after that are the residuals collected, in order, up to the first call
that fails. -/
inductive Evaluation (P : Steps K W) (cs sizes : List ℕ) (x : List K) (j : Joint K W) :
    List (Event K) → Except Stop (List K) → Prop where
  | unwritten {sets : List (Event K)} {e : Stop}
      (write : Calls (fun p => .set p.1 p.2) (cs.zip (sizes.splitLengths x)) sets (.error e))
      (inside : (sizes.take sets.length).sum ≤ x.length) :
      Evaluation P cs sizes x j sets (.error e)
  | written {sets evaluates : List (Event K)} {us : List Unit} {j' : Joint K W} {r : Except Stop (List (List K))}
      (write : Calls (fun p => .set p.1 p.2) (cs.zip (sizes.splitLengths x)) sets (.ok us))
      (inside : (sizes.take sets.length).sum ≤ x.length)
      (after : setArguments P x (cs.zip sizes) 0 j = (.ok (), j'))
      (evaluate : Calls .evaluate cs evaluates r) :
      Evaluation P cs sizes x j (sets ++ (P.observers j'.curves).map .notify ++ evaluates) (r.map List.flatten)

section

variable (P : Steps K W) (cs sizes : List ℕ)

omit [SqrtFloats K] in
theorem tryValues_spec (x : List K) (j : Joint K W) (h : (tryValues P cs sizes x j).1 ≠ .error .panic) :
    ∃ calls, (tryValues P cs sizes x j).2.log = j.log ++ calls ∧
      Evaluation P cs sizes x j calls (tryValues P cs sizes x j).1 ∧
      (tryValues P cs sizes x j).2.setUp = j.setUp := by
  simp only [tryValues, Prog.run_bind] at h ⊢
  have hwrite := setArguments_spec (P := P) x cs sizes j
  rcases hset : setArguments P x (cs.zip sizes) 0 j with ⟨e | u, j₁⟩ <;> rw [hset] at h hwrite <;> dsimp only at h hwrite ⊢
  · obtain ⟨calls, r, hlog, hcalls, hinside, hr, hcount⟩ := hwrite (fun he => h (congrArg _ (Except.error.inj he)))
    cases r with
    | ok us   => exact nomatch hr
    | error e' =>
      obtain rfl := Except.error.inj hr
      exact ⟨calls, hlog, .unwritten hcalls hinside, hcount⟩
  · obtain ⟨sets, r, hlog, hcalls, hinside, hr, hcount⟩ := hwrite (by exact nofun)
    cases r with
    | error e' => exact nomatch hr
    | ok us    =>
      obtain ⟨j₂, hnotify, hlog₂, hcount₂⟩ := notifyAll_spec (P := P) (P.observers j₁.curves) j₁
      obtain ⟨evaluates, hlog₃, hcalls₃, hcount₃⟩ := evaluateAll_spec (P := P) cs j₂
      simp only [Prog.run_get, hnotify]
      refine ⟨sets ++ (P.observers j₁.curves).map .notify ++ evaluates, ?_⟩
      have heval := Evaluation.written hcalls hinside hset hcalls₃
      rcases hrun : evaluateAll P cs j₂ with ⟨e | residuals, j₃⟩ <;> rw [hrun] at hlog₃ heval hcount₃ <;>
        dsimp only at hlog₃ heval hcount₃ ⊢ <;>
        refine ⟨?_, heval, hcount₃.trans (hcount₂.trans hcount)⟩ <;> simp [hlog₃, hlog₂, hlog]

/-- The evaluations so far, from the state `j₀` on: their calls are the log, and without a parked error all of them gave
residuals. -/
def History (P : Steps K W) (cs sizes : List ℕ) (j₀ : Joint K W)
    (evaluations : List (List (Event K) × Except Stop (List K))) (c : StackedCost K W) : Prop :=
  c.joint.log = j₀.log ++ (evaluations.map Prod.fst).flatten ∧
  (∀ e ∈ evaluations, ∃ x j, Evaluation P cs sizes x j e.1 e.2) ∧
  (c.error = none → ∀ e ∈ evaluations, ∃ v, e.2 = .ok v) ∧ c.joint.setUp = j₀.setUp

theorem values_spec (j₀ : Joint K W) (x : List K) :
    Triple (fun c => ∃ evaluations, History P cs sizes j₀ evaluations c) (values P cs sizes x)
      (fun _ c => ∃ evaluations, History P cs sizes j₀ evaluations c) (fun e _ => e = .panic) := by
  rintro c ⟨evaluations, hlog, heval, hok, hcount⟩
  have htry := tryValues_spec P cs sizes x c.joint
  unfold values
  rcases hrun : tryValues P cs sizes x c.joint with ⟨(e | _) | v, j⟩ <;> rw [hrun] at htry <;> dsimp only at htry ⊢
  · obtain ⟨calls, hlog', heval', hcount'⟩ := htry (by simp)
    refine ⟨evaluations ++ [(calls, .error (.error e))], ?_, ?_, ?_, hcount'.trans hcount⟩
    · simp [hlog', hlog]
    · intro p hp
      rcases List.mem_append.1 hp with hp | hp
      · exact heval p hp
      · rw [List.mem_singleton.1 hp]
        exact ⟨x, c.joint, heval'⟩
    · intro hnone
      cases herr : c.error <;> simp [herr] at hnone
  · obtain ⟨calls, hlog', heval', hcount'⟩ := htry (by simp)
    refine ⟨evaluations ++ [(calls, .ok v)], ?_, ?_, ?_, hcount'.trans hcount⟩
    · simp [hlog', hlog]
    · intro p hp
      rcases List.mem_append.1 hp with hp | hp
      · exact heval p hp
      · rw [List.mem_singleton.1 hp]
        exact ⟨x, c.joint, heval'⟩
    · intro hnone p hp
      rcases List.mem_append.1 hp with hp | hp
      · exact hok hnone p hp
      · rw [List.mem_singleton.1 hp]
        exact ⟨v, rfl⟩

theorem minimize_spec (minimizer : Minimizer K) (guess : List K) (j : Joint K W) :
    match minimize P cs sizes minimizer guess j with
    | (.ok (parked, _, _), j') => ∃ evaluations : List (List (Event K) × Except Stop (List K)),
      j'.log = j.log ++ (evaluations.map Prod.fst).flatten ∧
      (∀ e ∈ evaluations, ∃ x j, Evaluation P cs sizes x j e.1 e.2) ∧
      (parked = none → ∀ e ∈ evaluations, ∃ v, e.2 = .ok v) ∧ j'.setUp = j.setUp
    | (.error e, _)            => e = .panic := by
  have hvalues := values_spec P cs sizes j
  have hvalue (x : List K) : Triple (fun c => ∃ evaluations, History P cs sizes j evaluations c)
      ((CostFunction.ofValues (values P cs sizes)).value x)
      (fun _ c => ∃ evaluations, History P cs sizes j evaluations c) (fun e _ => e = .panic) := by
    apply Triple.bind (hvalues x)
    intro v
    refine Triple.bind (Triple.require (fun _ _ _ => rfl)) (fun _ => Triple.pure _ ?_)
    exact fun _ hs => hs.2
  have hstart : ∃ evaluations, History P cs sizes j evaluations ⟨j, none, guess.length⟩ := by
    refine ⟨[], ?_, ?_, ?_, rfl⟩ <;> simp
  have hrun := Problem.minimize_keeps hvalue hvalues minimizer ⟨guess, 0⟩ _ hstart
  unfold minimize
  rcases h : Problem.minimize (CostFunction.ofValues (values P cs sizes)) minimizer ⟨guess, 0⟩ ⟨j, none, guess.length⟩
    with ⟨e | ⟨ended, problem⟩, c⟩ <;> rw [h] at hrun
  · exact hrun
  · exact hrun

end

/-! ## What the steps keep, the search keeps -/

/-- The calls of a search keep `R`. -/
structure SearchKeeps (P : Steps K W) (cs : List ℕ) (R : Curves W → Prop) : Prop where
  set : ∀ i ∈ cs, ∀ x, Keeps R (P.setCostFunctionArgument i x)
  update : ∀ o c, R c → R (P.update o c)
  evaluate : ∀ i ∈ cs, Keeps R (P.evaluateCostFunction i)

section

variable {P : Steps K W} {R : Curves W → Prop}

omit [SqrtFloats K]

theorem logged_keeps {α : Type} {event : Except Stop α → Event K} {step : Prog (Curves W) Stop α} (h : Keeps R step) :
    Keeps (fun j : Joint K W => R j.curves) (logged event step) := fun j hj => h j.curves hj

theorem setup_keeps : ∀ {cs : List ℕ}, (∀ i ∈ cs, Keeps R (P.setupCostFunction i)) →
    Keeps (fun j => R j.curves) (setup P cs)
  | [], _      => Keeps.pure _
  | i :: cs, h => by
    refine Keeps.bind (Keeps.modify fun j hj => hj) fun _ => ?_
    apply Keeps.bind (logged_keeps (h i List.mem_cons_self))
    intro block
    apply Keeps.bind (setup_keeps fun k hk => h k (List.mem_cons_of_mem i hk))
    exact fun blocks => Keeps.pure _

theorem handOut_keeps {event : ℕ → List K → Except Stop Unit → Event K} {step : ℕ → List K → Prog (Curves W) Stop Unit}
    {x : List K} : ∀ {blocks : List (ℕ × ℕ)} (offset : ℕ), (∀ p ∈ blocks, ∀ x, Keeps R (step p.1 x)) →
    Keeps (fun j => R j.curves) (handOut event step x blocks offset)
  | [], _, _                        => Keeps.pure _
  | (i, size) :: blocks, offset, h => by
    rw [handOut]
    refine Keeps.bind (Keeps.lift (slice x offset size)) fun block => ?_
    apply Keeps.bind (logged_keeps (h (i, size) List.mem_cons_self block))
    exact fun _ => handOut_keeps (offset + size) fun k hk => h k (List.mem_cons_of_mem _ hk)

theorem notifyAll_keeps (h : ∀ o c, R c → R (P.update o c)) : ∀ (os : List ℕ),
    Keeps (fun j : Joint K W => R j.curves) (notifyAll P os)
  | []      => Keeps.pure _
  | o :: os => Keeps.bind (Keeps.modify fun j hj => h o j.curves hj) fun _ => notifyAll_keeps h os

theorem evaluateAll_keeps : ∀ {cs : List ℕ}, (∀ i ∈ cs, Keeps R (P.evaluateCostFunction i)) →
    Keeps (fun j => R j.curves) (evaluateAll P cs)
  | [], _      => Keeps.pure _
  | i :: cs, h => by
    apply Keeps.bind (logged_keeps (h i List.mem_cons_self))
    intro block
    apply Keeps.bind (evaluateAll_keeps fun k hk => h k (List.mem_cons_of_mem i hk))
    exact fun blocks => Keeps.pure _

variable {cs : List ℕ}

theorem tryValues_keeps (sizes : List ℕ) (h : SearchKeeps P cs R) (x : List K) :
    Keeps (fun j => R j.curves) (tryValues P cs sizes x) := by
  refine Keeps.bind (handOut_keeps 0 fun p hp => h.set p.1 (List.of_mem_zip hp).1) fun _ => ?_
  refine Keeps.bind Keeps.get fun j => Keeps.bind (notifyAll_keeps h.update _) fun _ => ?_
  exact Keeps.bind (evaluateAll_keeps h.evaluate) fun _ => Keeps.pure _

variable [SqrtFloats K]

theorem values_keeps (sizes : List ℕ) (h : SearchKeeps P cs R) (x : List K) :
    Keeps (fun c => R c.joint.curves) (values P cs sizes x) := by
  intro c hc
  have htry := tryValues_keeps sizes h x c.joint hc
  unfold values
  rcases hrun : tryValues P cs sizes x c.joint with ⟨(e | _) | v, j⟩ <;> rw [hrun] at htry <;> exact htry

/-- **What the calls of a search keep, a search keeps.** -/
theorem minimize_keeps (sizes : List ℕ) (h : SearchKeeps P cs R) (minimizer : Minimizer K) (guess : List K) :
    Keeps (fun j => R j.curves) (minimize P cs sizes minimizer guess) := by
  intro j hj
  have hvalues (x : List K) := (values_keeps sizes h x).triple
  have hvalue (x : List K) : Keeps (fun c => R c.joint.curves) ((CostFunction.ofValues (values P cs sizes)).value x) := by
    refine Keeps.bind (values_keeps sizes h x) fun v => ?_
    exact Keeps.bind (Keeps.require _ _) fun _ => Keeps.pure _
  have hrun := Problem.minimize_keeps (fun x => (hvalue x).triple) hvalues minimizer ⟨guess, 0⟩
    ⟨j, none, guess.length⟩ hj
  unfold minimize
  rcases h : Problem.minimize (CostFunction.ofValues (values P cs sizes)) minimizer ⟨guess, 0⟩ ⟨j, none, guess.length⟩
    with ⟨e | ⟨ended, problem⟩, c⟩ <;> rw [h] at hrun <;> exact hrun

end

/-! ## The run -/

/-- The minimizer ended well, and no error was parked. -/
def Succeeds (parked : Option String) (ended : Except String EndCriteriaType) : Prop :=
  parked = none ∧ ∃ endType, ended = .ok endType ∧ endType.succeeded = true

/-- **How a solve ends**, by the phase it reached. -/
inductive SolveEnds (P : Steps K W) (endCriteria : Except String Unit) (method : List K → Minimizer K) (cs : List ℕ)
    (j : Joint K W) : Except Stop Unit × Joint K W → Prop where
  | setup {e j₁} (setup : setup P cs j = (.error e, j₁)) : SolveEnds P endCriteria method cs j (.error e, j₁)
  | criteria {blocks e j₁} (setup : setup P cs j = (.ok blocks, j₁)) (criteria : endCriteria = .error e) :
      SolveEnds P endCriteria method cs j (.error (.error e), j₁)
  | stopped {blocks e j₁ j₂} (setup : setup P cs j = (.ok blocks, j₁)) (criteria : endCriteria = .ok ())
      (run : minimize P cs (blocks.map List.length) (method blocks.flatten) blocks.flatten j₁ = (.error e, j₂)) :
      SolveEnds P endCriteria method cs j (.error e, j₂)
  | failed {blocks parked ended solution e j₁ j₂} (setup : setup P cs j = (.ok blocks, j₁))
      (criteria : endCriteria = .ok ())
      (run : minimize P cs (blocks.map List.length) (method blocks.flatten) blocks.flatten j₁ =
        (.ok (parked, ended, solution), j₂)) (failed : ¬ Succeeds parked ended) :
      SolveEnds P endCriteria method cs j (.error (.error e), j₂)
  | swept {blocks endType solution r j₁ j₂} (setup : setup P cs j = (.ok blocks, j₁)) (criteria : endCriteria = .ok ())
      (run : minimize P cs (blocks.map List.length) (method blocks.flatten) blocks.flatten j₁ =
        (.ok (none, .ok endType, solution), j₂)) (succeeded : endType.succeeded = true)
      (sweep : setToValidAll P solution (cs.zip (blocks.map List.length)) 0 j₂ = r) :
      SolveEnds P endCriteria method cs j r

section

variable {P : Steps K W} {endCriteria : Except String Unit} {method : List K → Minimizer K} {cs : List ℕ}

variable (P endCriteria method cs) in
theorem solve_ends (j : Joint K W) : SolveEnds P endCriteria method cs j (solve P endCriteria method cs j) := by
  unfold solve
  simp only [Prog.run_bind]
  rcases hset : setup P cs j with ⟨e | blocks, j₁⟩
  · exact .setup hset
  cases endCriteria with
  | error e => exact .criteria hset rfl
  | ok u    =>
    simp only [Except.mapError, Prog.run_lift]
    rcases hrun : minimize P cs (blocks.map List.length) (method blocks.flatten) blocks.flatten j₁ with
      ⟨e | ⟨parked, ended, solution⟩, j₂⟩
    · exact .stopped hset rfl hrun
    cases parked with
    | some inner => exact .failed hset rfl hrun (by simp [Succeeds])
    | none       =>
      cases ended with
      | error e    => exact .failed hset rfl hrun (by simp [Succeeds])
      | ok endType =>
        by_cases hsucceeded : endType.succeeded = true
        · simp only [Prog.run_bind, Prog.run_lift, Prog.run_require, hsucceeded, if_true]
          exact .swept hset rfl hrun hsucceeded rfl
        · simp only [Prog.run_bind, Prog.run_lift, Prog.run_require, hsucceeded]
          exact .failed hset rfl hrun (by simp [Succeeds, hsucceeded])

theorem solve_keeps {R : Curves W → Prop} (hsetup : ∀ i ∈ cs, Keeps R (P.setupCostFunction i))
    (hsearch : SearchKeeps P cs R) (hvalid : ∀ i ∈ cs, ∀ x, Keeps R (P.setToValid i x)) :
    Keeps (fun j => R j.curves) (solve P endCriteria method cs) := by
  refine Keeps.bind (setup_keeps hsetup) fun blocks => Keeps.bind (Keeps.lift _) fun _ => ?_
  refine Keeps.bind (minimize_keeps _ hsearch _ _) fun ⟨parked, ended, solution⟩ => ?_
  cases parked with
  | some inner => exact fun _ hs => hs
  | none       =>
    refine Keeps.bind (Keeps.lift _) fun endType => Keeps.bind (Keeps.require _ _) fun _ => ?_
    exact handOut_keeps 0 fun p hp => hvalid p.1 (List.of_mem_zip hp).1

end

section

variable {P : Steps K W} {endCriteria : Except String Unit} {method : List K → Minimizer K} {cs : List ℕ}

/-- **A solve that succeeds**: all setups, evaluations that all gave residuals, and every contributor pinned with its
slice of the minimizer's solution. -/
def Solved (P : Steps K W) (method : List K → Minimizer K) (cs : List ℕ) (calls : List (Event K)) : Prop :=
  ∃ (blocks : List (List K)) (setups : List (Event K)) (evaluations : List (List (Event K))) (solution : List K)
    (valids : List (Event K)) (us : List Unit) (j₁ j₂ : Joint K W) (endType : EndCriteriaType),
    Calls .setup cs setups (.ok blocks) ∧
    (∀ e ∈ evaluations, ∃ x j v, Evaluation P cs (blocks.map List.length) x j e (.ok v)) ∧
    minimize P cs (blocks.map List.length) (method blocks.flatten) blocks.flatten j₁ =
      (.ok (none, .ok endType, solution), j₂) ∧
    Calls (fun p => .valid p.1 p.2) (cs.zip ((blocks.map List.length).splitLengths solution)) valids (.ok us) ∧
    ((blocks.map List.length).take valids.length).sum ≤ solution.length ∧ calls = setups ++ evaluations.flatten ++ valids

/-- **A solve that fails**: the setups entered, evaluations, and contributors pinned up to the failure. -/
def Failed (P : Steps K W) (cs : List ℕ) (entered : ℕ) (calls : List (Event K)) : Prop :=
  ∃ (blocks : Except Stop (List (List K))) (setups : List (Event K)) (evaluations : List (List (Event K)))
    (valids : List (Event K)), Calls .setup cs setups blocks ∧ setups.length = entered ∧
    (∀ e ∈ evaluations, ∃ sizes x j r, Evaluation P cs sizes x j e r) ∧
    (valids = [] ∨ ∃ (sizes : List ℕ) (solution : List K) (r : Except Stop (List Unit)),
      Calls (fun p => .valid p.1 p.2) (cs.zip (sizes.splitLengths solution)) valids r) ∧
    calls = setups ++ evaluations.flatten ++ valids

variable (P endCriteria method cs) in
theorem solve_spec (j : Joint K W) (hj : j.setUp = 0) : match solve P endCriteria method cs j with
    | (.ok (), j')            => ∃ calls, j'.log = j.log ++ calls ∧ Solved P method cs calls
    | (.error (.error _), j') => ∃ calls, j'.log = j.log ++ calls ∧ Failed P cs j'.setUp calls
    | (.error .panic, _)      => True := by
  obtain ⟨setups, hlog, hsetups, hcount⟩ := setup_spec (P := P) cs j
  rw [hj, Nat.zero_add] at hcount
  have hmin (blocks : List (List K)) (j₁ : Joint K W) := minimize_spec P cs (blocks.map List.length)
    (method blocks.flatten) blocks.flatten j₁
  have hevals {sizes : List ℕ} {evaluations : List (List (Event K) × Except Stop (List K))}
      (heval : ∀ e ∈ evaluations, ∃ x j, Evaluation P cs sizes x j e.1 e.2) :
      ∀ e ∈ evaluations.map Prod.fst, ∃ sizes x j r, Evaluation P cs sizes x j e r := by
    intro e he
    obtain ⟨p, hp, rfl⟩ := List.mem_map.1 he
    obtain ⟨x, j, h⟩ := heval p hp
    exact ⟨_, x, j, p.2, h⟩
  have hends := solve_ends P endCriteria method cs j
  generalize solve P endCriteria method cs j = r at hends
  cases hends with
  | @setup e j₁ hset =>
    rw [hset] at hlog hsetups hcount
    cases e with
    | panic   => trivial
    | error e => exact ⟨setups, hlog, _, setups, [], [], hsetups, hcount.symm, by simp, .inl rfl, by simp⟩
  | criteria hset _ =>
    rw [hset] at hlog hsetups hcount
    exact ⟨setups, hlog, _, setups, [], [], hsetups, hcount.symm, by simp, .inl rfl, by simp⟩
  | @stopped blocks e j₁ _ hset _ hrun =>
    have hpanic := hmin blocks j₁
    rw [hrun] at hpanic
    subst hpanic
    trivial
  | @failed blocks _ _ _ _ j₁ j₂ hset _ hrun _ =>
    rw [hset] at hlog hsetups hcount
    dsimp only at hlog hsetups hcount
    have hsearch := hmin blocks j₁
    rw [hrun] at hsearch
    obtain ⟨evaluations, hlog₂, heval, -, hcount₂⟩ := hsearch
    refine ⟨setups ++ (evaluations.map Prod.fst).flatten, by simp [hlog₂, hlog], _, setups, _, [], hsetups, ?_,
      hevals heval, .inl rfl, by simp⟩
    rw [hcount₂, hcount]
  | @swept blocks endType solution _ j₁ j₂ hset _ hrun hsucceeded hsweep =>
    rw [hset] at hlog hsetups hcount
    dsimp only at hlog hsetups hcount
    have hsearch := hmin blocks j₁
    rw [hrun] at hsearch
    obtain ⟨evaluations, hlog₂, heval, hok, hcount₂⟩ := hsearch
    have hvalid := setToValidAll_spec (P := P) solution cs (blocks.map List.length) j₂
    rw [hsweep] at hvalid
    rcases r with ⟨(e | _) | u, j₃⟩ <;> dsimp only at hvalid
    · obtain ⟨valids, r, hlog₃, hcalls, -, -, hcount₃⟩ := hvalid (by simp)
      refine ⟨setups ++ (evaluations.map Prod.fst).flatten ++ valids, by simp [hlog₃, hlog₂, hlog], _, setups, _,
        valids, hsetups, ?_, hevals heval, .inr ⟨_, solution, r, hcalls⟩, rfl⟩
      rw [hcount₃, hcount₂, hcount]
    · trivial
    · obtain ⟨valids, r, hlog₃, hcalls, hinside, hr, -⟩ := hvalid (by simp)
      cases r with
      | error e => exact nomatch hr
      | ok us   =>
        refine ⟨setups ++ (evaluations.map Prod.fst).flatten ++ valids, by simp [hlog₃, hlog₂, hlog], blocks, setups,
          evaluations.map Prod.fst, solution, valids, us, j₁, j₂, endType, hsetups, ?_, hrun, hcalls, hinside, rfl⟩
        intro e he
        obtain ⟨p, hp, rfl⟩ := List.mem_map.1 he
        obtain ⟨x, j, h⟩ := heval p hp
        obtain ⟨v, hv⟩ := hok rfl p hp
        exact ⟨x, j, v, hv ▸ h⟩

omit [SqrtFloats K] in
theorem setup_mem {cs : List ℕ} {calls : List (Event K)} {r : Except Stop (List (List K))} (h : Calls .setup cs calls r)
    {i : ℕ} {b : Except Stop (List K)} (hi : .setup i b ∈ calls) : i ∈ cs.take calls.length := by
  induction h with
  | done          => simp at hi
  | failed k is e =>
    obtain ⟨rfl, -⟩ := Event.setup.inj (List.mem_singleton.1 hi)
    simp
  | next b' _ ih  =>
    rw [List.length_cons, List.take_succ_cons]
    rcases List.mem_cons.1 hi with hi | hi
    · rw [(Event.setup.inj hi).1]
      exact List.mem_cons_self
    · exact List.mem_cons_of_mem _ (ih hi)

omit [SqrtFloats K] in
theorem Calls.mem {ι β : Type} {event : ι → Except Stop β → Event K} {is : List ι} {calls : List (Event K)}
    {r : Except Stop (List β)} (h : Calls event is calls r) {e : Event K} (he : e ∈ calls) : ∃ i b, e = event i b := by
  induction h with
  | done          => simp at he
  | failed i is e => exact ⟨i, _, List.mem_singleton.1 he⟩
  | next b _ ih   =>
    rcases List.mem_cons.1 he with he | he
    · exact ⟨_, _, he⟩
    · exact ih he

omit [SqrtFloats K] in
theorem Evaluation.setup_notMem {sizes : List ℕ} {x : List K} {j : Joint K W} {calls : List (Event K)}
    {r : Except Stop (List K)} (h : Evaluation P cs sizes x j calls r) (i : ℕ) (b : Except Stop (List K)) :
    .setup i b ∉ calls := by
  intro hi
  cases h with
  | unwritten write                 =>
    obtain ⟨_, _, h⟩ := write.mem hi
    exact nomatch h
  | written write _ _ evaluate =>
    simp only [List.mem_append, List.mem_map] at hi
    rcases hi with (hi | ⟨_, -, h⟩) | hi
    · obtain ⟨_, _, h⟩ := write.mem hi
      exact nomatch h
    · exact nomatch h
    · obtain ⟨_, _, h⟩ := evaluate.mem hi
      exact nomatch h

omit [SqrtFloats K] in
theorem Failed.setup_mem {entered : ℕ} {calls : List (Event K)} (h : Failed P cs entered calls) {i : ℕ}
    {b : Except Stop (List K)} (hi : .setup i b ∈ calls) : i ∈ cs.take entered := by
  obtain ⟨blocks, setups, evaluations, valids, hsetups, rfl, heval, hvalids, rfl⟩ := h
  rw [List.mem_append, List.mem_append] at hi
  rcases hi with (hi | hi) | hi
  · exact MultiCurveBootstrap.setup_mem hsetups hi
  · obtain ⟨calls, hcalls, hi⟩ := List.mem_flatten.1 hi
    obtain ⟨_, _, _, _, h⟩ := heval calls hcalls
    exact absurd hi (h.setup_notMem i b)
  · rcases hvalids with rfl | ⟨_, _, _, h⟩
    · simp at hi
    · obtain ⟨_, _, h⟩ := h.mem hi
      exact nomatch h

omit [SqrtFloats K] in
theorem invalidateAll_keeps {R : W → Prop} : ∀ (cs : List ℕ),
    Keeps (fun j : Joint K W => R j.curves.world) (invalidateAll cs)
  | []      => Keeps.pure ()
  | _ :: cs => Keeps.bind (Keeps.modify fun _ hj => hj) fun _ => invalidateAll_keeps cs

/-- **How a run ends.** -/
inductive RunEnds (P : Steps K W) (endCriteria : Except String Unit) (method : List K → Minimizer K)
    (contributors : List (Option ℕ)) (j : Joint K W) : Except Stop Unit × Joint K W → Prop where
  | dropped {e} (dropped : none ∈ contributors) :
      RunEnds P endCriteria method contributors j (.error (.error e), j)
  | solved {cs j₁} (upgraded : contributors = cs.map some)
      (solve : solve P endCriteria method cs { j with setUp := 0 } = (.ok (), j₁)) :
      RunEnds P endCriteria method contributors j (.ok (), j₁)
  | stopped {j₁} : RunEnds P endCriteria method contributors j (.error .panic, j₁)
  | failed {cs e j₁ j₂} (upgraded : contributors = cs.map some)
      (solve : solve P endCriteria method cs { j with setUp := 0 } = (.error (.error e), j₁))
      (invalidate : invalidateAll (cs.take j₁.setUp) j₁ = (.ok (), j₂)) :
      RunEnds P endCriteria method contributors j (.error (.error e), j₂)

theorem run_ends (P : Steps K W) (endCriteria : Except String Unit) (method : List K → Minimizer K)
    (contributors : List (Option ℕ)) (j : Joint K W) :
    RunEnds P endCriteria method contributors j (run P endCriteria method contributors j) := by
  have hcs := upgrade_spec contributors
  unfold run
  cases hall : contributors.mapM id with
  | none    =>
    rw [hall] at hcs
    exact .dropped hcs
  | some cs =>
    rw [hall] at hcs
    simp only [Prog.run_bind, Prog.run_modify, Prog.attempt]
    rcases hrun : solve P endCriteria method cs { j with setUp := 0 } with ⟨(e | _) | u, j₁⟩
    · obtain ⟨j₂, hinvalidate, -⟩ := invalidateAll_spec (cs.take j₁.setUp) j₁
      simp only [Prog.run_bind, Prog.run_get, hinvalidate, Prog.fail]
      exact .failed hcs hrun hinvalidate
    · exact .stopped
    · exact .solved hcs hrun

/-- The calls that write the nodes of a contributor. -/
def Event.Writes : Event K → Prop
  | .setup .. | .set .. | .valid .. => True
  | _                               => False

/-- **The observer is notified after the last write** of the calls: after every write it is notified again. -/
def NotifiedLast (calls : List (Event K)) (observer : ℕ) : Prop :=
  ∀ before e after, calls = before ++ e :: after → e.Writes → .notify observer ∈ after

omit [SqrtFloats K] in
theorem Calls.length_eq {ι β : Type} {event : ι → Except Stop β → Event K} {is : List ι} {calls : List (Event K)}
    {r : Except Stop (List β)} (h : Calls event is calls r) {bs : List β} (hr : r = .ok bs) :
    calls.length = is.length ∧ bs.length = is.length := by
  induction h generalizing bs with
  | done             => simp [← Except.ok.inj hr]
  | failed           => exact nomatch hr
  | @next _ _ _ r b rest ih =>
    cases r with
    | error e => exact nomatch hr
    | ok bs'  =>
      obtain rfl := Except.ok.inj hr
      obtain ⟨hcalls, hbs⟩ := ih rfl
      exact ⟨congrArg (· + 1) hcalls, congrArg (· + 1) hbs⟩

omit [SqrtFloats K] in
theorem Evaluation.not_writes {sizes : List ℕ} {x : List K} {j : Joint K W} {calls : List (Event K)}
    {r : Except Stop (List K)} (h : Evaluation P [] sizes x j calls r) : ∀ e ∈ calls, ¬ e.Writes := by
  intro e he
  cases h with
  | unwritten write             => exact nomatch write
  | written write _ _ evaluate =>
    cases write
    cases evaluate
    simp only [List.nil_append, List.append_nil, List.mem_map] at he
    obtain ⟨o, -, rfl⟩ := he
    exact id

/-- Without contributors a solve writes nothing; with one, its last call is a write. -/
theorem Solved.last {calls : List (Event K)} (h : Solved P method cs calls) :
    (cs = [] → ∀ e ∈ calls, ¬ e.Writes) ∧ (cs ≠ [] → ∃ before e, calls = before ++ [e] ∧ e.Writes) := by
  obtain ⟨blocks, setups, evaluations, solution, valids, us, j₁, j₂, endType, hsetups, heval, -, hvalids, -, rfl⟩ := h
  constructor
  · rintro rfl e he
    cases hsetups
    cases hvalids
    rw [List.nil_append, List.append_nil] at he
    obtain ⟨calls, hcalls, he⟩ := List.mem_flatten.1 he
    obtain ⟨_, _, _, h⟩ := heval calls hcalls
    exact h.not_writes e he
  · intro hne
    have hlength : valids.length = cs.length := by
      rw [(hvalids.length_eq rfl).1, List.length_zip, List.length_splitLengths, List.length_map,
        (hsetups.length_eq rfl).2, Nat.min_self]
    have hvalids' : valids ≠ [] := by
      intro h
      rw [h, List.length_nil] at hlength
      exact hne (List.length_eq_zero_iff.1 hlength.symm)
    refine ⟨setups ++ evaluations.flatten ++ valids.dropLast, valids.getLast hvalids', ?_, ?_⟩
    · rw [List.append_assoc _ valids.dropLast, List.dropLast_append_getLast]
    · obtain ⟨_, _, h⟩ := hvalids.mem (List.getLast_mem hvalids')
      rw [h]
      trivial

end

/-- A whole number, or a NaN. -/
def Whole : Type := Option ℤ

namespace Whole

instance : DecidableEq Whole := inferInstanceAs (DecidableEq (Option ℤ))

def map₂ {α : Type} (f : ℤ → ℤ → α) (x y : Whole) : Option α := do return f (← x) (← y)

instance : SqrtFloats Whole where
  zero := some 0
  add := map₂ (fun x y => x + y)
  sub := map₂ (fun x y => x - y)
  mul := map₂ (fun x y => x * y)
  div := map₂ (fun x y => x / y)
  lt x y := map₂ (fun x y => decide (x < y)) x y = some true
  le x y := map₂ (fun x y => decide (x ≤ y)) x y = some true
  isFinite := Option.isSome
  abs := Option.map (fun x => max x (-x))
  max := map₂ (fun x y => max x y)
  ofNat n := some n
  nan := none
  sqrt := Option.map (fun x => Nat.sqrt x.toNat)

end Whole

/-- The node of a curve, and what an observer keeps of it until it is notified. -/
structure Cached where
  node  : Whole
  cache : Option Whole
  deriving DecidableEq

/-- A contributor of one node, whose residual is the distance of the value that the observer has from the quote 2. -/
def cachedCurve : Steps Whole Cached where
  setupCostFunction _         := fun s => (.ok [some 0], { s with marked := fun _ => true })
  setCostFunctionArgument _ x := fun s => (.ok (), { s with world := { s.world with node := x.headD none } })
  evaluateCostFunction _      := fun s =>
    let value := s.world.cache.getD s.world.node
    (.ok [value - Floats.ofNat 2], { s with world := { s.world with cache := some value } })
  setToValid _ x              := fun s => (.ok (), { s with world := { s.world with node := x.headD none } })
  observers _                 := [0]
  update _                    := fun s => { s with world := { s.world with cache := none } }

/-- A minimizer that finds the quote, and then tries 1 in vain. -/
def overshoot : Minimizer Whole :=
  .values [some 2] (fun _ => .values [some 1] (fun _ => .setCurrentValue [some 2] (.done (.ok .stationaryPoint))))

end MultiCurveBootstrap
end Itofin
