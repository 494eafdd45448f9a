import Mathlib.Analysis.Convex.Basic
import Itofin.Math.Solver1d
/-!
# Refine — what the refinements of a bracketed root share

The solvers of `math/solvers1d` refine a root that the driver of `math/solver1d.rs` has bracketed, in exact arithmetic.  A
refinement keeps a trace: the points where it evaluated the function or its derivative, and the two points it works
between at every turn.  A division by zero is a failure of its own.

`Ready` is what the driver hands over (`bracketGiven_ready`).  `Within` is what a trace is to be, and `refineLoop_spec` the
rule of the loop over the evaluations.
-/
namespace Itofin

open Effect

namespace Solvers1D

structure Trace (K : Type) where
  evaluated : List K
  /-- The working pair of every turn. -/
  pairs : List (K × K)

inductive Failure (K : Type) where
  /-- `function value must be finite, got f({x}) = {value}` -/
  | notFinite (x : K)
  /-- `function derivative must be finite, got f'({x}) = {derivative}` -/
  | derivativeNotFinite (x : K)
  /-- `maximum number of function evaluations ({}) exceeded` -/
  | maxEvaluations (maxEvaluations : ℕ)
  /-- `Ridder solver reached an unreachable bracketing state` -/
  | unreachable
  /-- The source divides by zero. -/
  | divisionByZero
  /-- A loop without an end. -/
  | outOfTurns

/-- The steps of a refinement. -/
abbrev Refinement (K α : Type) : Type := Prog (Trace K) (Failure K) α

section Steps

variable {K : Type}

def Trace.evaluate (x : K) (tr : Trace K) : Trace K := { tr with evaluated := tr.evaluated ++ [x] }

def Trace.work (a b : K) (tr : Trace K) : Trace K := { tr with pairs := tr.pairs ++ [(a, b)] }

/-- The points between which a turn works. -/
def working (a b : K) : Refinement K Unit := Prog.modify (Trace.work a b)

/-- `checked_value` -/
def checkedValue (f : K → Option K) (x : K) : Refinement K K := do
  Prog.modify (Trace.evaluate x)
  match f x with
  | some value => pure value
  | none       => Prog.fail (.notFinite x)

/-- `checked_derivative` -/
def checkedDerivative (f' : K → Option K) (x : K) : Refinement K K := do
  Prog.modify (Trace.evaluate x)
  match f' x with
  | some derivative => pure derivative
  | none            => Prog.fail (.derivativeNotFinite x)

def divide [Field K] [DecidableEq K] (a b : K) : Refinement K K :=
  if b = 0 then Prog.fail .divisionByZero else pure (a / b)

/-- A turn, while evaluations are left. -/
def refineTurn {S : Type} (config : SolverConfig K) (count : S → ℕ) (body : S → Refinement K (K ⊕ S)) (s : S) :
    Refinement K (K ⊕ S) :=
  if count s ≤ config.maxEvaluations then body s else Prog.fail (.maxEvaluations config.maxEvaluations)

/-- `while st.evaluation_number <= self.max_evaluations() { .. }`, and the failure after it. -/
def refineLoop {S : Type} (config : SolverConfig K) (count : S → ℕ) (body : S → Refinement K (K ⊕ S)) (s : S) :
    Refinement K K := do
  match ← Prog.loop (refineTurn config count body) (config.maxEvaluations + 2) s with
  | some x => pure x
  | none   => Prog.fail .outOfTurns

end Steps

/-! ## What the driver hands over -/

variable {K : Type} [Field K] [LinearOrder K]

/-- A bracket in order, whose ends have values of opposite signs that are not close to zero, and a guess inside. -/
structure Ready (f : K → Option K) (st : Solver1DState K) : Prop where
  min_eq : f st.xMin = some st.fxMin
  max_eq : f st.xMax = some st.fxMax
  min_ne : ¬ Math.close st.fxMin 0 = true
  max_ne : ¬ Math.close st.fxMax 0 = true
  sign : st.fxMin * st.fxMax < 0
  guess : st.xMin < st.root ∧ st.root < st.xMax

omit [Field K] [LinearOrder K] in
theorem value_of_checked {f : K → Option K} {x v : K} {evaluated evaluated' : List K}
    (h : Solver1D.checkedValue f x evaluated = (.ok v, evaluated')) : f x = some v := by
  obtain ⟨_, _, -, h⟩ := Prog.run_bind_eq_ok.1 h
  cases hf : f x with
  | some w =>
    rw [hf] at h
    cases h
    rfl
  | none   =>
    rw [hf] at h
    cases h

theorem close_zero_iff [IsStrictOrderedRing K] {v : K} : Math.close v 0 = true ↔
    |v| < ((42 : ℕ) : K) * Math.epsilon * (((42 : ℕ) : K) * Math.epsilon) := by
  have hpos : (0 : K) < ((42 : ℕ) : K) * Math.epsilon * (((42 : ℕ) : K) * Math.epsilon) := by
    have := Math.epsilon_pos (K := K)
    positivity
  unfold Math.close Math.closeN
  by_cases hv : v = 0
  · rw [if_pos hv, hv, abs_zero]
    exact iff_of_true rfl hpos
  · rw [if_neg hv]
    dsimp only
    rw [if_pos (Or.inr rfl), sub_zero, decide_eq_true_iff]

section Signs

variable {f : K → Option K} {st : Solver1DState K}

theorem Ready.lt (h : Ready f st) : st.xMin < st.xMax := h.guess.1.trans h.guess.2

theorem Ready.min_pos (h : Ready f st) (hneg : ¬ st.fxMin < 0) : 0 < st.fxMin :=
  lt_of_le_of_ne (not_lt.1 hneg) (Solver1D.ne_zero_of_not_close h.min_ne).symm

variable [IsStrictOrderedRing K]

theorem Ready.max_pos (h : Ready f st) (hneg : st.fxMin < 0) : 0 < st.fxMax := pos_of_mul_neg_right h.sign hneg.le

theorem Ready.max_neg (h : Ready f st) (hneg : ¬ st.fxMin < 0) : st.fxMax < 0 :=
  neg_of_mul_neg_right h.sign (h.min_pos hneg).le

end Signs

theorem bracketGiven_ready [IsStrictOrderedRing K] {config : SolverConfig K} {f : K → Option K} {guess xMin xMax : K} {evaluated evaluated' : List K}
    {st : Solver1DState K} (h : Solver1D.bracketGiven config f guess xMin xMax evaluated = (.ok (.ready st), evaluated')) :
    Ready f st ∧ st.root = guess ∧ st.xMin = xMin ∧ st.xMax = xMax := by
  obtain ⟨-, hcheck, h⟩ := Prog.lift_bind_eq_ok.1 h
  obtain ⟨fxMin, _, hmin, h⟩ := Prog.run_bind_eq_ok.1 h
  by_cases hzmin : Math.close fxMin 0 = true
  · rw [if_pos hzmin] at h
    cases h
  rw [if_neg hzmin] at h
  obtain ⟨fxMax, _, hmax, h⟩ := Prog.run_bind_eq_ok.1 h
  split_ifs at h with hzmax hsign hlow hhigh
  · cases h
  · cases h
  · cases h
  · cases h
  · cases h
    refine ⟨⟨value_of_checked hmin, value_of_checked hmax, hzmin, hzmax, ?_, not_le.1 hlow, not_le.1 hhigh⟩, rfl, rfl, rfl⟩
    exact Solver1D.mul_neg_of_signs (Solver1D.ne_zero_of_not_close hzmin) (Solver1D.ne_zero_of_not_close hzmax) hsign

/-! ## The rules -/

section Rules

variable {α : Type} {f f' : K → Option K} {x a b lo hi : K} {tr : Trace K} {P Q : Trace K → Prop}
  {R : Failure K → Trace K → Prop}

omit [Field K] [LinearOrder K] in
theorem checkedValue_spec (f : K → Option K) (h : ∀ tr, P tr → Q (tr.evaluate x)) : Triple P (checkedValue f x)
    (fun v tr => Q tr ∧ f x = some v) (fun e tr => Q tr ∧ e = .notFinite x ∧ f x = none) := by
  refine Triple.bind (Triple.modify h) (fun _ => ?_)
  cases hf : f x with
  | some v => exact Triple.pure v (fun tr ht => ⟨ht, rfl⟩)
  | none   => exact Triple.fail _ (fun tr ht => ⟨ht, rfl, rfl⟩)

omit [Field K] [LinearOrder K] in
theorem checkedDerivative_spec (f' : K → Option K) (h : ∀ tr, P tr → Q (tr.evaluate x)) :
    Triple P (checkedDerivative f' x) (fun v tr => Q tr ∧ f' x = some v)
      (fun e tr => Q tr ∧ e = .derivativeNotFinite x) := by
  refine Triple.bind (Triple.modify h) (fun _ => ?_)
  cases hf : f' x with
  | some v => exact Triple.pure v (fun _ ht => ⟨ht, rfl⟩)
  | none   => exact Triple.fail _ (fun _ ht => ⟨ht, rfl⟩)

theorem divide_spec (a : K) (hb : b ≠ 0) : Triple P (divide a b) (fun v tr => P tr ∧ v = a / b) R := by
  rw [divide, if_neg hb]
  exact Triple.pure _ (fun tr ht => ⟨ht, rfl⟩)

/-- What holds after a turn: of the root that it returns, or of the state that it leaves for the next. -/
def Turned {S : Type} (Q : K → Trace K → Prop) (next : S → Trace K → Prop) : K ⊕ S → Trace K → Prop
  | .inl x => Q x
  | .inr s => next s

omit [Field K] [LinearOrder K] in
/-- **The rule of the loop**: a turn ends it, or keeps the invariant and counts. -/
theorem refineLoop_spec {S : Type} {config : SolverConfig K} {count : S → ℕ} {body : S → Refinement K (K ⊕ S)}
    (inv : S → Trace K → Prop) {Q : K → Trace K → Prop}
    (hbody : ∀ s, count s ≤ config.maxEvaluations →
      Triple (inv s) (body s) (Turned Q fun s' tr => inv s' tr ∧ count s < count s') R)
    (hmax : ∀ s tr, config.maxEvaluations < count s → inv s tr → R (.maxEvaluations config.maxEvaluations) tr) (s : S) :
    Triple (inv s) (refineLoop config count body s) Q R := by
  have hloop : Triple (fun tr => inv s tr ∧ 0 ≤ count s ∧ 0 < config.maxEvaluations + 2)
      (Prog.loop (refineTurn config count body) (config.maxEvaluations + 2) s) (fun r tr => ∃ x, r = some x ∧ Q x tr) R := by
    refine Triple.loop (config.maxEvaluations + 2)
      (fun k s tr => inv s tr ∧ k ≤ count s ∧ k < config.maxEvaluations + 2) (fun k s tr h => h.2.2) (fun k s => ?_)
      (config.maxEvaluations + 2) 0 s (by omega)
    unfold refineTurn
    refine Triple.ite (fun hle => ?_) (fun hlt => Triple.fail _ (fun tr ht => hmax s tr (not_le.1 hlt) ht.1))
    rintro tr ⟨hinv, hk, -⟩
    have hrun := hbody s hle tr hinv
    rcases hr : body s tr with ⟨e | r, tr'⟩ <;> rw [hr] at hrun
    · exact hrun
    · cases r with
      | inl x  => exact hrun
      | inr s' => exact ⟨hrun.1, hk.trans_lt hrun.2, by omega⟩
  refine (Triple.bind hloop (fun r => ?_)).weaken (fun tr ht => ⟨ht, Nat.zero_le _, by omega⟩) (fun _ _ h => h)
  rintro tr ⟨x, rfl, hq⟩
  exact hq

/-! ## What a trace is to be -/

/-- A change of sign between two points, or an exact zero. -/
def Opposite (f : K → Option K) (a b : K) : Prop := ∃ u v, f a = some u ∧ f b = some v ∧ u * v ≤ 0

/-- All evaluations inside a bracket, and every working pair a change of sign. -/
structure Within (f : K → Option K) (lo hi : K) (tr : Trace K) : Prop where
  evaluated : ∀ x ∈ tr.evaluated, x ∈ Set.Icc lo hi
  pairs : ∀ p ∈ tr.pairs, Opposite f p.1 p.2

theorem Within.evaluate (h : Within f lo hi tr) (hx : x ∈ Set.Icc lo hi) : Within f lo hi (tr.evaluate x) where
  evaluated y hy := by
    rcases List.mem_append.1 hy with hy | hy
    · exact h.evaluated y hy
    · exact List.mem_singleton.1 hy ▸ hx
  pairs := h.pairs

theorem Within.work (h : Within f lo hi tr) (hab : Opposite f a b) : Within f lo hi (tr.work a b) where
  evaluated := h.evaluated
  pairs p hp := by
    rcases List.mem_append.1 hp with hp | hp
    · exact h.pairs p hp
    · obtain rfl := List.mem_singleton.1 hp
      exact hab

/-- A value at `x` that is close to zero, or a point as near as that where the sign is another or the value zero. -/
def Accurate (f : K → Option K) (lo hi tolerance x : K) : Prop :=
  ∃ v, f x = some v ∧ (Math.close v 0 = true ∨
    ∃ y ∈ Set.Icc lo hi, ∃ w, f y = some w ∧ v * w ≤ 0 ∧ |x - y| ≤ tolerance)

theorem share_mem [IsStrictOrderedRing K] {t : K} (ha : a ∈ Set.Icc lo hi) (hb : b ∈ Set.Icc lo hi) (h₀ : 0 ≤ t)
    (h₁ : t ≤ 1) : a + (b - a) * t ∈ Set.Icc lo hi := by
  have h := (convex_Icc lo hi).add_smul_sub_mem ha hb ⟨h₀, h₁⟩
  rwa [smul_eq_mul, mul_comm] at h

/-- The failures of a refinement that does not go wrong. -/
def Sound (e : Failure K) : Prop := e ≠ .divisionByZero ∧ e ≠ .outOfTurns ∧ e ≠ .unreachable

/-- A result that is as it should be. -/
def Kept (f : K → Option K) (lo hi x : K) (tr : Trace K) : Prop := Within f lo hi tr ∧ x ∈ Set.Icc lo hi

def Failed (f : K → Option K) (lo hi : K) (e : Failure K) (tr : Trace K) : Prop := Within f lo hi tr ∧ Sound e

theorem checkedValue_within (f : K → Option K) (hx : x ∈ Set.Icc lo hi) : Triple (Within f lo hi) (checkedValue f x)
    (fun v tr => Within f lo hi tr ∧ f x = some v) (Failed f lo hi) := by
  refine (checkedValue_spec f fun tr ht => ht.evaluate hx).onError fun e tr he => ?_
  obtain ⟨ht, rfl, -⟩ := he
  exact ⟨ht, nofun, nofun, nofun⟩

theorem checkedDerivative_within (f f' : K → Option K) (hx : x ∈ Set.Icc lo hi) : Triple (Within f lo hi)
    (checkedDerivative f' x) (fun _ => Within f lo hi) (Failed f lo hi) := by
  refine ((checkedDerivative_spec f' fun _ ht => ht.evaluate hx).weaken (fun _ ht => ht) fun _ _ h => h.1).onError
    fun e tr he => ?_
  obtain ⟨ht, rfl⟩ := he
  exact ⟨ht, nofun, nofun, nofun⟩

theorem working_within (h : Opposite f a b) : Triple (Within f lo hi) (working a b) (fun _ => Within f lo hi)
    (Failed f lo hi) := Triple.modify fun _ ht => ht.work h

omit [Field K] [LinearOrder K] in
theorem refineLoop_returns {S : Type} {config : SolverConfig K} {count : S → ℕ} {body : S → Refinement K (K ⊕ S)} {s : S}
    {tr' : Trace K} (hcount : count s ≤ config.maxEvaluations) (hbody : body s tr = (.ok (.inl x), tr')) :
    refineLoop config count body s tr = (.ok x, tr') := by
  have hturn : refineTurn config count body s tr = (.ok (.inl x), tr') := by rwa [refineTurn, if_pos hcount]
  simp only [refineLoop, Prog.loop, Prog.run_bind, hturn, Prog.run_pure]

/-- The loop of a refinement whose turns keep an invariant of their state. -/
theorem refineLoop_within {S : Type} {config : SolverConfig K} {count : S → ℕ} {body : S → Refinement K (K ⊕ S)}
    (inv : S → Prop) {Q : K → Trace K → Prop} (hbody : ∀ s, count s ≤ config.maxEvaluations → inv s →
      Triple (Within f lo hi) (body s) (Turned Q fun s' tr => (Within f lo hi tr ∧ inv s') ∧ count s < count s')
        (Failed f lo hi)) {s : S} (hs : inv s) :
    Triple (Within f lo hi) (refineLoop config count body s) Q (Failed f lo hi) :=
  (refineLoop_spec (fun s tr => Within f lo hi tr ∧ inv s) (fun s hle => Triple.of_fact (hbody s hle))
    (fun _ _ _ ht => ⟨ht.1, nofun, nofun, nofun⟩) s).weaken (fun _ ht => ⟨ht, hs⟩) (fun _ _ hq => hq)

theorem within_nil : Within f lo hi ⟨[], []⟩ := ⟨nofun, nofun⟩
end Rules

end Solvers1D
end Itofin
