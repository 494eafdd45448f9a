import Itofin.Optimize.Objective
import Mathlib.Algebra.Order.Field.Basic
/-!
# FiniteDifference — gradients for objectives without an analytic one

`finite_difference.rs`, in exact arithmetic: a value that is not finite is `none`.  Different coordinates stay different, so
the step to the next number, which the source takes where rounding loses a step, has no counterpart here.
-/
namespace Itofin
namespace Optimize

open Effect

inductive FiniteDifference where
  | forward
  | central
deriving DecidableEq

section

variable {σ S E K : Type} [Field K] [LinearOrder K] {n : ℕ}

/-- A value that ends the run unless it is finite. -/
def finite (value : Option K) : Prog σ (Halt E) K :=
  match value with
  | some v => pure v
  | none   => Prog.fail (.terminated .nonfinite)

/-- The step along a coordinate. -/
def probeStep (relativeStep : FiniteDifference → K) (scheme : FiniteDifference) (eps : Option K) (xi : K) : K :=
  eps.getD (relativeStep scheme * max |xi| 1)

variable (relativeStep : FiniteDifference → K) (objective : Objective S E K (Option K) n) (budget : Common (Option K))
  (scheme : FiniteDifference) (eps : Option K)

/-- The difference quotient along a coordinate. -/
def quotient (x : Fin n → K) (fx : K) (i : Fin n) : Prog (Counters S E K (Option K) n) (Halt E) K := do
  let h := probeStep relativeStep scheme eps (x i)
  let plus := x i + h
  let fPlus ← Counters.value objective budget (Function.update x i plus) >>= finite
  match scheme with
  | .forward => return (fPlus - fx) / (plus - x i)
  | .central => do
    let minus := x i - h
    let fMinus ← Counters.value objective budget (Function.update x i minus) >>= finite
    return (fPlus - fMinus) / (plus - minus)

/-- `gradient_with_step`: the gradient at `x`, where the objective takes the value `fx`. -/
def gradientWithStep (x : Fin n → K) (fx : K) : Prog (Counters S E K (Option K) n) (Halt E) (Fin n → K) := do
  match ← Counters.gradient objective x with
  | some out =>
    -- an analytic gradient has finite components or ends the run
    if ∀ i, (out i).isSome then return fun i => (out i).getD 0
    else Prog.fail (.terminated .nonfinite)
  | none     => do
    let out ← (List.finRange n).foldlM (fun out i => do
      let q ← quotient relativeStep objective budget scheme eps x fx i
      return Function.update out i q) (0 : Fin n → K)
    Counters.chargeGradient
    return out

variable {relativeStep objective budget scheme eps}

/-- A point beside another one, a step along one of its coordinates. -/
def IsProbe (relativeStep : FiniteDifference → K) (scheme : FiniteDifference) (eps : Option K) (x y : Fin n → K) : Prop :=
  ∃ i, y = Function.update x i (x i + probeStep relativeStep scheme eps (x i)) ∨
    scheme = .central ∧ y = Function.update x i (x i - probeStep relativeStep scheme eps (x i))

/-- What holds of the counters whatever the objective does with its state, and after each evaluation of some points. -/
structure Stable (P : Counters S E K (Option K) n → Prop) (points : (Fin n → K) → Prop) : Prop where
  call  : ∀ c k s, P c → P { c with njev := k, objective := s }
  value : ∀ c y f s, points y → P c →
    P { c with nfev := c.nfev + 1, objective := s, evaluations := c.evaluations ++ [(y, f)] }

variable {P : Counters S E K (Option K) n → Prop} {points : (Fin n → K) → Prop}

omit [Field K] [LinearOrder K] in
theorem finite_triple {P : σ → Prop} (value : Option K) :
    Triple P (finite value : Prog σ (Halt E) K) (fun _ => P) (fun _ => P) := by
  cases value with
  | none   => exact Triple.fail _ (fun _ hs => hs)
  | some v => exact Triple.pure v (fun _ hs => hs)

omit [Field K] [LinearOrder K] in
theorem Stable.value_triple (h : Stable P points) {y : Fin n → K} (hy : points y) :
    Triple P (Counters.value objective budget y) (fun _ => P) (fun _ => P) :=
  Counters.value_triple y (fun _ hc _ => hc) (fun c f s hc _ => h.value c y (.ok f) s hy hc)
    (fun c e s hc _ => h.value c y (.error e) s hy hc)

theorem Stable.quotient_triple (h : Stable P points) {x : Fin n → K} (hx : ∀ y, IsProbe relativeStep scheme eps x y → points y)
    (fx : K) (i : Fin n) :
    Triple P (quotient relativeStep objective budget scheme eps x fx i) (fun _ => P) (fun _ => P) := by
  refine Triple.bind (Triple.bind (h.value_triple (hx _ ⟨i, .inl rfl⟩)) finite_triple) (fun fPlus => ?_)
  cases scheme with
  | forward => exact Triple.pure _ (fun _ hs => hs)
  | central =>
    refine Triple.bind (Triple.bind (h.value_triple (hx _ ⟨i, .inr ⟨rfl, rfl⟩⟩)) finite_triple) (fun fMinus => ?_)
    exact Triple.pure _ (fun _ hs => hs)

/-- **A gradient evaluates the objective at probes only.** -/
theorem Stable.gradient_triple (h : Stable P points) {x : Fin n → K} (hx : ∀ y, IsProbe relativeStep scheme eps x y → points y)
    (fx : K) :
    Triple P (gradientWithStep relativeStep objective budget scheme eps x fx) (fun _ => P) (fun _ => P) := by
  refine Triple.bind (Counters.gradient_triple x h.call) (fun g => ?_)
  cases g with
  | some out => exact Triple.ite (fun _ => Triple.pure _ (fun _ hs => hs)) (fun _ => Triple.fail _ (fun _ hs => hs))
  | none     =>
    refine Triple.bind (Triple.foldlM (fun _ => P) _ _ (fun out i _ => ?_)) (fun out => ?_)
    · exact Triple.bind (h.quotient_triple hx fx i) (fun q => Triple.pure _ (fun _ hs => hs))
    · exact Triple.bind (Triple.modify (fun c hc => h.call c _ c.objective hc)) (fun _ => Triple.pure out (fun _ hs => hs))

end
end Optimize
end Itofin
