import Itofin.Lib.Effect
import Itofin.Types
import Mathlib.Data.List.Count
/-!
# Optimization — problems, minimizers and the split into fixed and free parameters

`math/optimization`.  A cost function reads and writes a state, and a minimizer is any strategy that asks for values of
the cost function, moves the candidate minimum, and ends with an end criterion or an error.  What every evaluation keeps
a minimization keeps (`minimize_keeps`).  A projection holds some parameters fixed: `include` puts the free ones back
among them.
-/
namespace Itofin

open Effect

/-- How a computation ends early: with an error, or with a panic, which nothing here catches. -/
inductive Stop where
  | error (message : String)
  | panic
  deriving DecidableEq, Repr

inductive EndCriteriaType where
  | none
  | maxIterations
  | stationaryPoint
  | stationaryFunctionValue
  | stationaryFunctionAccuracy
  | zeroGradientNorm
  | functionEpsilonTooSmall
  | unknown
  deriving DecidableEq, Repr

/-- `Display`. -/
def EndCriteriaType.display : EndCriteriaType → String
  | .none                     => "None"
  | .maxIterations            => "MaxIterations"
  | .stationaryPoint          => "StationaryPoint"
  | .stationaryFunctionValue  => "StationaryFunctionValue"
  | .stationaryFunctionAccuracy => "StationaryFunctionAccuracy"
  | .zeroGradientNorm         => "ZeroGradientNorm"
  | .functionEpsilonTooSmall  => "FunctionEpsilonTooSmall"
  | .unknown                  => "Unknown"

def EndCriteriaType.succeeded : EndCriteriaType → Bool
  | .stationaryPoint | .stationaryFunctionValue | .stationaryFunctionAccuracy => true
  | _                                                                         => false

/-- `CostFunction`, over the state that its evaluations change. -/
structure CostFunction (K σ : Type) where
  value  : List K → Prog σ Stop K
  values : List K → Prog σ Stop (List K)

/-- A cost function with the trait's own `value`: the root mean square, which panics on no residuals. -/
def CostFunction.ofValues {K σ : Type} [SqrtFloats K] (values : List K → Prog σ Stop (List K)) : CostFunction K σ where
  values  := values
  value x := do
    let v ← values x
    Prog.require (v.isEmpty = false) .panic
    return SqrtFloats.sqrt ((v.map (fun e => e * e)).foldl (· + ·) 0 / Floats.ofNat v.length)

structure Problem (K : Type) where
  currentValue       : List K
  functionEvaluation : ℤ

/-- What a minimizer does with its problem; `cost` and `costs` are evaluations that the problem does not count, as those
behind a gradient or a Jacobian. -/
inductive Minimizer (K : Type) where
  | done (result : Except String EndCriteriaType)
  | value (x : List K) (next : K → Minimizer K)
  | values (x : List K) (next : List K → Minimizer K)
  | cost (x : List K) (next : K → Minimizer K)
  | costs (x : List K) (next : List K → Minimizer K)
  | setCurrentValue (x : List K) (next : Minimizer K)
  | reset (next : Minimizer K)

/-- All the points of a strategy, its candidates included, have as many coordinates. -/
def Minimizer.Sized {K : Type} (n : ℕ) : Minimizer K → Prop
  | .done _                 => True
  | .value x next           => x.length = n ∧ ∀ v, (next v).Sized n
  | .values x next          => x.length = n ∧ ∀ v, (next v).Sized n
  | .cost x next            => x.length = n ∧ ∀ v, (next v).Sized n
  | .costs x next           => x.length = n ∧ ∀ v, (next v).Sized n
  | .setCurrentValue x next => x.length = n ∧ next.Sized n
  | .reset next             => next.Sized n

/-- `OptimizationMethod::minimize`: the strategy for a constraint and a first candidate.  A test of the constraint can
panic. -/
def OptimizationMethod (K : Type) : Type := (List K → Option Bool) → List K → Minimizer K

namespace Problem

variable {K σ : Type}

def value (f : CostFunction K σ) (p : Problem K) (x : List K) : Prog σ Stop (K × Problem K) := do
  return (← f.value x, { p with functionEvaluation := p.functionEvaluation + 1 })

def values (f : CostFunction K σ) (p : Problem K) (x : List K) : Prog σ Stop (List K × Problem K) := do
  return (← f.values x, { p with functionEvaluation := p.functionEvaluation + 1 })

/-- The run of a minimizer on a problem. -/
def minimize (f : CostFunction K σ) : Minimizer K → Problem K →
    Prog σ Stop (Except String EndCriteriaType × Problem K)
  | .done result, p            => pure (result, p)
  | .value x next, p           => do
    let (v, p) ← value f p x
    minimize f (next v) p
  | .values x next, p          => do
    let (v, p) ← values f p x
    minimize f (next v) p
  | .cost x next, p            => do
    let v ← f.value x
    minimize f (next v) p
  | .costs x next, p           => do
    let v ← f.values x
    minimize f (next v) p
  | .setCurrentValue x next, p => minimize f next { p with currentValue := x }
  | .reset next, p             => minimize f next { p with functionEvaluation := 0 }

variable {f : CostFunction K σ} {I : σ → Prop} {R : Stop → σ → Prop}

theorem value_keeps (p : Problem K) {x : List K} (h : Triple I (f.value x) (fun _ => I) R) :
    Triple I (value f p x) (fun _ => I) R := by
  apply Triple.bind h
  intro v
  exact Triple.pure _ (fun _ hs => hs)

theorem values_keeps (p : Problem K) {x : List K} (h : Triple I (f.values x) (fun _ => I) R) :
    Triple I (values f p x) (fun _ => I) R := by
  apply Triple.bind h
  intro v
  exact Triple.pure _ (fun _ hs => hs)

/-- **What every evaluation keeps, a minimization keeps.** -/
theorem minimize_keeps (hvalue : ∀ x, Triple I (f.value x) (fun _ => I) R)
    (hvalues : ∀ x, Triple I (f.values x) (fun _ => I) R) :
    ∀ (m : Minimizer K) (p : Problem K), Triple I (minimize f m p) (fun _ => I) R
  | .done _, _                 => Triple.pure _ (fun _ hs => hs)
  | .value x next, p           => by
    apply Triple.bind (value_keeps p (hvalue x))
    intro r
    exact minimize_keeps hvalue hvalues (next r.1) r.2
  | .values x next, p          => by
    apply Triple.bind (values_keeps p (hvalues x))
    intro r
    exact minimize_keeps hvalue hvalues (next r.1) r.2
  | .cost x next, p            => by
    apply Triple.bind (hvalue x)
    intro v
    exact minimize_keeps hvalue hvalues (next v) p
  | .costs x next, p           => by
    apply Triple.bind (hvalues x)
    intro v
    exact minimize_keeps hvalue hvalues (next v) p
  | .setCurrentValue x next, p => minimize_keeps hvalue hvalues next _
  | .reset next, p             => minimize_keeps hvalue hvalues next _

theorem value_candidate (p : Problem K) {x : List K} (h : Triple I (f.value x) (fun _ => I) R) :
    Triple I (value f p x) (fun r s => I s ∧ r.2.currentValue = p.currentValue) R := by
  refine Triple.bind h (fun v => ?_)
  exact Triple.pure _ (fun _ hs => ⟨hs, rfl⟩)

theorem values_candidate (p : Problem K) {x : List K} (h : Triple I (f.values x) (fun _ => I) R) :
    Triple I (values f p x) (fun r s => I s ∧ r.2.currentValue = p.currentValue) R := by
  refine Triple.bind h (fun v => ?_)
  exact Triple.pure _ (fun _ hs => ⟨hs, rfl⟩)

/-- **A minimization whose points are all of one size** keeps what the evaluations at such points keep, and its solution is
of that size. -/
theorem minimize_sized {n : ℕ} (hvalue : ∀ x, x.length = n → Triple I (f.value x) (fun _ => I) R)
    (hvalues : ∀ x, x.length = n → Triple I (f.values x) (fun _ => I) R) :
    ∀ (m : Minimizer K) (p : Problem K), m.Sized n → p.currentValue.length = n →
      Triple I (minimize f m p) (fun r s => I s ∧ r.2.currentValue.length = n) R
  | .done _, _, _, hp                  => Triple.pure _ (fun _ hs => ⟨hs, hp⟩)
  | .value x next, p, hm, hp           => by
    refine Triple.bind (value_candidate p (hvalue x hm.1)) (fun r => Triple.of_fact fun hr => ?_)
    exact minimize_sized hvalue hvalues (next r.1) r.2 (hm.2 r.1) (hr ▸ hp)
  | .values x next, p, hm, hp          => by
    refine Triple.bind (values_candidate p (hvalues x hm.1)) (fun r => Triple.of_fact fun hr => ?_)
    exact minimize_sized hvalue hvalues (next r.1) r.2 (hm.2 r.1) (hr ▸ hp)
  | .cost x next, p, hm, hp            => by
    refine Triple.bind (hvalue x hm.1) (fun v => ?_)
    exact minimize_sized hvalue hvalues (next v) p (hm.2 v) hp
  | .costs x next, p, hm, hp           => by
    refine Triple.bind (hvalues x hm.1) (fun v => ?_)
    exact minimize_sized hvalue hvalues (next v) p (hm.2 v) hp
  | .setCurrentValue x next, _, hm, _  => minimize_sized hvalue hvalues next _ hm.2 hm.1
  | .reset next, _, hm, hp             => minimize_sized hvalue hvalues next _ hm hp

end Problem

/-! ## The split into fixed and free parameters -/

/-- A split of the parameters into fixed and free ones, of which there is one at least. -/
structure Projection (K : Type) where
  seed          : List K
  fixParameters : List Bool
  sized         : seed.length = fixParameters.length
  free          : 0 < fixParameters.count false

/-- The entries that are not fixed. -/
def freeEntries {K : Type} : List Bool → List K → List K
  | fixed :: fs, v :: vs => if fixed then freeEntries fs vs else v :: freeEntries fs vs
  | _, _                 => []

/-- The entries of `seed`, with `projected` in the place of those that are not fixed. -/
def withFree {K : Type} : List Bool → List K → List K → List K
  | fixed :: fs, s :: ss, projected => if fixed then s :: withFree fs ss projected else
    match projected with
    | x :: xs => x :: withFree fs ss xs
    | []      => s :: withFree fs ss []
  | _, seed, _                      => seed

namespace Projection

variable {K : Type}

def new (parameterValues : List K) (fixParameters : List Bool) : Except String (Projection K) :=
  let fixParameters := if fixParameters = [] then List.replicate parameterValues.length false else fixParameters
  if sized : parameterValues.length = fixParameters.length then
    if free : 0 < fixParameters.count false then .ok ⟨parameterValues, fixParameters, sized, free⟩
    else .error "numberOfFreeParameters==0"
  else .error "fixedParameters_.size()!=parametersFreedoms_.size()"

def project (p : Projection K) (parameters : List K) : Except Stop (List K) :=
  if parameters.length = p.fixParameters.length then .ok (freeEntries p.fixParameters parameters) else .error .panic

def includeFree (p : Projection K) (projected : List K) : Except Stop (List K) :=
  if projected.length = p.fixParameters.count false then .ok (withFree p.fixParameters p.seed projected)
  else .error .panic

end Projection

section
variable {K : Type}

@[simp] theorem withFree_length : ∀ (fix : List Bool) (seed projected : List K),
    (withFree fix seed projected).length = seed.length
  | [], seed, _                       => by simp [withFree]
  | _ :: _, [], _                     => by simp [withFree]
  | true :: fs, s :: ss, projected    => by simp [withFree, withFree_length fs ss]
  | false :: fs, s :: ss, []          => by simp [withFree, withFree_length fs ss]
  | false :: fs, s :: ss, x :: xs     => by simp [withFree, withFree_length fs ss]

theorem withFree_fixed : ∀ (fix : List Bool) (seed projected : List K) (i : ℕ), fix[i]? = some true →
    (withFree fix seed projected)[i]? = seed[i]?
  | [], _, _, _, h                        => by simp at h
  | _ :: _, [], _, _, _                   => by simp [withFree]
  | true :: fs, s :: ss, projected, 0, _  => by simp [withFree]
  | false :: fs, s :: ss, projected, 0, h => by simp at h
  | true :: fs, s :: ss, projected, i + 1, h => by
    simpa [withFree] using withFree_fixed fs ss projected i (by simpa using h)
  | false :: fs, s :: ss, [], i + 1, h    => by
    simpa [withFree] using withFree_fixed fs ss [] i (by simpa using h)
  | false :: fs, s :: ss, x :: xs, i + 1, h => by
    simpa [withFree] using withFree_fixed fs ss xs i (by simpa using h)

theorem freeEntries_withFree : ∀ (fix : List Bool) (seed projected : List K), seed.length = fix.length →
    projected.length = fix.count false → freeEntries fix (withFree fix seed projected) = projected
  | [], [], projected, _, h            => by
    rw [List.count_nil, List.length_eq_zero_iff] at h
    simp [h, freeEntries]
  | true :: fs, s :: ss, projected, hs, h => by
    simp only [withFree, freeEntries, if_true]
    exact freeEntries_withFree fs ss projected (by simpa using hs) (by simpa using h)
  | false :: fs, s :: ss, [], _, h     => by simp at h
  | false :: fs, s :: ss, x :: xs, hs, h => by
    simp only [withFree, freeEntries, Bool.false_eq_true, if_false, List.cons.injEq, true_and]
    exact freeEntries_withFree fs ss xs (by simpa using hs) (by simpa using h)

end

end Itofin
