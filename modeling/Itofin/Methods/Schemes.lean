import Itofin.Lib.Superposition
import Itofin.Methods.FdmBackwardSolver
import Mathlib.Algebra.BigOperators.Group.Finset.Basic
import Mathlib.Algebra.Order.BigOperators.Group.Finset
import Mathlib.Data.Fin.VecNotation
import Mathlib.Data.Fintype.Basic
import Mathlib.Tactic.Abel
import Mathlib.Tactic.Module
/-!
# Schemes — the steps of the backward solver

The schemes of `methods/finitedifferences/schemes`, in exact arithmetic, over any operator and any boundary conditions, and
the backward solver over them (`schemes`).  The method of lines is any program.

A sweep of implicit corrections is undone by the product of the implicit factors (`corrected_spec`), which gives the equation
that each splitting scheme solves.  Of whole rollbacks: over a linear operator they are linear, whatever the scheme
(`rollback_linear`); they keep what the operator keeps (`rollback_steady`); and implicit Euler keeps every bound that the
rates of the operator keep (`rollback_bounded`).
-/
namespace Itofin.Fdm

open Effect Superposition

/-- An operator in `M` on grids in `V`; its parts read what the last `setTime` left. -/
structure FdmLinearOpComposite (K M V ε : Type) where
  size : M → ℕ
  setTime : K → K → M → Except ε M
  apply : M → V → V
  applyMixed : M → V → V
  applyDirection : M → ℕ → V → V
  /-- `(I + s * A_direction) x = r` for `x` -/
  solveSplitting : M → ℕ → V → K → Except ε V

/-- A condition at the time that was set last. -/
structure BoundaryCondition (K M V : Type) where
  applyBeforeApplying : K → M → M
  applyAfterApplying : K → V → V
  applyBeforeSolving : K → M × V → M × V
  applyAfterSolving : K → V → V

inductive SchemeError (ε : Type) where
  /-- "the timestep is not set: call set_step before stepping" -/
  | stepNotSet
  /-- "a step towards negative time given" -/
  | negativeTime
  /-- ".. over an operator splitting into .. directions needs the iterative solvers deferred to #636" -/
  | directions (size : ℕ)
  | operator (e : ε)
deriving DecidableEq

namespace BoundaryConditionSchemeHelper

variable {K M V : Type} (bcs : List (BoundaryCondition K M V))

def applyBeforeApplying (t : K) (map : M) : M := bcs.foldl (fun map bc => bc.applyBeforeApplying t map) map

def applyAfterApplying (t : K) (a : V) : V := bcs.foldl (fun a bc => bc.applyAfterApplying t a) a

def applyBeforeSolving (t : K) (s : M × V) : M × V := bcs.foldl (fun s bc => bc.applyBeforeSolving t s) s

def applyAfterSolving (t : K) (a : V) : V := bcs.foldl (fun a bc => bc.applyAfterSolving t a) a

end BoundaryConditionSchemeHelper

open BoundaryConditionSchemeHelper

variable {K M V ε : Type} [Field K] [LinearOrder K] [AddCommGroup V] [Module K V]

section Steps

variable (op : FdmLinearOpComposite K M V ε) (bcs : List (BoundaryCondition K M V))

/-- The start of the step to `t`, which may not be before time zero. -/
def startOf (dt t : K) : Prog (M × V) (SchemeError ε) K := do
  .require (-(1 / (10 : ℕ) ^ 8) < t - dt) .negativeTime
  return max (t - dt) 0

/-- The operator of the step. -/
def prepare (start t : K) : Prog (M × V) (SchemeError ε) Unit := do
  onFirst fun map => (op.setTime start t map).mapError .operator
  onFirst fun map => .ok (applyBeforeApplying bcs start map)

/-- The explicit stage. -/
def predicted (start dt : K) (map : M) (a : V) : V := applyAfterApplying bcs start (a + dt • op.apply map a)

/-- The implicit corrections of `y`, a direction at a time, of which each reads the operator at one grid. -/
def corrected (theta dt : K) (map : M) (read y : V) : Except (SchemeError ε) V :=
  (List.range (op.size map)).foldlM (fun y i =>
    (op.solveSplitting map i (y - (theta * dt) • op.applyDirection map i read) (-theta * dt)).mapError .operator) y

def finish (start : K) : Prog (M × V) (SchemeError ε) Unit := onSecond fun _ a => .ok (applyAfterSolving bcs start a)

namespace DouglasScheme

def step (theta dt t : K) : Prog (M × V) (SchemeError ε) Unit := do
  let start ← startOf dt t
  prepare op bcs start t
  onSecond fun map a => corrected op theta dt map a (predicted op bcs start dt map a)
  finish bcs start

end DouglasScheme

/-- Douglas, and a second sweep: `second` is what it adds to the explicit stage, of the change of the first, and `reread` is
the grid that its corrections read. -/
def twoStages (theta : K) (second : K → M → V → V) (reread : V → V → V) (dt t : K) : Prog (M × V) (SchemeError ε) Unit := do
  let start ← startOf dt t
  prepare op bcs start t
  let (y0, y) ← reading fun map a =>
    let y0 := predicted op bcs start dt map a
    (corrected op theta dt map a y0).map (y0, ·)
  onFirst fun map => .ok (applyBeforeApplying bcs start map)
  onSecond fun map a =>
    corrected op theta dt map (reread a y) (applyAfterApplying bcs start (y0 + second dt map (y - a)))
  finish bcs start

namespace CraigSneydScheme

def second (mu dt : K) (map : M) (delta : V) : V := (mu * dt) • op.applyMixed map delta

def step (theta mu : K) : K → K → Prog (M × V) (SchemeError ε) Unit := twoStages op bcs theta (second op mu) fun a _ => a

end CraigSneydScheme

namespace ModifiedCraigSneydScheme

def second (mu dt : K) (map : M) (delta : V) : V :=
  (mu * dt) • op.applyMixed map delta + ((1 / (2 : ℕ) - mu) * dt) • op.apply map delta

def step (theta mu : K) : K → K → Prog (M × V) (SchemeError ε) Unit := twoStages op bcs theta (second op mu) fun a _ => a

end ModifiedCraigSneydScheme

namespace HundsdorferScheme

def second (mu dt : K) (map : M) (delta : V) : V := (mu * dt) • op.apply map delta

def step (theta mu : K) : K → K → Prog (M × V) (SchemeError ε) Unit := twoStages op bcs theta (second op mu) fun _ y => y

end HundsdorferScheme

/-- Of one direction alone. -/
def solveOne (s : K) (map : M) (rhs : V) : Except (SchemeError ε) V :=
  if op.size map ≠ 1 then .error (.directions (op.size map))
  else (op.solveSplitting map 0 rhs s).mapError .operator

/-- `apply_before_solving` -/
def constrain (start : K) : Prog (M × V) (SchemeError ε) Unit := .modify (applyBeforeSolving bcs start)

namespace ImplicitEulerScheme

def step (dt t : K) : Prog (M × V) (SchemeError ε) Unit := do
  let start ← startOf dt t
  onFirst fun map => (op.setTime start t map).mapError .operator
  constrain bcs start
  onSecond fun map a => solveOne op (-dt) map a
  finish bcs start

end ImplicitEulerScheme

namespace ExplicitEulerScheme

def step (dt t : K) : Prog (M × V) (SchemeError ε) Unit := do
  let start ← startOf dt t
  prepare op bcs start t
  onSecond fun map a => .ok (predicted op bcs start dt map a)
  finish bcs start

end ExplicitEulerScheme

namespace CrankNicolsonScheme

def step : K → K → Prog (M × V) (SchemeError ε) Unit := DouglasScheme.step op bcs (1 / (2 : ℕ))

end CrankNicolsonScheme

namespace TrBDF2Scheme

def beta (alpha dt : K) : K := (1 - alpha) / ((2 : ℕ) - alpha) * dt

def rhs (alpha : K) (fStar a : V) : V :=
  (1 / ((2 : ℕ) - alpha)) • ((1 / alpha) • fStar - ((1 - alpha) * (1 - alpha) * (1 / alpha)) • a)

/-- The trapezoidal step is taken on a copy of the grid, and leaves the operator at its own time. -/
def step (alpha : K) (trapezoidal : K → K → Prog (M × V) (SchemeError ε) Unit) (dt t : K) :
    Prog (M × V) (SchemeError ε) Unit := do
  let start ← startOf dt t
  let a ← reading fun _ a => .ok a
  trapezoidal (dt * alpha) t
  let fStar ← reading fun _ a => .ok a
  onSecond fun _ _ => .ok a
  constrain bcs start
  onSecond fun map a => solveOne op (-beta alpha dt) map (rhs alpha fStar a)
  finish bcs start

end TrBDF2Scheme

/-- A scheme with its parameters. -/
inductive SchemeKind (K : Type) where
  | douglas (theta : K)
  | hundsdorfer (theta mu : K)
  | craigSneyd (theta mu : K)
  | modifiedCraigSneyd (theta mu : K)
  | implicitEuler
  | explicitEuler
  | crankNicolson
  | methodOfLines (eps relInitStepSize : K)
  | trBDF2 (alpha : K) (trapezoidal : SchemeKind K)

/-- A scheme as it stands: the step, once it is set, and the operator. -/
structure Evolver (K M : Type) where
  kind : SchemeKind K
  dt : Option K
  map : M

variable (lines : K → K → K → K → Prog (M × V) (SchemeError ε) Unit)

def stepOf : SchemeKind K → K → K → Prog (M × V) (SchemeError ε) Unit
  | .douglas theta                  => DouglasScheme.step op bcs theta
  | .hundsdorfer theta mu           => HundsdorferScheme.step op bcs theta mu
  | .craigSneyd theta mu            => CraigSneydScheme.step op bcs theta mu
  | .modifiedCraigSneyd theta mu    => ModifiedCraigSneydScheme.step op bcs theta mu
  | .implicitEuler                  => ImplicitEulerScheme.step op bcs
  | .explicitEuler                  => ExplicitEulerScheme.step op bcs
  | .crankNicolson                  => CrankNicolsonScheme.step op bcs
  | .methodOfLines eps relInitStepSize => lines eps relInitStepSize
  | .trBDF2 alpha trapezoidal       => TrBDF2Scheme.step op bcs alpha (stepOf trapezoidal)

def step (t : K) : Prog (Evolver K M × V) (SchemeError ε) Unit := fun (self, a) => match self.dt with
  | none    => (.error .stepNotSet, self, a)
  | some dt =>
    let r := stepOf op bcs lines self.kind dt t (self.map, a)
    (r.1, { self with map := r.2.1 }, r.2.2)

/-- The schemes of the backward solver. -/
def schemes : Schemes K M (Evolver K M) V (SchemeError ε) where
  scheme                      := ⟨fun dt self => { self with dt := some dt }, step op bcs lines⟩
  operator                    := Evolver.map
  douglas theta map           := ⟨.douglas theta, none, map⟩
  hundsdorfer theta mu map    := ⟨.hundsdorfer theta mu, none, map⟩
  craigSneyd theta mu map     := ⟨.craigSneyd theta mu, none, map⟩
  modifiedCraigSneyd theta mu map := ⟨.modifiedCraigSneyd theta mu, none, map⟩
  implicitEuler map           := ⟨.implicitEuler, none, map⟩
  explicitEuler map           := ⟨.explicitEuler, none, map⟩
  crankNicolson map           := ⟨.crankNicolson, none, map⟩
  methodOfLines eps relInitStepSize map := ⟨.methodOfLines eps relInitStepSize, none, map⟩
  trBDF2 alpha map trapezoidal := ⟨.trBDF2 alpha trapezoidal.kind, none, map⟩

end Steps

/-! ### Two places that exchange what they hold -/

def exchange : FdmLinearOpComposite ℚ Unit (Fin 2 → ℚ) Unit where
  size _               := 1
  setTime _ _          := .ok
  apply _ x i          := x i.rev - x i
  applyMixed _ _       := 0
  applyDirection _ _ x i := x i.rev - x i
  solveSplitting _ _ r s := if 1 - 2 * s = 0 then .error () else .ok fun i => (r i - s * (r 0 + r 1)) / (1 - 2 * s)

theorem exchange_isLinear : IsLinearMap ℚ fun (x : Fin 2 → ℚ) i => x i.rev - x i :=
  ⟨fun x y => by funext i; simp; ring, fun c x => by funext i; simp; ring⟩

theorem exchange_eq {a b total s : ℚ} (htotal : total = a + b) (hs : 1 - 2 * s ≠ 0) :
    (a - s * total) / (1 - 2 * s) + s * ((b - s * total) / (1 - 2 * s) - (a - s * total) / (1 - 2 * s)) = a := by
  rw [← sub_div, ← mul_div_assoc, ← add_div, div_eq_iff hs, htotal]
  ring

theorem exchange_solve {m : Unit} {i : ℕ} {r x : Fin 2 → ℚ} {s : ℚ} (h : exchange.solveSplitting m i r s = .ok x) (k : Fin 2) :
    x k + s * (x k.rev - x k) = r k := by
  unfold exchange at h
  dsimp only at h
  split at h
  · cases h
  · rename_i hs
    cases h
    fin_cases k
    · exact exchange_eq rfl hs
    · exact exchange_eq (add_comm _ _) hs

/-- Halfway between the two schemes of Euler. -/
def halfway (schemeType : FdmSchemeType) : FdmBackwardSolver ℚ (Fin 2 → ℚ) := ⟨⟨[1 / 3], []⟩, schemeType, 1 / 2, 1 / 2⟩

/-! ## Whole rollbacks -/

section Rollback

variable [IsStrictOrderedRing K] {S A : Type} {scheme : Scheme K S A ε} {condition : Option (StepCondition K A)}

omit [AddCommGroup V] [Module K V] in
/-- **A rollback is in every closed class that what it does to the scheme and the grid is in**; no step is set that is
negative. -/
theorem FiniteDifferenceModel.rollback_mem {C : ∀ {α : Type}, Prog (S × A) (ModelError K ε) α → Prop} (hC : Closed C)
    (hset : ∀ dt, 0 ≤ dt → C (FiniteDifferenceModel.setStep scheme dt : Prog (S × A) (ModelError K ε) Unit))
    (hstep : ∀ now, C (FiniteDifferenceModel.step scheme now))
    (happly : ∀ t, C (FiniteDifferenceModel.applyTo condition t : Prog (S × A) (ModelError K ε) Unit))
    (model : FiniteDifferenceModel K) (start stop : K) (steps : ℕ) :
    C (FiniteDifferenceModel.rollback scheme condition model start stop steps) := by
  have hcut : ∀ (next : K) (found : K × Bool) (s : K), C (FiniteDifferenceModel.cut scheme condition next found s) := by
    rintro next ⟨now, hit⟩ s
    unfold FiniteDifferenceModel.cut
    dsimp only
    split
    · rename_i hs
      exact hC.bind (hset _ (sub_nonneg.2 hs.2.le)) fun _ => hC.bind (hstep _) fun _ => hC.bind (happly _) fun _ => hC.pure _
    · exact hC.pure _
  have hturn : ∀ dt, 0 ≤ dt → ∀ (t : K) (i : ℕ), C (FiniteDifferenceModel.turn scheme condition model stop dt steps t i) := by
    intro dt hdt t i
    unfold FiniteDifferenceModel.turn
    apply hC.bind (hC.foldlM (hcut _) _ _)
    rintro ⟨now, hit⟩
    dsimp only
    split
    · split
      · rename_i hnow
        exact hC.bind (hset _ (sub_nonneg.2 hnow.le)) fun _ => hC.bind (hstep _) fun _ => hC.bind (happly _) fun _ =>
          hC.bind (hset _ hdt) fun _ => hC.pure _
      · exact hC.bind (hset _ hdt) fun _ => hC.pure _
    · exact hC.bind (hstep _) fun _ => hC.bind (happly _) fun _ => hC.pure _
  unfold FiniteDifferenceModel.rollback
  by_cases hstop : stop ≤ start
  · have hdt : 0 ≤ (start - stop) / (steps : K) := div_nonneg (sub_nonneg.2 hstop) (Nat.cast_nonneg _)
    apply hC.bind (hC.require _ _)
    intro _
    apply hC.bind (hset _ hdt)
    intro _
    split
    · exact hC.bind (happly _) fun _ => hC.bind (hC.foldlM (hturn _ hdt) _ _) fun _ => hC.pure _
    · exact hC.bind (hC.foldlM (hturn _ hdt) _ _) fun _ => hC.pure _
  · rw [Prog.require_neg hstop]
    exact hC.fail _

omit [IsStrictOrderedRing K] in
theorem FdmBackwardSolver.rollback_mem {C : ∀ {α : Type}, Prog (M × A) (ModelError K ε) α → Prop} (hC : Closed C)
    (schemes : Schemes K M S A ε) (solver : FdmBackwardSolver K A)
    (hroll : ∀ desc start stop steps, desc.schemeType = .implicitEuler ∨ desc = solver.schemeDesc →
      C (FdmBackwardSolver.rollModel schemes solver desc start stop steps))
    (start stop : K) (steps dampingSteps : ℕ) : C (solver.rollback schemes start stop steps dampingSteps) := by
  unfold FdmBackwardSolver.rollback
  dsimp only
  split
  · refine hC.bind (hroll _ _ _ _ (.inl rfl)) fun _ => ?_
    split <;> exact hroll _ _ _ _ (.inr rfl)
  · split <;> exact hroll _ _ _ _ (.inr rfl)

end Rollback

/-! ## Superposition -/

/-- The parts of the operator are linear, and whether a direction is solved is not a matter of the right-hand side. -/
structure LinearOperator (op : FdmLinearOpComposite K M V ε) : Prop where
  apply     : ∀ m, IsLinearMap K (op.apply m)
  mixed     : ∀ m, IsLinearMap K (op.applyMixed m)
  direction : ∀ m i, IsLinearMap K (op.applyDirection m i)
  solve     : ∀ m i s, LinearFn (K := K) fun r => op.solveSplitting m i r s

structure LinearCondition (bc : BoundaryCondition K M V) : Prop where
  afterApplying : ∀ t, IsLinearMap K (bc.applyAfterApplying t)
  afterSolving  : ∀ t, IsLinearMap K (bc.applyAfterSolving t)
  beforeSolving : ∀ t m, ∃ (m' : M) (L : V →ₗ[K] V), ∀ a, bc.applyBeforeSolving t (m, a) = (m', L a)

/-- The scheme is none that the method of lines is a part of. -/
def SchemeKind.Splits : SchemeKind K → Prop
  | .methodOfLines _ _    => False
  | .trBDF2 _ trapezoidal => trapezoidal.Splits
  | _                     => True

section Superposition

variable {op : FdmLinearOpComposite K M V ε} {bcs : List (BoundaryCondition K M V)}
variable {lines : K → K → K → K → Prog (M × V) (SchemeError ε) Unit} {W : Type} [AddCommGroup W] [Module K W]

omit [LinearOrder K] in
theorem isLinearMap_foldl {ι : Type} {f : V → ι → V} : ∀ {l : List ι}, (∀ i ∈ l, IsLinearMap K fun a => f a i) →
    IsLinearMap K fun a => l.foldl f a
  | [], _     => ⟨fun _ _ => rfl, fun _ _ => rfl⟩
  | i :: l, h => by
    have hi := h i List.mem_cons_self
    have hl := isLinearMap_foldl fun j hj => h j (List.mem_cons_of_mem i hj)
    exact ⟨fun a b => by simp only [List.foldl_cons, hi.map_add, hl.map_add],
      fun c a => by simp only [List.foldl_cons, hi.map_smul, hl.map_smul]⟩

omit [LinearOrder K] in
theorem applyBeforeSolving_linear (hbcs : ∀ bc ∈ bcs, LinearCondition bc) (t : K) (m : M) :
    ∃ (m' : M) (L : V →ₗ[K] V), ∀ a, applyBeforeSolving bcs t (m, a) = (m', L a) := by
  unfold applyBeforeSolving
  induction bcs generalizing m with
  | nil => exact ⟨m, .id, fun _ => rfl⟩
  | cons bc bcs ih =>
    obtain ⟨m', L, hL⟩ := (hbcs bc List.mem_cons_self).beforeSolving t m
    obtain ⟨m'', L', hL'⟩ := ih (fun bc' h => hbcs bc' (List.mem_cons_of_mem bc h)) m'
    refine ⟨m'', L' ∘ₗ L, fun a => ?_⟩
    simp [hL, hL']

variable (hop : LinearOperator op) (hbcs : ∀ bc ∈ bcs, LinearCondition bc)

include hop in
omit [LinearOrder K] in
theorem corrected_linear (theta dt : K) (m : M) :
    LinearFn (K := K) fun p : V × V => corrected op theta dt m p.1 p.2 := by
  unfold corrected
  induction List.range (op.size m) with
  | nil => exact .ok (.snd K V V)
  | cons i l ih =>
    simp only [List.foldlM_cons]
    apply LinearFn.bind
    · have hcomp := ((hop.solve m i (-theta * dt)).mapError SchemeError.operator).comp
        (LinearMap.snd K V V - (theta * dt) • (hop.direction m i).mk' _ ∘ₗ LinearMap.fst K V V)
      exact hcomp
    · exact ih.comp ((LinearMap.fst K V V ∘ₗ LinearMap.fst K (V × V) V).prod (LinearMap.snd K (V × V) V))

variable {I : M → Prop}

theorem startOf_linear (dt t : K) : Linear K I fun _ : W => (startOf dt t : Prog (M × V) (SchemeError ε) K) :=
  (Linear.closed K W I).bind ((Linear.closed K W I).require _ _) fun _ => .pure _

/-- Of the operator nothing is asked but that it is one. -/
abbrev Any : M → Prop := fun _ => True

omit [LinearOrder K] in
theorem prepare_linear (start t : K) : Linear K Any fun _ : W => prepare op bcs start t :=
  Linear.bind (.onFirst fun _ _ _ _ => trivial) fun _ => .onFirst fun _ _ _ _ => trivial

include hbcs in
omit [LinearOrder K] in
theorem finish_linear (start : K) : Linear K Any fun _ : W => (finish bcs start : Prog (M × V) (SchemeError ε) Unit) :=
  .onSecond fun _ _ => (LinearFn.ok ((isLinearMap_foldl fun bc h => (hbcs bc h).afterSolving start).mk' _)).comp (.snd K W V)

include hbcs in
omit [LinearOrder K] in
theorem constrain_linear (start : K) : Linear K Any fun _ : W => (constrain bcs start : Prog (M × V) (SchemeError ε) Unit) :=
  .modify fun m _ => by
    obtain ⟨m', L, hL⟩ := applyBeforeSolving_linear hbcs start m
    exact ⟨m', L, trivial, hL⟩

/-- `apply_after_applying`, as a linear map. -/
def constrained (hbcs : ∀ bc ∈ bcs, LinearCondition bc) (start : K) : V →ₗ[K] V :=
  (isLinearMap_foldl fun bc h => (hbcs bc h).afterApplying start).mk' (applyAfterApplying bcs start)

/-- The explicit stage, as a linear map. -/
def predictor (hop : LinearOperator op) (hbcs : ∀ bc ∈ bcs, LinearCondition bc) (start dt : K) (m : M) : V →ₗ[K] V :=
  constrained hbcs start * (1 + dt • (hop.apply m).mk' _)

include hop in
omit [LinearOrder K] in
theorem solveOne_linear (s : K) (m : M) : LinearFn (K := K) (solveOne op s m) := by
  unfold solveOne
  split
  · exact .inl ⟨_, fun _ => rfl⟩
  · exact (hop.solve m 0 s).mapError _

include hop hbcs in
theorem douglas_linear (theta dt t : K) : Linear K Any fun _ : W => DouglasScheme.step op bcs theta dt t :=
  Linear.bind (startOf_linear dt t) fun start => Linear.bind (prepare_linear start t) fun _ =>
    Linear.bind (.onSecond fun m _ => ((corrected_linear hop theta dt m).comp
      (LinearMap.id.prod (predictor hop hbcs start dt m))).comp (.snd K W V)) fun _ => finish_linear hbcs start

include hop hbcs in
theorem twoStages_linear {second : K → M → V → V} {reread : V → V → V} (hsecond : ∀ dt m, IsLinearMap K (second dt m))
    (hreread : IsLinearMap K fun p : V × V => reread p.1 p.2) (theta dt t : K) :
    Linear K Any fun _ : W => twoStages op bcs theta second reread dt t := by
  apply Linear.bind (startOf_linear dt t)
  intro start
  apply Linear.bind (prepare_linear start t)
  intro _
  -- both stages of the first sweep are given to the second
  apply Linear.reading_bind (X := V × V) (y := fun _ p => _)
  · intro m _
    have hfirst := (corrected_linear hop theta dt m).comp (LinearMap.id.prod (predictor hop hbcs start dt m))
    rcases hfirst with ⟨e, he⟩ | ⟨L, hL⟩
    · exact .inl ⟨e, fun a => congrArg (Except.map _) (he a)⟩
    · exact .inr ⟨(predictor hop hbcs start dt m).prod L, fun a => congrArg (Except.map _) (hL a)⟩
  · apply Linear.bind (.onFirst fun _ _ _ _ => trivial)
    intro _
    refine Linear.bind (.onSecond fun m _ => ?_) fun _ => finish_linear hbcs start
    let stages : (W × V × V) × V →ₗ[K] V × V := LinearMap.snd K W (V × V) ∘ₗ LinearMap.fst K _ V
    let y0 : (W × V × V) × V →ₗ[K] V := LinearMap.fst K V V ∘ₗ stages
    let y : (W × V × V) × V →ₗ[K] V := LinearMap.snd K V V ∘ₗ stages
    let a : (W × V × V) × V →ₗ[K] V := LinearMap.snd K _ V
    exact (corrected_linear hop theta dt m).comp ((hreread.mk' _ ∘ₗ a.prod y).prod
      (constrained hbcs start ∘ₗ (y0 + (hsecond dt m).mk' _ ∘ₗ (y - a))))

include hop hbcs in
theorem implicitEuler_linear (dt t : K) : Linear K Any fun _ : W => ImplicitEulerScheme.step op bcs dt t :=
  Linear.bind (startOf_linear dt t) fun start => Linear.bind (.onFirst fun _ _ _ _ => trivial) fun _ =>
    Linear.bind (constrain_linear hbcs start) fun _ =>
      Linear.bind (.onSecond fun m _ => (solveOne_linear hop (-dt) m).comp (.snd K W V)) fun _ => finish_linear hbcs start

include hop hbcs in
theorem explicitEuler_linear (dt t : K) : Linear K Any fun _ : W => ExplicitEulerScheme.step op bcs dt t :=
  Linear.bind (startOf_linear dt t) fun start => Linear.bind (prepare_linear start t) fun _ =>
    Linear.bind (.onSecond fun m _ => (LinearFn.ok (predictor hop hbcs start dt m)).comp (.snd K W V)) fun _ =>
      finish_linear hbcs start

include hop hbcs in
theorem trBDF2_linear {trapezoidal : K → K → Prog (M × V) (SchemeError ε) Unit}
    (htrapezoidal : ∀ dt t, Linear K Any fun _ : W × V => trapezoidal dt t) (alpha dt t : K) :
    Linear K Any fun _ : W => TrBDF2Scheme.step op bcs alpha trapezoidal dt t := by
  apply Linear.bind (startOf_linear dt t)
  intro start
  apply Linear.reading_bind (X := V) (y := fun _ p => _) fun m _ => LinearFn.ok .id
  apply Linear.bind (htrapezoidal _ _)
  intro _
  apply Linear.reading_bind (X := V) (y := fun _ p => _) fun m _ => LinearFn.ok .id
  -- the grid of before is put back
  apply Linear.bind (.onSecond fun m _ => (LinearFn.ok (.snd K W V)).comp
    (LinearMap.fst K (W × V) V ∘ₗ LinearMap.fst K ((W × V) × V) V))
  intro _
  apply Linear.bind (constrain_linear hbcs start)
  intro _
  refine Linear.bind (.onSecond fun m _ => ?_) fun _ => finish_linear hbcs start
  let fStar : ((W × V) × V) × V →ₗ[K] V := LinearMap.snd K (W × V) V ∘ₗ LinearMap.fst K _ V
  let a : ((W × V) × V) × V →ₗ[K] V := LinearMap.snd K _ V
  exact (solveOne_linear hop (-TrBDF2Scheme.beta alpha dt) m).comp
    ((1 / ((2 : ℕ) - alpha)) • ((1 / alpha) • fStar - ((1 - alpha) * (1 - alpha) * (1 / alpha)) • a))

omit [LinearOrder K] in
/-- The change of the second stage, for each of the schemes of two. -/
theorem LinearOperator.second (hop : LinearOperator op) (mu dt : K) (m : M) : IsLinearMap K (CraigSneydScheme.second op mu dt m) ∧
    IsLinearMap K (ModifiedCraigSneydScheme.second op mu dt m) ∧ IsLinearMap K (HundsdorferScheme.second op mu dt m) :=
  ⟨((mu * dt) • (hop.mixed m).mk' _).isLinear,
    ((mu * dt) • (hop.mixed m).mk' _ + ((1 / (2 : ℕ) - mu) * dt) • (hop.apply m).mk' _).isLinear,
    ((mu * dt) • (hop.apply m).mk' _).isLinear⟩

include hop hbcs in
theorem stepOf_linear {kind : SchemeKind K} (hkind : kind.Splits) : ∀ {W : Type} [AddCommGroup W] [Module K W] (dt t : K),
    Linear K Any fun _ : W => stepOf op bcs lines kind dt t := by
  induction kind with
  | douglas theta => exact fun dt t => douglas_linear hop hbcs theta dt t
  | hundsdorfer theta mu =>
    intro W _ _ dt t
    change Linear K Any fun _ : W => twoStages op bcs theta (HundsdorferScheme.second op mu) (fun _ y => y) dt t
    exact twoStages_linear hop hbcs (fun dt m => (hop.second mu dt m).2.2) (LinearMap.snd K V V).isLinear theta dt t
  | craigSneyd theta mu =>
    intro W _ _ dt t
    change Linear K Any fun _ : W => twoStages op bcs theta (CraigSneydScheme.second op mu) (fun a _ => a) dt t
    exact twoStages_linear hop hbcs (fun dt m => (hop.second mu dt m).1) (LinearMap.fst K V V).isLinear theta dt t
  | modifiedCraigSneyd theta mu =>
    intro W _ _ dt t
    change Linear K Any fun _ : W => twoStages op bcs theta (ModifiedCraigSneydScheme.second op mu) (fun a _ => a) dt t
    exact twoStages_linear hop hbcs (fun dt m => (hop.second mu dt m).2.1) (LinearMap.fst K V V).isLinear theta dt t
  | implicitEuler => exact fun dt t => implicitEuler_linear hop hbcs dt t
  | explicitEuler => exact fun dt t => explicitEuler_linear hop hbcs dt t
  | crankNicolson => exact fun dt t => douglas_linear hop hbcs (1 / (2 : ℕ)) dt t
  | methodOfLines _ _ => exact hkind.elim
  | trBDF2 alpha trapezoidal ih => exact fun dt t => trBDF2_linear hop hbcs (fun dt t => ih hkind dt t) alpha dt t

/-- **A step of the evolver**, of the kind it is. -/
theorem step_linear {kind : SchemeKind K} (h : ∀ dt t, Linear K Any fun _ : W => stepOf op bcs lines kind dt t) (t : K) :
    Linear K (fun self => self.kind = kind) fun _ : W => step op bcs lines t := by
  rintro self rfl
  unfold step
  cases hdt : self.dt with
  | none    => exact ⟨.error .stepNotSet, self, .snd K W V, rfl, fun w a => by simp [hdt]⟩
  | some dt =>
    obtain ⟨r, m', L, -, hL⟩ := h dt t self.map trivial
    refine ⟨r, { self with map := m' }, L, rfl, fun w a => ?_⟩
    have hwa := hL w a
    simp only [hdt, hwa]

/-- The kind of the evolver of a descriptor, which is not a matter of the operator. -/
def FdmSchemeDesc.kind (desc : FdmSchemeDesc K) : SchemeKind K :=
  match desc.schemeType with
  | .douglas            => .douglas desc.theta
  | .hundsdorfer        => .hundsdorfer desc.theta desc.mu
  | .implicitEuler      => .implicitEuler
  | .explicitEuler      => .explicitEuler
  | .crankNicolson      => .crankNicolson
  | .craigSneyd         => .craigSneyd desc.theta desc.mu
  | .modifiedCraigSneyd => .modifiedCraigSneyd desc.theta desc.mu
  | .methodOfLines      => .methodOfLines desc.theta desc.mu
  | .trBDF2             => .trBDF2 desc.theta (.craigSneyd (1 / (2 : ℕ)) (1 / (2 : ℕ)))

variable (op bcs lines) in
theorem evolver_kind (desc : FdmSchemeDesc K) (map : M) : (desc.evolver (schemes op bcs lines) map).kind = desc.kind := by
  unfold FdmSchemeDesc.evolver FdmSchemeDesc.kind
  cases desc.schemeType <;> rfl

omit [LinearOrder K] in
theorem kind_splits {desc : FdmSchemeDesc K} (h : desc.schemeType ≠ .methodOfLines) : desc.kind.Splits := by
  unfold FdmSchemeDesc.kind
  cases htype : desc.schemeType <;> trivial

variable [IsStrictOrderedRing K] {solver : FdmBackwardSolver K V}

theorem rollModel_linear {desc : FdmSchemeDesc K} (hcond : ∀ c ∈ solver.condition.conditions, ∀ t, IsLinearMap K (c t))
    (h : ∀ dt t, Linear K Any fun _ : W => stepOf op bcs lines desc.kind dt t) (start stop : K) (steps : ℕ) :
    Linear K Any fun _ : W => FdmBackwardSolver.rollModel (schemes op bcs lines) solver desc start stop steps := by
  have hmodel : Linear K (fun self => self.kind = desc.kind) fun _ : W =>
      FiniteDifferenceModel.rollback (schemes op bcs lines).scheme (some solver.condition.applyTo)
        (FiniteDifferenceModel.new solver.condition.stoppingTimes) start stop steps := by
    apply FiniteDifferenceModel.rollback_mem (Linear.closed K W _)
    · exact fun dt _ => .modify fun self hself => ⟨{ self with dt := some dt }, .id, hself, fun _ => rfl⟩
    · exact fun now => .mapError _ (step_linear h now)
    · exact fun t => .modify fun self hself => ⟨self, (isLinearMap_foldl fun c hc => hcond c hc t).mk' _, hself, fun _ => rfl⟩
  intro map _
  obtain ⟨r, self, L, -, hL⟩ := hmodel _ (evolver_kind op bcs lines desc map)
  refine ⟨r, self.map, L, trivial, fun w a => ?_⟩
  exact congrArg (fun s => (s.1, Evolver.map s.2.1, s.2.2)) (hL w a)

include hop hbcs in
/-- **A rollback is linear in the grid that is rolled back.**  Whether it succeeds, and the operator that it leaves, are the
same for every grid. -/
theorem rollback_linear (hcond : ∀ c ∈ solver.condition.conditions, ∀ t, IsLinearMap K (c t))
    (hscheme : solver.schemeDesc.schemeType ≠ .methodOfLines) (start stop : K) (steps dampingSteps : ℕ) (map : M) :
    ∃ (r : Except (ModelError K (SchemeError ε)) Unit) (map' : M) (L : V →ₗ[K] V),
      ∀ a, solver.rollback (schemes op bcs lines) start stop steps dampingSteps (map, a) = (r, map', L a) := by
  have hlinear : Linear K Any fun _ : V => solver.rollback (schemes op bcs lines) start stop steps dampingSteps := by
    apply FdmBackwardSolver.rollback_mem (Linear.closed K V Any)
    intro desc start stop steps hdesc
    have hsplits : desc.kind.Splits := by
      apply kind_splits
      rcases hdesc with hdesc | rfl
      · simp [hdesc]
      · exact hscheme
    exact rollModel_linear hcond (fun dt t => stepOf_linear hop hbcs hsplits dt t) start stop steps
  obtain ⟨r, map', L, -, hL⟩ := hlinear map trivial
  exact ⟨r, map', L ∘ₗ LinearMap.inr K V V, fun a => hL 0 a⟩

end Superposition

theorem exchange_linear : LinearOperator exchange where
  apply _       := exchange_isLinear
  mixed _       := ⟨fun _ _ => (add_zero _).symm, fun c _ => (smul_zero c).symm⟩
  direction _ _ := exchange_isLinear
  solve _ _ s   := by
    unfold exchange
    dsimp only
    split
    · exact .inl ⟨_, fun _ => rfl⟩
    · exact .ok (IsLinearMap.mk' (fun (r : Fin 2 → ℚ) i => (r i - s * (r 0 + r 1)) / (1 - 2 * s))
        ⟨fun x y => by funext i; simp; ring, fun c x => by funext i; simp; ring⟩)

theorem rollback_linear_exchange : ∃ (r : Except (ModelError ℚ (SchemeError Unit)) Unit) (map' : Unit)
    (L : (Fin 2 → ℚ) →ₗ[ℚ] (Fin 2 → ℚ)),
      ∀ a, (halfway .craigSneyd).rollback (schemes exchange [] fun _ _ _ _ => pure ()) 1 0 4 1 ((), a) = (r, map', L a) :=
  rollback_linear exchange_linear (by simp) (by simp [halfway]) (by simp [halfway]) 1 0 4 1 ()

/-! ## What is kept -/

section Kept

variable [IsStrictOrderedRing K] {op : FdmLinearOpComposite K M V ε} {bcs : List (BoundaryCondition K M V)}
variable {lines : K → K → K → K → Prog (M × V) (SchemeError ε) Unit} {solver : FdmBackwardSolver K V} {P : V → Prop}

/-- **What every step and condition keep of the grid, a rollback keeps**, whatever it ends with. -/
theorem rollback_keeps (hcond : ∀ c ∈ solver.condition.conditions, ∀ t a, P a → P (c t a))
    (hstep : ∀ kind dt t, kind = .implicitEuler ∨ kind = solver.schemeDesc.kind → 0 ≤ dt →
      Keeps (Second P) (stepOf op bcs lines kind dt t)) (start stop : K) (steps dampingSteps : ℕ) :
    Keeps (Second P) (solver.rollback (schemes op bcs lines) start stop steps dampingSteps) := by
  have happly : ∀ (t : K) (a : V), P a → P (solver.condition.applyTo t a) := by
    intro t a
    unfold FdmStepConditionComposite.applyTo
    generalize solver.condition.conditions = conditions at hcond
    induction conditions generalizing a with
    | nil => exact id
    | cons c conditions ih =>
      exact fun ha => ih _ (fun c' h => hcond c' (List.mem_cons_of_mem c h)) (hcond c List.mem_cons_self t a ha)
  refine FdmBackwardSolver.rollback_mem (Closed.keeps (Second P)) _ _ (fun desc start stop steps hdesc => ?_)
    start stop steps dampingSteps
  have hkind : desc.kind = .implicitEuler ∨ desc.kind = solver.schemeDesc.kind := by
    rcases hdesc with hdesc | rfl
    · exact .inl (by simp [FdmSchemeDesc.kind, hdesc])
    · exact .inr rfl
  -- the evolver stays of its kind
  have hmodel : Keeps (fun s : Evolver K M × V => s.1.kind = desc.kind ∧ (∀ dt ∈ s.1.dt, 0 ≤ dt) ∧ P s.2)
      (FiniteDifferenceModel.rollback (schemes op bcs lines).scheme (some solver.condition.applyTo)
        (FiniteDifferenceModel.new solver.condition.stoppingTimes) start stop steps) := by
    refine FiniteDifferenceModel.rollback_mem
      (Closed.keeps fun s : Evolver K M × V => s.1.kind = desc.kind ∧ (∀ dt ∈ s.1.dt, 0 ≤ dt) ∧ P s.2) ?_ ?_ ?_ _ _ _ _
    · exact fun dt hdt => .modify fun s hs => ⟨hs.1, fun _ h => Option.some.inj h ▸ hdt, hs.2.2⟩
    · rintro now ⟨self, a⟩ ⟨hself, hdt, ha⟩
      change (step op bcs lines now (self, a)).2.1.kind = _ ∧ (∀ dt ∈ (step op bcs lines now (self, a)).2.1.dt, 0 ≤ dt) ∧
        P (step op bcs lines now (self, a)).2.2
      unfold step
      cases h : self.dt with
      | none    => simpa [h] using ⟨hself, ha⟩
      | some dt =>
        simp only [h]
        exact ⟨hself, h ▸ hdt, hstep _ dt now (hself ▸ hkind) (hdt dt h) (self.map, a) ha⟩
    · exact fun t => .modify fun s hs => ⟨hs.1, hs.2.1, happly t s.2 hs.2.2⟩
  rintro ⟨map, a⟩ ha
  exact (hmodel (desc.evolver (schemes op bcs lines) map, a)
    ⟨evolver_kind op bcs lines desc map, by unfold FdmSchemeDesc.evolver; split <;> simp [schemes], ha⟩).2.2

/-! ### Steady grids -/

/-- The operator does nothing to a grid, nor does any direction of it. -/
structure Steady (op : FdmLinearOpComposite K M V ε) (v : V) : Prop where
  apply      : ∀ m, op.apply m v = 0
  direction  : ∀ m i, op.applyDirection m i v = 0
  solve      : ∀ m i s y, op.solveSplitting m i v s = .ok y → y = v
  apply_zero : ∀ m, op.apply m 0 = 0
  mixed_zero : ∀ m, op.applyMixed m 0 = 0

/-- No condition at a boundary changes the grid. -/
structure Untouched (bcs : List (BoundaryCondition K M V)) (v : V) : Prop where
  afterApplying : ∀ t, applyAfterApplying bcs t v = v
  beforeSolving : ∀ t m, (applyBeforeSolving bcs t (m, v)).2 = v
  afterSolving  : ∀ t, applyAfterSolving bcs t v = v

/-- The divisions of TR-BDF2 are none by zero. -/
def SchemeKind.Divides : SchemeKind K → Prop
  | .trBDF2 alpha trapezoidal => alpha ≠ 0 ∧ alpha ≠ (2 : ℕ) ∧ trapezoidal.Divides
  | .methodOfLines _ _        => False
  | _                         => True

variable {v : V} (hv : Steady op v) (hbcs : Untouched bcs v)

omit [IsStrictOrderedRing K] [AddCommGroup V] [Module K V] in
theorem keeps_startOf {f : K → Prog (M × V) (SchemeError ε) Unit} (dt t : K)
    (h : ∀ start, Keeps (Second P) (f start)) : Keeps (Second P) (startOf dt t >>= f) :=
  Keeps.bind ((Closed.keeps _).bind ((Closed.keeps _).require _ _) fun _ => Keeps.pure _) h

omit [Field K] [LinearOrder K] [IsStrictOrderedRing K] [AddCommGroup V] [Module K V] in
theorem keeps_prepare (start t : K) : Keeps (Second P) (prepare op bcs start t) :=
  Keeps.bind (keeps_onFirst _) fun _ => keeps_onFirst _

include hv in
omit [LinearOrder K] [IsStrictOrderedRing K] in
theorem corrected_steady {theta dt : K} {m : M} {y : V} (h : corrected op theta dt m v v = .ok y) : y = v := by
  unfold corrected at h
  generalize List.range (op.size m) = l at h
  induction l with
  | nil => exact (Except.ok.inj h).symm
  | cons i l ih =>
    rw [List.foldlM_cons, hv.direction, smul_zero, sub_zero] at h
    obtain ⟨y', hy', hrest⟩ := bind_eq_ok.1 h
    rw [hv.solve _ _ _ _ (mapError_eq_ok.1 hy')] at hrest
    exact ih hrest

include hv hbcs in
omit [LinearOrder K] [IsStrictOrderedRing K] in
theorem predicted_steady (start dt : K) (m : M) : predicted op bcs start dt m v = v := by
  rw [predicted, hv.apply, smul_zero, add_zero, hbcs.afterApplying]

include hbcs in
omit [Field K] [LinearOrder K] [IsStrictOrderedRing K] [AddCommGroup V] [Module K V] in
theorem finish_steady (start : K) : Keeps (Second (· = v)) (finish (ε := ε) bcs start) :=
  keeps_onSecond fun m a y ha hy => by rw [← Except.ok.inj hy, ha, hbcs.afterSolving]

include hv hbcs in
omit [IsStrictOrderedRing K] in
theorem twoStages_steady {second : K → M → V → V} {reread : V → V → V} (hsecond : ∀ dt m, second dt m 0 = 0)
    (hreread : reread v v = v) (theta dt t : K) :
    Keeps (Second (· = v)) (twoStages op bcs theta second reread dt t) := by
  apply keeps_startOf
  intro start
  apply Keeps.bind (keeps_prepare start t)
  intro _
  apply keeps_reading_bind
  rintro m a w rfl hw
  obtain ⟨y, hy, rfl⟩ := map_eq_ok.1 hw
  rw [predicted_steady hv hbcs] at hy ⊢
  rw [corrected_steady hv hy]
  apply Keeps.bind (keeps_onFirst _)
  intro _
  refine Keeps.bind (keeps_onSecond fun m a y ha hy => ?_) fun _ => finish_steady hbcs start
  rw [ha, sub_self, hsecond, add_zero, hbcs.afterApplying, hreread] at hy
  exact corrected_steady hv hy

include hv in
omit [Field K] [LinearOrder K] [IsStrictOrderedRing K] [Module K V] in
theorem solveOne_steady {s : K} {m : M} {y : V} (h : solveOne op s m v = .ok y) : y = v := by
  unfold solveOne at h
  split at h
  · cases h
  · exact hv.solve _ _ _ _ (mapError_eq_ok.1 h)

omit [LinearOrder K] [IsStrictOrderedRing K] in
theorem rhs_steady {alpha : K} (h0 : alpha ≠ 0) (h2 : alpha ≠ (2 : ℕ)) (v : V) : TrBDF2Scheme.rhs alpha v v = v := by
  have hne : (2 : ℕ) - alpha ≠ 0 := sub_ne_zero.2 (Ne.symm h2)
  have hone : 1 / ((2 : ℕ) - alpha) * (1 / alpha - (1 - alpha) * (1 - alpha) * (1 / alpha)) = 1 := by
    field_simp
    ring
  rw [TrBDF2Scheme.rhs, ← sub_smul, smul_smul, hone, one_smul]

include hv hbcs in
omit [IsStrictOrderedRing K] in
theorem stepOf_steady {kind : SchemeKind K} (hkind : kind.Divides) (dt t : K) :
    Keeps (Second (· = v)) (stepOf op bcs lines kind dt t) := by
  have hdouglas : ∀ theta dt t, Keeps (Second (· = v)) (DouglasScheme.step op bcs theta dt t) := by
    intro theta dt t
    refine keeps_startOf dt t fun start => Keeps.bind (keeps_prepare start t) fun _ =>
      Keeps.bind (keeps_onSecond fun m a y ha hy => ?_) fun _ => finish_steady hbcs start
    rw [ha, predicted_steady hv hbcs] at hy
    exact corrected_steady hv hy
  have hconstrain : ∀ start, Keeps (Second (· = v)) (constrain (ε := ε) bcs start) := by
    rintro start ⟨m, a⟩ rfl
    exact hbcs.beforeSolving start m
  induction kind generalizing dt t with
  | douglas theta => exact hdouglas theta dt t
  | crankNicolson => exact hdouglas (1 / (2 : ℕ)) dt t
  | hundsdorfer theta mu =>
    change Keeps (Second (· = v)) (twoStages op bcs theta (HundsdorferScheme.second op mu) (fun _ y => y) dt t)
    exact twoStages_steady hv hbcs (fun dt m => by rw [HundsdorferScheme.second, hv.apply_zero, smul_zero]) rfl theta dt t
  | craigSneyd theta mu =>
    change Keeps (Second (· = v)) (twoStages op bcs theta (CraigSneydScheme.second op mu) (fun a _ => a) dt t)
    exact twoStages_steady hv hbcs (fun dt m => by rw [CraigSneydScheme.second, hv.mixed_zero, smul_zero]) rfl theta dt t
  | modifiedCraigSneyd theta mu =>
    change Keeps (Second (· = v)) (twoStages op bcs theta (ModifiedCraigSneydScheme.second op mu) (fun a _ => a) dt t)
    exact twoStages_steady hv hbcs (fun dt m => by
      rw [ModifiedCraigSneydScheme.second, hv.mixed_zero, hv.apply_zero, smul_zero, smul_zero, add_zero]) rfl theta dt t
  | implicitEuler =>
    refine keeps_startOf dt t fun start => Keeps.bind (keeps_onFirst _) fun _ => Keeps.bind (hconstrain start) fun _ =>
      Keeps.bind (keeps_onSecond fun m a y ha hy => ?_) fun _ => finish_steady hbcs start
    rw [ha] at hy
    exact solveOne_steady hv hy
  | explicitEuler =>
    refine keeps_startOf dt t fun start => Keeps.bind (keeps_prepare start t) fun _ =>
      Keeps.bind (keeps_onSecond fun m a y ha hy => ?_) fun _ => finish_steady hbcs start
    rw [← Except.ok.inj hy, ha, predicted_steady hv hbcs]
  | methodOfLines eps relInitStepSize => exact hkind.elim
  | trBDF2 alpha trapezoidal ih =>
    apply keeps_startOf
    intro start
    apply keeps_reading_bind
    rintro m a _ ha ⟨⟩
    apply Keeps.bind (ih hkind.2.2 _ _)
    intro _
    apply keeps_reading_bind
    rintro m' fStar _ hfStar ⟨⟩
    apply Keeps.bind (keeps_onSecond fun _ _ y _ hy => by rw [← Except.ok.inj hy, ha])
    intro _
    apply Keeps.bind (hconstrain start)
    intro _
    refine Keeps.bind (keeps_onSecond fun m a' y ha' hy => ?_) fun _ => finish_steady hbcs start
    rw [ha', hfStar, rhs_steady hkind.1 hkind.2.1] at hy
    exact solveOne_steady hv hy

include hv hbcs in
/-- **A grid that the operator does nothing to is kept by a rollback**, by every scheme but the method of lines. -/
theorem rollback_steady (hcond : ∀ c ∈ solver.condition.conditions, ∀ t, c t v = v) (hkind : solver.schemeDesc.kind.Divides)
    (start stop : K) (steps dampingSteps : ℕ) (map : M) :
    (solver.rollback (schemes op bcs lines) start stop steps dampingSteps (map, v)).2.2 = v := by
  refine rollback_keeps (P := (· = v)) (fun c hc t a ha => ha ▸ hcond c hc t) (fun kind dt t hk _ => ?_) start stop steps
    dampingSteps (map, v) rfl
  rcases hk with rfl | rfl
  · exact stepOf_steady hv hbcs (show SchemeKind.implicitEuler.Divides from trivial) dt t
  · exact stepOf_steady hv hbcs hkind dt t

end Kept

theorem exchange_steady : Steady exchange (fun _ => 1) where
  apply _       := by funext i; simp [exchange]
  direction _ _ := by funext i; simp [exchange]
  apply_zero _  := by funext i; simp [exchange]
  mixed_zero _  := rfl
  solve _ _ s y h := by
    unfold exchange at h
    dsimp only at h
    split at h
    · cases h
    · rename_i hs
      cases h
      funext i
      exact (div_eq_iff hs).2 (by ring)

theorem rollback_steady_exchange :
    ((halfway .trBDF2).rollback (schemes exchange [] fun _ _ _ _ => pure ()) 1 0 4 1 ((), fun _ => 1)).2.2 = fun _ => 1 := by
  apply rollback_steady exchange_steady
  · exact ⟨fun _ => rfl, fun _ _ => rfl, fun _ => rfl⟩
  · simp [halfway]
  · change (1 / 2 : ℚ) ≠ 0 ∧ (1 / 2 : ℚ) ≠ (2 : ℕ) ∧ True
    norm_num

/-! ### Bounds -/

section Bounded

variable [IsStrictOrderedRing K] {ι : Type} [Fintype ι] {op : FdmLinearOpComposite K M (ι → K) ε}
variable {bcs : List (BoundaryCondition K M (ι → K))} {lines : K → K → K → K → Prog (M × (ι → K)) (SchemeError ε) Unit}
variable {solver : FdmBackwardSolver K (ι → K)} {rate : M → ι → ι → K} {decay : M → ι → K} {low high : K}

/-- The one direction moves each value to the others at rates, and decays it; none of these is negative. -/
structure Rates (op : FdmLinearOpComposite K M (ι → K) ε) (rate : M → ι → ι → K) (decay : M → ι → K) : Prop where
  rate_nonneg  : ∀ m i j, 0 ≤ rate m i j
  decay_nonneg : ∀ m i, 0 ≤ decay m i
  solve        : ∀ m r s x, op.solveSplitting m 0 r s = .ok x →
    ∀ i, x i + s * (∑ j, rate m i j * (x j - x i) - decay m i * x i) = r i

def Within (low high : K) (a : ι → K) : Prop := ∀ i, low ≤ a i ∧ a i ≤ high

/-- **The maximum principle** of an implicit step. -/
theorem le_of_implicit {w : ι → ι → K} {d x r : ι → K} {dt : K} (hw : ∀ i j, 0 ≤ w i j) (hd : ∀ i, 0 ≤ d i) (hdt : 0 ≤ dt)
    (heq : ∀ i, x i + -dt * (∑ j, w i j * (x j - x i) - d i * x i) = r i) (hhigh : ∀ i, 0 ≤ d i * high)
    (hr : ∀ i, r i ≤ high) (i : ι) : x i ≤ high := by
  -- where the solution is greatest, nothing moves it up
  obtain ⟨k, -, hk⟩ := Finset.exists_max_image Finset.univ x ⟨i, Finset.mem_univ i⟩
  refine (hk i (Finset.mem_univ i)).trans ?_
  by_contra hlt
  have hsum : ∑ j, w k j * (x j - x k) ≤ 0 := Finset.sum_nonpos fun j _ =>
    mul_nonpos_of_nonneg_of_nonpos (hw k j) (sub_nonpos.2 (hk j (Finset.mem_univ j)))
  have hdecay : 0 ≤ d k * x k := (hhigh k).trans (mul_le_mul_of_nonneg_left (not_le.1 hlt).le (hd k))
  have hmove : 0 ≤ -dt * (∑ j, w k j * (x j - x k) - d k * x k) :=
    mul_nonneg_of_nonpos_of_nonpos (neg_nonpos.2 hdt) (by linarith)
  linarith [hr k, heq k]

theorem Rates.within (h : Rates op rate decay) (hlow : ∀ m i, decay m i * low ≤ 0) (hhigh : ∀ m i, 0 ≤ decay m i * high)
    {m : M} {dt : K} (hdt : 0 ≤ dt) {r x : ι → K} (hx : op.solveSplitting m 0 r (-dt) = .ok x) (hr : Within low high r) :
    Within low high x := by
  have heq := h.solve m r (-dt) x hx
  have hneg : ∀ i, -x i + -dt * (∑ j, rate m i j * (-x j - -x i) - decay m i * -x i) = -r i := by
    intro i
    have hsum : ∑ j, rate m i j * (-x j - -x i) = -∑ j, rate m i j * (x j - x i) := by
      rw [← Finset.sum_neg_distrib]
      exact Finset.sum_congr rfl fun j _ => by ring
    rw [hsum, ← heq i]
    ring
  refine fun i => ⟨?_, ?_⟩
  · exact neg_le_neg_iff.1 (le_of_implicit (h.rate_nonneg m) (h.decay_nonneg m) hdt hneg
      (fun i => by linarith [hlow m i]) (fun i => neg_le_neg (hr i).1) i)
  · exact le_of_implicit (h.rate_nonneg m) (h.decay_nonneg m) hdt heq (hhigh m) (fun i => (hr i).2) i

/-- **Implicit Euler keeps the bounds of the grid**, whatever the steps, where the operator moves values at rates: the
rollback of a payoff within bounds stays within them. -/
theorem rollback_bounded (h : Rates op rate decay) (hlow : ∀ m i, decay m i * low ≤ 0) (hhigh : ∀ m i, 0 ≤ decay m i * high)
    (hbefore : ∀ t m a, Within low high a → Within low high (applyBeforeSolving bcs t (m, a)).2)
    (hafter : ∀ t a, Within low high a → Within low high (applyAfterSolving bcs t a))
    (hcond : ∀ c ∈ solver.condition.conditions, ∀ t a, Within low high a → Within low high (c t a))
    (hscheme : solver.schemeDesc.schemeType = .implicitEuler) (start stop : K) (steps dampingSteps : ℕ) (map : M) {a : ι → K}
    (ha : Within low high a) :
    Within low high (solver.rollback (schemes op bcs lines) start stop steps dampingSteps (map, a)).2.2 := by
  refine rollback_keeps (P := Within low high) hcond (fun kind dt t hk hdt => ?_) start stop steps dampingSteps (map, a) ha
  have hkind : kind = .implicitEuler := by simpa [FdmSchemeDesc.kind, hscheme] using hk
  rw [hkind]
  refine keeps_startOf dt t fun start => Keeps.bind (keeps_onFirst _) fun _ => Keeps.bind (fun s hs => hbefore start s.1 s.2 hs)
    fun _ => Keeps.bind (keeps_onSecond fun m a y ha hy => ?_) fun _ =>
      keeps_onSecond fun m a y ha hy => Except.ok.inj hy ▸ hafter start a ha
  unfold solveOne at hy
  split at hy
  · cases hy
  · exact h.within hlow hhigh hdt (mapError_eq_ok.1 hy) ha

end Bounded

theorem exchange_rates : Rates exchange (fun _ i j => if j = i.rev then 1 else 0) (fun _ _ => 0) where
  rate_nonneg _ i j := by split <;> norm_num
  decay_nonneg _ _  := le_rfl
  solve _ r s x h i := by simpa using exchange_solve h i

theorem rollback_bounded_exchange : Within 0 1
    ((halfway .implicitEuler).rollback (schemes exchange [] fun _ _ _ _ => pure ()) 1 0 4 1 ((), ![1, 0])).2.2 := by
  apply rollback_bounded exchange_rates
  · exact fun _ _ => (zero_mul _).le
  · exact fun _ _ => (zero_mul _).ge
  · exact fun _ _ _ h => h
  · exact fun _ _ h => h
  · simp [halfway]
  · rfl
  · exact fun i => by fin_cases i <;> simp

/-! ## What a step solves -/

section Equations

variable {op : FdmLinearOpComposite K M V ε}

/-- The operator is linear in each direction, and its solutions solve. -/
structure Solves (op : FdmLinearOpComposite K M V ε) : Prop where
  direction : ∀ m i, IsLinearMap K (op.applyDirection m i)
  solve     : ∀ m i r s x, op.solveSplitting m i r s = .ok x → x + s • op.applyDirection m i x = r

/-- `(1 - scale A_0) .. (1 - scale A_(n-1))` -/
def factors (op : FdmLinearOpComposite K M V ε) (scale : K) (map : M) (x : V) : V :=
  (List.range (op.size map)).foldr (fun i x => x - scale • op.applyDirection map i x) x

variable (hop : Solves op) {start dt t theta mu : K} {map map' : M} {a a' : V}

include hop in
omit [LinearOrder K] in
/-- **The factors undo the corrections.** -/
theorem corrected_spec {read y0 y : V} (h : corrected op theta dt map read y0 = .ok y) :
    factors op (theta * dt) map (y - read) = y0 - read := by
  unfold corrected at h
  unfold factors
  generalize List.range (op.size map) = l at h
  induction l generalizing y0 with
  | nil => rw [← Except.ok.inj h, List.foldr_nil]
  | cons i l ih =>
    rw [List.foldlM_cons] at h
    obtain ⟨y1, hy1, hrest⟩ := bind_eq_ok.1 h
    have hsolve := hop.solve _ _ _ _ _ (mapError_eq_ok.1 hy1)
    rw [List.foldr_cons, ih hrest, (hop.direction map i).map_sub, smul_sub]
    rw [neg_mul, neg_smul, ← sub_eq_add_neg, eq_sub_iff_add_eq] at hsolve
    rw [← hsolve]
    abel

/-- The equation of a step, which makes `a'` of `a`. -/
def Equation (op : FdmLinearOpComposite K M V ε) : SchemeKind K → K → M → V → V → Prop
  | .douglas theta, dt, map, a, a' => factors op (theta * dt) map (a' - a) = dt • op.apply map a
  | .craigSneyd theta mu, dt, map, a, a' => ∃ y, factors op (theta * dt) map (y - a) = dt • op.apply map a ∧
      factors op (theta * dt) map (a' - a) = dt • op.apply map a + (mu * dt) • op.applyMixed map (y - a)
  | .modifiedCraigSneyd theta mu, dt, map, a, a' => ∃ y, factors op (theta * dt) map (y - a) = dt • op.apply map a ∧
      factors op (theta * dt) map (a' - a) = dt • op.apply map a +
        ((mu * dt) • op.applyMixed map (y - a) + ((1 / (2 : ℕ) - mu) * dt) • op.apply map (y - a))
  | .hundsdorfer theta mu, dt, map, a, a' => ∃ y, factors op (theta * dt) map (y - a) = dt • op.apply map a ∧
      factors op (theta * dt) map (a' - y) = a - y + (dt • op.apply map a + (mu * dt) • op.apply map (y - a))
  | .implicitEuler, dt, map, a, a' => op.size map = 1 ∧ a' - dt • op.applyDirection map 0 a' = a
  | .explicitEuler, dt, map, a, a' => a' = a + dt • op.apply map a
  | .crankNicolson, dt, map, a, a' => factors op (1 / (2 : ℕ) * dt) map (a' - a) = dt • op.apply map a
  | .methodOfLines _ _, _, _, _, _ => True
  | .trBDF2 alpha trapezoidal, dt, map, a, a' => op.size map = 1 ∧ ∃ fStar,
      Equation op trapezoidal (dt * alpha) map a fStar ∧
        a' - TrBDF2Scheme.beta alpha dt • op.applyDirection map 0 a' = TrBDF2Scheme.rhs alpha fStar a

omit [AddCommGroup V] [Module K V] in
theorem startOf_bind_eq_ok {f : K → Prog (M × V) (SchemeError ε) Unit} {s s' : M × V}
    (h : (startOf dt t >>= f) s = (.ok (), s')) : ∃ start, f start s = (.ok (), s') := by
  unfold startOf at h
  by_cases hstart : -(1 / (10 : ℕ) ^ 8) < t - dt
  · rw [Prog.require, if_pos hstart] at h
    exact ⟨_, h⟩
  · rw [Prog.require_neg hstart] at h
    cases h

omit [Field K] [LinearOrder K] [AddCommGroup V] [Module K V] in
theorem prepare_bind_eq_ok {f : Unit → Prog (M × V) (SchemeError ε) Unit} {s : M × V}
    (h : (prepare op [] start t >>= f) (map, a) = (.ok (), s)) : ∃ m, f () (m, a) = (.ok (), s) := by
  unfold prepare at h
  rw [Prog.bind_assoc] at h
  obtain ⟨m, -, h⟩ := onFirst_bind_eq_ok h
  obtain ⟨m', -, h⟩ := onFirst_bind_eq_ok h
  exact ⟨m', h⟩

omit [LinearOrder K] in
theorem predicted_eq (start dt : K) (m : M) (a : V) : predicted op [] start dt m a = a + dt • op.apply m a := rfl

include hop in
theorem douglas_equation (h : DouglasScheme.step op [] theta dt t (map, a) = (.ok (), map', a')) :
    Equation op (.douglas theta) dt map' a a' := by
  obtain ⟨start, h⟩ := startOf_bind_eq_ok h
  obtain ⟨m, h⟩ := prepare_bind_eq_ok h
  obtain ⟨y, hy, ⟨⟩⟩ := onSecond_bind_eq_ok h
  have hspec := corrected_spec hop hy
  rwa [predicted_eq, add_sub_cancel_left] at hspec

include hop in
theorem twoStages_equation {second : K → M → V → V} {reread : V → V → V}
    (h : twoStages op [] theta second reread dt t (map, a) = (.ok (), map', a')) :
    ∃ y, factors op (theta * dt) map' (y - a) = dt • op.apply map' a ∧ factors op (theta * dt) map' (a' - reread a y) =
      a + dt • op.apply map' a + second dt map' (y - a) - reread a y := by
  obtain ⟨start, h⟩ := startOf_bind_eq_ok h
  obtain ⟨m, h⟩ := prepare_bind_eq_ok h
  obtain ⟨w, hw, h⟩ := reading_bind_eq_ok h
  obtain ⟨y, hy, rfl⟩ := map_eq_ok.1 hw
  obtain ⟨_, ⟨⟩, h⟩ := onFirst_bind_eq_ok h
  obtain ⟨y', hy', ⟨⟩⟩ := onSecond_bind_eq_ok h
  refine ⟨y, ?_, corrected_spec hop hy'⟩
  have hspec := corrected_spec hop hy
  rwa [predicted_eq, add_sub_cancel_left] at hspec

include hop in
omit [LinearOrder K] in
theorem solveOne_spec {s : K} {rhs x : V} (h : solveOne op (-s) map rhs = .ok x) :
    op.size map = 1 ∧ x - s • op.applyDirection map 0 x = rhs := by
  unfold solveOne at h
  split at h
  · cases h
  · rename_i hsize
    have hsolve := hop.solve _ _ _ _ _ (mapError_eq_ok.1 h)
    rw [neg_smul, ← sub_eq_add_neg] at hsolve
    exact ⟨not_not.1 hsize, hsolve⟩

include hop in
theorem implicitEuler_equation (h : ImplicitEulerScheme.step op [] dt t (map, a) = (.ok (), map', a')) :
    Equation op .implicitEuler dt map' a a' := by
  obtain ⟨start, h⟩ := startOf_bind_eq_ok h
  obtain ⟨m, -, h⟩ := onFirst_bind_eq_ok h
  obtain ⟨x, hx, ⟨⟩⟩ := onSecond_bind_eq_ok (show (onSecond _ >>= _) (m, a) = _ from h)
  exact solveOne_spec hop hx

theorem explicitEuler_equation (h : ExplicitEulerScheme.step op [] dt t (map, a) = (.ok (), map', a')) :
    Equation op .explicitEuler dt map' a a' := by
  obtain ⟨start, h⟩ := startOf_bind_eq_ok h
  obtain ⟨m, h⟩ := prepare_bind_eq_ok h
  obtain ⟨x, ⟨⟩, ⟨⟩⟩ := onSecond_bind_eq_ok h
  exact predicted_eq start dt m a

include hop in
theorem trBDF2_equation {alpha : K} {trapezoidal : K → K → Prog (M × V) (SchemeError ε) Unit}
    (h : TrBDF2Scheme.step op [] alpha trapezoidal dt t (map, a) = (.ok (), map', a')) : op.size map' = 1 ∧
      ∃ fStar, trapezoidal (dt * alpha) t (map, a) = (.ok (), map', fStar) ∧
        a' - TrBDF2Scheme.beta alpha dt • op.applyDirection map' 0 a' = TrBDF2Scheme.rhs alpha fStar a := by
  obtain ⟨start, h⟩ := startOf_bind_eq_ok h
  obtain ⟨_, ⟨⟩, h⟩ := reading_bind_eq_ok h
  obtain ⟨_, ⟨m, fStar⟩, htrapezoidal, h⟩ := Prog.run_bind_eq_ok.1 h
  obtain ⟨_, ⟨⟩, h⟩ := reading_bind_eq_ok h
  obtain ⟨_, ⟨⟩, h⟩ := onSecond_bind_eq_ok h
  obtain ⟨x, hx, ⟨⟩⟩ := onSecond_bind_eq_ok (show (onSecond _ >>= _) (m, a) = _ from h)
  obtain ⟨hsize, hx'⟩ := solveOne_spec hop hx
  exact ⟨hsize, fStar, htrapezoidal, hx'⟩

include hop in
/-- **A step solves the equation of its scheme**, with the operator that it leaves, where nothing is asked at the boundary. -/
theorem stepOf_equation {lines : K → K → K → K → Prog (M × V) (SchemeError ε) Unit} {kind : SchemeKind K}
    (h : stepOf op [] lines kind dt t (map, a) = (.ok (), map', a')) : Equation op kind dt map' a a' := by
  induction kind generalizing dt a' with
  | douglas theta => exact douglas_equation hop h
  | crankNicolson => exact douglas_equation hop h
  | hundsdorfer theta mu =>
    change twoStages op [] theta (HundsdorferScheme.second op mu) (fun _ y => y) dt t (map, a) = _ at h
    obtain ⟨y, hy, hy'⟩ := twoStages_equation hop h
    refine ⟨y, hy, hy'.trans ?_⟩
    rw [HundsdorferScheme.second]
    abel
  | craigSneyd theta mu =>
    change twoStages op [] theta (CraigSneydScheme.second op mu) (fun a _ => a) dt t (map, a) = _ at h
    obtain ⟨y, hy, hy'⟩ := twoStages_equation hop h
    refine ⟨y, hy, hy'.trans ?_⟩
    rw [CraigSneydScheme.second]
    abel
  | modifiedCraigSneyd theta mu =>
    change twoStages op [] theta (ModifiedCraigSneydScheme.second op mu) (fun a _ => a) dt t (map, a) = _ at h
    obtain ⟨y, hy, hy'⟩ := twoStages_equation hop h
    refine ⟨y, hy, hy'.trans ?_⟩
    rw [ModifiedCraigSneydScheme.second]
    abel
  | implicitEuler => exact implicitEuler_equation hop h
  | explicitEuler => exact explicitEuler_equation h
  | methodOfLines eps relInitStepSize => trivial
  | trBDF2 alpha trapezoidal ih =>
    obtain ⟨hsize, fStar, htrapezoidal, hx⟩ := trBDF2_equation hop h
    exact ⟨hsize, fStar, ih htrapezoidal, hx⟩

end Equations

theorem exchange_solves : Solves exchange where
  direction _ _       := exchange_isLinear
  solve _ _ r s x h   := by
    funext k
    exact exchange_solve h k

theorem stepOf_equation_exchange : ∃ a', Equation exchange (.douglas (1 / 2)) (1 / 2) () ![1, 0] a' := by
  have hok : (stepOf exchange [] (fun _ _ _ _ => pure ()) (.douglas (1 / 2)) (1 / 2) 1 ((), ![1, 0])).1 = .ok () := by
    decide +kernel
  exact ⟨_, stepOf_equation exchange_solves (Prod.ext hok rfl)⟩

end Itofin.Fdm
