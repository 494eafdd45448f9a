import Itofin.Math.Solvers1d.Bisection
import Itofin.Math.Solvers1d.Ridder
import Itofin.Math.Solvers1d.Brent
import Itofin.Math.Solvers1d.NewtonSafe
import Mathlib.Analysis.Real.Sqrt
/-!
# Solvers of a bracketed root

The six solvers of `math/solvers1d` that keep a bracket, and what a run of each of them is to be (`Refines`).  Two of them
can go wrong: bisection where it stops at a middle that is positive (`Bisection.Stale`), and Ridder where its first estimate
is the number that its root starts as (`Ridder.Misled`).
-/
namespace Itofin

open Effect

namespace Solvers1D

inductive Method where
  | bisection
  | brent
  | ridder
  | falsePosition
  | newtonSafe
  | finiteDifferenceNewtonSafe
deriving DecidableEq

section Run

variable {K : Type} [Field K] [LinearOrder K]

/-- `solve_impl` and `refine`; the derivative is for `NewtonSafe` only. -/
def solveImpl (sqrt : K → K) (config : SolverConfig K) (f f' : K → Option K) (xAccuracy : K) (st : Solver1DState K) :
    Method → Refinement K K
  | .bisection                  => Bisection.solveImpl config f xAccuracy st
  | .brent                      => Brent.solveImpl config f xAccuracy st
  | .ridder                     => Ridder.solveImpl sqrt config f xAccuracy st
  | .falsePosition              => FalsePosition.solveImpl config f xAccuracy st
  | .newtonSafe                 => NewtonSafe.solveImpl config f f' xAccuracy st
  | .finiteDifferenceNewtonSafe => FiniteDifferenceNewtonSafe.solveImpl config f xAccuracy st

/-- What the result of a method is to be, besides in the bracket. -/
def Promised (f : K → Option K) (xAccuracy lo hi x : K) : Method → Prop
  | .bisection => Accurate f lo hi xAccuracy x
  | .brent     => Accurate f lo hi (Brent.allowance xAccuracy x) x
  | _          => True

/-- **What a run is to be**: it evaluates in the bracket, works between points with a change of sign, never divides by zero,
and returns a point of the bracket that is as near to a root as the method promises. -/
def Refines (sqrt : K → K) (config : SolverConfig K) (f f' : K → Option K) (xAccuracy : K) (st : Solver1DState K)
    (method : Method) : Prop :=
  let run := solveImpl sqrt config f f' xAccuracy st method ⟨[], []⟩
  Within f st.xMin st.xMax run.2 ∧ run.1 ≠ .error .divisionByZero ∧
    ∀ x, run.1 = .ok x → x ∈ Set.Icc st.xMin st.xMax ∧ Promised f xAccuracy st.xMin st.xMax x method

/-- No turn goes wrong. -/
def Uneventful (sqrt : K → K) (config : SolverConfig K) (f f' : K → Option K) (xAccuracy : K) (st : Solver1DState K) :
    Method → Prop
  | .bisection => ∀ p ∈ (solveImpl sqrt config f f' xAccuracy st .bisection ⟨[], []⟩).2.pairs,
      ¬ Bisection.Stale f st.xMin st.xMax xAccuracy p
  | .ridder    => Ridder.Misled sqrt config f xAccuracy st → Ridder.realMin ∈ Set.Icc st.xMin st.xMax
  | _          => True

end Run

variable {sqrt : ℝ → ℝ} {config : SolverConfig ℝ} {f f' : ℝ → Option ℝ} {xAccuracy : ℝ} {st : Solver1DState ℝ}
  {method : Method}

theorem refines_of_triple {Q : ℝ → Trace ℝ → Prop}
    (h : Triple (Within f st.xMin st.xMax) (solveImpl sqrt config f f' xAccuracy st method) Q (Failed f st.xMin st.xMax))
    (hQ : ∀ x tr, Q x tr → Kept f st.xMin st.xMax x tr ∧ Promised f xAccuracy st.xMin st.xMax x method) :
    Refines sqrt config f f' xAccuracy st method := by
  have hrun := h ⟨[], []⟩ within_nil
  unfold Refines
  generalize solveImpl sqrt config f f' xAccuracy st method ⟨[], []⟩ = run at hrun ⊢
  obtain ⟨e | x, tr⟩ := run
  · exact ⟨hrun.1, fun he => hrun.2.1 (Except.error.inj he), nofun⟩
  · obtain ⟨hkept, hpromised⟩ := hQ x tr hrun
    refine ⟨hkept.1, nofun, fun y hy => ?_⟩
    obtain rfl := Except.ok.inj hy
    exact ⟨hkept.2, hpromised⟩

theorem real_sqrt_spec (x : ℝ) (hx : 0 < x) : 0 < √x ∧ √x * √x = x := ⟨Real.sqrt_pos.2 hx, Real.mul_self_sqrt hx.le⟩

theorem bisection_refines_iff (h : Ready f st) : Refines Real.sqrt config f f' xAccuracy st .bisection ↔
    Uneventful Real.sqrt config f f' xAccuracy st .bisection := by
  have hrun := (Bisection.solveImpl_spec h : Triple _ (Bisection.solveImpl config f xAccuracy st) _ _) ⟨[], []⟩ rfl
  unfold Refines Uneventful
  simp only [solveImpl]
  generalize Bisection.solveImpl config f xAccuracy st ⟨[], []⟩ = run at hrun ⊢
  obtain ⟨e | x, tr⟩ := run
  · exact iff_of_true ⟨hrun.1.1, fun he => hrun.2.1 (Except.error.inj he), nofun⟩ hrun.1.2
  · obtain ⟨hwithin, hmem, hiff⟩ := hrun
    constructor
    · exact fun hrefines => hiff.1 (hrefines.2.2 x rfl).2
    · intro hclean
      refine ⟨hwithin, nofun, fun y hy => ?_⟩
      obtain rfl := Except.ok.inj hy
      exact ⟨hmem, hiff.2 hclean⟩

theorem ridder_refines_iff (h : Ready f st) : Refines Real.sqrt config f f' xAccuracy st .ridder ↔
    Uneventful Real.sqrt config f f' xAccuracy st .ridder := by
  constructor
  · intro hrefines hled
    exact hrefines.1.evaluated _ ((Ridder.misled_evaluates real_sqrt_spec h hled).after trivial)
  · exact fun hled => refines_of_triple (Ridder.solveImpl_spec real_sqrt_spec h hled) fun _ _ hkept => ⟨hkept, trivial⟩

/-- **A run of a solver is as it should be where no turn goes wrong, and only there.** -/
theorem refines_iff (method : Method) (config : SolverConfig ℝ) (f f' : ℝ → Option ℝ) (hacc : 0 < xAccuracy)
    (h : Ready f st) : Refines Real.sqrt config f f' xAccuracy st method ↔
      Uneventful Real.sqrt config f f' xAccuracy st method := by
  cases method with
  | bisection => exact bisection_refines_iff h
  | ridder    => exact ridder_refines_iff h
  | brent     => exact iff_of_true (refines_of_triple (Brent.solveImpl_spec hacc h) fun _ _ hr => hr) trivial
  | falsePosition =>
    exact iff_of_true (refines_of_triple (FalsePosition.solveImpl_spec h) fun _ _ hr => ⟨hr, trivial⟩) trivial
  | newtonSafe =>
    exact iff_of_true (refines_of_triple (NewtonSafe.solveImpl_spec h) fun _ _ hr => ⟨hr, trivial⟩) trivial
  | finiteDifferenceNewtonSafe =>
    exact iff_of_true (refines_of_triple (FiniteDifferenceNewtonSafe.solveImpl_spec hacc h)
      fun _ _ hr => ⟨hr, trivial⟩) trivial

/-- A line with a root just below the middle of its bracket. -/
noncomputable def nearMiddle (x : ℝ) : Option ℝ := some (x - ((2 : ℕ) : ℝ)⁻¹ + ((10 ^ 30 : ℕ) : ℝ)⁻¹)

noncomputable def nearMiddleState : Solver1DState ℝ where
  root := ((4 : ℕ) : ℝ)⁻¹
  xMin := 0
  xMax := 1
  fxMin := 0 - ((2 : ℕ) : ℝ)⁻¹ + ((10 ^ 30 : ℕ) : ℝ)⁻¹
  fxMax := 1 - ((2 : ℕ) : ℝ)⁻¹ + ((10 ^ 30 : ℕ) : ℝ)⁻¹
  evaluationNumber := 2

theorem nearMiddle_ready : Ready nearMiddle nearMiddleState where
  min_eq := rfl
  max_eq := rfl
  min_ne := by
    rw [close_zero_iff, Math.epsilon, nearMiddleState, abs_of_neg (by norm_num)]
    norm_num
  max_ne := by
    rw [close_zero_iff, Math.epsilon, nearMiddleState, abs_of_pos (by norm_num)]
    norm_num
  sign := by norm_num [nearMiddleState]
  guess := by norm_num [nearMiddleState]

theorem close_middle :
    Math.close (0 + (1 - 0) / ((2 : ℕ) : ℝ) - ((2 : ℕ) : ℝ)⁻¹ + ((10 ^ 30 : ℕ) : ℝ)⁻¹) 0 = true := by
  rw [close_zero_iff, Math.epsilon, abs_of_pos (by norm_num)]
  norm_num

theorem nearMiddle_run : (Bisection.solveImpl ⟨100, none, none⟩ nearMiddle (1 / 10) nearMiddleState ⟨[], []⟩).1 = .ok 0 := by
  have hstart : Bisection.start nearMiddleState = ⟨0, 1 - 0, 2⟩ := if_pos (by norm_num [nearMiddleState])
  have hpos : ¬ (0 + (1 - 0) / ((2 : ℕ) : ℝ) - ((2 : ℕ) : ℝ)⁻¹ + ((10 ^ 30 : ℕ) : ℝ)⁻¹) ≤ 0 := by norm_num
  have hturn : ∀ tr, Bisection.turn nearMiddle (1 / 10) ⟨0, 1 - 0, 2⟩ tr =
      (.ok (.inl 0), ((tr.work 0 (0 + (1 - 0))).evaluate (0 + (1 - 0) / ((2 : ℕ) : ℝ))).evaluate 0) := by
    intro tr
    simp only [Bisection.turn, working, checkedValue, nearMiddle, Prog.run_bind, Prog.run_modify, Prog.run_pure]
    rw [if_neg hpos, if_pos (.inr close_middle)]
    rfl
  rw [Bisection.solveImpl, hstart, refineLoop_returns (by norm_num) (hturn _)]

/-- **Bisection returns the low end of the bracket, which is half of it away from the root.** -/
theorem refines_fails : ¬ Refines Real.sqrt ⟨100, none, none⟩ nearMiddle nearMiddle (1 / 10) nearMiddleState .bisection := by
  intro h
  obtain ⟨-, v, hv, hacc⟩ := h.2.2 0 nearMiddle_run
  obtain rfl := Option.some.inj hv
  rcases hacc with hclose | ⟨y, -, w, hw, hsign, hnear⟩
  · exact nearMiddle_ready.min_ne hclose
  · obtain rfl := Option.some.inj hw
    rw [zero_sub, abs_neg] at hnear
    have hy := (le_abs_self y).trans hnear
    refine absurd hsign (not_le.2 (mul_pos_of_neg_of_neg (by norm_num) ?_))
    norm_num
    linarith

/-- Brent is not misled by the same function. -/
theorem refines_brent : Refines Real.sqrt ⟨100, none, none⟩ nearMiddle nearMiddle (1 / 10) nearMiddleState .brent :=
  (refines_iff .brent _ _ _ (by norm_num) nearMiddle_ready).2 trivial

end Solvers1D
end Itofin
