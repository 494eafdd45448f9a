import Itofin.Math.Interpolations.Cubic
import Itofin.Math.Interpolations.Flat
import Itofin.Math.Interpolations.Linear
/-!
# Contract — which interpolations keep the contract of the trait

Linear and cubic interpolation keep it, with extrapolation too.  The flat ones keep it in the range; outside, the
backward-flat primitive goes on below the first node with the datum of the second, and the forward-flat one past the last
node with that of the last but one, where the value is the end datum.
-/
namespace Itofin

/-- A factory of interpolations. -/
inductive InterpolationFactory (K : Type) where
  | linear
  | cubic (config : CubicConfig K)
  | backwardFlat
  | forwardFlat

namespace InterpolationFactory

/-- The interpolation that a factory builds, with extrapolation allowed or not. -/
def interpolate {K : Type} [Field K] [LinearOrder K] (x y : List K) (allow : Bool) :
    InterpolationFactory K → Except (InterpolationError K) (Interpolation K)
  | linear       => (LinearInterpolation.new x y).map fun f => (f.withExtrapolation allow).interpolation
  | cubic config => (CubicInterpolation.build x y config).map fun f => (f.withExtrapolation allow).interpolation
  | backwardFlat => (BackwardFlatInterpolation.new x y).map fun f => (f.withExtrapolation allow).interpolation
  | forwardFlat  => (ForwardFlatInterpolation.new x y).map fun f => (f.withExtrapolation allow).interpolation

/-- The data are level at the end where a flat factory extrapolates from two of them. -/
def Levelled (y : List ℝ) : InterpolationFactory ℝ → Prop
  | linear       => True
  | cubic _      => True
  | backwardFlat => 2 ≤ y.length → y.getD 0 0 = y.getD 1 0
  | forwardFlat  => y.getD (y.length - 2) 0 = y.getD (y.length - 1) 0

/-- **The contract is kept except where a flat interpolation extrapolates from two data that differ.** -/
theorem agrees_iff {factory : InterpolationFactory ℝ} {x y : List ℝ} {allow : Bool} {f : Interpolation ℝ}
    (h : factory.interpolate x y allow = .ok f) :
    f.Agrees allow x.length (fun i => x.getD i 0) (fun i => y.getD i 0) ↔ (allow = true → factory.Levelled y) := by
  cases factory with
  | linear       =>
    obtain ⟨g, hg, rfl⟩ := Effect.map_eq_ok.1 h
    obtain ⟨nodes, hnodes, rfl⟩ := Effect.map_eq_ok.1 hg
    obtain ⟨hsize, -, hx, hy⟩ := Nodes.validate_ok hnodes
    have := LinearInterpolation.fulfils ⟨nodes, allow⟩
    rw [← hx, ← hy, ← hsize]
    exact iff_of_true this fun _ => trivial
  | cubic config =>
    obtain ⟨g, hg, rfl⟩ := Effect.map_eq_ok.1 h
    obtain ⟨nodes, hnodes, hof⟩ := Effect.bind_eq_ok.1 hg
    obtain ⟨-, -, rfl, -⟩ := CubicInterpolation.ofNodes_ok hof
    obtain ⟨hsize, -, hx, hy⟩ := Nodes.validate_ok hnodes
    have := (g.withExtrapolation allow).fulfils
    rw [← hx, ← hy, ← hsize]
    exact iff_of_true this fun _ => trivial
  | backwardFlat =>
    obtain ⟨g, hg, rfl⟩ := Effect.map_eq_ok.1 h
    obtain ⟨nodes, hnodes, rfl⟩ := Effect.map_eq_ok.1 hg
    obtain ⟨hsize, hlen, hx, hy⟩ := Nodes.validate_ok hnodes
    have := BackwardFlatInterpolation.fulfils_iff ⟨nodes, allow⟩
    rw [BackwardFlatInterpolation.Levelled, hsize, hlen, hx, hy] at this
    rw [hlen]
    exact this
  | forwardFlat  =>
    obtain ⟨g, hg, rfl⟩ := Effect.map_eq_ok.1 h
    obtain ⟨nodes, hnodes, rfl⟩ := Effect.map_eq_ok.1 hg
    obtain ⟨hsize, hlen, hx, hy⟩ := Nodes.validate_ok hnodes
    have := ForwardFlatInterpolation.fulfils_iff ⟨nodes, allow⟩
    rw [ForwardFlatInterpolation.Levelled, hsize, hlen, hx, hy] at this
    rw [hlen]
    exact this

/-- Backward-flat interpolation of a constant on two nodes. -/
theorem agrees_iff_constant : ∃ f, backwardFlat.interpolate [0, 1] [1, 1] true = .ok f ∧
    f.Agrees true 2 (fun i => [0, 1].getD i 0) (fun i => [1, 1].getD i 0) := by
  obtain ⟨f, hf⟩ : ∃ f, backwardFlat.interpolate ([0, 1] : List ℝ) [1, 1] true = .ok f := by
    simp [interpolate, BackwardFlatInterpolation.new, Nodes.validate, Except.map]
  exact ⟨f, hf, (agrees_iff hf).2 fun _ _ => rfl⟩

/-- **Below the first of two nodes the primitive of a backward-flat interpolation grows with the second datum.** -/
theorem extrapolation_disagrees : ∃ f, backwardFlat.interpolate [0, 1] [0, 1] true = .ok f ∧
    ¬ f.Agrees true 2 (fun i => [0, 1].getD i 0) (fun i => [0, 1].getD i 0) := by
  obtain ⟨nodes, hnodes⟩ : ∃ nodes, Nodes.validate 1 ([0, 1] : List ℝ) [0, 1] = .ok nodes := by simp [Nodes.validate]
  obtain ⟨hsize, -, hx, hy⟩ := Nodes.validate_ok hnodes
  refine ⟨(BackwardFlatInterpolation.mk nodes true).interpolation, ?_, fun h => ?_⟩
  · rw [interpolate, BackwardFlatInterpolation.new, hnodes]
    rfl
  · have hiff := BackwardFlatInterpolation.fulfils_iff ⟨nodes, true⟩
    rw [BackwardFlatInterpolation.Levelled, hsize, hx, hy] at hiff
    have hlevel := hiff.1 h rfl (by simp)
    simp at hlevel

end InterpolationFactory

end Itofin
