import Itofin.Math.Interpolation
/-!
# Linear — linear interpolation between discrete points

`math/interpolations/linear.rs`.  The slopes and the cumulative primitive that the constructor stores are functions of
the nodes.
-/
namespace Itofin

structure LinearInterpolation (K : Type) [LT K] where
  nodes : Nodes K 2
  allowExtrapolation : Bool

namespace LinearInterpolation

section Evaluation

variable {K : Type} [Field K] [LinearOrder K]

def new (x y : List K) : Except (InterpolationError K) (LinearInterpolation K) :=
  (Nodes.validate 2 x y).map fun nodes => ⟨nodes, false⟩

def withExtrapolation (self : LinearInterpolation K) (allow : Bool) : LinearInterpolation K :=
  { self with allowExtrapolation := allow }

variable (self : LinearInterpolation K)

def slopes (i : ℕ) : K := (self.nodes.y (i + 1) - self.nodes.y i) / (self.nodes.x (i + 1) - self.nodes.x i)

/-- The line of a segment. -/
def segment (i : ℕ) (t : K) : K := self.nodes.y i + (t - self.nodes.x i) * self.slopes i

def primitiveConst : ℕ → K
  | 0     => 0
  | i + 1 =>
    let dx := self.nodes.x (i + 1) - self.nodes.x i
    primitiveConst i + dx * (self.nodes.y i + ((2 : ℕ) : K)⁻¹ * dx * self.slopes i)

def segmentPrimitive (i : ℕ) (t : K) : K :=
  let dx := t - self.nodes.x i
  self.primitiveConst i + dx * (self.nodes.y i + ((2 : ℕ) : K)⁻¹ * dx * self.slopes i)

def interpolation : Interpolation K :=
  self.nodes.interpolation self.allowExtrapolation (fun t => self.segment (self.nodes.locate t) t)
    (fun t => self.slopes (self.nodes.locate t)) (fun t => self.segmentPrimitive (self.nodes.locate t) t)

end Evaluation

section Agreement

open Piecewise Piecewise.Locates

variable (self : LinearInterpolation ℝ) {i : ℕ}

theorem segment_start (i : ℕ) : self.segment i (self.nodes.x i) = self.nodes.y i := by simp [segment]

theorem segment_end (h : i < self.nodes.size - 1) : self.segment i (self.nodes.x (i + 1)) = self.nodes.y (i + 1) := by
  have hne : self.nodes.x (i + 1) - self.nodes.x i ≠ 0 := sub_ne_zero.2 (self.nodes.increasing i h).ne'
  rw [segment, slopes, mul_div_cancel₀ _ hne, add_sub_cancel]

theorem hasDerivAt_segment (i : ℕ) (t : ℝ) : HasDerivAt (self.segment i) (self.slopes i) t := by
  unfold segment
  simpa using (((hasDerivAt_id t).sub_const (self.nodes.x i)).mul_const (self.slopes i)).const_add (self.nodes.y i)

theorem hasDerivAt_segmentPrimitive (i : ℕ) (t : ℝ) : HasDerivAt (self.segmentPrimitive i) (self.segment i t) t := by
  have hdx : HasDerivAt (fun t => t - self.nodes.x i) 1 t := (hasDerivAt_id t).sub_const _
  have hinner : HasDerivAt (fun t => self.nodes.y i + ((2 : ℕ) : ℝ)⁻¹ * (t - self.nodes.x i) * self.slopes i)
      (((2 : ℕ) : ℝ)⁻¹ * 1 * self.slopes i) t := ((hdx.const_mul _).mul_const _).const_add _
  refine ((hdx.mul hinner).const_add (self.primitiveConst i)).congr_deriv ?_
  rw [segment]
  push_cast
  ring

theorem primitive_segment (i : ℕ) : IsPrimitive (self.segment i) (self.segmentPrimitive i) :=
  isPrimitive_of_hasDerivAt (self.hasDerivAt_segmentPrimitive i)
    (continuous_iff_continuousAt.2 fun t => (self.hasDerivAt_segment i t).continuousAt)

theorem segmentPrimitive_meet (m : ℕ) : Meet self.nodes.x m self.segmentPrimitive := fun i _ => by
  simp [segmentPrimitive, primitiveConst]

theorem fulfils : self.interpolation.Agrees self.allowExtrapolation self.nodes.size self.nodes.x self.nodes.y := by
  have h : 2 ≤ self.nodes.size := self.nodes.enough
  have hloc := self.nodes.locates h
  refine (Nodes.fulfils_iff (by omega)).2 ⟨fun i hi => ?_, ?_, fun a b _ _ => ?_, fun t _ hne => ?_⟩
  · refine self.nodes.piece_node h (fun i _ => self.segment_start i) ?_ hi
    have hend := self.segment_end (i := self.nodes.size - 2) (by omega)
    rwa [show self.nodes.size - 2 + 1 = self.nodes.size - 1 by omega] at hend
  · rw [self.nodes.locate_node (by omega)]
    simp [segmentPrimitive, primitiveConst]
  · exact isPrimitive_piecewise hloc (fun i _ => self.primitive_segment i) (self.segmentPrimitive_meet _) a b
  · exact hasDerivAt_of_ne hloc (fun i _ hi => hne i (by omega)) (self.hasDerivAt_segment _ t)

end Agreement

end LinearInterpolation

end Itofin
