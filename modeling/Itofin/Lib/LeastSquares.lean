import Itofin.Lib.Orthogonal
import Mathlib.Algebra.BigOperators.Field
import Mathlib.Algebra.BigOperators.Pi
import Mathlib.Tactic.Linarith
/-!
# LeastSquares — linear least squares with constraints

A matrix has its sizes with it; its entries inside them count.  `Fits` says that a point supported on some columns meets
their normal equations.  A column with a positive dual component enters with a positive coefficient, and is independent
of the columns that fit (`Fits.enter`).

`Stationary` has the conditions of Karush, Kuhn and Tucker with their multipliers; a stationary point minimises
(`Stationary.minimises`).
-/
namespace LeastSquares

open Orthogonal

/-- A dense matrix. -/
structure Mat (K : Type) where
  rows  : ℕ
  cols  : ℕ
  entry : ℕ → ℕ → K

namespace Mat

variable {K : Type} [Field K] (a : Mat K)

def mulVec (v : ℕ → K) : ℕ → K := fun i => ∑ j ∈ Finset.range a.cols, a.entry i j * v j

/-- The product with the transpose. -/
def mulVecT (r : ℕ → K) : ℕ → K := fun j => ∑ i ∈ Finset.range a.rows, a.entry i j * r i

def transpose : Mat K := ⟨a.cols, a.rows, fun j i => a.entry i j⟩

def column (j : ℕ) : ℕ → K := fun i => a.entry i j

def residual (b x : ℕ → K) : ℕ → K := fun i => b i - a.mulVec x i

/-- The gradient of half the squared residual, with the sign changed. -/
def dual (b x : ℕ → K) : ℕ → K := a.mulVecT (a.residual b x)

theorem mulVec_eq_sum (v : ℕ → K) : a.mulVec v = ∑ j ∈ Finset.range a.cols, v j • a.column j := by
  funext i
  rw [mulVec, Finset.sum_apply]
  exact Finset.sum_congr rfl fun j _ => mul_comm _ _

theorem mulVecT_eq_sum (r : ℕ → K) : a.mulVecT r = ∑ i ∈ Finset.range a.rows, r i • a.entry i := by
  funext j
  rw [mulVecT, Finset.sum_apply]
  exact Finset.sum_congr rfl fun i _ => mul_comm _ _

theorem mulVecT_eq_dot (r : ℕ → K) (j : ℕ) : a.mulVecT r j = dot a.rows (a.column j) r := rfl

theorem mulVec_sub (v w : ℕ → K) : a.mulVec (v - w) = a.mulVec v - a.mulVec w := by
  funext i
  simp only [mulVec, Pi.sub_apply, mul_sub, Finset.sum_sub_distrib]

theorem mulVecT_sub (r s : ℕ → K) : a.mulVecT (r - s) = a.mulVecT r - a.mulVecT s := by
  funext j
  simp only [mulVecT, Pi.sub_apply, mul_sub, Finset.sum_sub_distrib]

theorem mulVec_div (v : ℕ → K) (c : K) (i : ℕ) : a.mulVec (fun j => v j / c) i = a.mulVec v i / c := by
  simp only [mulVec, Finset.sum_div, mul_div_assoc]

theorem mulVecT_div (r : ℕ → K) (c : K) (j : ℕ) : a.mulVecT (fun i => r i / c) j = a.mulVecT r j / c := by
  simp only [mulVecT, Finset.sum_div, mul_div_assoc]

theorem residual_eq (b x : ℕ → K) : a.residual b x = b - a.mulVec x := rfl

/-- **The transpose is the adjoint.** -/
theorem dot_mulVec (v r : ℕ → K) : dot a.rows (a.mulVec v) r = dot a.cols v (a.mulVecT r) := by
  simp only [dot, mulVec, mulVecT, Finset.sum_mul, Finset.mul_sum]
  rw [Finset.sum_comm]
  exact Finset.sum_congr rfl fun j _ => Finset.sum_congr rfl fun i _ => by ring

/-- No combination of the columns in `s` vanishes. -/
def Independent (s : ℕ → Prop) : Prop :=
  ∀ v : ℕ → K, (∀ j < a.cols, ¬ s j → v j = 0) → (∀ i < a.rows, a.mulVec v i = 0) → ∀ j < a.cols, v j = 0

/-- The point is supported on the columns in `s` and meets their normal equations. -/
structure Fits (b : ℕ → K) (s : ℕ → Prop) (x : ℕ → K) : Prop where
  support : ∀ j < a.cols, ¬ s j → x j = 0
  normal  : ∀ j < a.cols, s j → a.dual b x j = 0

/-- The conditions at a minimum over the non-negative points. -/
structure Complementary [LE K] (b x : ℕ → K) : Prop where
  nonneg : ∀ j < a.cols, 0 ≤ x j
  dual   : ∀ j < a.cols, a.dual b x j ≤ 0
  slack  : ∀ j < a.cols, x j = 0 ∨ a.dual b x j = 0

theorem Independent.mono {a : Mat K} {s t : ℕ → Prop} (h : a.Independent s) (hts : ∀ j, t j → s j) :
    a.Independent t := fun v hv => h v fun j hj hs => hv j hj fun ht => hs (hts j ht)

theorem Fits.dot_dual {a : Mat K} {b x : ℕ → K} {s : ℕ → Prop} (h : a.Fits b s x) {t : ℕ} (ht : t < a.cols)
    {v : ℕ → K} (hv : ∀ j < a.cols, j ≠ t → ¬ s j → v j = 0) : dot a.cols v (a.dual b x) = v t * a.dual b x t := by
  refine Finset.sum_eq_single_of_mem t (Finset.mem_range.2 ht) fun j hj hjt => ?_
  by_cases hs : s j
  · rw [h.normal j (Finset.mem_range.1 hj) hs, mul_zero]
  · rw [hv j (Finset.mem_range.1 hj) hjt hs, zero_mul]

end Mat

section

variable {K : Type} [Field K] [LinearOrder K] [IsStrictOrderedRing K] {a : Mat K} {b x z : ℕ → K} {s : ℕ → Prop}

/-- **A column with a positive dual component enters**: it is independent of the columns that fit, and whatever fits with
it has a positive coefficient there. -/
theorem Mat.Fits.enter (h : a.Fits b s x) (hs : a.Independent s) {t : ℕ} (ht : t < a.cols) (hout : ¬ s t)
    (hw : 0 < a.dual b x t) :
    a.Independent (fun j => s j ∨ j = t) ∧ ∀ z, a.Fits b (fun j => s j ∨ j = t) z → 0 < z t := by
  refine ⟨fun v hv hzero => ?_, fun z hz => ?_⟩
  · have hvt : v t * a.dual b x t = 0 := by
      rw [← h.dot_dual ht (fun j hj hjt hsj => hv j hj (by simp [hsj, hjt])), Mat.dual, ← a.dot_mulVec]
      exact dot_eq_zero fun i hi => .inl (hzero i hi)
    have hv0 : v t = 0 := (mul_eq_zero.1 hvt).resolve_right hw.ne'
    refine hs v (fun j hj hsj => ?_) hzero
    by_cases hjt : j = t
    · rw [hjt, hv0]
    · exact hv j hj (by simp [hsj, hjt])
  · have hx : x t = 0 := h.support t ht hout
    -- the squared step of the residual is the coefficient times the dual component
    have hsquare : dot a.rows (a.mulVec (z - x)) (a.mulVec (z - x)) = z t * a.dual b x t := by
      have hstep : a.mulVec (z - x) = a.residual b x - a.residual b z := by
        rw [a.mulVec_sub, a.residual_eq, a.residual_eq, sub_sub_sub_cancel_left]
      have hz0 : dot a.cols (z - x) (a.dual b z) = 0 := by
        refine dot_eq_zero fun j hj => ?_
        by_cases hsj : s j ∨ j = t
        · exact .inr (hz.normal j hj hsj)
        · rw [not_or] at hsj
          refine .inl ?_
          rw [Pi.sub_apply, hz.support j hj (by simp [hsj]), h.support j hj hsj.1, sub_zero]
      have hgap : dot a.cols (z - x) (a.dual b x) = (z - x) t * a.dual b x t :=
        h.dot_dual ht (fun j hj hjt hsj => by
          rw [Pi.sub_apply, hz.support j hj (by simp [hsj, hjt]), h.support j hj hsj, sub_zero])
      rw [a.dot_mulVec, hstep, a.mulVecT_sub, dot_sub]
      change dot a.cols (z - x) (a.dual b x) - dot a.cols (z - x) (a.dual b z) = z t * a.dual b x t
      rw [hgap, hz0, Pi.sub_apply, hx, sub_zero, sub_zero]
    have hnonneg : 0 ≤ z t * a.dual b x t := hsquare ▸ dot_self_nonneg _
    rcases (nonneg_of_mul_nonneg_left hnonneg hw).lt_or_eq with hlt | heq
    · exact hlt
    · -- without a step the dual component would be zero already
      have hsame : ∀ i < a.rows, a.mulVec (z - x) i = 0 :=
        dot_self_eq_zero.1 (by rw [hsquare, ← heq, zero_mul])
      have hdual : a.dual b x t = a.dual b z t := by
        rw [Mat.dual, Mat.dual, Mat.mulVecT, Mat.mulVecT]
        refine Finset.sum_congr rfl fun i hi => ?_
        have := hsame i (Finset.mem_range.1 hi)
        rw [a.mulVec_sub, Pi.sub_apply, sub_eq_zero] at this
        rw [Mat.residual, Mat.residual, this]
      rw [hdual, hz.normal t ht (.inr rfl)] at hw
      exact absurd hw (lt_irrefl 0)

end

/-! ## The conditions at a constrained minimum -/

section

variable {K : Type} [Field K] [LinearOrder K]

/-- `c x = d` and `g x ≥ h`. -/
structure Feasible (c : Mat K) (d : ℕ → K) (g : Mat K) (h x : ℕ → K) : Prop where
  equality   : ∀ i < c.rows, c.mulVec x i = d i
  inequality : ∀ i < g.rows, h i ≤ g.mulVec x i

/-- Multipliers of `g x ≥ h`: not negative, and zero on the inactive rows. -/
structure Multipliers (g : Mat K) (h x lambda : ℕ → K) : Prop where
  inequality : ∀ i < g.rows, h i ≤ g.mulVec x i
  nonneg     : ∀ i < g.rows, 0 ≤ lambda i
  slack      : ∀ i < g.rows, h i < g.mulVec x i → lambda i = 0

/-- **The conditions of Karush, Kuhn and Tucker** for half of `‖e x - f‖²`. -/
structure Stationary (c : Mat K) (d : ℕ → K) (e : Mat K) (f : ℕ → K) (g : Mat K) (h x mu lambda : ℕ → K) : Prop
    extends Multipliers g h x lambda where
  equality : ∀ i < c.rows, c.mulVec x i = d i
  gradient : ∀ j < e.cols, e.mulVecT (e.mulVec x - f) j = c.mulVecT mu j + g.mulVecT lambda j

variable [IsStrictOrderedRing K] {c e g : Mat K} {d f h x mu lambda : ℕ → K}

theorem Multipliers.transfer {g' : Mat K} {h' x' : ℕ → K} (hx : Multipliers g' h' x' lambda) (hrows : g'.rows = g.rows)
    (hgap : ∀ i < g.rows, g.mulVec x i - h i = g'.mulVec x' i - h' i) : Multipliers g h x lambda where
  inequality i hi := sub_nonneg.1 (hgap i hi ▸ sub_nonneg.2 (hx.inequality i (hrows ▸ hi)))
  nonneg i hi     := hx.nonneg i (hrows ▸ hi)
  slack i hi hlt  := hx.slack i (hrows ▸ hi) (sub_pos.1 (hgap i hi ▸ sub_pos.2 hlt))

/-- **A stationary point minimises** among all feasible ones. -/
theorem Stationary.minimises (hx : Stationary c d e f g h x mu lambda) (hc : c.cols = e.cols) (hg : g.cols = e.cols)
    {y : ℕ → K} (hy : Feasible c d g h y) :
    dot e.rows (e.mulVec x - f) (e.mulVec x - f) ≤ dot e.rows (e.mulVec y - f) (e.mulVec y - f) := by
  have hequality : dot c.rows (c.mulVec (y - x)) mu = 0 := by
    refine dot_eq_zero fun i hi => .inl ?_
    rw [c.mulVec_sub, Pi.sub_apply, hy.equality i hi, hx.equality i hi, sub_self]
  have hinequality : 0 ≤ dot g.rows (g.mulVec (y - x)) lambda := by
    refine Finset.sum_nonneg fun i hi => ?_
    have hi := Finset.mem_range.1 hi
    rw [g.mulVec_sub, Pi.sub_apply]
    rcases (hx.inequality i hi).lt_or_eq with hlt | heq
    · rw [hx.slack i hi hlt, mul_zero]
    · exact mul_nonneg (sub_nonneg.2 (heq ▸ hy.inequality i hi)) (hx.nonneg i hi)
  have hcross : dot e.rows (e.mulVec (y - x)) (e.mulVec x - f) =
      dot c.rows (c.mulVec (y - x)) mu + dot g.rows (g.mulVec (y - x)) lambda := by
    rw [e.dot_mulVec, c.dot_mulVec, g.dot_mulVec, hc, hg, ← dot_add]
    exact dot_congr (fun _ _ => rfl) hx.gradient
  have hsplit : e.mulVec y - f = e.mulVec (y - x) + (e.mulVec x - f) := by
    rw [e.mulVec_sub, sub_add_sub_cancel]
  have hsquare := dot_self_nonneg (m := e.rows) (e.mulVec (y - x))
  rw [hsplit, dot_add, add_dot, add_dot, dot_comm (e.mulVec x - f) (e.mulVec (y - x)), hcross, hequality, zero_add]
  linarith

end

end LeastSquares
