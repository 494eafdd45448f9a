import Itofin.Lib.Effect
import Itofin.Math.Interpolation
/-!
# Cubic — cubic interpolation between discrete points

`math/interpolations/cubic.rs`.  Every scheme supplies slopes at the nodes (`nodeDerivatives`, `splineNodeDerivatives`),
Hyman's filter may bound them (`applyHymanFilter`), and a segment is the cubic with the data and the slopes of its two
nodes.  A vector that a loop of the source fills is the function of its index.
-/
namespace Itofin

inductive CubicDerivativeApprox where
  | parabolic | kruger | fritschButland | harmonic | akima | spline
deriving DecidableEq

inductive CubicBoundaryCondition where
  | secondDerivative | firstDerivative | notAKnot | lagrange
deriving DecidableEq

structure CubicConfig (K : Type) where
  da : CubicDerivativeApprox
  monotonic : Bool
  leftCond : CubicBoundaryCondition
  leftValue : K
  rightCond : CubicBoundaryCondition
  rightValue : K

def CubicConfig.defaults {K : Type} [Zero K] (da : CubicDerivativeApprox) : CubicConfig K :=
  ⟨da, false, .secondDerivative, 0, .secondDerivative, 0⟩

namespace CubicSlopes

variable {K : Type} [Field K] [LinearOrder K]

/-! ## Slopes at the nodes -/

section Schemes

-- the number of nodes, the widths of the segments and their secant slopes
variable (n : ℕ) (dx s : ℕ → K)

/-- The slope at the first node of the parabola through three nodes. -/
def parabolicStart : K := ((2 • dx 0 + dx 1) * s 0 - dx 0 * s 1) / (dx 0 + dx 1)

/-- The slope at the last node of the parabola through three nodes. -/
def parabolicEnd : K :=
  ((2 • dx (n - 2) + dx (n - 3)) * s (n - 2) - dx (n - 2) * s (n - 3)) / (dx (n - 2) + dx (n - 3))

def parabolic (i : ℕ) : K :=
  if i = 0 then parabolicStart dx s
  else if i = n - 1 then parabolicEnd n dx s
  else (dx (i - 1) * s i + dx i * s (i - 1)) / (dx i + dx (i - 1))

def krugerInner (i : ℕ) : K :=
  if s (i - 1) * s i < 0 ∨ s (i - 1) = 0 ∨ s i = 0 then 0 else ((2 : ℕ) : K) / (1 / s (i - 1) + 1 / s i)

def kruger (i : ℕ) : K :=
  if i = 0 then (3 • s 0 - krugerInner s 1) / (2 : ℕ)
  else if i = n - 1 then (3 • s (n - 2) - krugerInner s (n - 2)) / (2 : ℕ)
  else krugerInner s i

/-- `Real::MAX` -/
def realMax : K := (((2 ^ 53 - 1) * 2 ^ 971 : ℕ) : K)

def fritschButlandInner (i : ℕ) : K :=
  let sMin := min (s (i - 1)) (s i)
  let sMax := max (s (i - 1)) (s i)
  if sMax + 2 • sMin = 0 then
    if sMin * sMax < 0 then -realMax
    else if sMin * sMax = 0 then 0
    else realMax
  else 3 • sMin * sMax / (sMax + 2 • sMin)

def fritschButland (i : ℕ) : K :=
  if i = 0 then parabolicStart dx s
  else if i = n - 1 then parabolicEnd n dx s
  else fritschButlandInner s i

def harmonicInner (i : ℕ) : K :=
  let w1 := 2 • dx i + dx (i - 1)
  let w2 := dx i + 2 • dx (i - 1)
  if s (i - 1) * s i ≤ 0 then 0 else (w1 + w2) / (w1 / s (i - 1) + w2 / s i)

/-- A parabolic end slope, clamped by the secant slopes of the end segment and of the one beside. -/
def harmonicClamp (d sEnd sNext : K) : K :=
  if d * sEnd < 0 then 0
  else if sEnd * sNext < 0 ∧ |3 • sEnd| < |d| then 3 • sEnd
  else d

def harmonic (i : ℕ) : K :=
  if i = 0 then harmonicClamp (parabolicStart dx s) (s 0) (s 1)
  else if i = n - 1 then harmonicClamp (parabolicEnd n dx s) (s (n - 2)) (s (n - 3))
  else harmonicInner dx s i

/-- A blend of two values, or a third where both weights are zero. -/
def blend (w wb v vb : K) (fallback : K) : K := if w + wb = 0 then fallback else (w * v + wb * vb) / (w + wb)

def akimaInner (i : ℕ) : K :=
  if s (i - 2) = s (i - 1) ∧ s i ≠ s (i + 1) then s (i - 1)
  else if s (i - 2) ≠ s (i - 1) ∧ s i = s (i + 1) then s i
  else if s i = s (i - 1) then s i
  else if s (i - 2) = s (i - 1) ∧ s (i - 1) ≠ s i ∧ s i = s (i + 1) then (s (i - 1) + s i) / (2 : ℕ)
  else
    let wl := |s (i + 1) - s i|
    let wr := |s (i - 1) - s (i - 2)|
    (wl * s (i - 1) + wr * s i) / (wl + wr)

def akima (i : ℕ) : K :=
  if i = 0 then
    blend |s 1 - s 0| |2 • s 0 * s 1 - 4 • s 0 * s 0 * s 1| (2 • s 0 * s 1) (s 0) (s 0)
  else if i = 1 then blend |s 2 - s 1| |s 0 - 2 • s 0 * s 1| (s 0) (s 1) (s 1)
  else if i = n - 2 then
    blend |2 • s (n - 2) * s (n - 3) - s (n - 2)| |s (n - 3) - s (n - 4)| (s (n - 3)) (s (n - 2)) (s (n - 3))
  else if i = n - 1 then
    blend |4 • s (n - 2) * s (n - 2) * s (n - 3) - 2 • s (n - 2) * s (n - 3)| |s (n - 2) - s (n - 3)| (s (n - 2))
      (2 • s (n - 2) * s (n - 3)) (s (n - 2))
  else akimaInner s i

/-- `node_derivatives`; the spline is dispatched before. -/
def nodeDerivatives (da : CubicDerivativeApprox) (i : ℕ) : K :=
  if n = 2 then s 0
  else match da with
    | .parabolic      => parabolic n dx s i
    | .kruger         => kruger n s i
    | .fritschButland => fritschButland n dx s i
    | .harmonic       => harmonic n dx s i
    | .akima          => akima n s i
    | .spline         => 0

def signum (x : K) : K := if x < 0 then -1 else 1

/-- A slope of the sign of `m`, and at most its size. -/
def clip (d sign m : K) : K := if 0 < d * sign then signum d * min |d| m else 0

/-- The bound of the filter at an inner node: three times the secant slopes, relaxed by the parabolas to both sides. -/
def hymanBound (i : ℕ) : K :=
  let pm := (s (i - 1) * dx i + s i * dx (i - 1)) / (dx (i - 1) + dx i)
  let m := 3 • min (min |s (i - 1)| |s i|) |pm|
  let m := if 1 < i ∧ 0 < (s (i - 1) - s (i - 2)) * (s i - s (i - 1)) then
      let pd := (s (i - 1) * (2 • dx (i - 1) + dx (i - 2)) - s (i - 2) * dx (i - 1)) / (dx (i - 2) + dx (i - 1))
      if 0 < pm * pd ∧ 0 < pm * (s (i - 1) - s (i - 2)) then max m ((3 : ℕ) / (2 : ℕ) * min |pm| |pd|) else m
    else m
  if i < n - 2 ∧ 0 < (s i - s (i - 1)) * (s (i + 1) - s i) then
    let pu := (s i * (2 • dx i + dx (i + 1)) - s (i + 1) * dx i) / (dx i + dx (i + 1))
    if 0 < pm * pu ∧ 0 < -pm * (s i - s (i - 1)) then max m ((3 : ℕ) / (2 : ℕ) * min |pm| |pu|) else m
  else m

/-- `apply_hyman_filter` -/
def applyHymanFilter (d : ℕ → K) (i : ℕ) : K :=
  if i = 0 then clip (d i) (s 0) |3 • s 0|
  else if i = n - 1 then clip (d i) (s (n - 2)) |3 • s (n - 2)|
  else clip (d i) ((s (i - 1) * dx i + s i * dx (i - 1)) / (dx (i - 1) + dx i)) (hymanBound n dx s i)

end Schemes

/-! ## The spline -/

/-- The Thomas sweep up: the modified super-diagonal. -/
def sweepUpper (lower diag upper : ℕ → K) : ℕ → K
  | 0     => upper 0 / diag 0
  | i + 1 => upper (i + 1) / (diag (i + 1) - lower i * sweepUpper lower diag upper i)

def pivot (lower diag upper : ℕ → K) : ℕ → K
  | 0     => diag 0
  | i + 1 => diag (i + 1) - lower i * sweepUpper lower diag upper i

/-- The sweep up of the right-hand side. -/
def sweepRhs (lower diag upper rhs : ℕ → K) : ℕ → K
  | 0     => rhs 0 / diag 0
  | i + 1 => (rhs (i + 1) - lower i * sweepRhs lower diag upper rhs i) / pivot lower diag upper (i + 1)

/-- The back substitution, `k` rows before row `last`. -/
def backSubstitute (lower diag upper rhs : ℕ → K) (last : ℕ) : ℕ → K
  | 0     => sweepRhs lower diag upper rhs last
  | k + 1 =>
    sweepRhs lower diag upper rhs (last - (k + 1)) -
      sweepUpper lower diag upper (last - (k + 1)) * backSubstitute lower diag upper rhs last k

/-- `solve_tridiagonal` for `n` rows; it fails at the first zero pivot. -/
def solveTridiagonal (n : ℕ) (lower diag upper rhs : ℕ → K) : Except (InterpolationError K) (ℕ → K) :=
  match (List.range n).find? (fun i => pivot lower diag upper i = 0) with
  | some i => .error (.singular i)
  | none   => .ok fun i => backSubstitute lower diag upper rhs (n - 1) (n - 1 - i)

/-- `cubic_interpolating_polynomial_derivative` -/
def cubicInterpolatingPolynomialDerivative (a b c d u v w z x : K) : K :=
  let num := (((a - c) * (b - c) * (c - x) * z - (a - d) * (b - d) * (d - x) * w) * (a - x + b - x) +
      ((a - c) * (b - c) * z - (a - d) * (b - d) * w) * (a - x) * (b - x)) * (a - b) +
    ((a - c) * (a - d) * v - (b - c) * (b - d) * u) * (c - d) * (c - x) * (d - x) +
    ((a - c) * (a - d) * (a - x) * v - (b - c) * (b - d) * (b - x) * u) * (c - x + d - x) * (c - d)
  let den := (a - b) * (a - c) * (a - d) * (b - c) * (b - d) * (c - d);
  -num / den

section Spline

variable (config : CubicConfig K) (n : ℕ) (x y dx s : ℕ → K)

/-- The slope at `t` of the cubic through the four nodes from the `i`-th on. -/
def lagrangeSlope (i : ℕ) (t : K) : K :=
  cubicInterpolatingPolynomialDerivative (x i) (x (i + 1)) (x (i + 2)) (x (i + 3)) (y i) (y (i + 1)) (y (i + 2))
    (y (i + 3)) t

/-- The left boundary row: its diagonal, its super-diagonal and its right-hand side. -/
def leftRow : K × K × K := match config.leftCond with
  | .secondDerivative => ((2 : ℕ), 1, 3 • s 0 - config.leftValue * dx 0 / (2 : ℕ))
  | .firstDerivative  => (1, 0, config.leftValue)
  | .notAKnot         => (dx 1 * (dx 1 + dx 0), (dx 0 + dx 1) * (dx 0 + dx 1),
    s 0 * dx 1 * (2 • dx 1 + 3 • dx 0) + s 1 * dx 0 * dx 0)
  | .lagrange         => (1, 0, lagrangeSlope x y 0 (x 0))

/-- The right boundary row: its sub-diagonal, its diagonal and its right-hand side. -/
def rightRow : K × K × K := match config.rightCond with
  | .secondDerivative => (1, (2 : ℕ), 3 • s (n - 2) + config.rightValue * dx (n - 2) / (2 : ℕ))
  | .firstDerivative  => (0, 1, config.rightValue)
  | .notAKnot         => (-(dx (n - 2) + dx (n - 3)) * (dx (n - 2) + dx (n - 3)),
    -dx (n - 3) * (dx (n - 3) + dx (n - 2)),
    -s (n - 3) * dx (n - 2) * dx (n - 2) - s (n - 2) * dx (n - 3) * (3 • dx (n - 2) + 2 • dx (n - 3)))
  | .lagrange         => (0, 1, lagrangeSlope x y (n - 4) (x (n - 1)))

/-- The sub-diagonal entry of row `i + 1`. -/
def lower (i : ℕ) : K := if i = n - 2 then (rightRow config n x y dx s).1 else dx (i + 1)

def diag (i : ℕ) : K :=
  if i = 0 then (leftRow config x y dx s).1
  else if i = n - 1 then (rightRow config n x y dx s).2.1
  else 2 • (dx i + dx (i - 1))

def upper (i : ℕ) : K := if i = 0 then (leftRow config x y dx s).2.1 else dx (i - 1)

def rhs (i : ℕ) : K :=
  if i = 0 then (leftRow config x y dx s).2.2
  else if i = n - 1 then (rightRow config n x y dx s).2.2
  else 3 • (dx i * s (i - 1) + dx (i - 1) * s i)

/-- `spline_node_derivatives` -/
def splineNodeDerivatives : Except (InterpolationError K) (ℕ → K) :=
  if (config.leftCond = .notAKnot ∨ config.rightCond = .notAKnot) ∧ n < 3 then .error (.notAKnot n)
  else if (config.leftCond = .notAKnot ∧ config.rightCond = .notAKnot) ∧ n < 4 then .error (.twoNotAKnots n)
  else if (config.leftCond = .lagrange ∨ config.rightCond = .lagrange) ∧ n < 4 then .error (.lagrange n)
  else solveTridiagonal n (lower config n x y dx s) (diag config n x y dx s) (upper config x y dx s)
    (rhs config n x y dx s)

end Spline

end CubicSlopes

/-! ## The interpolation -/

/-- A cubic interpolation, with the slopes at the nodes from which its coefficients are formed. -/
structure CubicInterpolation (K : Type) [LT K] where
  nodes : Nodes K 2
  d : ℕ → K
  config : CubicConfig K
  allowExtrapolation : Bool

namespace CubicInterpolation

open CubicSlopes

variable {K : Type} [Field K] [LinearOrder K]

def width (nodes : Nodes K 2) (i : ℕ) : K := nodes.x (i + 1) - nodes.x i

def secant (nodes : Nodes K 2) (i : ℕ) : K := (nodes.y (i + 1) - nodes.y i) / width nodes i

/-- The slopes of the scheme. -/
def schemeDerivatives (nodes : Nodes K 2) (config : CubicConfig K) : Except (InterpolationError K) (ℕ → K) :=
  if config.da = .spline then
    splineNodeDerivatives config nodes.size nodes.x nodes.y (width nodes) (secant nodes)
  else .ok (nodeDerivatives nodes.size (width nodes) (secant nodes) config.da)

/-- `build`, after the checks of the nodes. -/
def ofNodes (nodes : Nodes K 2) (config : CubicConfig K) : Except (InterpolationError K) (CubicInterpolation K) :=
  if config.da = .akima ∧ nodes.size < 4 then .error (.akima nodes.size)
  else (schemeDerivatives nodes config).map fun d =>
    ⟨nodes, if config.monotonic then applyHymanFilter nodes.size (width nodes) (secant nodes) d else d, config, false⟩

def build (x y : List K) (config : CubicConfig K) : Except (InterpolationError K) (CubicInterpolation K) :=
  (Nodes.validate 2 x y).bind fun nodes => ofNodes nodes config

def new (x y : List K) (da : CubicDerivativeApprox) : Except (InterpolationError K) (CubicInterpolation K) :=
  build x y (.defaults da)

variable (self : CubicInterpolation K)

def withExtrapolation (allow : Bool) : CubicInterpolation K := { self with allowExtrapolation := allow }

/-- Builds again from the nodes, which pass their checks again. -/
def rebuild (config : CubicConfig K) : Except (InterpolationError K) (CubicInterpolation K) :=
  (ofNodes self.nodes config).map (·.withExtrapolation self.allowExtrapolation)

def withBoundaryConditions (leftCond : CubicBoundaryCondition) (leftValue : K) (rightCond : CubicBoundaryCondition)
    (rightValue : K) : Except (InterpolationError K) (CubicInterpolation K) :=
  self.rebuild { self.config with leftCond, leftValue, rightCond, rightValue }

def withMonotonicity (monotonic : Bool) : Except (InterpolationError K) (CubicInterpolation K) :=
  self.rebuild { self.config with monotonic }

def dx (i : ℕ) : K := width self.nodes i

def s (i : ℕ) : K := secant self.nodes i

def a (i : ℕ) : K := self.d i

def b (i : ℕ) : K := (3 • self.s i - self.d (i + 1) - 2 • self.d i) / self.dx i

def c (i : ℕ) : K := (self.d (i + 1) + self.d i - 2 • self.s i) / (self.dx i * self.dx i)

/-- The cubic of a segment. -/
def segment (i : ℕ) (t : K) : K :=
  let dx := t - self.nodes.x i
  self.nodes.y i + dx * (self.a i + dx * (self.b i + dx * self.c i))

def segmentDerivative (i : ℕ) (t : K) : K :=
  let dx := t - self.nodes.x i
  self.a i + (2 • self.b i + 3 • self.c i * dx) * dx

def segmentSecond (i : ℕ) (t : K) : K :=
  let dx := t - self.nodes.x i
  2 • self.b i + 6 • self.c i * dx

def primitiveConst : ℕ → K
  | 0     => 0
  | i + 1 => primitiveConst i + self.dx i * (self.nodes.y i +
    self.dx i * (self.a i / (2 : ℕ) + self.dx i * (self.b i / (3 : ℕ) + self.dx i * self.c i / (4 : ℕ))))

def segmentPrimitive (i : ℕ) (t : K) : K :=
  let dx := t - self.nodes.x i
  self.primitiveConst i +
    dx * (self.nodes.y i + dx * (self.a i / (2 : ℕ) + dx * (self.b i / (3 : ℕ) + dx * self.c i / (4 : ℕ))))

def interpolation : Interpolation K :=
  self.nodes.interpolation self.allowExtrapolation (fun t => self.segment (self.nodes.locate t) t)
    (fun t => self.segmentDerivative (self.nodes.locate t) t) (fun t => self.segmentPrimitive (self.nodes.locate t) t)

def secondDerivative (t : K) : Except (InterpolationError K) K :=
  (self.nodes.checkRange self.allowExtrapolation t).map fun _ => self.segmentSecond (self.nodes.locate t) t

/-! ## Segments -/

section Built

variable {K : Type} [Field K] [LinearOrder K] {nodes : Nodes K 2} {config : CubicConfig K} {f : CubicInterpolation K}

theorem ofNodes_ok (h : ofNodes nodes config = .ok f) :
    ∃ d, schemeDerivatives nodes config = .ok d ∧ f.nodes = nodes ∧ f.allowExtrapolation = false ∧
      f.d = if config.monotonic then applyHymanFilter nodes.size (width nodes) (secant nodes) d else d := by
  unfold ofNodes at h
  by_cases hshort : config.da = .akima ∧ nodes.size < 4
  · rw [if_pos hshort] at h
    cases h
  · rw [if_neg hshort] at h
    obtain ⟨d, hd, rfl⟩ := Effect.map_eq_ok.1 h
    exact ⟨d, hd, rfl, rfl, rfl⟩

/-- What `build` makes of lists that it accepts. -/
theorem build_ok {x y : List K} (h : build x y config = .ok f) :
    ∃ d, schemeDerivatives f.nodes config = .ok d ∧ f.nodes.size = y.length ∧ (∀ i, f.nodes.y i = y.getD i 0) ∧
      f.d = if config.monotonic then applyHymanFilter f.nodes.size f.dx f.s d else d := by
  obtain ⟨nodes, hnodes, hof⟩ := Effect.bind_eq_ok.1 h
  obtain ⟨d, hd, rfl, -, heq⟩ := ofNodes_ok hof
  obtain ⟨hsize, hlen, -, hy⟩ := Nodes.validate_ok hnodes
  exact ⟨d, hd, hsize.trans hlen, fun i => congrFun hy i, heq⟩

theorem local_slopes {d : ℕ → K} (h : schemeDerivatives nodes config = .ok d) (hda : config.da ≠ .spline) :
    d = nodeDerivatives nodes.size (width nodes) (secant nodes) config.da := by
  rw [schemeDerivatives, if_neg hda] at h
  exact (Except.ok.inj h).symm

end Built

section Segments

variable {K : Type} [Field K] [LinearOrder K] (self : CubicInterpolation K) {i : ℕ}

theorem segment_start (i : ℕ) : self.segment i (self.nodes.x i) = self.nodes.y i := by simp [segment]

theorem segmentDerivative_start (i : ℕ) : self.segmentDerivative i (self.nodes.x i) = self.d i := by
  simp [segmentDerivative, a]

variable [IsStrictOrderedRing K]

theorem dx_pos (h : i < self.nodes.size - 1) : 0 < self.dx i := sub_pos.2 (self.nodes.increasing i h)

theorem s_mul_dx (h : i < self.nodes.size - 1) : self.s i * self.dx i = self.nodes.y (i + 1) - self.nodes.y i :=
  div_mul_cancel₀ _ (self.dx_pos h).ne'

theorem segment_end (h : i < self.nodes.size - 1) : self.segment i (self.nodes.x (i + 1)) = self.nodes.y (i + 1) := by
  have hne := (self.dx_pos h).ne'
  have hdx : self.nodes.x (i + 1) - self.nodes.x i = self.dx i := rfl
  have hs := self.s_mul_dx h
  simp only [segment, a, b, c, hdx, nsmul_eq_mul, Nat.cast_ofNat]
  field_simp
  linear_combination hs

theorem segmentDerivative_end (h : i < self.nodes.size - 1) :
    self.segmentDerivative i (self.nodes.x (i + 1)) = self.d (i + 1) := by
  have hne := (self.dx_pos h).ne'
  have hdx : self.nodes.x (i + 1) - self.nodes.x i = self.dx i := rfl
  simp only [segmentDerivative, a, b, c, hdx, nsmul_eq_mul, Nat.cast_ofNat]
  field_simp
  ring

theorem segment_node (hi : i < self.nodes.size) :
    self.segment (self.nodes.locate (self.nodes.x i)) (self.nodes.x i) = self.nodes.y i := by
  have h : 2 ≤ self.nodes.size := self.nodes.enough
  refine self.nodes.piece_node h (fun i _ => self.segment_start i) ?_ hi
  have hend := self.segment_end (i := self.nodes.size - 2) (by omega)
  rwa [show self.nodes.size - 2 + 1 = self.nodes.size - 1 by omega] at hend

end Segments

section Agreement

open Piecewise Piecewise.Locates

variable (self : CubicInterpolation ℝ) {i : ℕ}

theorem hasDerivAt_segment (i : ℕ) (t : ℝ) : HasDerivAt (self.segment i) (self.segmentDerivative i t) t := by
  have hdx : HasDerivAt (fun t => t - self.nodes.x i) 1 t := (hasDerivAt_id t).sub_const _
  have h := (hdx.mul ((hdx.mul ((hdx.mul_const (self.c i)).const_add (self.b i))).const_add (self.a i))).const_add
    (self.nodes.y i)
  apply h.congr_deriv
  simp only [segmentDerivative, nsmul_eq_mul, Nat.cast_ofNat, Pi.mul_apply]
  ring

theorem hasDerivAt_segmentDerivative (i : ℕ) (t : ℝ) :
    HasDerivAt (self.segmentDerivative i) (self.segmentSecond i t) t := by
  have hdx : HasDerivAt (fun t => t - self.nodes.x i) 1 t := (hasDerivAt_id t).sub_const _
  have h := (((hdx.const_mul (3 • self.c i)).const_add (2 • self.b i)).mul hdx).const_add (self.a i)
  apply h.congr_deriv
  simp only [segmentSecond, nsmul_eq_mul, Nat.cast_ofNat]
  ring

theorem hasDerivAt_segmentPrimitive (i : ℕ) (t : ℝ) : HasDerivAt (self.segmentPrimitive i) (self.segment i t) t := by
  have hdx : HasDerivAt (fun t => t - self.nodes.x i) 1 t := (hasDerivAt_id t).sub_const _
  have hinner := ((hdx.mul_const (self.c i)).div_const ((4 : ℕ) : ℝ)).const_add (self.b i / (3 : ℕ))
  have hmiddle := (hdx.mul hinner).const_add (self.a i / (2 : ℕ))
  refine ((hdx.mul ((hdx.mul hmiddle).const_add (self.nodes.y i))).const_add (self.primitiveConst i)).congr_deriv ?_
  simp only [segment, Pi.mul_apply]
  push_cast
  ring

theorem primitive_segment (i : ℕ) : IsPrimitive (self.segment i) (self.segmentPrimitive i) :=
  isPrimitive_of_hasDerivAt (self.hasDerivAt_segmentPrimitive i)
    (continuous_iff_continuousAt.2 fun t => (self.hasDerivAt_segment i t).continuousAt)

theorem segmentPrimitive_meet (m : ℕ) : Meet self.nodes.x m self.segmentPrimitive := fun i _ => by
  have hdx : self.nodes.x (i + 1) - self.nodes.x i = self.dx i := rfl
  simp [segmentPrimitive, primitiveConst, hdx]

theorem segment_meet : Meet self.nodes.x (self.nodes.size - 2) self.segment := fun i hi => by
  rw [self.segment_end (by omega), self.segment_start]

theorem segmentDerivative_meet : Meet self.nodes.x (self.nodes.size - 2) self.segmentDerivative := fun i hi => by
  rw [self.segmentDerivative_end (by omega), self.segmentDerivative_start]

/-- **Whatever the slopes at the nodes, the interpolation has the derivative it reports**, at the nodes too. -/
theorem hasDerivAt_value (t : ℝ) : HasDerivAt (fun t => self.segment (self.nodes.locate t) t)
    (self.segmentDerivative (self.nodes.locate t) t) t :=
  hasDerivAt_piecewise (self.nodes.locates self.nodes.enough) (fun i _ => self.hasDerivAt_segment i) self.segment_meet
    self.segmentDerivative_meet t

theorem fulfils : self.interpolation.Agrees self.allowExtrapolation self.nodes.size self.nodes.x self.nodes.y := by
  have h : 2 ≤ self.nodes.size := self.nodes.enough
  refine (Nodes.fulfils_iff (by omega)).2 ⟨fun i hi => self.segment_node hi, ?_, fun a b _ _ => ?_,
    fun t _ _ => self.hasDerivAt_value t⟩
  · rw [self.nodes.locate_node (by omega)]
    simp [segmentPrimitive, primitiveConst]
  · exact isPrimitive_piecewise (self.nodes.locates h) (fun i _ => self.primitive_segment i)
      (self.segmentPrimitive_meet _) a b

end Agreement

end CubicInterpolation

end Itofin
