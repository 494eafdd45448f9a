import Itofin.Lib.Effect
import Itofin.Math.Interpolation
/-!
# ConvexMonotone — convex-monotone interpolation

`math/interpolations/convexmonotone.rs`.  The values of the data are averages over the intervals between the nodes, and
the first is ignored.  From the averages come forwards at the nodes (`boundaryForward`); every interval is then covered
by the section that its two forwards pick (`chooseSection`), and past the last node the interpolation is constant.
Numbers are exact, and the square root is a parameter.
-/
namespace Itofin

/-- The factory, with its settings. -/
structure ConvexMonotone (K : Type) where
  quadraticity : K
  monotonicity : K
  forcePositive : Bool

inductive ConvexMonotoneError (K : Type) where
  /-- "x and y must have equal length ({} vs {})" -/
  | lengths (x y : ℕ)
  /-- "monotonicity must lie between 0 and 1, got {monotonicity}" -/
  | monotonicity (got : K)
  /-- "quadraticity must lie between 0 and 1, got {quadraticity}" -/
  | quadraticity (got : K)
  /-- "single point provided, not supported by convex monotone method as first point is ignored" -/
  | singlePoint
  /-- "x values must be strictly increasing" -/
  | notIncreasing
  /-- "too many existing helpers have been supplied" -/
  | tooManyHelpers
  /-- "a previous interpolation is required to grow the curve past the first localisation window" -/
  | noPrevious
  /-- "interpolation range is [{lo}, {hi}]: extrapolation at {at} not allowed" -/
  | outOfRange (lo hi t : K)
  /-- "Convex-monotone spline derivative not implemented" -/
  | noDerivative
  /-- The source divides by zero: what it returns is no number. -/
  | undefined

/-- The trait `SectionHelper`.  An evaluation that divides by zero has no number. -/
structure SectionHelper (K : Type) where
  value : K → Option K
  primitive : K → Option K
  fNext : K

namespace SectionHelper

variable {K : Type}

/-- A section whose constructor divides by zero. -/
def undefined (fNext : K) : SectionHelper K := ⟨fun _ => none, fun _ => none, fNext⟩

def ofOption (fNext : K) : Option (SectionHelper K) → SectionHelper K
  | some helper => helper
  | none        => undefined fNext

theorem fNext_ofOption {f : K} {o : Option (SectionHelper K)} (h : ∀ helper ∈ o, helper.fNext = f) :
    (ofOption f o).fNext = f := by
  cases o with
  | none        => rfl
  | some helper => exact h helper rfl

end SectionHelper

namespace ConvexMonotone

/-! ## The sections -/

/-- An interval between two nodes: the forwards at its ends, its average, and the primitive at its left end. -/
structure NodeInterval (K : Type) where
  xPrev : K
  xNext : K
  fPrev : K
  fNext : K
  fAverage : K
  prevPrimitive : K

namespace NodeInterval

variable {K : Type} [Field K] (p : NodeInterval K)

def xScaling : K := p.xNext - p.xPrev

def gPrev : K := p.fPrev - p.fAverage

def gNext : K := p.fNext - p.fAverage

theorem fAverage_add_gPrev : p.fAverage + p.gPrev = p.fPrev := add_sub_cancel _ _

theorem fAverage_add_gNext : p.fAverage + p.gNext = p.fNext := add_sub_cancel _ _

end NodeInterval

section Sections

variable {K : Type} [Field K] [LinearOrder K]

def quotient (a b : K) : Option K := if b = 0 then none else some (a / b)

/-- The share of the interval before a point. -/
def NodeInterval.xVal (p : NodeInterval K) (x : K) : Option K := quotient (x - p.xPrev) p.xScaling

def everywhereConstantHelper (value prevPrimitive xPrev : K) : SectionHelper K where
  value _ := some value
  primitive x := some (prevPrimitive + (x - xPrev) * value)
  fNext := value

def constantGradHelper (p : NodeInterval K) : SectionHelper K :=
  .ofOption p.fNext <| (quotient (p.fNext - p.fPrev) p.xScaling).map fun fGrad =>
    { value     := fun x => some (p.fPrev + (x - p.xPrev) * fGrad)
      primitive := fun x => some (p.prevPrimitive + (x - p.xPrev) * (p.fPrev + 1 / (2 : ℕ) * (x - p.xPrev) * fGrad))
      fNext     := p.fNext }

def convexMonotone2Helper (p : NodeInterval K) (eta2 : K) : SectionHelper K where
  value x := (p.xVal x).bind fun xVal =>
    if xVal ≤ eta2 then some (p.fAverage + p.gPrev)
    else (quotient (p.gNext - p.gPrev) ((1 - eta2) * (1 - eta2))).map fun k =>
      p.fAverage + p.gPrev + k * (xVal - eta2) * (xVal - eta2)
  primitive x := (p.xVal x).bind fun xVal =>
    if xVal ≤ eta2 then some (p.prevPrimitive + p.xScaling * (p.fAverage * xVal + p.gPrev * xVal))
    else (quotient (p.gNext - p.gPrev) ((1 - eta2) * (1 - eta2))).map fun k =>
      p.prevPrimitive + p.xScaling * (p.fAverage * xVal + p.gPrev * xVal +
        k * (1 / (3 : ℕ) * (xVal * xVal * xVal - eta2 * eta2 * eta2) - eta2 * xVal * xVal + eta2 * eta2 * xVal))
  fNext := p.fAverage + p.gNext

def convexMonotone3Helper (p : NodeInterval K) (eta3 : K) : SectionHelper K where
  value x := (p.xVal x).bind fun xVal =>
    if xVal ≤ eta3 then (quotient (p.gPrev - p.gNext) (eta3 * eta3)).map fun k =>
      p.fAverage + p.gNext + k * (eta3 - xVal) * (eta3 - xVal)
    else some (p.fAverage + p.gNext)
  primitive x := (p.xVal x).bind fun xVal =>
    (quotient (p.gPrev - p.gNext) (eta3 * eta3)).map fun k =>
      if xVal ≤ eta3 then
        p.prevPrimitive + p.xScaling * (p.fAverage * xVal + p.gNext * xVal +
          k * (1 / (3 : ℕ) * xVal * xVal * xVal - eta3 * xVal * xVal + eta3 * eta3 * xVal))
      else
        p.prevPrimitive + p.xScaling * (p.fAverage * xVal + p.gNext * xVal +
          k * (1 / (3 : ℕ) * eta3 * eta3 * eta3))
  fNext := p.fAverage + p.gNext

structure ConvexMonotone4Helper (K : Type) where
  xPrev : K
  xScaling : K
  gPrev : K
  gNext : K
  fAverage : K
  eta4 : K
  prevPrimitive : K
  a : K

namespace ConvexMonotone4Helper

def new (p : NodeInterval K) (eta4 : K) : ConvexMonotone4Helper K :=
  ⟨p.xPrev, p.xScaling, p.gPrev, p.gNext, p.fAverage, eta4, p.prevPrimitive,
    -(1 / (2 : ℕ)) * (eta4 * p.gPrev + (1 - eta4) * p.gNext)⟩

variable (self : ConvexMonotone4Helper K)

/-- The value up to `eta4`. -/
def leftValue (xVal : K) : Option K :=
  (quotient ((self.gPrev - self.a) * (self.eta4 - xVal) * (self.eta4 - xVal)) (self.eta4 * self.eta4)).map fun k =>
    self.fAverage + self.a + k

/-- The value past `eta4`. -/
def rightValue (xVal : K) : Option K :=
  (quotient ((self.gNext - self.a) * (xVal - self.eta4) * (xVal - self.eta4))
    ((1 - self.eta4) * (1 - self.eta4))).map fun k => self.fAverage + self.a + k

/-- The area up to a point before `eta4`, of a section of width one. -/
def leftArea (xVal : K) : Option K :=
  (quotient (self.gPrev - self.a) (self.eta4 * self.eta4)).map fun k =>
    (self.fAverage + self.a +
      k * (self.eta4 * self.eta4 - self.eta4 * xVal + 1 / (3 : ℕ) * xVal * xVal)) * xVal

/-- The area up to a point past `eta4`, of a section of width one. -/
def rightArea (xVal : K) : Option K :=
  (quotient (self.gNext - self.a) ((1 - self.eta4) * (1 - self.eta4))).map fun k =>
    self.fAverage * xVal + self.a * xVal + (self.gPrev - self.a) * (1 / (3 : ℕ) * self.eta4) +
      k * (1 / (3 : ℕ) * xVal * xVal * xVal - self.eta4 * xVal * xVal + self.eta4 * self.eta4 * xVal -
        1 / (3 : ℕ) * self.eta4 * self.eta4 * self.eta4)

/-- `x_val` -/
def xVal (x : K) : Option K := quotient (x - self.xPrev) self.xScaling

def value (x : K) : Option K := (self.xVal x).bind fun xVal =>
  if xVal ≤ self.eta4 then self.leftValue xVal else self.rightValue xVal

def primitive (x : K) : Option K := (self.xVal x).bind fun xVal =>
  (if xVal ≤ self.eta4 then self.leftArea xVal else self.rightArea xVal).map fun area =>
    self.prevPrimitive + self.xScaling * area

def fNext : K := self.fAverage + self.gNext

end ConvexMonotone4Helper

def convexMonotone4Helper (p : NodeInterval K) (eta4 : K) : SectionHelper K :=
  ⟨(ConvexMonotone4Helper.new p eta4).value, (ConvexMonotone4Helper.new p eta4).primitive,
    (ConvexMonotone4Helper.new p eta4).fNext⟩

structure ConvexMonotone4MinHelper (K : Type) where
  base : ConvexMonotone4Helper K
  splitRegion : Bool
  xRatio : K
  x2 : K
  x3 : K

namespace ConvexMonotone4MinHelper

def new (p : NodeInterval K) (eta4 : K) : Option (ConvexMonotone4MinHelper K) :=
  let base := ConvexMonotone4Helper.new p eta4
  if base.a + base.fAverage ≤ 0 then
    let fPrev := base.gPrev + base.fAverage
    let fNext := base.gNext + base.fAverage
    let reqdShift := (base.eta4 * fPrev + (1 - base.eta4) * fNext) / (3 : ℕ) - base.fAverage
    (quotient (reqdShift * base.xScaling) (base.fAverage + reqdShift)).bind fun reqdPeriod =>
      let xAdjust := base.xScaling - reqdPeriod
      (quotient xAdjust base.xScaling).map fun xRatio =>
        let fAverage := base.fAverage + reqdShift
        let gNext := fNext - fAverage
        let gPrev := fPrev - fAverage
        { base        := { base with
            fAverage, gNext, gPrev, a := -(base.eta4 * gPrev + (1 - base.eta4) * gNext) / (2 : ℕ) }
          splitRegion := true
          xRatio      := xRatio
          x2          := base.xPrev + xAdjust * base.eta4
          x3          := base.xPrev + base.xScaling - xAdjust * (1 - base.eta4) }
  else some ⟨base, false, 0, 0, 0⟩

variable (self : ConvexMonotone4MinHelper K)

def value (x : K) : Option K :=
  if self.splitRegion = false then self.base.value x
  else (self.base.xVal x).bind fun xVal =>
    if x ≤ self.x2 then (quotient xVal self.xRatio).bind self.base.leftValue
    else if x < self.x3 then some 0
    else (quotient (1 - xVal) self.xRatio).bind fun u => self.base.rightValue (1 - u)

def primitive (x : K) : Option K :=
  if self.splitRegion = false then self.base.primitive x
  else (self.base.xVal x).bind fun xVal =>
    (if x ≤ self.x2 then (quotient xVal self.xRatio).bind self.base.leftArea
    else if x ≤ self.x3 then
      (quotient (self.base.gPrev - self.base.a) (self.base.eta4 * self.base.eta4)).map fun k =>
        self.base.fAverage * self.base.eta4 + self.base.a * self.base.eta4 +
          k * (1 / (3 : ℕ) * self.base.eta4 * self.base.eta4 * self.base.eta4)
    else (quotient (1 - xVal) self.xRatio).bind fun u => self.base.rightArea (1 - u)).map fun area =>
      self.base.prevPrimitive + self.base.xScaling * self.xRatio * area

end ConvexMonotone4MinHelper

def convexMonotone4MinHelper (p : NodeInterval K) (eta4 : K) : SectionHelper K :=
  .ofOption p.fNext <| (ConvexMonotone4MinHelper.new p eta4).map fun self =>
    ⟨self.value, self.primitive, self.base.fNext⟩

/-! The coefficients of the quadratic through two forwards with an average between. -/

def quadraticA (fPrev fNext fAverage : K) : K := 3 • fPrev + 3 • fNext - 6 • fAverage

def quadraticB (fPrev fNext fAverage : K) : K := -(4 • fPrev + 2 • fNext - 6 • fAverage)

def quadraticHelper (p : NodeInterval K) : SectionHelper K :=
  let a := quadraticA p.fPrev p.fNext p.fAverage
  let b := quadraticB p.fPrev p.fNext p.fAverage
  let c := p.fPrev
  { value     := fun x => (p.xVal x).map fun xVal => a * xVal * xVal + b * xVal + c
    primitive := fun x => (p.xVal x).map fun xVal =>
      p.prevPrimitive + p.xScaling * (a / (3 : ℕ) * xVal * xVal + b / (2 : ℕ) * xVal + c) * xVal
    fNext     := p.fNext }

structure QuadraticMinHelper (K : Type) where
  splitRegion : Bool
  x1 : K
  x2 : K
  x3 : K
  x4 : K
  a : K
  b : K
  c : K
  primitive1 : K
  primitive2 : K
  fNext : K
  xScaling : K
  xRatio : K

namespace QuadraticMinHelper

def new (sqrt : K → K) (p : NodeInterval K) : Option (QuadraticMinHelper K) :=
  let a := quadraticA p.fPrev p.fNext p.fAverage
  let b := quadraticB p.fPrev p.fNext p.fAverage
  let c := p.fPrev
  let d := b * b - 4 • a * c
  let aAv : K := (36 : ℕ)
  let bAv := -(24 • (p.fPrev + p.fNext))
  let cAv := 4 • (p.fPrev * p.fPrev + p.fPrev * p.fNext + p.fNext * p.fNext)
  let dAv := bAv * bAv - 4 • aAv * cAv
  if 0 < d ∧ 0 ≤ dAv then
    let avRoot := (-bAv - sqrt dAv) / (2 • aAv)
    (quotient p.fAverage avRoot).bind fun xRatio =>
      let xScaling := p.xScaling * xRatio
      let a := quadraticA p.fPrev p.fNext avRoot
      let b := quadraticB p.fPrev p.fNext avRoot
      (quotient (-b) (2 • a)).map fun xRoot =>
        { splitRegion := true
          x1          := p.xPrev
          x2          := p.xPrev + xRatio * p.xScaling * xRoot
          x3          := p.xNext - xRatio * p.xScaling * (1 - xRoot)
          x4          := p.xNext
          a, b, c
          primitive1  := p.prevPrimitive
          primitive2  := p.prevPrimitive + xScaling * (a / (3 : ℕ) * xRoot * xRoot + b / (2 : ℕ) * xRoot + c) * xRoot
          fNext       := p.fNext
          xScaling    := xScaling
          xRatio      := xRatio }
  else some ⟨false, p.xPrev, 0, 0, p.xNext, a, b, c, p.prevPrimitive, 0, p.fNext, p.xScaling, 1⟩

variable (self : QuadraticMinHelper K)

/-- The quadratic at a share of its period. -/
def curve (xVal : K) : K := self.c + self.b * xVal + self.a * xVal * xVal

def area (xVal : K) : K :=
  self.primitive1 + self.xScaling * (self.a / (3 : ℕ) * xVal * xVal + self.b / (2 : ℕ) * xVal + self.c) * xVal

def value (x : K) : Option K := (quotient (x - self.x1) (self.x4 - self.x1)).bind fun xVal =>
  if self.splitRegion = false then some (self.curve xVal)
  else if x ≤ self.x2 then (quotient xVal self.xRatio).map self.curve
  else if x < self.x3 then some 0
  else (quotient (1 - xVal) self.xRatio).map fun u => self.curve (1 - u)

def primitive (x : K) : Option K := (quotient (x - self.x1) (self.x4 - self.x1)).bind fun xVal =>
  if self.splitRegion = false then some (self.area xVal)
  else if x < self.x2 then (quotient xVal self.xRatio).map self.area
  else if x < self.x3 then some self.primitive2
  else (quotient (1 - xVal) self.xRatio).map fun u => self.area (1 - u)

end QuadraticMinHelper

def quadraticMinHelper (sqrt : K → K) (p : NodeInterval K) : SectionHelper K :=
  .ofOption p.fNext <| (QuadraticMinHelper.new sqrt p).map fun self => ⟨self.value, self.primitive, self.fNext⟩

def comboHelper (quadratic convMono : SectionHelper K) (quadraticity : K) : SectionHelper K where
  value x := (quadratic.value x).bind fun u => (convMono.value x).map fun v =>
    quadraticity * u + (1 - quadraticity) * v
  primitive x := (quadratic.primitive x).bind fun u => (convMono.primitive x).map fun v =>
    quadraticity * u + (1 - quadraticity) * v
  fNext := quadraticity * quadratic.fNext + (1 - quadraticity) * convMono.fNext

end Sections

/-! ## The choice of a section -/

section Choice

variable {K : Type} [Field K] [LinearOrder K] (self : ConvexMonotone K) (sqrt : K → K) (p : NodeInterval K)

/-- Both forwards are the average, up to `1.0e-14`. -/
def Constant : Prop := |p.gPrev| < 1 / ((10 ^ 14 : ℕ) : K) ∧ |p.gNext| < 1 / ((10 ^ 14 : ℕ) : K)

/-- The quadratic is monotone. -/
def QuadraticRegion : Prop :=
  (0 < p.gPrev ∧ p.gNext ≤ -(1 / (2 : ℕ)) * p.gPrev ∧ -2 • p.gPrev ≤ p.gNext) ∨
  (p.gPrev < 0 ∧ -(1 / (2 : ℕ)) * p.gPrev ≤ p.gNext ∧ p.gNext ≤ -2 • p.gPrev)

/-- The section is flat at its left end. -/
def FlatLeftRegion : Prop := (p.gPrev < 0 ∧ -2 • p.gPrev < p.gNext) ∨ (0 < p.gPrev ∧ p.gNext < -2 • p.gPrev)

/-- The section is flat at its right end. -/
def FlatRightRegion : Prop :=
  (0 < p.gPrev ∧ p.gNext < 0 ∧ -(1 / (2 : ℕ)) * p.gPrev < p.gNext) ∨
  (p.gPrev < 0 ∧ 0 < p.gNext ∧ p.gNext < -(1 / (2 : ℕ)) * p.gPrev)

/-- The quadratic has its minimum in the interval. -/
def MinRegion : Prop := -2 • p.gNext ≤ p.gPrev ∧ -(1 / (2 : ℕ)) * p.gNext < p.gPrev

instance : Decidable (Constant p) := inferInstanceAs (Decidable (_ ∧ _))

instance : Decidable (QuadraticRegion p) := inferInstanceAs (Decidable (_ ∨ _))

instance : Decidable (FlatLeftRegion p) := inferInstanceAs (Decidable (_ ∨ _))

instance : Decidable (FlatRightRegion p) := inferInstanceAs (Decidable (_ ∨ _))

instance : Decidable (MinRegion p) := inferInstanceAs (Decidable (_ ∧ _))

/-- The closure `quadratic`. -/
def quadratic (min : Bool) : SectionHelper K := if min then quadraticMinHelper sqrt p else quadraticHelper p

/-- The closure `convex4`. -/
def convex4 (eta : K) : SectionHelper K :=
  if self.forcePositive then convexMonotone4MinHelper p eta else convexMonotone4Helper p eta

/-- `b2` -/
def upperEta : K := (1 + self.monotonicity) / (2 : ℕ)

/-- `b3` -/
def lowerEta : K := (1 - self.monotonicity) / (2 : ℕ)

/-- The convex-monotone section outside the quadratic region. -/
def convMonoHelper : SectionHelper K :=
  if FlatLeftRegion p then
    .ofOption p.fNext <| (quotient (p.gNext + 2 • p.gPrev) (p.gNext - p.gPrev)).map fun eta =>
      if eta < self.upperEta then convexMonotone2Helper p eta else self.convex4 p self.upperEta
  else if FlatRightRegion p then
    .ofOption p.fNext <| (quotient p.gNext (p.gNext - p.gPrev)).map fun share =>
      let eta : K := share * ((3 : ℕ) : K)
      if self.lowerEta < eta then convexMonotone3Helper p eta else self.convex4 p self.lowerEta
  else
    .ofOption p.fNext <| (quotient p.gNext (p.gPrev + p.gNext)).map fun eta =>
      let eta := if self.upperEta < eta then self.upperEta else eta
      let eta := if eta < self.lowerEta then self.lowerEta else eta
      self.convex4 p eta

/-- The body of the loop of `build_sections`: the section over an interval. -/
def chooseSection : SectionHelper K :=
  if Constant p then constantGradHelper p
  else
    let quadraticHelper :=
      if 0 < self.quadraticity then some (quadratic sqrt p (MinRegion p ∧ self.forcePositive)) else none
    let (quadraticity, quadraticHelper, convMonoHelper) :=
      if self.quadraticity < 1 then
        if QuadraticRegion p then
          (1, if self.quadraticity = 0 then some (quadratic sqrt p self.forcePositive) else quadraticHelper, none)
        else (self.quadraticity, quadraticHelper, some (self.convMonoHelper p))
      else (self.quadraticity, quadraticHelper, none)
    .ofOption p.fNext <|
      if quadraticity = 1 then quadraticHelper
      else if quadraticity = 0 then convMonoHelper
      else quadraticHelper.bind fun quadratic => convMonoHelper.map fun convMono =>
        comboHelper quadratic convMono quadraticity

end Choice

end ConvexMonotone

/-! ## The interpolation -/

structure ConvexMonotoneInterpolation (K : Type) [LT K] where
  nodes : Nodes K 2
  sectionHelpers : ℕ → SectionHelper K
  /-- The number of sections. -/
  sections : ℕ
  extrapolationHelper : SectionHelper K
  allowExtrapolation : Bool
  constantLastPeriod : Bool

namespace ConvexMonotone

variable {K : Type} [Field K] [LinearOrder K] (self : ConvexMonotone K) (sqrt : K → K)

section Build

variable (nodes : Nodes K 2) (constantLastPeriod : Bool) (preExisting : Option (ℕ × K))

/-- The forward at an inner node: the averages of its two intervals, each weighted by the width of the other. -/
def innerForward (i : ℕ) : K :=
  let dxPrev := nodes.x i - nodes.x (i - 1)
  let dx := nodes.x (i + 1) - nodes.x i
  dx / (dx + dxPrev) * nodes.y i + dxPrev / (dx + dxPrev) * nodes.y (i + 1)

/-- The forwards at the inner nodes, one of them carried over from the interpolation before. -/
def seededForward (i : ℕ) : K := match preExisting with
  | some (count, seam) => if i = count then seam else innerForward nodes i
  | none               => innerForward nodes i

/-- The forwards at the ends, kept from below where they are to be positive. -/
def clamp (f : K) : K := if self.forcePositive = true ∧ f < 0 then 0 else f

/-- The forwards at the nodes. -/
def boundaryForward (i : ℕ) : K :=
  if i = 0 then
    self.clamp ((3 : ℕ) / (2 : ℕ) * nodes.y 1 - 1 / (2 : ℕ) * seededForward nodes preExisting 1)
  else if i = nodes.size - 1 then
    self.clamp ((3 : ℕ) / (2 : ℕ) * nodes.y (nodes.size - 1) -
      1 / (2 : ℕ) * seededForward nodes preExisting (nodes.size - 2))
  else seededForward nodes preExisting i

/-- The sum of the averages times the widths, up to a node. -/
def accumulated : ℕ → K
  | 0     => 0
  | i + 1 => accumulated i + nodes.y (i + 1) * (nodes.x (i + 1) - nodes.x i)

def interval (i : ℕ) : NodeInterval K :=
  ⟨nodes.x i, nodes.x (i + 1), self.boundaryForward nodes preExisting i, self.boundaryForward nodes preExisting (i + 1),
    nodes.y (i + 1), accumulated nodes i⟩

/-- `build_sections`: the sections, how many they are, and the section past the last node. -/
def buildSections : (ℕ → SectionHelper K) × ℕ × SectionHelper K :=
  let n := nodes.size
  if n = 2 then
    (fun _ => everywhereConstantHelper (nodes.y 1) 0 (nodes.x 0), 1,
      everywhereConstantHelper (nodes.y 1) 0 (nodes.x 0))
  else
    let sectionHelpers := fun i => self.chooseSection sqrt (self.interval nodes preExisting i)
    if constantLastPeriod then
      let flat := everywhereConstantHelper (nodes.y (n - 1)) (accumulated nodes (n - 2)) (nodes.x (n - 2))
      (fun i => if i = n - 2 then flat else sectionHelpers i, n - 1, flat)
    else
      (sectionHelpers, n - 1, .ofOption (self.boundaryForward nodes preExisting (n - 1)) <|
        ((sectionHelpers (n - 2)).value (nodes.x (n - 1))).map fun lastValue =>
          everywhereConstantHelper lastValue (accumulated nodes (n - 1)) (nodes.x (n - 1)))

end Build

/-- `new_impl` -/
def newImpl (x y : List K) (constantLastPeriod : Bool) (preExisting : Option (ℕ × K)) :
    Except (ConvexMonotoneError K) (ConvexMonotoneInterpolation K) :=
  if x.length ≠ y.length then .error (.lengths x.length y.length)
  else if ¬ (0 ≤ self.monotonicity ∧ self.monotonicity ≤ 1) then .error (.monotonicity self.monotonicity)
  else if ¬ (0 ≤ self.quadraticity ∧ self.quadraticity ≤ 1) then .error (.quadraticity self.quadraticity)
  else if h : 2 ≤ x.length then
    if h' : ∀ i < x.length - 1, x.getD i 0 < x.getD (i + 1) 0 then
      if preExisting.any fun seam => x.length ≤ seam.1 + 1 then .error .tooManyHelpers
      else
        let nodes : Nodes K 2 := ⟨x.length, fun i => x.getD i 0, fun i => y.getD i 0, h, h'⟩
        let (sectionHelpers, sections, extrapolationHelper) :=
          self.buildSections sqrt nodes constantLastPeriod preExisting
        .ok ⟨nodes, sectionHelpers, sections, extrapolationHelper, false, constantLastPeriod⟩
    else .error .notIncreasing
  else .error .singlePoint

/-- `ConvexMonotoneInterpolation::new`, and `interpolate` of the factory. -/
def interpolate (x y : List K) : Except (ConvexMonotoneError K) (ConvexMonotoneInterpolation K) :=
  self.newImpl sqrt x y false none

/-- What the next step carries over: the number of sections to keep, and the forward at the end of the last. -/
def existingSeam (f : ConvexMonotoneInterpolation K) : Option (ℕ × K) :=
  let retained := f.sections - f.constantLastPeriod.toNat
  if retained = 0 then none else some (retained, (f.sectionHelpers (retained - 1)).fNext)

def localInterpolate (x y : List K) (localisation : ℕ) (prev : Option (ConvexMonotoneInterpolation K))
    (finalSize : ℕ) : Except (ConvexMonotoneError K) (ConvexMonotoneInterpolation K) :=
  let constantLastPeriod := x.length ≠ finalSize
  if x.length = localisation + 1 then self.newImpl sqrt x y constantLastPeriod none
  else match prev with
    | none      => .error .noPrevious
    | some prev => self.newImpl sqrt x y constantLastPeriod (existingSeam prev)

end ConvexMonotone

namespace ConvexMonotoneInterpolation

variable {K : Type} [LinearOrder K] (self : ConvexMonotoneInterpolation K)

def withExtrapolation (allow : Bool) : ConvexMonotoneInterpolation K := { self with allowExtrapolation := allow }

/-- The section that covers a point before the last node: the first whose right end is past it. -/
def sectionIndex (t : K) : ℕ := partitionPoint (fun i => self.nodes.x (i + 1) ≤ t) (self.nodes.size - 2)

def checkRange (t : K) : Except (ConvexMonotoneError K) Unit :=
  if self.allowExtrapolation = false ∧ ¬ (self.nodes.xMin ≤ t ∧ t ≤ self.nodes.xMax) then
    .error (.outOfRange self.nodes.xMin self.nodes.xMax t)
  else .ok ()

/-- The helper that evaluates at a point. -/
def helper (t : K) : SectionHelper K :=
  if self.nodes.x (self.nodes.size - 1) ≤ t then self.extrapolationHelper else self.sectionHelpers (self.sectionIndex t)

def number : Option K → Except (ConvexMonotoneError K) K
  | some v => .ok v
  | none   => .error .undefined

def value (t : K) : Except (ConvexMonotoneError K) K :=
  (self.checkRange t).bind fun _ => number ((self.helper t).value t)

def derivative (_t : K) : Except (ConvexMonotoneError K) K := .error .noDerivative

def primitive (t : K) : Except (ConvexMonotoneError K) K :=
  (self.checkRange t).bind fun _ => number ((self.helper t).primitive t)

section Evaluation

variable {K : Type} [LinearOrder K] (self : ConvexMonotoneInterpolation K) {f g : ConvexMonotoneInterpolation K} {t : K}

/-- Before the last interval the section over a point is not the last one. -/
theorem sectionIndex_lt (hn : 3 ≤ self.nodes.size) (ht : t < self.nodes.x (self.nodes.size - 2)) :
    self.sectionIndex t < self.nodes.size - 2 := by
  by_contra hge
  have hle := partitionPoint_le (fun i => decide (self.nodes.x (i + 1) ≤ t)) (self.nodes.size - 2)
  have hlast : self.nodes.size - 3 < self.sectionIndex t := by omega
  have htrue := of_decide_eq_true (lt_partitionPoint (p := fun i => decide (self.nodes.x (i + 1) ≤ t)) hlast)
  rw [show self.nodes.size - 3 + 1 = self.nodes.size - 2 by omega] at htrue
  exact absurd ht (not_lt.2 htrue)

/-- Two interpolations over the same nodes evaluate alike where one section covers the point. -/
theorem evaluate_congr (hnodes : f.nodes = g.nodes) (hallow : f.allowExtrapolation = g.allowExtrapolation)
    (hhelper : f.helper t = g.helper t) : f.value t = g.value t ∧ f.primitive t = g.primitive t := by
  simp only [value, primitive, checkRange, hnodes, hallow, hhelper, and_self]

theorem evaluate_past (hnodes : f.nodes = g.nodes) (hf : f.allowExtrapolation = false) (hg : g.allowExtrapolation = false)
    (ht : f.nodes.xMax < t) : f.value t = g.value t ∧ f.primitive t = g.primitive t := by
  rw [hnodes] at ht
  simp [value, primitive, checkRange, hnodes, hf, hg, ht, Except.bind]

end Evaluation

end ConvexMonotoneInterpolation

namespace ConvexMonotone

/-! ## What is built -/

/-- The checks of the constructor. -/
structure Accepts {K : Type} [Field K] [LinearOrder K] (settings : ConvexMonotone K) (x y : List K) : Prop where
  lengths : x.length = y.length
  monotonicity : 0 ≤ settings.monotonicity ∧ settings.monotonicity ≤ 1
  quadraticity : 0 ≤ settings.quadraticity ∧ settings.quadraticity ≤ 1
  enough : 2 ≤ x.length
  increasing : ∀ i < x.length - 1, x.getD i 0 < x.getD (i + 1) 0

variable {K : Type} [Field K] [LinearOrder K] {self : ConvexMonotone K} (sqrt : K → K) {x y : List K}

def Accepts.nodes (h : self.Accepts x y) : Nodes K 2 :=
  ⟨x.length, fun i => x.getD i 0, fun i => y.getD i 0, h.enough, h.increasing⟩

variable (self) in
/-- The interpolation over nodes that passed the checks. -/
def assemble (nodes : Nodes K 2) (constantLastPeriod : Bool) (preExisting : Option (ℕ × K)) :
    ConvexMonotoneInterpolation K :=
  let built := self.buildSections sqrt nodes constantLastPeriod preExisting
  ⟨nodes, built.1, built.2.1, built.2.2, false, constantLastPeriod⟩

theorem newImpl_ok (h : self.Accepts x y) {constantLastPeriod : Bool} {preExisting : Option (ℕ × K)}
    (hpre : ∀ seam ∈ preExisting, seam.1 + 1 < x.length) : self.newImpl sqrt x y constantLastPeriod preExisting =
      .ok (self.assemble sqrt h.nodes constantLastPeriod preExisting) := by
  have hseam : (preExisting.any fun seam => decide (x.length ≤ seam.1 + 1)) = false := by
    cases preExisting with
    | none      => rfl
    | some seam => simpa using hpre seam rfl
  rw [newImpl, if_neg (not_not.2 h.lengths), if_neg (not_not.2 h.monotonicity), if_neg (not_not.2 h.quadraticity),
    dif_pos h.enough, dif_pos h.increasing, hseam]
  rfl

theorem interpolate_ok (h : self.Accepts x y) :
    self.interpolate sqrt x y = .ok (self.assemble sqrt h.nodes false none) :=
  newImpl_ok sqrt h (by simp)

variable {sqrt}

theorem accepts_of_ok {f : ConvexMonotoneInterpolation K} (h : self.interpolate sqrt x y = .ok f) :
    self.Accepts x y := by
  unfold interpolate newImpl at h
  split_ifs at h with hlen hm hq hn hx
  exact ⟨not_not.1 hlen, hm, hq, hn, hx⟩

variable (p : NodeInterval K)

theorem fNext_constantGrad : (constantGradHelper p).fNext = p.fNext := by
  refine SectionHelper.fNext_ofOption fun helper h => ?_
  obtain ⟨fGrad, -, rfl⟩ := Option.map_eq_some_iff.1 h
  rfl

theorem fNext_quadratic (min : Bool) : (quadratic sqrt p min).fNext = p.fNext := by
  cases min with
  | false => rfl
  | true  =>
    refine SectionHelper.fNext_ofOption fun helper h => ?_
    obtain ⟨section_, hnew, rfl⟩ := Option.map_eq_some_iff.1 h
    unfold QuadraticMinHelper.new at hnew
    dsimp only at hnew
    split at hnew
    · obtain ⟨xRatio, -, hnew⟩ := Option.bind_eq_some_iff.1 hnew
      obtain ⟨xRoot, -, rfl⟩ := Option.map_eq_some_iff.1 hnew
      rfl
    · cases hnew
      rfl

theorem fNext_convex4 (eta : K) : (self.convex4 p eta).fNext = p.fNext := by
  unfold convex4
  split
  · refine SectionHelper.fNext_ofOption fun helper h => ?_
    obtain ⟨section_, hnew, rfl⟩ := Option.map_eq_some_iff.1 h
    unfold ConvexMonotone4MinHelper.new at hnew
    dsimp only at hnew
    split at hnew
    · obtain ⟨reqdPeriod, -, hnew⟩ := Option.bind_eq_some_iff.1 hnew
      obtain ⟨xRatio, -, rfl⟩ := Option.map_eq_some_iff.1 hnew
      simp [ConvexMonotone4Helper.fNext, ConvexMonotone4Helper.new, NodeInterval.gNext]
    · cases hnew
      exact p.fAverage_add_gNext
  · exact p.fAverage_add_gNext

theorem fNext_convMono : (self.convMonoHelper p).fNext = p.fNext := by
  unfold convMonoHelper
  split
  · refine SectionHelper.fNext_ofOption fun helper h => ?_
    obtain ⟨eta, -, rfl⟩ := Option.map_eq_some_iff.1 h
    split
    · exact p.fAverage_add_gNext
    · exact fNext_convex4 p _
  · split
    · refine SectionHelper.fNext_ofOption fun helper h => ?_
      obtain ⟨eta, -, rfl⟩ := Option.map_eq_some_iff.1 h
      dsimp only
      split
      · exact p.fAverage_add_gNext
      · exact fNext_convex4 p _
    · refine SectionHelper.fNext_ofOption fun helper h => ?_
      obtain ⟨eta, -, rfl⟩ := Option.map_eq_some_iff.1 h
      exact fNext_convex4 p _

variable [IsStrictOrderedRing K]

variable (sqrt) in
/-- **The section that is chosen**, for a quadraticity that passed its check. -/
theorem chooseSection_cases (hq : 0 ≤ self.quadraticity ∧ self.quadraticity ≤ 1) :
    (Constant p ∧ self.chooseSection sqrt p = constantGradHelper p) ∨
    (¬ Constant p ∧ self.quadraticity = 0 ∧ QuadraticRegion p ∧
      self.chooseSection sqrt p = quadratic sqrt p self.forcePositive) ∨
    (¬ Constant p ∧ 0 < self.quadraticity ∧ (self.quadraticity = 1 ∨ QuadraticRegion p) ∧
      self.chooseSection sqrt p = quadratic sqrt p (MinRegion p ∧ self.forcePositive)) ∨
    (¬ Constant p ∧ self.quadraticity = 0 ∧ ¬ QuadraticRegion p ∧
      self.chooseSection sqrt p = self.convMonoHelper p) ∨
    (¬ Constant p ∧ 0 < self.quadraticity ∧ self.quadraticity < 1 ∧ ¬ QuadraticRegion p ∧
      self.chooseSection sqrt p = comboHelper (quadratic sqrt p (MinRegion p ∧ self.forcePositive))
        (self.convMonoHelper p) self.quadraticity) := by
  have h₁₀ : (1 : K) ≠ 0 := one_ne_zero
  unfold chooseSection
  by_cases hc : Constant p
  · exact .inl ⟨hc, if_pos hc⟩
  rw [if_neg hc]
  rcases eq_or_lt_of_le hq.1 with hzero | hpos
  · have hlt : self.quadraticity < 1 := hzero ▸ zero_lt_one
    by_cases hr : QuadraticRegion p
    · exact .inr (.inl ⟨hc, hzero.symm, hr, by simp [← hzero, hr, SectionHelper.ofOption]⟩)
    · exact .inr (.inr (.inr (.inl ⟨hc, hzero.symm, hr, by simp [← hzero, hr, SectionHelper.ofOption]⟩)))
  · rcases eq_or_lt_of_le hq.2 with hone | hlt
    · exact .inr (.inr (.inl ⟨hc, hpos, .inl hone, by simp [hone, SectionHelper.ofOption]⟩))
    · by_cases hr : QuadraticRegion p
      · exact .inr (.inr (.inl ⟨hc, hpos, .inr hr, by simp [hlt, hpos, hpos.ne', hr, SectionHelper.ofOption]⟩))
      · exact .inr (.inr (.inr (.inr ⟨hc, hpos, hlt, hr, by
          simp [hlt, hlt.ne, hpos, hpos.ne', hr, SectionHelper.ofOption]⟩)))

theorem fNext_chooseSection (hq : 0 ≤ self.quadraticity ∧ self.quadraticity ≤ 1) :
    (self.chooseSection sqrt p).fNext = p.fNext := by
  rcases chooseSection_cases sqrt p hq with ⟨-, h⟩ | ⟨-, -, -, h⟩ | ⟨-, -, -, h⟩ | ⟨-, -, -, h⟩ | ⟨-, -, -, -, h⟩
  · rw [h, fNext_constantGrad]
  · rw [h, fNext_quadratic]
  · rw [h, fNext_quadratic]
  · rw [h, fNext_convMono]
  · rw [h, comboHelper, fNext_quadratic, fNext_convMono]
    ring

end ConvexMonotone

end Itofin
