import Itofin.TermStructures.GlobalBootstrap
/-!
# BootstrapTraits — the conventions of a yield curve

`Discount`, `ZeroYield`, `ForwardRate` and `SimpleZeroYield` of `termstructures/bootstraptraits.rs`: the value of the
reference node, the guess and the bracket of a node, and the transforms between nodes and optimizer space.
-/
namespace Itofin

/-- The operations on machine numbers that the conventions use. -/
class ExpFloats (K : Type) extends SqrtFloats K, Neg K where
  exp : K → K
  ln : K → K
  min : K → K → K
  infinity : K

inductive Convention where
  | discount
  | zeroYield
  | forwardRate
  | simpleZeroYield

namespace Convention

open Floats (ofNat)

variable {K : Type} [ExpFloats K]

/-- `AVG_RATE` -/
def avgRate : K := ofNat 5 / ofNat 100

/-- `MAX_RATE` -/
def maxRate : K := ofNat 1

def discountGuess (i : ℕ) (times data : List K) (validData : Bool) : K :=
  if validData then data.getD i 0
  else if i = 1 then ofNat 1 / (ofNat 1 + avgRate * times.getD 1 0)
  else
    let r := -ExpFloats.ln (data.getD (i - 1) 0) / times.getD (i - 1) 0
    ExpFloats.exp (-r * times.getD i 0)

def discountMin (i : ℕ) (times data : List K) (validData : Bool) : K :=
  if validData then data.foldl ExpFloats.min ExpFloats.infinity / ofNat 2
  else data.getD (i - 1) 0 * ExpFloats.exp (-maxRate * (times.getD i 0 - times.getD (i - 1) 0))

def discountMax (i : ℕ) (times data : List K) (_validData : Bool) : K :=
  data.getD (i - 1) 0 * ExpFloats.exp (maxRate * (times.getD i 0 - times.getD (i - 1) 0))

/-- `rate_guess` -/
def rateGuess (i : ℕ) (_times data : List K) (validData : Bool) : K :=
  if validData then data.getD i 0 else if i = 1 then avgRate else data.getD (i - 1) 0

/-- `rate_min_value_after` -/
def rateMin (_i : ℕ) (_times data : List K) (validData : Bool) : K :=
  if validData then
    let r := data.foldl ExpFloats.min ExpFloats.infinity
    if Floats.lt r 0 then r * ofNat 2 else r / ofNat 2
  else -maxRate

/-- `rate_max_value_after` -/
def rateMax (_i : ℕ) (_times data : List K) (validData : Bool) : K :=
  if validData then
    let r := data.foldl Floats.max (-ExpFloats.infinity)
    if Floats.lt r 0 then r / ofNat 2 else r * ofNat 2
  else maxRate

def simpleZeroFloor (t : K) : K := -ofNat 1 / t + ofNat 1 / ofNat (10 ^ 8)

/-- `initial_value` -/
def initialValue : Convention → K
  | discount => ofNat 1
  | _        => avgRate

/-- `transform_direct` -/
def transformDirect : Convention → K → K → K
  | discount, x, _        => ExpFloats.exp x
  | zeroYield, x, _       => x
  | forwardRate, x, _     => x
  | simpleZeroYield, x, t => ExpFloats.exp x + simpleZeroFloor t

/-- `transform_inverse` -/
def transformInverse : Convention → K → K → K
  | discount, x, _        => ExpFloats.ln x
  | zeroYield, x, _       => x
  | forwardRate, x, _     => x
  | simpleZeroYield, x, t => ExpFloats.ln (x - simpleZeroFloor t)

def guess : Convention → ℕ → List K → List K → Bool → K
  | discount => discountGuess
  | _        => rateGuess

def minValueAfter : Convention → ℕ → List K → List K → Bool → K
  | discount        => discountMin
  | simpleZeroYield => fun i times data validData =>
    Floats.max (rateMin i times data validData) (simpleZeroFloor (times.getD i 0))
  | _               => rateMin

def maxValueAfter : Convention → ℕ → List K → List K → Bool → K
  | discount => discountMax
  | _        => rateMax

/-- The reference node of a rate mirrors the first pillar. -/
def mirrored : Convention → Bool
  | discount => false
  | _        => true

theorem guess_valid (c : Convention) (i : ℕ) (times data : List K) (value : K) (h : data[i]? = some value) :
    c.guess i times data true = value := by
  cases c <;> simp [guess, discountGuess, rateGuess, List.getD_eq_getElem?_getD, h]

theorem maxIterations_pos : 0 < 100 := by decide

def traits (c : Convention) : YieldBootstrapTraits K where
  guess := c.guess
  minValueAfter := c.minValueAfter
  maxValueAfter := c.maxValueAfter
  mirrored := c.mirrored
  maxIterations := 100
  maxIterations_pos := maxIterations_pos
  transformDirect := c.transformDirect
  transformInverse := c.transformInverse
  guess_valid := c.guess_valid

end Convention

end Itofin
