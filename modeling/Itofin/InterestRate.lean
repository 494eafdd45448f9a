import Mathlib
import Itofin.CashFlow
/-!
# InterestRate — compound and discount factors

The compounding algebra of `interestrate.rs`, with the exponential and the power as parameters.  Over the reals the discount
factor of a continuous or a compounded rate turns sums of times into products (`discount_add`), and its derivatives in the
rate are those that the yield analytics use.
-/
namespace Itofin

inductive Compounding where
  | simple | compounded | continuous | simpleThenCompounded | compoundedThenSimple
deriving DecidableEq, Repr

inductive Frequency where
  | noFrequency | once | annual | semiannual | everyFourthMonth | quarterly | bimonthly | monthly | everyFourthWeek
  | biweekly | weekly | daily | otherFrequency
deriving DecidableEq, Repr

/-- The discriminants. -/
def Frequency.toInt : Frequency → ℤ
  | noFrequency      => -1
  | once             => 0
  | annual           => 1
  | semiannual       => 2
  | everyFourthMonth => 3
  | quarterly        => 4
  | bimonthly        => 6
  | monthly          => 12
  | everyFourthWeek  => 13
  | biweekly         => 26
  | weekly           => 52
  | daily            => 365
  | otherFrequency   => 999

/-- `exp` and `powf`. -/
structure Transcendental (K : Type) where
  exp  : K → K
  powf : K → K → K

def freqMakesSense (compounding : Compounding) : Bool :=
  compounding = .compounded || compounding = .simpleThenCompounded || compounding = .compoundedThenSimple

/-- The invariant is what `InterestRate::new` checks: "frequency not allowed for this interest rate". -/
structure InterestRate (K : Type) where
  rate            : K
  yearFractionRef : Date → Date → Date → Date → K
  compounding     : Compounding
  rawFrequency    : Frequency
  allowed         : freqMakesSense compounding → rawFrequency ≠ .once ∧ rawFrequency ≠ .noFrequency

namespace InterestRate

variable {K : Type} [Field K] [LinearOrder K] (fns : Transcendental K) (self : InterestRate K)

omit [Field K] [LinearOrder K] in
/-- The same conventions at another rate. -/
def withRate (rate : K) : InterestRate K := { self with rate := rate }

omit [Field K] [LinearOrder K] in
def frequency : Frequency := if freqMakesSense self.compounding then self.rawFrequency else .noFrequency

omit [LinearOrder K] in
def freqReal : K := (self.rawFrequency.toInt : K)

def simpleFactor (r t : K) : Except CashFlowError K :=
  let factor := 1 + r * t
  if factor ≤ 0 then .error .nonPositiveFactor else .ok factor

def compoundedFactor (r f t : K) : Except CashFlowError K :=
  let base := 1 + r / f
  if base ≤ 0 then .error .nonPositiveBase else .ok (fns.powf base (f * t))

def compoundFactor (t : K) : Except CashFlowError K :=
  if t < 0 then .error .negativeTime
  else
    let r := self.rate
    let f := self.freqReal
    match self.compounding with
    | .simple               => simpleFactor r t
    | .compounded           => compoundedFactor fns r f t
    | .continuous           => .ok (fns.exp (r * t))
    | .simpleThenCompounded => if t ≤ 1 / f then simpleFactor r t else compoundedFactor fns r f t
    | .compoundedThenSimple => if 1 / f < t then simpleFactor r t else compoundedFactor fns r f t

def discountFactor (t : K) : Except CashFlowError K := (self.compoundFactor fns t).map fun factor => 1 / factor

end InterestRate

/-! ## Over the reals -/

noncomputable def Transcendental.real : Transcendental ℝ := ⟨Real.exp, fun x y => x ^ y⟩

namespace InterestRate

variable {self : InterestRate ℝ} {s t y : ℝ}

/-- The rate compounds: continuously, or at its frequency. -/
def Compounds (self : InterestRate ℝ) : Prop := self.compounding = .continuous ∨ self.compounding = .compounded

/-- The discount factor at a rate and a time. -/
noncomputable def discount (self : InterestRate ℝ) (y t : ℝ) : ℝ :=
  if self.compounding = .continuous then Real.exp (-(y * t)) else (1 + y / self.freqReal) ^ (-(self.freqReal * t))

/-- The rates at which the compounding base is positive. -/
def Admits (self : InterestRate ℝ) (y : ℝ) : Prop := self.compounding = .continuous ∨ 0 < 1 + y / self.freqReal

theorem freqReal_pos (h : self.compounding = .compounded) : 0 < self.freqReal := by
  have hallowed := self.allowed (by simp [freqMakesSense, h])
  have hpos : 0 < self.rawFrequency.toInt := by
    revert hallowed
    cases self.rawFrequency <;> decide
  exact Int.cast_pos.2 hpos

theorem discountFactor_eq (h : self.Compounds) (ha : self.Admits y) (ht : 0 ≤ t) :
    (self.withRate y).discountFactor Transcendental.real t = .ok (self.discount y t) := by
  unfold discountFactor compoundFactor discount
  rw [if_neg ht.not_gt]
  rcases h with h | h
  · simp only [withRate, h, Transcendental.real, Except.map, if_true, Real.exp_neg, one_div]
  · have hbase : 0 < 1 + y / self.freqReal := ha.resolve_left (by simp [h])
    have hfactor : compoundedFactor Transcendental.real y self.freqReal t =
        .ok ((1 + y / self.freqReal) ^ (self.freqReal * t)) := if_neg hbase.not_ge
    simp only [withRate, h, reduceCtorEq, if_false]
    rw [Real.rpow_neg hbase.le, ← one_div]
    exact congrArg _ hfactor

theorem discountFactor_admits (h : self.Compounds) {d : ℝ}
    (hd : (self.withRate y).discountFactor Transcendental.real t = .ok d) : self.Admits y ∧ 0 ≤ t := by
  unfold discountFactor compoundFactor withRate at hd
  obtain ⟨factor, hfactor, -⟩ := Effect.map_eq_ok.1 hd
  split_ifs at hfactor with ht
  refine ⟨?_, not_lt.1 ht⟩
  rcases h with h | h
  · exact .inl h
  · simp only [h, compoundedFactor] at hfactor
    split_ifs at hfactor with hbase
    exact .inr (not_le.1 hbase)

@[simp]
theorem discount_zero : self.discount y 0 = 1 := by simp [discount]

theorem discount_add (ha : self.Admits y) : self.discount y (s + t) = self.discount y s * self.discount y t := by
  unfold discount
  split_ifs with h
  · rw [← Real.exp_add]
    ring_nf
  · rw [← Real.rpow_add (ha.resolve_left h)]
    ring_nf

/-- What a unit of time weighs in the derivative of a discount factor. -/
noncomputable def weight (self : InterestRate ℝ) (y : ℝ) : ℝ :=
  if self.compounding = .continuous then 1 else 1 / (1 + y / self.freqReal)

/-- What the square of a time weighs in the second derivative, with its own correction for compounding. -/
noncomputable def curvature (self : InterestRate ℝ) (y t : ℝ) : ℝ :=
  if self.compounding = .continuous then t * t
  else t * (self.freqReal * t + 1) / (self.freqReal * (1 + y / self.freqReal) ^ 2)

theorem hasDerivAt_base (self : InterestRate ℝ) (y : ℝ) :
    HasDerivAt (fun y : ℝ => 1 + y / self.freqReal) (1 / self.freqReal) y :=
  ((hasDerivAt_id' y).div_const _).const_add 1

theorem hasDerivAt_discount (h : self.Compounds) (ha : self.Admits y) :
    HasDerivAt (fun y => self.discount y t) (-(t * self.weight y * self.discount y t)) y := by
  unfold discount weight
  rcases h with h | h
  · simp only [h, if_true]
    have hlin : HasDerivAt (fun y : ℝ => -(y * t)) (-(1 * t)) y := ((hasDerivAt_id' y).mul_const t).fun_neg
    exact hlin.exp.congr_deriv (by ring)
  · have hbase := ha.resolve_left (by simp [h])
    have hf := (freqReal_pos h).ne'
    simp only [h, reduceCtorEq, if_false]
    have hpow := (hasDerivAt_base self y).rpow_const (p := -(self.freqReal * t)) (.inl hbase.ne')
    apply hpow.congr_deriv
    rw [Real.rpow_sub hbase, Real.rpow_one]
    field_simp

theorem hasDerivAt_weight (h : self.Compounds) (ha : self.Admits y) :
    HasDerivAt (fun y => -(t * self.weight y * self.discount y t)) (self.curvature y t * self.discount y t) y := by
  have hd := hasDerivAt_discount (t := t) h ha
  unfold curvature
  rcases h with h | h
  · simp only [weight, h, if_true, mul_one] at hd ⊢
    exact ((hd.const_mul t).fun_neg).congr_deriv (by ring)
  · have hbase := ha.resolve_left (by simp [h])
    have hf := (freqReal_pos h).ne'
    simp only [weight, h, reduceCtorEq, if_false, one_div] at hd ⊢
    have hw := (((hasDerivAt_base self y).fun_inv hbase.ne').const_mul t).fun_mul hd
    apply hw.fun_neg.congr_deriv
    field_simp
    ring

theorem eventually_admits (h : self.Compounds) (ha : self.Admits y) : ∀ᶠ z in nhds y, self.Admits z := by
  rcases h with h | h
  · exact .of_forall fun z => .inl h
  · have hbase := ha.resolve_left (by simp [h])
    have hcont : Continuous fun z : ℝ => 1 + z / self.freqReal := by fun_prop
    exact (hcont.tendsto y).eventually (lt_mem_nhds hbase) |>.mono fun z hz => .inr hz

end InterestRate

end Itofin
