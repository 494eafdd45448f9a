import Itofin.InterestRate
/-!
# ImpliedRate — conversions between compounding conventions

`implied_rate` and `equivalent_rate` of `interestrate.rs`, with the logarithm as a further parameter.  A convention at a time
has one of three formulas, and the factor and the implied rate are of the same one (`formulas`); over the reals each undoes
the other, so that a chain of conversions leaves the factor (`converts`).
-/
namespace Itofin

/-- `ln`, besides `exp` and `powf`. -/
structure Logarithmic (K : Type) extends Transcendental K where
  ln : K → K

inductive InterestRateError where
  /-- An error of `compound_factor`. -/
  | compound (error : CashFlowError)
  /-- "positive compound factor required" -/
  | nonPositiveCompound
  /-- "non negative time ({t}) required" -/
  | negativeTime
  /-- "positive time ({t}) required" -/
  | nonPositiveTime
  /-- "frequency not allowed for this interest rate" -/
  | frequencyNotAllowed
deriving DecidableEq

/-- What `InterestRate::new` asks of a frequency. -/
def FrequencyAllowed (compounding : Compounding) (frequency : Frequency) : Prop :=
  freqMakesSense compounding → frequency ≠ .once ∧ frequency ≠ .noFrequency

instance (compounding : Compounding) (frequency : Frequency) : Decidable (FrequencyAllowed compounding frequency) :=
  inferInstanceAs (Decidable (_ → _))

namespace InterestRate

variable {K : Type}

def new (rate : K) (yearFractionRef : Date → Date → Date → Date → K) (compounding : Compounding) (frequency : Frequency) :
    Except InterestRateError (InterestRate K) :=
  if h : FrequencyAllowed compounding frequency then .ok ⟨rate, yearFractionRef, compounding, frequency, h⟩
  else .error .frequencyNotAllowed

variable [Field K] [LinearOrder K] (fns : Logarithmic K)

def simpleRate (compound t : K) : K := (compound - 1) / t

def compoundedRate (compound f t : K) : K := (fns.powf compound (1 / (f * t)) - 1) * f

/-- The rate for a factor that is not 1. -/
def rateFor (compound : K) (comp : Compounding) (f t : K) : K :=
  match comp with
  | .simple               => simpleRate compound t
  | .compounded           => compoundedRate fns compound f t
  | .continuous           => fns.ln compound / t
  | .simpleThenCompounded => if t ≤ 1 / f then simpleRate compound t else compoundedRate fns compound f t
  | .compoundedThenSimple => if 1 / f < t then simpleRate compound t else compoundedRate fns compound f t

def impliedRate (compound : K) (resultDc : Date → Date → Date → Date → K) (comp : Compounding) (freq : Frequency) (t : K) :
    Except InterestRateError (InterestRate K) :=
  if compound ≤ 0 then .error .nonPositiveCompound
  else if compound = 1 then
    if t < 0 then .error .negativeTime else new 0 resultDc comp freq
  else if t ≤ 0 then .error .nonPositiveTime
  else new (rateFor fns compound comp (freq.toInt : K) t) resultDc comp freq

def equivalentRate (self : InterestRate K) (comp : Compounding) (freq : Frequency) (t : K) :
    Except InterestRateError (InterestRate K) := do
  let compound ← (self.compoundFactor fns.toTranscendental t).mapError .compound
  impliedRate fns compound self.yearFractionRef comp freq t

/-- One conversion after another, all for the same time. -/
def convert (t : K) : InterestRate K → List (Compounding × Frequency) → Except InterestRateError (InterestRate K) :=
  List.foldlM fun rate convention => rate.equivalentRate fns convention.1 convention.2 t

end InterestRate

/-! ## Over the reals -/

noncomputable def Logarithmic.real : Logarithmic ℝ := ⟨Transcendental.real, Real.log⟩

namespace InterestRate

open Effect

variable {t r c : ℝ} {comp : Compounding} {freq : Frequency} {self self' : InterestRate ℝ}
  {dc : Date → Date → Date → Date → ℝ}

/-- **The three formulas**: a convention at a time has the same one for the factor and for the rate. -/
inductive Formulas (factor : ℝ → Except CashFlowError ℝ) (rate : ℝ → ℝ) (t : ℝ) : Prop where
  | simple (hfactor : ∀ r, factor r = simpleFactor r t) (hrate : ∀ c, rate c = simpleRate c t)
  | compounded (f : ℝ) (hf : 0 < f) (hfactor : ∀ r, factor r = compoundedFactor .real r f t)
      (hrate : ∀ c, rate c = compoundedRate .real c f t)
  | continuous (hfactor : ∀ r, factor r = .ok (Real.exp (r * t))) (hrate : ∀ c, rate c = Real.log c / t)

theorem freqReal_pos_of_allowed (h : freqMakesSense comp = true) (hallowed : FrequencyAllowed comp freq) :
    (0 : ℝ) < freq.toInt := by
  have hpos : 0 < freq.toInt := by
    obtain ⟨honce, hnone⟩ := hallowed h
    cases freq <;> first | decide | contradiction
  exact Int.cast_pos.2 hpos

theorem formulas (self : InterestRate ℝ) (ht : 0 ≤ t) :
    Formulas (fun r => (self.withRate r).compoundFactor .real t)
      (fun c => rateFor .real c self.compounding self.freqReal t) t := by
  obtain ⟨r, dc, comp, freq, hallowed⟩ := self
  unfold compoundFactor rateFor withRate freqReal
  simp only [if_neg ht.not_gt]
  have hf (h : freqMakesSense comp = true) : (0 : ℝ) < freq.toInt := freqReal_pos_of_allowed h hallowed
  cases comp with
  | simple               => exact .simple (fun _ => rfl) (fun _ => rfl)
  | compounded           => exact .compounded _ (hf rfl) (fun _ => rfl) (fun _ => rfl)
  | continuous           => exact .continuous (fun _ => rfl) (fun _ => rfl)
  | simpleThenCompounded =>
    by_cases h : t ≤ 1 / (freq.toInt : ℝ)
    · simp only [if_pos h]
      exact .simple (fun _ => rfl) (fun _ => rfl)
    · simp only [if_neg h]
      exact .compounded _ (hf rfl) (fun _ => rfl) (fun _ => rfl)
  | compoundedThenSimple =>
    by_cases h : 1 / (freq.toInt : ℝ) < t
    · simp only [if_pos h]
      exact .simple (fun _ => rfl) (fun _ => rfl)
    · simp only [if_neg h]
      exact .compounded _ (hf rfl) (fun _ => rfl) (fun _ => rfl)

section Formulas

variable {factor : ℝ → Except CashFlowError ℝ} {rate : ℝ → ℝ} (h : Formulas factor rate t) (ht : 0 < t)
include h ht

/-- A factor is positive, and its rate is the one that it is the factor of. -/
theorem Formulas.rate_eq (hc : factor r = .ok c) : 0 < c ∧ rate c = r := by
  cases h with
  | simple hfactor hrate        =>
    rw [hfactor, simpleFactor] at hc
    split_ifs at hc with hpos
    cases hc
    refine ⟨not_le.1 hpos, ?_⟩
    rw [hrate, simpleRate, add_sub_cancel_left, mul_div_cancel_right₀ _ ht.ne']
  | compounded f hf hfactor hrate =>
    rw [hfactor, compoundedFactor] at hc
    split_ifs at hc with hpos
    cases hc
    have hbase := not_le.1 hpos
    have hroot : ((1 + r / f) ^ (f * t)) ^ (1 / (f * t)) = 1 + r / f := by
      rw [one_div]
      exact Real.rpow_rpow_inv hbase.le (mul_pos hf ht).ne'
    refine ⟨Real.rpow_pos_of_pos hbase _, ?_⟩
    rw [hrate, compoundedRate]
    change (((1 + r / f) ^ (f * t)) ^ (1 / (f * t)) - 1) * f = r
    rw [hroot, add_sub_cancel_left, div_mul_cancel₀ _ hf.ne']
  | continuous hfactor hrate    =>
    rw [hfactor] at hc
    cases hc
    refine ⟨Real.exp_pos _, ?_⟩
    rw [hrate, Real.log_exp, mul_div_cancel_right₀ _ ht.ne']

theorem Formulas.factor_eq (hc : 0 < c) : factor (rate c) = .ok c := by
  cases h with
  | simple hfactor hrate        =>
    have hvalue : 1 + (c - 1) / t * t = c := by
      rw [div_mul_cancel₀ _ ht.ne', add_sub_cancel]
    rw [hfactor, hrate, simpleFactor, simpleRate]
    rw [hvalue, if_neg hc.not_ge]
  | compounded f hf hfactor hrate =>
    have hbase : 1 + (c ^ (1 / (f * t)) - 1) * f / f = c ^ (1 / (f * t)) := by
      rw [mul_div_cancel_right₀ _ hf.ne', add_sub_cancel]
    have hpow : (c ^ (1 / (f * t))) ^ (f * t) = c := by
      rw [one_div]
      exact Real.rpow_inv_rpow hc.le (mul_pos hf ht).ne'
    rw [hfactor, hrate, compoundedFactor, compoundedRate]
    change (if 1 + (c ^ (1 / (f * t)) - 1) * f / f ≤ 0 then _ else
      Except.ok ((1 + (c ^ (1 / (f * t)) - 1) * f / f) ^ (f * t))) = _
    rw [hbase, if_neg (Real.rpow_pos_of_pos hc _).not_ge, hpow]
  | continuous hfactor hrate    =>
    rw [hfactor, hrate, div_mul_cancel₀ _ ht.ne', Real.exp_log hc]

/-- The rate of the factor 1 is 0. -/
theorem Formulas.rate_one : rate 1 = 0 := by
  refine (h.rate_eq ht (r := 0) (c := 1) ?_).2
  cases h with
  | simple hfactor hrate          => simp [hfactor, simpleFactor]
  | compounded f hf hfactor hrate => simp [hfactor, compoundedFactor, Transcendental.real]
  | continuous hfactor hrate      => simp [hfactor]

end Formulas

/-- The implied rate, the case of the factor 1 among the others. -/
theorem impliedRate_eq (ht : 0 < t) (hc : 0 < c) (hallowed : FrequencyAllowed comp freq) :
    impliedRate .real c dc comp freq t = .ok ⟨rateFor .real c comp freq.toInt t, dc, comp, freq, hallowed⟩ := by
  have hone := (formulas ⟨0, dc, comp, freq, hallowed⟩ ht.le).rate_one ht
  unfold impliedRate new
  rw [if_neg hc.not_ge, if_neg ht.not_gt, if_neg ht.not_ge, dif_pos hallowed, dif_pos hallowed]
  split_ifs with h
  · subst h
    change rateFor .real 1 comp freq.toInt t = 0 at hone
    rw [hone]
  · rfl

/-- **Conversions at a time undo each other.** -/
structure Converts (t : ℝ) : Prop where
  implied_factor : ∀ (self : InterestRate ℝ) (c : ℝ), self.compoundFactor .real t = .ok c →
    impliedRate .real c self.yearFractionRef self.compounding self.rawFrequency t = .ok self
  factor_implied : ∀ (c : ℝ), 0 < c → ∀ dc comp freq, FrequencyAllowed comp freq → ∃ self : InterestRate ℝ,
    impliedRate .real c dc comp freq t = .ok self ∧ self.compoundFactor .real t = .ok c
  chains : ∀ (self : InterestRate ℝ) (c : ℝ), self.compoundFactor .real t = .ok c → ∀ chain last,
    (∀ convention ∈ chain ++ [last], FrequencyAllowed convention.1 convention.2) → ∃ self' : InterestRate ℝ,
      convert .real t self (chain ++ [last]) = .ok self' ∧ self'.compoundFactor .real t = .ok c ∧
      self.equivalentRate .real last.1 last.2 t = .ok self'

theorem impliedRate_factor (ht : 0 < t) (h : self.compoundFactor .real t = .ok c) :
    impliedRate .real c self.yearFractionRef self.compounding self.rawFrequency t = .ok self := by
  obtain ⟨hc, hrate⟩ := (formulas self ht.le).rate_eq ht (r := self.rate) h
  rw [impliedRate_eq ht hc self.allowed]
  change rateFor .real c self.compounding self.rawFrequency.toInt t = self.rate at hrate
  rw [hrate]

variable (dc) in
theorem factor_impliedRate (ht : 0 < t) (hc : 0 < c) (hallowed : FrequencyAllowed comp freq) :
    ∃ self : InterestRate ℝ, impliedRate .real c dc comp freq t = .ok self ∧ self.yearFractionRef = dc ∧
      self.compoundFactor .real t = .ok c :=
  ⟨_, impliedRate_eq ht hc hallowed, rfl, (formulas ⟨0, dc, comp, freq, hallowed⟩ ht.le).factor_eq ht hc⟩

theorem equivalentRate_eq (h : self.compoundFactor .real t = .ok c) :
    self.equivalentRate .real comp freq t = impliedRate .real c self.yearFractionRef comp freq t := by
  unfold equivalentRate
  change (self.compoundFactor .real t).mapError _ >>= _ = _
  rw [h]
  rfl

theorem converts_chain (ht : 0 < t) (last : Compounding × Frequency) : ∀ (chain : List (Compounding × Frequency))
    (self : InterestRate ℝ), self.compoundFactor .real t = .ok c →
    (∀ convention ∈ chain ++ [last], FrequencyAllowed convention.1 convention.2) → ∃ self' : InterestRate ℝ,
      convert .real t self (chain ++ [last]) = .ok self' ∧ self'.compoundFactor .real t = .ok c ∧
      self.equivalentRate .real last.1 last.2 t = .ok self' := by
  intro chain
  induction chain with
  | nil =>
    intro self h hallowed
    have hc := ((formulas self ht.le).rate_eq ht (r := self.rate) h).1
    obtain ⟨self', himplied, -, hfactor⟩ := factor_impliedRate self.yearFractionRef ht hc
      (hallowed last List.mem_cons_self)
    have hstep := (equivalentRate_eq h).trans himplied
    refine ⟨self', ?_, hfactor, hstep⟩
    rw [List.nil_append, convert, List.foldlM_cons, hstep]
    rfl
  | cons first chain ih =>
    intro self h hallowed
    have hc := ((formulas self ht.le).rate_eq ht (r := self.rate) h).1
    obtain ⟨next, himplied, hdc, hfactor⟩ := factor_impliedRate self.yearFractionRef ht hc
      (hallowed first List.mem_cons_self)
    obtain ⟨self', hconvert, hfactor', hstep⟩ := ih next hfactor
      (fun convention hmem => hallowed convention (List.mem_cons_of_mem _ hmem))
    refine ⟨self', ?_, hfactor', ?_⟩
    · rw [List.cons_append, convert, List.foldlM_cons, (equivalentRate_eq h).trans himplied]
      exact hconvert
    · rw [equivalentRate_eq h, ← hdc, ← equivalentRate_eq hfactor]
      exact hstep

theorem converts (ht : 0 < t) : Converts t where
  implied_factor _ _ h := impliedRate_factor ht h
  factor_implied c hc dc comp freq hallowed := by
    obtain ⟨self, himplied, -, hfactor⟩ := factor_impliedRate dc ht hc hallowed
    exact ⟨self, himplied, hfactor⟩
  chains self _ h chain last hallowed := converts_chain ht last chain self h hallowed

/-- 10 % simple over two years, by way of a continuous rate, is the rate compounded half-yearly that has the factor 1.2. -/
theorem converts_two : ∃ self' : InterestRate ℝ,
    convert .real 2 ⟨1 / 10, fun _ _ _ _ => 2, .simple, .annual, nofun⟩ ([(.continuous, .annual)] ++ [(.compounded, .semiannual)]) =
      .ok self' ∧ self'.compoundFactor .real 2 = .ok (12 / 10) := by
  have hfactor : (⟨1 / 10, fun _ _ _ _ => 2, .simple, .annual, nofun⟩ : InterestRate ℝ).compoundFactor .real 2 =
      .ok (12 / 10) := by
    norm_num [compoundFactor, simpleFactor]
  obtain ⟨self', hconvert, hc, -⟩ := (converts two_pos).chains _ _ hfactor [(.continuous, .annual)] (.compounded, .semiannual)
    (by decide)
  exact ⟨self', hconvert, hc⟩

end InterestRate

end Itofin
