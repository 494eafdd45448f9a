import Itofin.InterestRate
import Itofin.Time.Period
/-!
# YieldAnalytics — the value of a leg at a yield and its derivatives

`npv_at_yield`, `duration` and `convexity` of `cashflows/cashflows.rs`.  The loops of the three walk a leg by the same terms
(`flowTerm`): the amount of every flow still to come and the time from the one before it.  `Tracks` says what the loops hold
after the same part of a leg; from it the value is a sum of amounts times discount factors at accumulated times, whatever
the rate, and `duration` and `convexity` sum its derivatives.
-/
namespace Itofin

open Effect

namespace CashFlows

/-! ## The loops -/

section Loops

variable {K : Type} [Field K] [LinearOrder K]

/-- `stepwise_discount_time`; `payment_date - 1Y` may leave the supported range. -/
def stepwiseDiscountTime (flow : CashFlow K) (yearFractionRef : Date → Date → Date → Date → K) (npvDate lastDate : Date) :
    Except CashFlowError K :=
  let paymentDate := flow.date
  let reference : Except CashFlowError (Date × Date) := match flow.asCoupon with
    | some coupon => .ok (coupon.referencePeriodStart, coupon.referencePeriodEnd)
    | none        =>
      if lastDate = npvDate then
        match paymentDate.advance (-1) .years with
        | some refStart => .ok (refStart, paymentDate)
        | none          => .error .dateRange
      else .ok (lastDate, paymentDate)
  reference.map fun (refStart, refEnd) => match flow.asCoupon with
    | some coupon =>
      if lastDate ≠ coupon.accrualStartDate then
        let start := coupon.accrualStartDate
        yearFractionRef start paymentDate refStart refEnd - yearFractionRef start lastDate refStart refEnd
      else yearFractionRef lastDate paymentDate refStart refEnd
    | none        => yearFractionRef lastDate paymentDate refStart refEnd

variable (fns : Transcendental K) (yieldRate : InterestRate K) (settings : EventSettings)
  (includeSettlementDateFlows : Option Bool) (settlement npvDate : Date)

/-- The amount and the step of a flow, as the loops of `npv_at_yield` and `discounted_flows` begin; `continue` is `none`. -/
def flowTerm (lastDate : Date) (flow : CashFlow K) : Except CashFlowError (Option (K × K)) :=
  (flow.hasOccurred settings (some settlement) includeSettlementDateFlows).bind fun occurred =>
    if occurred then .ok none
    else
      (flow.tradingExCoupon settings (some settlement)).bind fun exCoupon =>
      (if exCoupon then .ok 0 else flow.amount).bind fun amount =>
      (stepwiseDiscountTime flow yieldRate.yearFractionRef npvDate lastDate).map fun step => some (amount, step)

/-- The variables `npv`, `discount` and `last_date`. -/
structure NpvState (K : Type) where
  npv      : K
  discount : K
  lastDate : Date

def npvTurn (s : NpvState K) (flow : CashFlow K) : Except CashFlowError (NpvState K) :=
  (flowTerm yieldRate settings includeSettlementDateFlows settlement npvDate s.lastDate flow).bind fun term => match term with
    | none                => .ok s
    | some (amount, step) => (yieldRate.discountFactor fns step).map fun factor =>
      ⟨s.npv + amount * (s.discount * factor), s.discount * factor, flow.date⟩

def npvLoop (leg : List (CashFlow K)) : Except CashFlowError (NpvState K) :=
  leg.foldlM (npvTurn fns yieldRate settings includeSettlementDateFlows settlement npvDate) ⟨0, 1, npvDate⟩

/-- The variables `flows`, `t` and `last_date`; a flow is its amount, time and discount factor. -/
structure FlowsState (K : Type) where
  flows    : List (K × K × K)
  t        : K
  lastDate : Date

def flowsTurn (s : FlowsState K) (flow : CashFlow K) : Except CashFlowError (FlowsState K) :=
  (flowTerm yieldRate settings includeSettlementDateFlows settlement npvDate s.lastDate flow).bind fun term => match term with
    | none                => .ok s
    | some (amount, step) => (yieldRate.discountFactor fns (s.t + step)).map fun discount =>
      ⟨s.flows ++ [(amount, s.t + step, discount)], s.t + step, flow.date⟩

def flowsLoop (leg : List (CashFlow K)) : Except CashFlowError (FlowsState K) :=
  leg.foldlM (flowsTurn fns yieldRate settings includeSettlementDateFlows settlement npvDate) ⟨[], 0, npvDate⟩

end Loops

/-! ## The analytics -/

section Analytics

variable {K : Type} [Field K] [LinearOrder K]

def yieldDates (settings : EventSettings) (settlementDate npvDate : Option Date) : Except CashFlowError (Date × Date) :=
  (referenceDate settings settlementDate).map fun settlement => (settlement, npvDate.getD settlement)

inductive Duration where
  | simple | macaulay | modified
deriving DecidableEq

variable (fns : Transcendental K) (leg : List (CashFlow K)) (yieldRate : InterestRate K) (settings : EventSettings)
  (includeSettlementDateFlows : Option Bool) (settlementDate npvDate : Option Date)

def npvAtYield : Except CashFlowError K :=
  if leg.isEmpty then .ok 0
  else
    (yieldDates settings settlementDate npvDate).bind fun (settlement, npvDate) =>
      (npvLoop fns yieldRate settings includeSettlementDateFlows settlement npvDate leg).map NpvState.npv

def discountedFlows : Except CashFlowError (List (K × K × K)) :=
  (yieldDates settings settlementDate npvDate).bind fun (settlement, npvDate) =>
    (flowsLoop fns yieldRate settings includeSettlementDateFlows settlement npvDate leg).map FlowsState.flows

/-- The convention a hybrid yield applies at a time. -/
def effectiveCompounding (compounding : Compounding) (t n : K) : Compounding :=
  match compounding with
  | .simpleThenCompounded => if t ≤ 1 / n then .simple else .compounded
  | .compoundedThenSimple => if 1 / n < t then .simple else .compounded
  | other                 => other

def frequencyOf : K := (yieldRate.frequency.toInt : K)

def presentValue (flows : List (K × K × K)) : K := (flows.map fun (amount, _, discount) => amount * discount).sum

def simpleDuration (flows : List (K × K × K)) : K :=
  if presentValue flows = 0 then 0
  else (flows.map fun (amount, t, discount) => t * amount * discount).sum / presentValue flows

/-- What a flow subtracts from the derivative. -/
def derivativeTerm (t discount : K) : K :=
  let n := frequencyOf yieldRate
  match effectiveCompounding yieldRate.compounding t n with
  | .simple     => discount * discount * t
  | .continuous => discount * t
  | _           => t * discount / (1 + yieldRate.rate / n)

def modifiedDuration (flows : List (K × K × K)) : K :=
  if presentValue flows = 0 then 0
  else -(flows.map fun (amount, t, discount) => -(amount * derivativeTerm yieldRate t discount)).sum / presentValue flows

def duration (durationType : Duration) : Except CashFlowError K :=
  if leg.isEmpty then .ok 0
  else
    (discountedFlows fns leg yieldRate settings includeSettlementDateFlows settlementDate npvDate).bind fun flows =>
      match durationType with
      | .simple   => .ok (simpleDuration flows)
      | .modified => .ok (modifiedDuration yieldRate flows)
      | .macaulay =>
        if yieldRate.compounding = .compounded then
          .ok ((1 + yieldRate.rate / frequencyOf yieldRate) * modifiedDuration yieldRate flows)
        else .error (.other "compounded rate required for a Macaulay duration")

/-- What a flow adds to the second derivative. -/
def secondDerivativeTerm (t discount : K) : K :=
  let n := frequencyOf yieldRate
  match effectiveCompounding yieldRate.compounding t n with
  | .simple     => ((2 : ℕ) : K) * discount ^ 3 * t * t
  | .continuous => discount * t * t
  | _           => discount * t * (n * t + 1) / (n * (1 + yieldRate.rate / n) ^ 2)

def convexity : Except CashFlowError K :=
  if leg.isEmpty then .ok 0
  else
    (discountedFlows fns leg yieldRate settings includeSettlementDateFlows settlementDate npvDate).map fun flows =>
      if presentValue flows = 0 then 0
      else (flows.map fun (amount, t, discount) => amount * secondDerivativeTerm yieldRate t discount).sum / presentValue flows

end Analytics

/-! ## What the loops walk over -/

section Walk

open InterestRate Itofin.Transcendental

variable {leg : List (CashFlow ℝ)} {yieldRate : InterestRate ℝ} {settings : EventSettings}
  {includeSettlementDateFlows : Option Bool} {settlement npvDate : Date} {y : ℝ} {flow : CashFlow ℝ}

/-- The terms walked over, amounts and accumulated times, whatever the rate. -/
structure WalkState where
  terms    : List (ℝ × ℝ)
  t        : ℝ
  lastDate : Date

variable {w w' : WalkState} {s s' : NpvState ℝ} {fs fs' : FlowsState ℝ}

variable (yieldRate settings includeSettlementDateFlows settlement npvDate) in
noncomputable def walkTurn (w : WalkState) (flow : CashFlow ℝ) : Except CashFlowError WalkState :=
  (flowTerm yieldRate settings includeSettlementDateFlows settlement npvDate w.lastDate flow).bind fun term => match term with
    | none                => .ok w
    | some (amount, step) =>
      if step < 0 then .error .negativeTime else .ok ⟨w.terms ++ [(amount, w.t + step)], w.t + step, flow.date⟩

/-- The value of the terms at a rate. -/
noncomputable def value (yieldRate : InterestRate ℝ) (terms : List (ℝ × ℝ)) (y : ℝ) : ℝ :=
  (terms.map fun p => p.1 * yieldRate.discount y p.2).sum

/-- **The loops after a part of the leg**: both discount at the accumulated time. -/
structure Tracks (yieldRate : InterestRate ℝ) (y : ℝ) (w : WalkState) (s : NpvState ℝ) (fs : FlowsState ℝ) : Prop where
  lastDate  : s.lastDate = w.lastDate
  lastDate' : fs.lastDate = w.lastDate
  nonneg    : 0 ≤ w.t
  time      : fs.t = w.t
  discount  : s.discount = yieldRate.discount y w.t
  npv       : s.npv = value yieldRate w.terms y
  flows     : fs.flows = w.terms.map fun p => (p.1, p.2, yieldRate.discount y p.2)
  times     : ∀ p ∈ w.terms, 0 ≤ p.2

theorem tracks_init : Tracks yieldRate y ⟨[], 0, npvDate⟩ ⟨0, 1, npvDate⟩ ⟨[], 0, npvDate⟩ :=
  ⟨rfl, rfl, le_rfl, rfl, discount_zero.symm, rfl, rfl, List.forall_mem_nil _⟩

theorem walkTurn_terms (h : walkTurn yieldRate settings includeSettlementDateFlows settlement npvDate w flow = .ok w') :
    w' = w ∨ w'.terms ≠ [] := by
  obtain ⟨term, -, h⟩ := bind_eq_ok.1 h
  rcases term with _ | ⟨amount, step⟩
  · exact .inl (Except.ok.inj h).symm
  · dsimp only at h
    split_ifs at h with hstep
    obtain rfl := Except.ok.inj h
    exact .inr (by simp)

/-- **One turn**: where the terms go on, both loops do. -/
theorem Tracks.turn (h : Tracks yieldRate y w s fs) (hc : yieldRate.Compounds)
    (hw : walkTurn yieldRate settings includeSettlementDateFlows settlement npvDate w flow = .ok w')
    (ha : w'.terms ≠ [] → yieldRate.Admits y) :
    ∃ s' fs', npvTurn real (yieldRate.withRate y) settings includeSettlementDateFlows settlement npvDate s flow = .ok s' ∧
      flowsTurn real (yieldRate.withRate y) settings includeSettlementDateFlows settlement npvDate fs flow = .ok fs' ∧
      Tracks yieldRate y w' s' fs' := by
  obtain ⟨term, hterm, hw⟩ := bind_eq_ok.1 hw
  have hsame : ∀ last, flowTerm (yieldRate.withRate y) settings includeSettlementDateFlows settlement npvDate last flow =
      flowTerm yieldRate settings includeSettlementDateFlows settlement npvDate last flow := fun _ => rfl
  unfold npvTurn flowsTurn
  rw [h.lastDate, h.lastDate', hsame, hterm]
  rcases term with _ | ⟨amount, step⟩
  · obtain rfl := Except.ok.inj hw
    exact ⟨s, fs, rfl, rfl, h⟩
  · dsimp only at hw
    split_ifs at hw with hstep
    obtain rfl := Except.ok.inj hw
    have hstep := not_lt.1 hstep
    have ha := ha (by simp)
    have ht : 0 ≤ w.t + step := add_nonneg h.nonneg hstep
    have hd₁ := discountFactor_eq hc ha hstep
    have hd₂ := discountFactor_eq hc ha ht
    refine ⟨⟨s.npv + amount * (s.discount * yieldRate.discount y step), s.discount * yieldRate.discount y step, flow.date⟩,
      ⟨fs.flows ++ [(amount, w.t + step, yieldRate.discount y (w.t + step))], w.t + step, flow.date⟩, ?_, ?_, ?_⟩
    · simp only [Except.bind, hd₁, Except.map]
    · simp only [Except.bind, h.time, hd₂, Except.map]
    · have hchain : s.discount * yieldRate.discount y step = yieldRate.discount y (w.t + step) := by
        rw [h.discount, discount_add ha]
      refine ⟨rfl, rfl, ht, rfl, hchain, ?_, ?_, ?_⟩
      · simp [value, h.npv, hchain]
      · simp [h.flows]
      · intro p hp
        rcases List.mem_append.1 hp with hp | hp
        · exact h.times p hp
        · rw [List.mem_singleton.1 hp]
          exact ht

theorem walk_terms : ∀ (leg : List (CashFlow ℝ)) {w : WalkState},
    leg.foldlM (walkTurn yieldRate settings includeSettlementDateFlows settlement npvDate) w = .ok w' →
    w.terms ≠ [] → w'.terms ≠ []
  | [], w, h, hw          => by
    obtain rfl := Except.ok.inj h
    exact hw
  | flow :: leg, w, h, hw => by
    rw [List.foldlM_cons] at h
    obtain ⟨w₁, h₁, h⟩ := bind_eq_ok.1 h
    apply walk_terms leg h
    rcases walkTurn_terms h₁ with rfl | hne
    · exact hw
    · exact hne

/-- **A whole run.** -/
theorem Tracks.run (hc : yieldRate.Compounds) : ∀ (leg : List (CashFlow ℝ)) {w : WalkState} {s : NpvState ℝ}
    {fs : FlowsState ℝ}, Tracks yieldRate y w s fs →
    leg.foldlM (walkTurn yieldRate settings includeSettlementDateFlows settlement npvDate) w = .ok w' →
    (w'.terms ≠ [] → yieldRate.Admits y) →
    ∃ s' fs',
      leg.foldlM (npvTurn real (yieldRate.withRate y) settings includeSettlementDateFlows settlement npvDate) s = .ok s' ∧
      leg.foldlM (flowsTurn real (yieldRate.withRate y) settings includeSettlementDateFlows settlement npvDate) fs = .ok fs' ∧
      Tracks yieldRate y w' s' fs'
  | [], w, s, fs, h, hw, _           => by
    obtain rfl := Except.ok.inj hw
    exact ⟨s, fs, rfl, rfl, h⟩
  | flow :: leg, w, s, fs, h, hw, ha => by
    rw [List.foldlM_cons] at hw
    obtain ⟨w₁, h₁, hw⟩ := bind_eq_ok.1 hw
    obtain ⟨s₁, fs₁, hs₁, hfs₁, ht₁⟩ := h.turn hc h₁ fun hne => ha (walk_terms leg hw hne)
    obtain ⟨s', fs', hs', hfs', ht'⟩ := Tracks.run hc leg ht₁ hw ha
    refine ⟨s', fs', ?_, ?_, ht'⟩
    · rw [List.foldlM_cons, hs₁]
      exact hs'
    · rw [List.foldlM_cons, hfs₁]
      exact hfs'

theorem walk_of_npv (hc : yieldRate.Compounds) : ∀ (leg : List (CashFlow ℝ)) {w : WalkState} {s : NpvState ℝ},
    s.lastDate = w.lastDate → (w.terms ≠ [] → yieldRate.Admits yieldRate.rate) →
    leg.foldlM (npvTurn real yieldRate settings includeSettlementDateFlows settlement npvDate) s = .ok s' →
    ∃ w', leg.foldlM (walkTurn yieldRate settings includeSettlementDateFlows settlement npvDate) w = .ok w' ∧
      (w'.terms ≠ [] → yieldRate.Admits yieldRate.rate)
  | [], w, s, _, ha, _             => ⟨w, rfl, ha⟩
  | flow :: leg, w, s, hlast, ha, h => by
    rw [List.foldlM_cons] at h
    obtain ⟨s₁, h₁, h⟩ := bind_eq_ok.1 h
    obtain ⟨term, hterm, h₁⟩ := bind_eq_ok.1 h₁
    rw [hlast] at hterm
    rcases term with _ | ⟨amount, step⟩
    · obtain rfl := Except.ok.inj h₁
      obtain ⟨w', hw', ha'⟩ := walk_of_npv hc leg hlast ha h
      refine ⟨w', ?_, ha'⟩
      rw [List.foldlM_cons, walkTurn, hterm]
      exact hw'
    · obtain ⟨factor, hfactor, rfl⟩ := map_eq_ok.1 h₁
      obtain ⟨hadmits, hstep⟩ := discountFactor_admits (y := yieldRate.rate) hc hfactor
      obtain ⟨w', hw', ha'⟩ := walk_of_npv (w := ⟨w.terms ++ [(amount, w.t + step)], w.t + step, flow.date⟩) hc leg
        rfl (fun _ => hadmits) h
      refine ⟨w', ?_, ha'⟩
      rw [List.foldlM_cons, walkTurn, hterm]
      dsimp only [Except.bind]
      rw [if_neg hstep.not_gt]
      exact hw'

end Walk

/-! ## The derivatives -/

section Derivatives

open InterestRate Itofin.Transcendental

variable {leg : List (CashFlow ℝ)} {yieldRate : InterestRate ℝ} {settings : EventSettings}
  {includeSettlementDateFlows : Option Bool} {settlementDate npvDate : Option Date} {v y : ℝ}

noncomputable def slope (yieldRate : InterestRate ℝ) (terms : List (ℝ × ℝ)) (y : ℝ) : ℝ :=
  (terms.map fun p => p.1 * -(p.2 * yieldRate.weight y * yieldRate.discount y p.2)).sum

noncomputable def bend (yieldRate : InterestRate ℝ) (terms : List (ℝ × ℝ)) (y : ℝ) : ℝ :=
  (terms.map fun p => p.1 * (yieldRate.curvature y p.2 * yieldRate.discount y p.2)).sum

theorem hasDerivAt_sum (f : ℝ → ℝ → ℝ) (f' : ℝ → ℝ) : ∀ (terms : List (ℝ × ℝ)),
    (∀ t, HasDerivAt (fun y => f y t) (f' t) y) →
    HasDerivAt (fun y => (terms.map fun p => p.1 * f y p.2).sum) (terms.map fun p => p.1 * f' p.2).sum y
  | [], _         => by simpa using hasDerivAt_const y (0 : ℝ)
  | p :: terms, h => by
    simp only [List.map_cons, List.sum_cons]
    exact ((h p.2).const_mul p.1).fun_add (hasDerivAt_sum f f' terms h)

theorem hasDerivAt_value (terms : List (ℝ × ℝ)) (hc : yieldRate.Compounds) (ha : yieldRate.Admits y) :
    HasDerivAt (value yieldRate terms) (slope yieldRate terms y) y :=
  hasDerivAt_sum _ (fun t => -(t * yieldRate.weight y * yieldRate.discount y t)) terms fun _ => hasDerivAt_discount hc ha

theorem hasDerivAt_slope (terms : List (ℝ × ℝ)) (hc : yieldRate.Compounds) (ha : yieldRate.Admits y) :
    HasDerivAt (slope yieldRate terms) (bend yieldRate terms y) y :=
  hasDerivAt_sum (fun y t => -(t * yieldRate.weight y * yieldRate.discount y t))
    (fun t => yieldRate.curvature y t * yieldRate.discount y t) terms fun _ => hasDerivAt_weight hc ha

theorem frequencyOf_eq (h : yieldRate.compounding = .compounded) : frequencyOf yieldRate = yieldRate.freqReal := by
  simp [frequencyOf, frequency, freqMakesSense, h, freqReal]

theorem derivativeTerm_eq (hc : yieldRate.Compounds) (t d : ℝ) :
    derivativeTerm yieldRate t d = t * yieldRate.weight yieldRate.rate * d := by
  unfold derivativeTerm InterestRate.weight
  rcases hc with h | h
  · simp only [h, effectiveCompounding, if_true]
    ring
  · simp only [h, effectiveCompounding, frequencyOf_eq h, reduceCtorEq, if_false]
    ring

theorem secondDerivativeTerm_eq (hc : yieldRate.Compounds) (t d : ℝ) :
    secondDerivativeTerm yieldRate t d = yieldRate.curvature yieldRate.rate t * d := by
  unfold secondDerivativeTerm curvature
  rcases hc with h | h
  · simp only [h, effectiveCompounding, if_true]
    ring
  · simp only [h, effectiveCompounding, frequencyOf_eq h, reduceCtorEq, if_false]
    ring

/-- The flows of a rate are its terms, discounted. -/
noncomputable def flowsAt (yieldRate : InterestRate ℝ) (terms : List (ℝ × ℝ)) : List (ℝ × ℝ × ℝ) :=
  terms.map fun p => (p.1, p.2, yieldRate.discount yieldRate.rate p.2)

theorem presentValue_flowsAt (terms : List (ℝ × ℝ)) :
    presentValue (flowsAt yieldRate terms) = value yieldRate terms yieldRate.rate := by
  simp [presentValue, flowsAt, value, Function.comp_def]

theorem neg_modifiedDuration_mul (hc : yieldRate.Compounds) (terms : List (ℝ × ℝ))
    (hv : presentValue (flowsAt yieldRate terms) ≠ 0) :
    -modifiedDuration yieldRate (flowsAt yieldRate terms) * presentValue (flowsAt yieldRate terms) =
      slope yieldRate terms yieldRate.rate := by
  rw [modifiedDuration, if_neg hv, neg_mul, div_mul_cancel₀ _ hv, neg_neg]
  simp [flowsAt, slope, Function.comp_def, derivativeTerm_eq hc]

/-- What is read off the terms of a leg at the rate of the yield. -/
theorem analytics_of_walk (hc : yieldRate.Compounds) (terms : List (ℝ × ℝ)) (ha : terms ≠ [] → yieldRate.Admits yieldRate.rate) :
    (∀ᶠ y in nhds yieldRate.rate, HasDerivAt (value yieldRate terms) (slope yieldRate terms y) y) ∧
      HasDerivAt (slope yieldRate terms) (bend yieldRate terms yieldRate.rate) yieldRate.rate ∧
      (∀ᶠ y in nhds yieldRate.rate, terms ≠ [] → yieldRate.Admits y) := by
  rcases eq_or_ne terms [] with rfl | hne
  · refine ⟨.of_forall fun y => ?_, ?_, .of_forall fun y h => absurd rfl h⟩
    · exact hasDerivAt_const y (0 : ℝ)
    · exact hasDerivAt_const yieldRate.rate (0 : ℝ)
  · have heventually := eventually_admits hc (ha hne)
    exact ⟨heventually.mono fun y hy => hasDerivAt_value terms hc hy, hasDerivAt_slope terms hc (ha hne),
      heventually.mono fun y hy _ => hy⟩

theorem walk_prefix {settlement npvDate : Date} {w' : WalkState} : ∀ (pre post : List (CashFlow ℝ)) {w : WalkState},
    (pre ++ post).foldlM (walkTurn yieldRate settings includeSettlementDateFlows settlement npvDate) w = .ok w' →
    ∃ w₁, pre.foldlM (walkTurn yieldRate settings includeSettlementDateFlows settlement npvDate) w = .ok w₁ ∧
      (w₁.terms ≠ [] → w'.terms ≠ [])
  | pre, post, w, h => by
    rw [List.foldlM_append] at h
    obtain ⟨w₁, h₁, h⟩ := bind_eq_ok.1 h
    exact ⟨w₁, h₁, walk_terms post h⟩

/-- **The analytics of a leg at a yield agree.**  The chained discount factors of `npv_at_yield` are those of the accumulated
times, after every part of the leg; near the yield the value is a function of the rate with two derivatives, which are
those that the modified duration and the convexity give, unless the value is zero, when both are zero. -/
theorem yield_analytics_agree (hc : yieldRate.Compounds)
    (hnpv : npvAtYield real leg yieldRate settings includeSettlementDateFlows settlementDate npvDate = .ok v) :
    (∀ dates, yieldDates settings settlementDate npvDate = .ok dates → ∀ pre, pre <+: leg → ∃ s fs,
      npvLoop real yieldRate settings includeSettlementDateFlows dates.1 dates.2 pre = .ok s ∧
      flowsLoop real yieldRate settings includeSettlementDateFlows dates.1 dates.2 pre = .ok fs ∧
      s.npv = presentValue fs.flows ∧ s.lastDate = fs.lastDate ∧
      (fs.flows ≠ [] → yieldRate.discountFactor real fs.t = .ok s.discount) ∧
      ∀ flow ∈ fs.flows, yieldRate.discountFactor real flow.2.1 = .ok flow.2.2) ∧
    ∃ D C F F', ∃ F'' : ℝ,
      duration real leg yieldRate settings includeSettlementDateFlows settlementDate npvDate .modified = .ok D ∧
      convexity real leg yieldRate settings includeSettlementDateFlows settlementDate npvDate = .ok C ∧
      (∀ᶠ y in nhds yieldRate.rate, npvAtYield real leg (yieldRate.withRate y) settings includeSettlementDateFlows
        settlementDate npvDate = .ok (F y)) ∧
      (∀ᶠ y in nhds yieldRate.rate, HasDerivAt F (F' y) y) ∧ HasDerivAt F' F'' yieldRate.rate ∧
      (v ≠ 0 → -D * v = F' yieldRate.rate ∧ C * v = F'') ∧ (v = 0 → D = 0 ∧ C = 0) := by
  rcases eq_or_ne leg [] with rfl | hleg
  · obtain rfl := Except.ok.inj hnpv
    refine ⟨fun dates _ pre hpre => ?_, 0, 0, 0, 0, 0, rfl, rfl, .of_forall fun y => rfl,
      .of_forall fun y => hasDerivAt_const y 0, hasDerivAt_const _ 0, fun h => absurd rfl h, fun _ => ⟨rfl, rfl⟩⟩
    obtain rfl := List.prefix_nil.1 hpre
    exact ⟨_, _, rfl, rfl, rfl, rfl, fun h => absurd rfl h, List.forall_mem_nil _⟩
  have hempty : leg.isEmpty = false := by simpa using hleg
  have hunfold : ∀ y, npvAtYield real leg (yieldRate.withRate y) settings includeSettlementDateFlows settlementDate npvDate =
      (yieldDates settings settlementDate npvDate).bind fun dates =>
        (npvLoop real (yieldRate.withRate y) settings includeSettlementDateFlows dates.1 dates.2 leg).map NpvState.npv :=
    fun y => by rw [npvAtYield, hempty]; rfl
  obtain ⟨dates, hdates, hrun⟩ := bind_eq_ok.1 ((hunfold yieldRate.rate).symm.trans hnpv)
  obtain ⟨s, hs, rfl⟩ := map_eq_ok.1 hrun
  obtain ⟨w, hw, ha⟩ := walk_of_npv (w := ⟨[], 0, dates.2⟩) hc leg rfl (fun h => absurd rfl h) hs
  obtain ⟨s', fs, hs', hfs, htracks⟩ := tracks_init.run hc leg hw ha
  obtain rfl : s = s' := Except.ok.inj (hs.symm.trans hs')
  obtain ⟨hslope, hbend, hadmits⟩ := analytics_of_walk hc w.terms ha
  have hflows : fs.flows = flowsAt yieldRate w.terms := htracks.flows
  have hvalue : s.npv = presentValue (flowsAt yieldRate w.terms) := by rw [htracks.npv, presentValue_flowsAt]
  have hdiscounted : discountedFlows real leg yieldRate settings includeSettlementDateFlows settlementDate npvDate =
      .ok (flowsAt yieldRate w.terms) := by
    rw [discountedFlows, hdates, ← hflows]
    exact congrArg (Except.map FlowsState.flows) hfs
  have hduration : duration real leg yieldRate settings includeSettlementDateFlows settlementDate npvDate .modified =
      .ok (modifiedDuration yieldRate (flowsAt yieldRate w.terms)) := by
    rw [duration, hempty, hdiscounted]
    rfl
  have hconvexity : convexity real leg yieldRate settings includeSettlementDateFlows settlementDate npvDate =
      .ok (if presentValue (flowsAt yieldRate w.terms) = 0 then 0
        else ((flowsAt yieldRate w.terms).map fun (amount, t, discount) =>
          amount * secondDerivativeTerm yieldRate t discount).sum / presentValue (flowsAt yieldRate w.terms)) := by
    rw [convexity, hempty, hdiscounted]
    rfl
  refine ⟨fun dates' hdates' pre hpre => ?_, _, _, value yieldRate w.terms, slope yieldRate w.terms,
    bend yieldRate w.terms yieldRate.rate, hduration, hconvexity, ?_, hslope, hbend, fun hv => ?_, fun hv => ?_⟩
  · obtain rfl : dates = dates' := Except.ok.inj (hdates.symm.trans hdates')
    obtain ⟨post, rfl⟩ := hpre
    obtain ⟨w₁, hw₁, hne⟩ := walk_prefix pre post hw
    obtain ⟨s₁, fs₁, hs₁, hfs₁, ht₁⟩ := tracks_init.run hc pre hw₁ fun h => ha (hne h)
    refine ⟨s₁, fs₁, hs₁, hfs₁, ?_, ht₁.lastDate.trans ht₁.lastDate'.symm, fun hflows => ?_, fun flow hflow => ?_⟩
    · rw [ht₁.npv, ht₁.flows]
      exact (presentValue_flowsAt w₁.terms).symm
    · have hadmit := ha (hne (by rintro h; rw [ht₁.flows, h] at hflows; exact hflows rfl))
      rw [ht₁.time, ht₁.discount]
      exact discountFactor_eq hc hadmit ht₁.nonneg
    · rw [ht₁.flows] at hflow
      obtain ⟨p, hp, rfl⟩ := List.mem_map.1 hflow
      exact discountFactor_eq hc (ha (hne (List.ne_nil_of_mem hp))) (ht₁.times p hp)
  · refine hadmits.mono fun y hy => ?_
    obtain ⟨sy, fsy, hsy, hfsy, hty⟩ := tracks_init.run hc leg hw hy
    rw [hunfold, hdates, ← hty.npv]
    exact congrArg (Except.map NpvState.npv) hsy
  · rw [hvalue] at hv ⊢
    refine ⟨neg_modifiedDuration_mul hc w.terms hv, ?_⟩
    rw [if_neg hv, div_mul_cancel₀ _ hv]
    simp [flowsAt, bend, Function.comp_def, secondDerivativeTerm_eq hc]
  · rw [hvalue] at hv
    exact ⟨if_pos hv, if_pos hv⟩

/-! ## Two flows a year apart -/

def settlementDay : Date := ⟨42642, by decide⟩

def firstDay : Date := ⟨43007, by decide⟩

def secondDay : Date := ⟨43372, by decide⟩

/-- A continuous rate on a year of 365 days. -/
noncomputable def continuousRate (rate : ℝ) : InterestRate ℝ where
  rate := rate
  yearFractionRef d₁ d₂ _ _ := ((d₂.serialNumber - d₁.serialNumber : ℤ) : ℝ) / 365
  compounding := .continuous
  rawFrequency := .annual
  allowed := by decide

noncomputable def yearApart (amount : ℝ) : List (CashFlow ℝ) :=
  [⟨firstDay, .ok 1, none, none⟩, ⟨secondDay, .ok amount, none, none⟩]

def noSettings : EventSettings := ⟨none, none, false⟩

theorem occurred_yearApart (d : Date) (hd : d = firstDay ∨ d = secondDay) :
    cashFlowHasOccurred d noSettings (some settlementDay) none = .ok false := by
  rcases hd with rfl | rfl <;> decide +kernel

theorem flowTerm_yearApart (amount y : ℝ) :
    flowTerm (continuousRate y) noSettings none settlementDay settlementDay settlementDay
        ⟨firstDay, .ok 1, none, none⟩ = .ok (some (1, 1)) ∧
      flowTerm (continuousRate y) noSettings none settlementDay settlementDay firstDay
        ⟨secondDay, .ok amount, none, none⟩ = .ok (some (amount, 1)) := by
  have hadvance : firstDay.advance (-1) .years = some settlementDay := by decide +kernel
  have hne : firstDay ≠ settlementDay := by decide
  have h₁ := occurred_yearApart firstDay (.inl rfl)
  have h₂ := occurred_yearApart secondDay (.inr rfl)
  constructor
  · simp only [flowTerm, CashFlow.hasOccurred, h₁, Except.bind, CashFlow.tradingExCoupon, stepwiseDiscountTime, hadvance,
      Except.map, continuousRate]
    norm_num [firstDay, settlementDay]
  · simp only [flowTerm, CashFlow.hasOccurred, h₂, Except.bind, CashFlow.tradingExCoupon, stepwiseDiscountTime, if_neg hne,
      Except.map, continuousRate]
    norm_num [firstDay, secondDay]

theorem discountFactor_continuousRate (y : ℝ) {t : ℝ} (ht : 0 ≤ t) :
    (continuousRate y).discountFactor real t = .ok (Real.exp (-(t * y))) := by
  have h : ((continuousRate y).withRate y).discountFactor real t = .ok ((continuousRate y).discount y t) :=
    discountFactor_eq (.inl rfl) (.inl rfl) ht
  simpa [discount, continuousRate, withRate, mul_comm] using h

theorem npvAtYield_yearApart (amount y : ℝ) :
    npvAtYield real (yearApart amount) (continuousRate y) noSettings none (some settlementDay) none =
      .ok (Real.exp (-y) + amount * (Real.exp (-y) * Real.exp (-y))) := by
  obtain ⟨h₁, h₂⟩ := flowTerm_yearApart amount y
  have hd := discountFactor_continuousRate y zero_le_one
  rw [one_mul] at hd
  unfold npvAtYield npvLoop yearApart
  simp [yieldDates, referenceDate, npvTurn, h₁, h₂, hd, Except.bind, Except.map, bind, pure, Except.pure]

theorem duration_yearApart :
    duration real (yearApart (-1)) (continuousRate 0) noSettings none (some settlementDay) none .modified = .ok 0 := by
  obtain ⟨h₁, h₂⟩ := flowTerm_yearApart (-1) 0
  have hd₁ := discountFactor_continuousRate 0 zero_le_one
  have hd₂ := discountFactor_continuousRate 0 (show (0 : ℝ) ≤ 1 + 1 by norm_num)
  have hflows : discountedFlows real (yearApart (-1)) (continuousRate 0) noSettings none (some settlementDay) none =
      .ok [(1, 1, 1), (-1, 1 + 1, 1)] := by
    unfold discountedFlows flowsLoop yearApart
    simp [yieldDates, referenceDate, flowsTurn, h₁, h₂, hd₁, hd₂, Except.bind, Except.map, bind, pure, Except.pure]
  have hworthless : presentValue [((1 : ℝ), (1 : ℝ), (1 : ℝ)), (-1, 1 + 1, 1)] = 0 := by norm_num [presentValue]
  rw [duration, hflows, if_neg (by simp [yearApart])]
  exact congrArg Except.ok (if_pos hworthless)

/-- **Where the value is zero the duration is reported as zero**, whatever the derivative. -/
theorem duration_worthless :
    npvAtYield real (yearApart (-1)) (continuousRate 0) noSettings none (some settlementDay) none = .ok 0 ∧
    duration real (yearApart (-1)) (continuousRate 0) noSettings none (some settlementDay) none .modified = .ok 0 ∧
    ∀ F : ℝ → ℝ, (∀ y, npvAtYield real (yearApart (-1)) ((continuousRate 0).withRate y) noSettings none
      (some settlementDay) none = .ok (F y)) → ¬ HasDerivAt F (-0 * 0) 0 := by
  have hzero : npvAtYield real (yearApart (-1)) (continuousRate 0) noSettings none (some settlementDay) none = .ok 0 := by
    rw [npvAtYield_yearApart]
    norm_num
  refine ⟨hzero, duration_yearApart, fun F hF hderiv => ?_⟩
  have hvalue : F = fun y => Real.exp (-y) + -1 * (Real.exp (-y) * Real.exp (-y)) :=
    funext fun y => Except.ok.inj ((hF y).symm.trans (npvAtYield_yearApart (-1) y))
  have hexp : HasDerivAt (fun y : ℝ => Real.exp (-y)) (-1) 0 := by
    simpa using (hasDerivAt_neg (0 : ℝ)).exp
  have htrue := hexp.fun_add ((hexp.fun_mul hexp).const_mul (-1))
  have := hderiv.unique (hvalue ▸ htrue)
  norm_num at this

/-- A leg worth two has the derivatives that its duration and its convexity give. -/
theorem yield_analytics_agree_yearApart : ∃ D C F F', ∃ F'' : ℝ,
    duration real (yearApart 1) (continuousRate 0) noSettings none (some settlementDay) none .modified = .ok D ∧
    convexity real (yearApart 1) (continuousRate 0) noSettings none (some settlementDay) none = .ok C ∧
    (∀ᶠ y in nhds 0, npvAtYield real (yearApart 1) ((continuousRate 0).withRate y) noSettings none
      (some settlementDay) none = .ok (F y)) ∧
    (∀ᶠ y in nhds 0, HasDerivAt F (F' y) y) ∧ HasDerivAt F' F'' 0 ∧ -D * 2 = F' 0 ∧ C * 2 = F'' := by
  have htwo : npvAtYield real (yearApart 1) (continuousRate 0) noSettings none (some settlementDay) none = .ok 2 := by
    rw [npvAtYield_yearApart]
    norm_num
  obtain ⟨-, D, C, F, F', F'', hD, hC, hF, hF', hF'', hvalue, -⟩ := yield_analytics_agree (.inl rfl) htwo
  obtain ⟨hslope, hbend⟩ := hvalue two_ne_zero
  exact ⟨D, C, F, F', F'', hD, hC, hF, hF', hF'', hslope, hbend⟩

end Derivatives

end CashFlows

end Itofin
