import Mathlib.Data.List.Sort
import Itofin.Lib.Effect
import Itofin.Time.Date
/-!
# CashFlow — flows of a leg, occurred or still to come

The events of `event.rs` and the flows of `cashflow.rs`.  A flow has occurred or not by its date alone, so on the dates of a
leg in order occurrence splits the leg once (`occurred_mono`).
-/
namespace Itofin

open Effect

inductive CashFlowError where
  /-- "no evaluation date set: an event needs a reference date" -/
  | noReferenceDate
  /-- "negative time ({t}) not allowed" -/
  | negativeTime
  /-- "non-positive compound factor ({factor}) for rate {r} at time {t}" -/
  | nonPositiveFactor
  /-- "non-positive compounding base ({base}) for rate {r} at frequency {f}" -/
  | nonPositiveBase
  /-- A date past the supported range, a panic of the source. -/
  | dateRange
  /-- What a flow reports that cannot be priced. -/
  | other (text : String)
deriving DecidableEq

/-- The three settings that occurrence reads. -/
structure EventSettings where
  evaluationDate             : Option Date
  includeTodaysCashFlows     : Option Bool
  includeReferenceDateEvents : Bool

/-- What the yield analytics ask of a coupon. -/
structure CouponView where
  accrualStartDate     : Date
  referencePeriodStart : Date
  referencePeriodEnd   : Date

structure CashFlow (K : Type) where
  date         : Date
  amount       : Except CashFlowError K
  exCouponDate : Option Date
  asCoupon     : Option CouponView

def referenceDate (settings : EventSettings) (refDate : Option Date) : Except CashFlowError Date :=
  match refDate.or settings.evaluationDate with
  | some reference => .ok reference
  | none           => .error .noReferenceDate

/-- The rule of `cash_flow_has_occurred`, once its reference date is known. -/
def occurred (settings : EventSettings) (includeRefDate : Option Bool) (reference date : Date) : Bool :=
  if date ≠ reference then decide (date < reference)
  else
    let includeRefDate :=
      if settings.evaluationDate = some reference then settings.includeTodaysCashFlows.or includeRefDate else includeRefDate
    !includeRefDate.getD settings.includeReferenceDateEvents

def cashFlowHasOccurred (date : Date) (settings : EventSettings) (refDate : Option Date) (includeRefDate : Option Bool) :
    Except CashFlowError Bool :=
  (referenceDate settings refDate).map fun reference => occurred settings includeRefDate reference date

namespace CashFlow

variable {K : Type} (self : CashFlow K)

def hasOccurred (settings : EventSettings) (refDate : Option Date) (includeRefDate : Option Bool) :
    Except CashFlowError Bool :=
  cashFlowHasOccurred self.date settings refDate includeRefDate

def tradingExCoupon (settings : EventSettings) (refDate : Option Date) : Except CashFlowError Bool :=
  match self.exCouponDate with
  | none          => .ok false
  | some exCoupon => (referenceDate settings refDate).map fun reference => decide (exCoupon ≤ reference)

end CashFlow

/-! ## Occurrence by dates -/

variable {settings : EventSettings} {refDate : Option Date} {includeRefDate : Option Bool} {reference d d' : Date}

theorem cashFlowHasOccurred_eq (h : referenceDate settings refDate = .ok reference) :
    cashFlowHasOccurred d settings refDate includeRefDate = .ok (occurred settings includeRefDate reference d) := by
  rw [cashFlowHasOccurred, h]
  rfl

theorem cashFlowHasOccurred_error {e : CashFlowError} (h : referenceDate settings refDate = .error e) :
    cashFlowHasOccurred d settings refDate includeRefDate = .error e := by
  rw [cashFlowHasOccurred, h]
  rfl

/-- **Occurrence is downward closed**: before a flow that has occurred all have. -/
theorem occurred_mono (hd : d ≤ d') (h : occurred settings includeRefDate reference d' = true) :
    occurred settings includeRefDate reference d = true := by
  rcases hd.eq_or_lt with rfl | hlt
  · exact h
  · have hle : d' ≤ reference := by
      unfold occurred at h
      split_ifs at h with hne
      · exact (of_decide_eq_true h).le
      · exact (not_not.1 hne).le
      · exact (not_not.1 hne).le
    have hbefore := hlt.trans_le hle
    unfold occurred
    rw [if_pos hbefore.ne]
    exact decide_eq_true hbefore

end Itofin
