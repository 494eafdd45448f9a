import Mathlib.Algebra.BigOperators.Group.List.Basic
import Mathlib.Algebra.Group.Int.Defs
import Itofin.CashFlow
/-!
# CashFlows — the previous and the next flow of a leg

The navigation of `cashflows/cashflows.rs`.  The scans from the two ends of a leg stop at the same place, the one where
occurrence splits it (`splitAt`).
-/
namespace Itofin

open Effect

namespace CashFlows

variable {K : Type}

/-- A scan for the first flow that passes a test, by its index in the leg. -/
def find (test : CashFlow K → Except CashFlowError Bool) : List (CashFlow K × ℕ) → Except CashFlowError (Option ℕ)
  | []                    => .ok none
  | (flow, index) :: rest => (test flow).bind fun found => if found then .ok (some index) else find test rest

section Navigation

variable (leg : List (CashFlow K)) (settings : EventSettings) (includeSettlementDateFlows : Option Bool)
  (settlementDate : Option Date)

/-- `for index in (0..leg.len()).rev() { if leg[index].has_occurred(..)? { return Ok(Some(index)) } }` -/
def previousCashFlow : Except CashFlowError (Option ℕ) :=
  find (fun flow => flow.hasOccurred settings settlementDate includeSettlementDateFlows) leg.zipIdx.reverse

/-- `for (index, flow) in leg.iter().enumerate() { if !flow.has_occurred(..)? { return Ok(Some(index)) } }` -/
def nextCashFlow : Except CashFlowError (Option ℕ) :=
  find (fun flow => (flow.hasOccurred settings settlementDate includeSettlementDateFlows).map (!·)) leg.zipIdx

/-- `for flow in leg.iter().rev() { if !flow.has_occurred(..)? { return Ok(false) } }`, then `Ok(true)`. -/
def isExpired : Except CashFlowError Bool :=
  if leg.isEmpty then .ok true
  else
    (find (fun flow => (flow.hasOccurred settings settlementDate includeSettlementDateFlows).map (!·))
      leg.zipIdx.reverse).map Option.isNone

def previousCashFlowDate : Except CashFlowError (Option Date) :=
  (previousCashFlow leg settings includeSettlementDateFlows settlementDate).map fun found =>
    found.bind fun index => leg[index]?.map CashFlow.date

def nextCashFlowDate : Except CashFlowError (Option Date) :=
  (nextCashFlow leg settings includeSettlementDateFlows settlementDate).map fun found =>
    found.bind fun index => leg[index]?.map CashFlow.date

variable [Add K] [Zero K]

/-- `total += flow.amount()?` over the flows in front that pay on the date. -/
def amountOnPaymentDate (flows : List (CashFlow K)) (paymentDate : Date) : Except CashFlowError K :=
  (flows.takeWhile fun flow => flow.date = paymentDate).foldlM (fun total flow => flow.amount.map (total + ·)) 0

def previousCashFlowAmount : Except CashFlowError (Option K) :=
  (previousCashFlow leg settings includeSettlementDateFlows settlementDate).bind fun found =>
    match found.bind fun index => leg[index]?.map fun flow => (index, flow.date) with
    | none               => .ok none
    | some (index, date) => (amountOnPaymentDate (leg.take (index + 1)).reverse date).map some

def nextCashFlowAmount : Except CashFlowError (Option K) :=
  (nextCashFlow leg settings includeSettlementDateFlows settlementDate).bind fun found =>
    match found.bind fun index => leg[index]?.map fun flow => (index, flow.date) with
    | none               => .ok none
    | some (index, date) => (amountOnPaymentDate (leg.drop index) date).map some

end Navigation

/-! ## The split of a leg -/

section Split

variable {settings : EventSettings} {includeSettlementDateFlows : Option Bool} {settlementDate : Option Date}
  {reference : Date} {test : CashFlow K → Except CashFlowError Bool} {b : Bool}

theorem find_append {pre post : List (CashFlow K × ℕ)} (hpre : ∀ p ∈ pre, test p.1 = .ok false) :
    find test (pre ++ post) = find test post := by
  induction pre with
  | nil          => rfl
  | cons p pre ih =>
    rw [List.cons_append, find, hpre p List.mem_cons_self]
    exact ih fun q hq => hpre q (List.mem_cons_of_mem p hq)

theorem find_cons {p : CashFlow K × ℕ} {post : List (CashFlow K × ℕ)} (h : test p.1 = .ok true) :
    find test (p :: post) = .ok (some p.2) := by
  rw [find, h]
  rfl

theorem find_none : ∀ {l : List (CashFlow K × ℕ)}, (∀ p ∈ l, test p.1 = .ok false) → find test l = .ok none
  | [], _     => rfl
  | p :: l, h => by
    rw [find, h p List.mem_cons_self]
    exact find_none fun q hq => h q (List.mem_cons_of_mem p hq)

theorem find_error {e : CashFlowError} {p : CashFlow K × ℕ} {post : List (CashFlow K × ℕ)} (h : test p.1 = .error e) :
    find test (p :: post) = .error e := by
  rw [find, h]
  rfl

/-- The flows of a sorted leg that have occurred, then those that have not. -/
theorem exists_split {leg : List (CashFlow K)} (hsorted : leg.Pairwise fun f g => f.date ≤ g.date) (occ : Date → Bool)
    (hocc : ∀ d d', d ≤ d' → occ d' = true → occ d = true) :
    ∃ pre post, leg = pre ++ post ∧ (∀ f ∈ pre, occ f.date = true) ∧ ∀ f ∈ post, occ f.date = false := by
  induction leg with
  | nil          => exact ⟨[], [], rfl, List.forall_mem_nil _, List.forall_mem_nil _⟩
  | cons f leg ih =>
    obtain ⟨hf, hsorted⟩ := List.pairwise_cons.1 hsorted
    cases h : occ f.date with
    | true =>
      obtain ⟨pre, post, rfl, hpre, hpost⟩ := ih hsorted
      refine ⟨f :: pre, post, rfl, fun g hg => ?_, hpost⟩
      rcases List.mem_cons.1 hg with rfl | hg
      · exact h
      · exact hpre g hg
    | false =>
      refine ⟨[], f :: leg, rfl, List.forall_mem_nil _, fun g hg => ?_⟩
      rcases List.mem_cons.1 hg with rfl | hg
      · exact h
      · have := mt (hocc f.date g.date (hf g hg)) (by simp [h])
        simpa using this

/-- The flows in front of a list, when none after the first that fails passes. -/
theorem takeWhile_eq_filter {p : CashFlow K → Bool} {l : List (CashFlow K)} (h : l.Pairwise fun f g => p g → p f) :
    l.takeWhile p = l.filter p := by
  induction l with
  | nil         => rfl
  | cons f l ih =>
    obtain ⟨hf, h⟩ := List.pairwise_cons.1 h
    by_cases hp : p f
    · rw [List.takeWhile_cons_of_pos hp, List.filter_cons_of_pos hp, ih h]
    · rw [List.takeWhile_cons_of_neg hp, List.filter_cons_of_neg hp]
      exact (List.filter_eq_nil_iff.2 fun g hg hpg => hp (hf g hg hpg)).symm

variable [AddCommMonoid K]

/-- The amount of a flow that can be priced. -/
def amountOf (flow : CashFlow K) : K := match flow.amount with
  | .ok amount => amount
  | .error _   => 0

theorem foldlM_amount {v : K} : ∀ (l : List (CashFlow K)) (total : K),
    l.foldlM (fun total flow => flow.amount.map (total + ·)) total = .ok v ↔
      (∀ flow ∈ l, ∃ a, flow.amount = .ok a) ∧ v = total + (l.map amountOf).sum
  | [], total        => by
    simp only [List.not_mem_nil, false_implies, implies_true, true_and, List.map_nil, List.sum_nil, add_zero]
    exact ⟨fun h => (Except.ok.inj h).symm, fun h => h ▸ rfl⟩
  | flow :: l, total => by
    rw [List.foldlM_cons, bind_eq_ok]
    constructor
    · rintro ⟨t, ht, h⟩
      obtain ⟨a, ha, rfl⟩ := map_eq_ok.1 ht
      obtain ⟨hall, rfl⟩ := (foldlM_amount l _).1 h
      refine ⟨fun g hg => ?_, ?_⟩
      · rcases List.mem_cons.1 hg with rfl | hg
        · exact ⟨a, ha⟩
        · exact hall g hg
      · rw [List.map_cons, List.sum_cons, amountOf, ha, add_assoc]
    · rintro ⟨hall, rfl⟩
      obtain ⟨a, ha⟩ := hall flow List.mem_cons_self
      refine ⟨total + a, map_eq_ok.2 ⟨a, ha, rfl⟩, (foldlM_amount l _).2 ⟨fun g hg => hall g (List.mem_cons_of_mem _ hg), ?_⟩⟩
      rw [List.map_cons, List.sum_cons, amountOf, ha, add_assoc]

/-- An amount that sums exactly the flows of the leg on a date, if they all have one. -/
def Sums (leg : List (CashFlow K)) (date : Date) (result : Except CashFlowError (Option K)) : Prop :=
  ∀ v, result = .ok v ↔ (∀ flow ∈ leg, flow.date = date → ∃ a, flow.amount = .ok a) ∧
    v = some ((leg.filter fun flow => flow.date = date).map amountOf).sum

/-- Flows in front that are, up to their order, those of the leg on the date. -/
theorem sums_of_perm {leg flows : List (CashFlow K)} {date : Date}
    (h : (flows.takeWhile fun flow => flow.date = date).Perm (leg.filter fun flow => flow.date = date)) :
    Sums leg date ((amountOnPaymentDate flows date).map some) := by
  intro v
  unfold amountOnPaymentDate
  rw [map_eq_ok]
  have hmem : ∀ flow, flow ∈ flows.takeWhile (fun flow => flow.date = date) ↔ flow ∈ leg ∧ flow.date = date := fun flow => by
    rw [h.mem_iff, List.mem_filter, decide_eq_true_eq]
  simp only [foldlM_amount, hmem, zero_add, (h.map amountOf).sum_eq]
  constructor
  · rintro ⟨a, ⟨hall, rfl⟩, rfl⟩
    exact ⟨fun flow hflow hdate => hall flow ⟨hflow, hdate⟩, rfl⟩
  · rintro ⟨hall, rfl⟩
    exact ⟨_, ⟨fun flow hflow => hall flow hflow.1 hflow.2, rfl⟩, rfl⟩

end Split

/-! ## Navigation -/

section Navigates

variable [AddCommMonoid K] (leg : List (CashFlow K)) (settings : EventSettings) (includeSettlementDateFlows : Option Bool)
  (settlementDate : Option Date)

/-- **All the scans split the leg before its `k`-th flow.** -/
structure Navigates (k : ℕ) : Prop where
  le             : k ≤ leg.length
  occurred       : ∀ (i : ℕ) (flow : CashFlow K), leg[i]? = some flow →
    flow.hasOccurred settings settlementDate includeSettlementDateFlows = .ok (decide (i < k))
  next           : nextCashFlow leg settings includeSettlementDateFlows settlementDate =
    .ok (if k < leg.length then some k else none)
  previous       : previousCashFlow leg settings includeSettlementDateFlows settlementDate =
    .ok (if k = 0 then none else some (k - 1))
  expired        : isExpired leg settings includeSettlementDateFlows settlementDate = .ok (decide (k = leg.length))
  nextAmount     : ∀ flow, leg[k]? = some flow →
    Sums leg flow.date (nextCashFlowAmount leg settings includeSettlementDateFlows settlementDate)
  previousAmount : ∀ flow, 0 < k → leg[k - 1]? = some flow →
    Sums leg flow.date (previousCashFlowAmount leg settings includeSettlementDateFlows settlementDate)
  noNext         : k = leg.length → nextCashFlowAmount leg settings includeSettlementDateFlows settlementDate = .ok none
  noPrevious     : k = 0 → previousCashFlowAmount leg settings includeSettlementDateFlows settlementDate = .ok none

variable {leg settings includeSettlementDateFlows settlementDate} {pre post : List (CashFlow K)} {reference : Date}

omit [AddCommMonoid K] in
theorem next_split (hleg : leg = pre ++ post)
    (hpre : ∀ f ∈ pre, f.hasOccurred settings settlementDate includeSettlementDateFlows = .ok true)
    (hpost : ∀ f ∈ post, f.hasOccurred settings settlementDate includeSettlementDateFlows = .ok false) :
    nextCashFlow leg settings includeSettlementDateFlows settlementDate =
      .ok (if pre.length < leg.length then some pre.length else none) := by
  subst hleg
  unfold nextCashFlow
  rw [List.zipIdx_append, find_append fun p hp => by rw [hpre _ (List.fst_mem_of_mem_zipIdx hp)]; rfl]
  cases post with
  | nil      => simp [find]
  | cons f post =>
    rw [List.zipIdx_cons, find_cons (by rw [hpost f List.mem_cons_self]; rfl)]
    simp

omit [AddCommMonoid K] in
theorem previous_split (hleg : leg = pre ++ post)
    (hpre : ∀ f ∈ pre, f.hasOccurred settings settlementDate includeSettlementDateFlows = .ok true)
    (hpost : ∀ f ∈ post, f.hasOccurred settings settlementDate includeSettlementDateFlows = .ok false) :
    previousCashFlow leg settings includeSettlementDateFlows settlementDate =
      .ok (if pre.length = 0 then none else some (pre.length - 1)) := by
  subst hleg
  unfold previousCashFlow
  rw [List.zipIdx_append, List.reverse_append,
    find_append fun p hp => hpost _ (List.fst_mem_of_mem_zipIdx (List.mem_reverse.1 hp))]
  rcases List.eq_nil_or_concat pre with rfl | ⟨pre, f, rfl⟩
  · rfl
  · rw [List.concat_eq_append, List.zipIdx_append, List.reverse_append]
    have hf := hpre f (by simp)
    simp [find, hf, Except.bind]

omit [AddCommMonoid K] in
theorem expired_split (hleg : leg = pre ++ post)
    (hpre : ∀ f ∈ pre, f.hasOccurred settings settlementDate includeSettlementDateFlows = .ok true)
    (hpost : ∀ f ∈ post, f.hasOccurred settings settlementDate includeSettlementDateFlows = .ok false) :
    isExpired leg settings includeSettlementDateFlows settlementDate = .ok (decide (pre.length = leg.length)) := by
  subst hleg
  unfold isExpired
  rcases List.eq_nil_or_concat post with rfl | ⟨post, f, rfl⟩
  · rw [List.append_nil]
    split_ifs with hempty
    · simp
    · rw [find_none fun p hp => by rw [hpre _ (List.fst_mem_of_mem_zipIdx (List.mem_reverse.1 hp))]; rfl]
      simp [Except.map]
  · rw [if_neg (by simp), List.concat_eq_append, ← List.append_assoc, List.zipIdx_append, List.reverse_append]
    have hf := hpost f (by simp)
    simp [find, hf, Except.bind, Except.map]

theorem totals_split (hsorted : leg.Pairwise fun f g => f.date ≤ g.date) (hleg : leg = pre ++ post) {occ : Date → Bool}
    (hpre : ∀ f ∈ pre, occ f.date = true) (hpost : ∀ f ∈ post, occ f.date = false) :
    (∀ f, post.head? = some f → Sums leg f.date ((amountOnPaymentDate post f.date).map some)) ∧
      ∀ f, pre.getLast? = some f → Sums leg f.date ((amountOnPaymentDate pre.reverse f.date).map some) := by
  subst hleg
  obtain ⟨hsorted₁, hsorted₂, hbetween⟩ := List.pairwise_append.1 hsorted
  have hother : ∀ f ∈ pre, ∀ g ∈ post, f.date ≠ g.date := fun f hf g hg heq => by
    have := hpre f hf
    rw [heq, hpost g hg] at this
    cases this
  refine ⟨fun f hf => sums_of_perm ?_, fun f hf => sums_of_perm ?_⟩
  · have hmem := List.mem_of_head? hf
    have hnone : pre.filter (fun flow => flow.date = f.date) = [] :=
      List.filter_eq_nil_iff.2 fun g hg => by simpa using hother g hg f hmem
    obtain ⟨l, rfl⟩ : ∃ l, post = f :: l := List.head?_eq_some_iff.1 hf
    rw [List.filter_append, hnone, List.nil_append, takeWhile_eq_filter]
    refine hsorted₂.imp_of_mem fun {x y} hx hy hxy h => ?_
    simp only [decide_eq_true_eq] at h ⊢
    rcases List.mem_cons.1 hx with rfl | hx
    · rfl
    · exact le_antisymm (hxy.trans h.le) ((List.pairwise_cons.1 hsorted₂).1 x hx)
  · have hmem := List.mem_of_getLast? hf
    have hnone : post.filter (fun flow => flow.date = f.date) = [] :=
      List.filter_eq_nil_iff.2 fun g hg => by simpa using (hother f hmem g hg).symm
    obtain ⟨l, rfl⟩ : ∃ l, pre = l ++ [f] := List.getLast?_eq_some_iff.1 hf
    rw [List.filter_append, hnone, List.append_nil, takeWhile_eq_filter]
    · rw [List.filter_reverse]
      exact List.reverse_perm _
    rw [List.pairwise_reverse]
    refine hsorted₁.imp_of_mem fun {x y} hx hy hxy h => ?_
    simp only [decide_eq_true_eq] at h ⊢
    refine le_antisymm ?_ (h.ge.trans hxy)
    rcases List.mem_append.1 hy with hy | hy
    · exact (List.pairwise_append.1 hsorted₁).2.2 y hy f (List.mem_singleton_self f)
    · rw [List.mem_singleton.1 hy]

theorem navigates_split (href : referenceDate settings settlementDate = .ok reference)
    (hsorted : leg.Pairwise fun f g => f.date ≤ g.date) :
    ∃ k, Navigates leg settings includeSettlementDateFlows settlementDate k := by
  obtain ⟨pre, post, hleg, hpre, hpost⟩ := exists_split hsorted (Itofin.occurred settings includeSettlementDateFlows reference)
    fun d d' => occurred_mono
  have htest : ∀ f : CashFlow K, f.hasOccurred settings settlementDate includeSettlementDateFlows =
      .ok (Itofin.occurred settings includeSettlementDateFlows reference f.date) := fun f => cashFlowHasOccurred_eq href
  have hpre' : ∀ f ∈ pre, f.hasOccurred settings settlementDate includeSettlementDateFlows = .ok true := fun f hf => by
    rw [htest, hpre f hf]
  have hpost' : ∀ f ∈ post, f.hasOccurred settings settlementDate includeSettlementDateFlows = .ok false := fun f hf => by
    rw [htest, hpost f hf]
  have hnext := next_split hleg hpre' hpost'
  have hprevious := previous_split hleg hpre' hpost'
  obtain ⟨hsum₁, hsum₂⟩ := totals_split hsorted hleg hpre hpost
  have hlen : leg.length = pre.length + post.length := by rw [hleg, List.length_append]
  refine ⟨pre.length, by omega, fun i flow hi => ?_, hnext, hprevious, expired_split hleg hpre' hpost', fun flow hi => ?_,
    fun flow hpos hi => ?_, fun hk => ?_, fun hk => ?_⟩
  · rw [hleg] at hi
    rcases lt_or_ge i pre.length with hlt | hge
    · rw [List.getElem?_append_left hlt] at hi
      rw [hpre' flow (List.mem_of_getElem? hi), decide_eq_true hlt]
    · rw [List.getElem?_append_right hge] at hi
      rw [hpost' flow (List.mem_of_getElem? hi), decide_eq_false (not_lt.2 hge)]
  · have hlt : pre.length < leg.length := (List.getElem?_eq_some_iff.1 hi).1
    have hhead : post.head? = some flow := by
      rw [hleg, List.getElem?_append_right le_rfl, Nat.sub_self] at hi
      rw [List.head?_eq_getElem?, hi]
    have hrun : nextCashFlowAmount leg settings includeSettlementDateFlows settlementDate =
        (amountOnPaymentDate post flow.date).map some := by
      rw [nextCashFlowAmount, hnext, if_pos hlt, Except.bind]
      simp only [Option.bind_some, hi, Option.map_some]
      rw [hleg, List.drop_left]
    rw [hrun]
    exact hsum₁ flow hhead
  · have hlast : pre.getLast? = some flow := by
      rw [hleg, List.getElem?_append_left (by omega)] at hi
      rw [List.getLast?_eq_getElem?, hi]
    have hrun : previousCashFlowAmount leg settings includeSettlementDateFlows settlementDate =
        (amountOnPaymentDate pre.reverse flow.date).map some := by
      rw [previousCashFlowAmount, hprevious, if_neg hpos.ne', Except.bind]
      simp only [Option.bind_some, hi, Option.map_some]
      rw [Nat.sub_add_cancel hpos, hleg, List.take_left]
    rw [hrun]
    exact hsum₂ flow hlast
  · rw [nextCashFlowAmount, hnext, if_neg (by omega)]
    rfl
  · rw [previousCashFlowAmount, hprevious, if_pos hk]
    rfl

/-- **Navigating a sorted leg.**  The scans agree on one split of the leg, or there is no reference date for any of them. -/
theorem navigation (leg : List (CashFlow K)) (settings : EventSettings) (includeSettlementDateFlows : Option Bool)
    (settlementDate : Option Date) (hsorted : leg.Pairwise fun f g => f.date ≤ g.date) :
    (∃ k, Navigates leg settings includeSettlementDateFlows settlementDate k) ∨
      ∃ e, referenceDate settings settlementDate = .error e ∧
        nextCashFlow leg settings includeSettlementDateFlows settlementDate = .error e ∧
        previousCashFlow leg settings includeSettlementDateFlows settlementDate = .error e ∧
        isExpired leg settings includeSettlementDateFlows settlementDate = .error e ∧
        nextCashFlowAmount leg settings includeSettlementDateFlows settlementDate = .error e ∧
        previousCashFlowAmount leg settings includeSettlementDateFlows settlementDate = .error e := by
  cases href : referenceDate settings settlementDate with
  | ok reference => exact .inl (navigates_split href hsorted)
  | error e =>
    rcases List.eq_nil_or_concat leg with rfl | ⟨flows, last, rfl⟩
    · exact .inl ⟨0, le_rfl, by simp, rfl, rfl, rfl, by simp, by simp, fun _ => rfl, fun _ => rfl⟩
    have htest : ∀ f : CashFlow K, f.hasOccurred settings settlementDate includeSettlementDateFlows = .error e := fun f =>
      cashFlowHasOccurred_error href
    have hnext : nextCashFlow (flows.concat last) settings includeSettlementDateFlows settlementDate = .error e := by
      unfold nextCashFlow
      cases hleg : flows.concat last with
      | nil         => simp at hleg
      | cons f rest =>
        rw [List.zipIdx_cons, find_error (by rw [htest]; rfl)]
    have hprevious : previousCashFlow (flows.concat last) settings includeSettlementDateFlows settlementDate = .error e := by
      unfold previousCashFlow
      rw [List.concat_eq_append, List.zipIdx_append, List.reverse_append]
      exact find_error (htest _)
    refine .inr ⟨e, rfl, hnext, hprevious, ?_, ?_, ?_⟩
    · unfold isExpired
      rw [if_neg (by simp), List.concat_eq_append, List.zipIdx_append, List.reverse_append]
      have hlast := htest last
      simp [find, hlast, Except.bind, Except.map]
    · rw [nextCashFlowAmount, hnext]
      rfl
    · rw [previousCashFlowAmount, hprevious]
      rfl

/-- Three flows, the last two on one date. -/
def threeFlows : List (CashFlow ℤ) :=
  [⟨⟨43000, by decide⟩, .ok 5, none, none⟩, ⟨⟨43010, by decide⟩, .ok 7, none, none⟩,
    ⟨⟨43010, by decide⟩, .ok 100, none, none⟩]

/-- On the last date, with flows of the day included, the two flows of that date are still to come. -/
theorem navigation_threeFlows : Navigates threeFlows ⟨some ⟨43010, by decide⟩, some true, false⟩ (some false) none 1 := by
  have hnext : nextCashFlow threeFlows ⟨some ⟨43010, by decide⟩, some true, false⟩ (some false) none = .ok (some 1) := by
    decide +kernel
  rcases navigation threeFlows ⟨some ⟨43010, by decide⟩, some true, false⟩ (some false) none (by decide +kernel) with
    ⟨k, hk⟩ | ⟨e, -, he, -⟩
  · have h := hk.next
    rw [hnext] at h
    split_ifs at h with hlt
    · obtain rfl := Option.some.inj (Except.ok.inj h)
      exact hk
    · cases h
  · rw [hnext] at he
    cases he

end Navigates

end CashFlows

end Itofin
