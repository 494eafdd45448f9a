import Mathlib.Algebra.Order.Field.Basic
import Mathlib.Algebra.Order.Ring.Rat
import Mathlib.Tactic.Ring
/-!
# Exchange rate — conversions along a chain

`exchangerate.rs` in exact arithmetic.  A derived rate keeps the two it was chained from, and an exchange goes through
both, in an order that the currency of the amount decides at every node.

`Between` says that a rate exchanges two currencies, there by a factor and back by its inverse, and nothing else.  It
does not depend on which of the two is the source (`Between.symm`), so the four orientations of a chain are one
(`Between.chain`), and the stored rate is the factor.  A chain of two rates between the same two currencies is none of
these: it exchanges each currency for itself.
-/
namespace Itofin

structure Money (C K : Type) where
  currency : C
  value : K
deriving DecidableEq

/-- A rate: supplied, or derived from two others. -/
inductive ExchangeRate (C K : Type) where
  | direct (source target : C) (rate : K)
  | derived (source target : C) (rate : K) (first second : ExchangeRate C K)
deriving DecidableEq

namespace ExchangeRate

variable {C K : Type}

inductive Failure (C : Type) where
  | message (text : String)
  /-- `exchange rate not applicable: money is {}` -/
  | notApplicable (money : C)
  /-- `exchange rate not applicable: money is {}, rate is {}/{}` -/
  | unrelated (money source target : C)
deriving DecidableEq

def source : ExchangeRate C K → C
  | direct source _ _      => source
  | derived source _ _ _ _ => source

def target : ExchangeRate C K → C
  | direct _ target _      => target
  | derived _ target _ _ _ => target

def rate : ExchangeRate C K → K
  | direct _ _ rate      => rate
  | derived _ _ rate _ _ => rate

variable [DecidableEq C] [Field K] [LinearOrder K]

/-- The endpoints and the rate of a chain, by the first matching orientation. -/
def orientation (first second : ExchangeRate C K) : Option (C × C × K) :=
  if first.source = second.source then some (first.target, second.target, second.rate / first.rate)
  else if first.source = second.target then some (first.target, second.source, 1 / (first.rate * second.rate))
  else if first.target = second.source then some (first.source, second.target, first.rate * second.rate)
  else if first.target = second.target then some (first.source, second.source, first.rate / second.rate)
  else none

def chain (first second : ExchangeRate C K) : Except (Failure C) (ExchangeRate C K) :=
  if 0 < first.rate ∧ 0 < second.rate then
    match orientation first second with
    | none                        => .error (.message "exchange rates not chainable")
    | some (source, target, rate) =>
      if 0 < rate then .ok (derived source target rate first second)
      else .error (.message "exchange rate must be finite and positive")
  else .error (.message "exchange rates must be finite and positive")

def exchange : ExchangeRate C K → Money C K → Except (Failure C) (Money C K)
  | direct source target rate, amount        =>
    if 0 < rate then
      if amount.currency = source then .ok ⟨target, amount.value * rate⟩
      else if amount.currency = target then .ok ⟨source, amount.value / rate⟩
      else .error (.unrelated amount.currency source target)
    else .error (.message "exchange rate must be finite and positive")
  | derived _ _ rate first second, amount =>
    if 0 < rate then
      if amount.currency = first.source ∨ amount.currency = first.target then do
        let amount ← first.exchange amount
        second.exchange amount
      else if amount.currency = second.source ∨ amount.currency = second.target then do
        let amount ← second.exchange amount
        first.exchange amount
      else .error (.notApplicable amount.currency)
    else .error (.message "exchange rate must be finite and positive")

/-- A rate built from direct ones by chaining, with no chain of two rates between the same two currencies: that one would
have one currency at both ends. -/
inductive Built : ExchangeRate C K → Prop where
  | direct {source target : C} {rate : K} (ne : source ≠ target) (pos : 0 < rate) : Built (direct source target rate)
  | chain {first second n : ExchangeRate C K} (hf : Built first) (hs : Built second) (h : chain first second = .ok n)
      (ne : n.source ≠ n.target) : Built n

/-! ## What a rate exchanges -/

/-- **The rate exchanges two currencies**, there by a factor and back by its inverse, and no other. -/
structure Between (n : ExchangeRate C K) (a b : C) (factor : K) : Prop where
  ends : n.source = a ∧ n.target = b ∨ n.source = b ∧ n.target = a
  ne : a ≠ b
  pos : 0 < factor
  there : ∀ v, n.exchange ⟨a, v⟩ = .ok ⟨b, v * factor⟩
  back : ∀ v, n.exchange ⟨b, v⟩ = .ok ⟨a, v / factor⟩
  other : ∀ c v, c ≠ a → c ≠ b → ∃ e, n.exchange ⟨c, v⟩ = .error e

variable {n first second : ExchangeRate C K} {a b s src tgt : C} {ρ σ r : K}

theorem Between.isEnd (h : Between n a b ρ) (c : C) : c = n.source ∨ c = n.target ↔ c = a ∨ c = b := by
  rcases h.ends with ⟨hs, ht⟩ | ⟨hs, ht⟩ <;> rw [hs, ht]
  exact or_comm

variable [IsStrictOrderedRing K]

theorem Between.symm (h : Between n a b ρ) : Between n b a ρ⁻¹ where
  ends := h.ends.symm
  ne := h.ne.symm
  pos := inv_pos.mpr h.pos
  there v := by rw [h.back, div_eq_mul_inv]
  back v := by rw [h.there, div_eq_mul_inv, inv_inv]
  other c v hb ha := h.other c v ha hb

omit [IsStrictOrderedRing K] in
theorem between_direct (ne : a ≠ b) (pos : 0 < ρ) : Between (direct a b ρ) a b ρ where
  ends := .inl ⟨rfl, rfl⟩
  ne := ne
  pos := pos
  there v := by rw [exchange, if_pos pos, if_pos rfl]
  back v := by rw [exchange, if_pos pos, if_neg ne.symm, if_pos rfl]
  other c v ha hb := ⟨_, by rw [exchange, if_pos pos, if_neg ha, if_neg hb]⟩

/-- **A chain over a shared currency** exchanges the two others. -/
theorem Between.chain (hf : Between first a s ρ) (hg : Between second s b σ) (ne : a ≠ b) (pos : 0 < r)
    (ends : src = a ∧ tgt = b ∨ src = b ∧ tgt = a) : Between (derived src tgt r first second) a b (ρ * σ) where
  ends := ends
  ne := ne
  pos := mul_pos hf.pos hg.pos
  there v := by
    rw [exchange, if_pos pos, if_pos ((hf.isEnd a).mpr (.inl rfl)), hf.there]
    exact (hg.there _).trans (by rw [mul_assoc])
  back v := by
    have hb : ¬ (b = first.source ∨ b = first.target) := mt (hf.isEnd b).mp (by
      rintro (h | h)
      · exact ne h.symm
      · exact hg.ne h.symm)
    rw [exchange, if_pos pos, if_neg hb, if_pos ((hg.isEnd b).mpr (.inr rfl)), hg.back]
    exact (hf.back _).trans (by rw [div_div, mul_comm])
  other c v ha hb := by
    rw [exchange, if_pos pos]
    by_cases hc : c = first.source ∨ c = first.target
    · rw [if_pos hc]
      obtain rfl := ((hf.isEnd c).mp hc).resolve_left ha
      rw [hf.back]
      exact hg.other a _ hf.ne ne
    · have hcs : ¬ (c = second.source ∨ c = second.target) := mt (hg.isEnd c).mp (by
        rintro (rfl | h)
        · exact hc ((hf.isEnd c).mpr (.inr rfl))
        · exact hb h)
      exact ⟨_, by rw [if_neg hc, if_neg hcs]⟩

omit [IsStrictOrderedRing K] in
theorem chain_eq_ok (h : chain first second = .ok n) : ∃ source target rate, orientation first second = some (source, target, rate) ∧
    0 < rate ∧ n = derived source target rate first second := by
  unfold chain at h
  split at h
  · cases ho : orientation first second with
    | none   => rw [ho] at h; cases h
    | some p =>
      obtain ⟨source, target, rate⟩ := p
      rw [ho] at h
      dsimp only at h
      split at h
      · rename_i hpos
        cases h
        exact ⟨source, target, rate, rfl, hpos, rfl⟩
      · cases h
  · cases h

/-- **Every rate of a tree exchanges its two currencies** at the stored rate. -/
theorem Built.between (h : Built n) : Between n n.source n.target n.rate := by
  induction h with
  | direct ne pos              => exact between_direct ne pos
  | chain hf hs h ne ihf ihs =>
    obtain ⟨source, target, rate, ho, hpos, rfl⟩ := chain_eq_ok h
    unfold orientation at ho
    change source ≠ target at ne
    split_ifs at ho with h₁ h₂ h₃ h₄ <;> cases ho
    · rw [h₁] at ihf
      have hb := ihf.symm.chain ihs ne hpos (.inl ⟨rfl, rfl⟩)
      rwa [inv_mul_eq_div] at hb
    · rw [h₂] at ihf
      have hb := ihf.symm.chain ihs.symm ne hpos (.inl ⟨rfl, rfl⟩)
      rwa [← mul_inv, ← one_div] at hb
    · rw [h₃] at ihf
      exact ihf.chain ihs ne hpos (.inl ⟨rfl, rfl⟩)
    · rw [h₄] at ihf
      have hb := ihf.chain ihs.symm ne hpos (.inl ⟨rfl, rfl⟩)
      rwa [← div_eq_mul_inv] at hb

/-- **Chained exchange rates.**  A rate built by any tree of chains, none of two rates between the same two currencies,
exchanges an amount just when its currency is the source or the target; into the other one, by multiplying or dividing by
the stored rate; and there and back is the amount again. -/
theorem exchange_spec (h : Built n) (amount : Money C K) :
    ((∃ m, n.exchange amount = .ok m) ↔ amount.currency = n.source ∨ amount.currency = n.target) ∧
      (amount.currency = n.source → n.exchange amount = .ok ⟨n.target, amount.value * n.rate⟩) ∧
      (amount.currency = n.target → n.exchange amount = .ok ⟨n.source, amount.value / n.rate⟩) ∧
      ∀ m, n.exchange amount = .ok m → n.exchange m = .ok amount := by
  obtain ⟨c, v⟩ := amount
  have hb := h.between
  have hrate := hb.pos.ne'
  have hthere : c = n.source → n.exchange ⟨c, v⟩ = .ok ⟨n.target, v * n.rate⟩ := fun hc => hc ▸ hb.there v
  have hback : c = n.target → n.exchange ⟨c, v⟩ = .ok ⟨n.source, v / n.rate⟩ := fun hc => hc ▸ hb.back v
  have hends : ∀ m, n.exchange ⟨c, v⟩ = .ok m → c = n.source ∨ c = n.target := fun m hm => by
    by_contra hne
    rw [not_or] at hne
    obtain ⟨e, he⟩ := hb.other c v hne.1 hne.2
    rw [he] at hm
    cases hm
  refine ⟨⟨fun ⟨m, hm⟩ => hends m hm, ?_⟩, hthere, hback, fun m hm => ?_⟩
  · rintro (hc | hc)
    · exact ⟨_, hthere hc⟩
    · exact ⟨_, hback hc⟩
  · rcases hends m hm with hc | hc
    · rw [hthere hc] at hm
      cases hm
      rw [hb.back, mul_div_cancel_right₀ _ hrate, hc]
    · rw [hback hc] at hm
      cases hm
      rw [hb.there, div_mul_cancel₀ _ hrate, hc]

/-- A chain of three currencies, over the first one. -/
theorem exchange_spec_chain : ∃ n : ExchangeRate (Fin 3) ℚ, Built n ∧ n.source = 1 ∧ n.target = 2 ∧
    n.exchange ⟨1, 6⟩ = .ok ⟨2, 6 * (3 / 2)⟩ := by
  have hf : Built (direct (0 : Fin 3) 1 (2 : ℚ)) := .direct (by decide) (by decide +kernel)
  have hs : Built (direct (0 : Fin 3) 2 (3 : ℚ)) := .direct (by decide) (by decide +kernel)
  have hc : chain (direct (0 : Fin 3) 1 (2 : ℚ)) (direct 0 2 3) = .ok (derived 1 2 (3 / 2) (direct 0 1 2) (direct 0 2 3)) := by
    decide +kernel
  have hb := Built.chain hf hs hc (by decide)
  exact ⟨_, hb, rfl, rfl, (exchange_spec hb ⟨1, 6⟩).2.1 rfl⟩

/-- **A chain of two rates between the same two currencies** exchanges a currency that is not at its ends, and there and
back is not the amount again. -/
theorem exchange_loop : ∃ n : ExchangeRate (Fin 2) ℚ, chain (direct 0 1 2) (direct 0 1 3) = .ok n ∧ n.source = 1 ∧
    n.target = 1 ∧ n.exchange ⟨0, 6⟩ = .ok ⟨0, 4⟩ ∧ n.exchange ⟨1, 4⟩ = .ok ⟨1, 6⟩ ∧ n.exchange ⟨1, 6⟩ = .ok ⟨1, 9⟩ :=
  ⟨derived 1 1 (3 / 2) (direct 0 1 2) (direct 0 1 3), by decide +kernel, rfl, rfl, by decide +kernel, by decide +kernel,
    by decide +kernel⟩

end ExchangeRate
end Itofin
