import Mathlib.Data.Set.Card
import Mathlib.Data.Set.Finite.Lemmas
import Mathlib.Order.CompletePartialOrder
import Mathlib.Order.Interval.Finset.Defs
import Mathlib.Order.Interval.Set.Disjoint
import Mathlib.Order.Interval.Set.LinearOrder
import Itofin.Lib.Rolling
/-!
# Counting — how many points of a set lie in an interval

`count P s` is the number of picked points in `s`; over the intervals of a locally finite order it is additive.  The
`n`-th picked point after `d` is the one with `n` of them up to it (`IsNth`): it is the one picked next and then the
`n`-th less one after that (`isNth_succ`).  Counting back from `d` is counting over the dual order.
-/
namespace Counting

open Rolling

noncomputable def count {α : Type} (P : α → Prop) (s : Set α) : ℕ := {x ∈ s | P x}.ncard

section Sets

variable {α : Type} {P : α → Prop} {a : α} {s t : Set α}

theorem count_union (hd : Disjoint s t) (hs : s.Finite) (ht : t.Finite) : count P (s ∪ t) = count P s + count P t := by
  have he : {x ∈ s ∪ t | P x} = {x ∈ s | P x} ∪ {x ∈ t | P x} := by
    ext x
    simp only [Set.mem_ofPred_eq, Set.mem_union, or_and_right]
  rw [count, he, Set.ncard_union_eq (hd.mono (Set.sep_subset _ _) (Set.sep_subset _ _)) (hs.subset (Set.sep_subset _ _))
    (ht.subset (Set.sep_subset _ _))]
  rfl

theorem count_singleton [Decidable (P a)] : count P {a} = if P a then 1 else 0 := by
  by_cases h : P a
  · rw [if_pos h, count, show {x ∈ ({a} : Set α) | P x} = {a} by ext x; simp; rintro rfl; exact h, Set.ncard_singleton]
  · rw [if_neg h, count, show {x ∈ ({a} : Set α) | P x} = ∅ by ext x; simp; rintro rfl; exact h, Set.ncard_empty]

theorem count_empty : count P ∅ = 0 := by
  rw [count, show {x ∈ (∅ : Set α) | P x} = ∅ by ext x; simp, Set.ncard_empty]

end Sets

variable {α : Type} [LinearOrder α] {P : α → Prop} {a b c d d' r r' : α} {n : ℕ}

/-- The least picked point strictly after `d`. -/
def IsAfter (P : α → Prop) (d r : α) : Prop := IsLeast {x | P x ∧ d < x} r

theorem isAfter_iff_of_covBy (h : d ⋖ d') : IsAfter P d r ↔ IsNext P d' r := by
  rw [IsAfter, IsNext, show {x | P x ∧ d < x} = {x | P x ∧ d' ≤ x} from
    Set.ext (fun x => and_congr_right (fun _ => ⟨h.ge_of_gt, fun hx => lt_of_lt_of_le h.lt hx⟩))]

/-- Nothing is picked between `d` and the point picked after it. -/
theorem IsAfter.count_eq (h : IsAfter P d r) : count P (Set.Ioc d r) = 1 := by
  have he : {x ∈ Set.Ioc d r | P x} = {r} := by
    ext x
    constructor
    · rintro ⟨⟨h₁, h₂⟩, hp⟩
      exact le_antisymm h₂ (h.2 ⟨hp, h₁⟩)
    · rintro rfl
      exact ⟨⟨h.1.2, le_rfl⟩, h.1.1⟩
  rw [count, he, Set.ncard_singleton]

/-- `r` is the `n`-th picked point strictly after `d`; the zeroth is `d`, picked or not. -/
def IsNth (P : α → Prop) (n : ℕ) (d r : α) : Prop := d ≤ r ∧ (d < r → P r) ∧ count P (Set.Ioc d r) = n

variable [LocallyFiniteOrder α]

theorem count_Ico_add (h₁ : a ≤ b) (h₂ : b ≤ c) :
    count P (Set.Ico a c) = count P (Set.Ico a b) + count P (Set.Ico b c) := by
  rw [← Set.Ico_union_Ico_eq_Ico h₁ h₂]
  exact count_union Set.Ico_disjoint_Ico_same (Set.finite_Ico _ _) (Set.finite_Ico _ _)

theorem count_Ioc_add (h₁ : a ≤ b) (h₂ : b ≤ c) :
    count P (Set.Ioc a c) = count P (Set.Ioc a b) + count P (Set.Ioc b c) := by
  rw [← Set.Ioc_union_Ioc_eq_Ioc h₁ h₂]
  exact count_union (Set.Ioc_disjoint_Ioc_of_le le_rfl) (Set.finite_Ioc _ _) (Set.finite_Ioc _ _)

theorem count_Ioc_pos_iff : 0 < count P (Set.Ioc d r) ↔ ∃ x, P x ∧ d < x ∧ x ≤ r := by
  rw [count, Set.ncard_pos ((Set.finite_Ioc d r).subset (Set.sep_subset _ _))]
  exact ⟨fun ⟨x, hx, hp⟩ => ⟨x, hp, hx⟩, fun ⟨x, hp, hx⟩ => ⟨x, hx, hp⟩⟩

theorem isNth_zero : IsNth P 0 d r ↔ r = d := by
  constructor
  · rintro ⟨hle, hp, hc⟩
    by_contra hne
    have hlt : d < r := lt_of_le_of_ne hle (Ne.symm hne)
    exact absurd hc (Nat.pos_iff_ne_zero.mp (count_Ioc_pos_iff.mpr ⟨r, hp hlt, hlt, le_rfl⟩))
  · rintro rfl
    exact ⟨le_rfl, fun h => absurd h (lt_irrefl _), by rw [Set.Ioc_self, count_empty]⟩

/-- **The points picked one after the other.** -/
theorem isNth_succ : IsNth P (n + 1) d r ↔ ∃ m, IsAfter P d m ∧ IsNth P n m r := by
  constructor
  · rintro ⟨hle, hp, hc⟩
    obtain ⟨x, hx⟩ := count_Ioc_pos_iff.mp (by omega : 0 < count P (Set.Ioc d r))
    obtain ⟨m, hm, hmin⟩ := Set.exists_min_image {x | P x ∧ d < x ∧ x ≤ r} id
      ((Set.finite_Ioc d r).subset (fun _ h => h.2)) ⟨x, hx⟩
    have hafter : IsAfter P d m := ⟨⟨hm.1, hm.2.1⟩, fun y hy => by
      rcases le_total y r with hyr | hyr
      · exact hmin y ⟨hy.1, hy.2, hyr⟩
      · exact le_trans hm.2.2 hyr⟩
    have hadd := count_Ioc_add (P := P) hm.2.1.le hm.2.2
    rw [hafter.count_eq, hc] at hadd
    exact ⟨m, hafter, hm.2.2, fun hlt => hp (lt_trans hm.2.1 hlt), by omega⟩
  · rintro ⟨m, hm, hle, hp, hc⟩
    have hadd := count_Ioc_add (P := P) hm.1.2.le hle
    rw [hm.count_eq, hc] at hadd
    refine ⟨le_trans hm.1.2.le hle, fun _ => ?_, by omega⟩
    rcases eq_or_lt_of_le hle with rfl | hlt
    · exact hm.1.1
    · exact hp hlt

/-! ## Back from a point -/

/-- The greatest picked point strictly before `d`. -/
def IsBefore (P : α → Prop) (d r : α) : Prop := IsGreatest {x | P x ∧ x < d} r

/-- `r` is the `n`-th picked point strictly before `d`; the zeroth is `d`, picked or not. -/
def IsNthBefore (P : α → Prop) (n : ℕ) (d r : α) : Prop := r ≤ d ∧ (r < d → P r) ∧ count P (Set.Ico r d) = n

omit [LocallyFiniteOrder α] in
theorem isBefore_iff_of_covBy (h : d' ⋖ d) : IsBefore P d r ↔ IsPrev P d' r :=
  isAfter_iff_of_covBy (α := αᵒᵈ) h.toDual

omit [LocallyFiniteOrder α] in
theorem isNthBefore_iff_dual : IsNthBefore P n d r ↔ IsNth (α := αᵒᵈ) P n d r := by
  rw [IsNthBefore, show Set.Ico r d = (Set.Ioc (α := αᵒᵈ) d r : Set α) from Set.ext (fun x => and_comm)]
  exact Iff.rfl

theorem isNthBefore_zero : IsNthBefore P 0 d r ↔ r = d := isNthBefore_iff_dual.trans (isNth_zero (α := αᵒᵈ))

theorem isNthBefore_succ : IsNthBefore P (n + 1) d r ↔ ∃ m, IsBefore P d m ∧ IsNthBefore P n m r := by
  simp only [isNthBefore_iff_dual]
  exact isNth_succ (α := αᵒᵈ)

end Counting
