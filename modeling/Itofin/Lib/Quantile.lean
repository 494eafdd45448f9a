import Mathlib.Algebra.Order.BigOperators.Group.Multiset
import Mathlib.Order.Bounds.Basic
import Mathlib.Tactic.Common
/-!
# Quantile — weighted samples and how much weight lies up to a value

A sample is a value with a weight.  `below s t` are the values up to which the samples weigh `t`, and `above s t` those
from which on they do.  Its least value is a quantile from below and the greatest of the other a quantile from above: they
depend on the samples but not on their order, and move with the weight (`IsLeast.mono`).

A sorted list has the quantile where a running sum of the weights reaches `t` first (`Reaches.isLeast`).
-/
namespace Quantile

variable {V W : Type} [LinearOrder V] [AddCommMonoid W] [LinearOrder W]

/-- The weight of the samples of which the predicate holds. -/
def weightOf (s : Multiset (V × W)) (p : V → Prop) [DecidablePred p] : W := ((s.filter (fun x => p x.1)).map Prod.snd).sum

def below (s : Multiset (V × W)) (t : W) : Set V := {v | v ∈ s.map Prod.fst ∧ t ≤ weightOf s (· ≤ v)}

def above (s : Multiset (V × W)) (t : W) : Set V := {v | v ∈ s.map Prod.fst ∧ t ≤ weightOf s (v ≤ ·)}

variable {s : Multiset (V × W)} {t t' : W} {l : List (V × W)} {v : V}

theorem below_antitone (h : t ≤ t') : below s t' ⊆ below s t := fun _ hv => ⟨hv.1, h.trans hv.2⟩

theorem above_antitone (h : t ≤ t') : above s t' ⊆ above s t := fun _ hv => ⟨hv.1, h.trans hv.2⟩

omit [LinearOrder V] [LinearOrder W] in
theorem weightOf_coe (l : List (V × W)) (p : V → Prop) [DecidablePred p] :
    weightOf (l : Multiset (V × W)) p = ((l.filter (fun x => p x.1)).map Prod.snd).sum := by
  rw [weightOf, Multiset.filter_coe, Multiset.map_coe, Multiset.sum_coe]

/-- **Where a running sum reaches `t`**: the samples before `x` weigh less, if there are any, and those up to it do not. -/
def Reaches (l : List (V × W)) (t : W) (v : V) : Prop :=
  ∃ before x after, l = before ++ x :: after ∧ x.1 = v ∧ (before = [] ∨ (before.map Prod.snd).sum < t) ∧
    t ≤ ((before ++ [x]).map Prod.snd).sum

variable [IsOrderedAddMonoid W]

omit [LinearOrder V] in
/-- Samples that all have the property weigh no more than the samples that have it. -/
theorem sum_le_weightOf {before after : List (V × W)} {p : V → Prop} [DecidablePred p] (hw : ∀ x ∈ after, 0 ≤ x.2)
    (hp : ∀ x ∈ before, p x.1) : (before.map Prod.snd).sum ≤ weightOf ((before ++ after : List (V × W)) : Multiset _) p := by
  have hall : before.filter (fun x => p x.1) = before := List.filter_eq_self.mpr (fun x hx => decide_eq_true (hp x hx))
  rw [weightOf_coe, List.filter_append, hall, List.map_append, List.sum_append]
  refine le_add_of_nonneg_right (List.sum_nonneg (fun w hmem => ?_))
  obtain ⟨x, hx, rfl⟩ := List.mem_map.mp hmem
  exact hw x (List.mem_of_mem_filter hx)

omit [LinearOrder V] in
/-- What weighs `t` has a sample after those that weigh less. -/
theorem exists_mem_of_le_weightOf {before after : List (V × W)} {p : V → Prop} [DecidablePred p]
    (hw : ∀ x ∈ before, 0 ≤ x.2) (hlt : (before.map Prod.snd).sum < t)
    (ht : t ≤ weightOf ((before ++ after : List (V × W)) : Multiset _) p) : ∃ x ∈ after, p x.1 := by
  by_contra hno
  have hnil : after.filter (fun x => p x.1) = [] :=
    List.filter_eq_nil_iff.mpr (fun x hx hp => hno ⟨x, hx, of_decide_eq_true hp⟩)
  rw [weightOf_coe, List.filter_append, hnil, List.append_nil] at ht
  have hsub : ((before.filter (fun x => p x.1)).map Prod.snd).sum ≤ (before.map Prod.snd).sum :=
    (List.filter_sublist.map _).sum_le_sum (fun w hmem => by
      obtain ⟨x, hx, rfl⟩ := List.mem_map.mp hmem
      exact hw x hx)
  exact absurd (ht.trans hsub) (not_le.mpr hlt)

omit [LinearOrder V] in
/-- The step that both quantiles take: in a list sorted by `r`, the value at which the sum reaches `t` has the weight up to
it, and comes before every other one that has. -/
theorem Reaches.first {r : V → V → Prop} [DecidableRel r] (hrefl : ∀ a, r a a) (htrans : ∀ a b c, r a b → r b c → r a c)
    (hl : l.Pairwise (fun x y => r x.1 y.1)) (hw : ∀ x ∈ l, 0 ≤ x.2) (h : Reaches l t v) :
    v ∈ l.map Prod.fst ∧ t ≤ weightOf (l : Multiset (V × W)) (r · v) ∧
      ∀ u ∈ l.map Prod.fst, t ≤ weightOf (l : Multiset (V × W)) (r · u) → r v u := by
  obtain ⟨before, x, after, rfl, rfl, hbefore, ht⟩ := h
  obtain ⟨-, hafter, hcross⟩ := List.pairwise_append.mp hl
  have hfrom : ∀ y ∈ x :: after, r x.1 y.1 := fun y hy => by
    rcases List.mem_cons.mp hy with rfl | hy
    · exact hrefl _
    · exact (List.pairwise_cons.mp hafter).1 y hy
  refine ⟨List.mem_map_of_mem (List.mem_append_right _ List.mem_cons_self), ?_, fun u hu htu => ?_⟩
  · have hupto : ∀ y ∈ before ++ [x], r y.1 x.1 := fun y hy => by
      rcases List.mem_append.mp hy with hy | hy
      · exact hcross y hy x List.mem_cons_self
      · exact List.mem_singleton.mp hy ▸ hrefl _
    have hw' : ∀ y ∈ after, 0 ≤ y.2 := fun y hy => hw y (List.mem_append_right _ (List.mem_cons_of_mem _ hy))
    have hsum := sum_le_weightOf (p := fun a => r a x.1) hw' hupto
    rw [List.append_assoc, List.singleton_append] at hsum
    exact ht.trans hsum
  · obtain ⟨y, hy, hyu⟩ : ∃ y ∈ x :: after, r y.1 u := by
      rcases hbefore with rfl | hlt
      · obtain ⟨y, hy, rfl⟩ := List.mem_map.mp hu
        exact ⟨y, hy, hrefl _⟩
      · exact exists_mem_of_le_weightOf (fun y hy => hw y (List.mem_append_left _ hy)) hlt htu
    exact htrans _ _ _ (hfrom y hy) hyu

theorem Reaches.isLeast (hl : l.Pairwise (fun x y => x.1 ≤ y.1)) (hw : ∀ x ∈ l, 0 ≤ x.2) (h : Reaches l t v) :
    IsLeast (below (l : Multiset (V × W)) t) v := by
  obtain ⟨hmem, ht, hleast⟩ := h.first (r := (· ≤ ·)) le_refl (fun _ _ _ => le_trans) hl hw
  exact ⟨⟨hmem, ht⟩, fun u hu => hleast u hu.1 hu.2⟩

theorem Reaches.isGreatest (hl : l.Pairwise (fun x y => y.1 ≤ x.1)) (hw : ∀ x ∈ l, 0 ≤ x.2) (h : Reaches l t v) :
    IsGreatest (above (l : Multiset (V × W)) t) v := by
  obtain ⟨hmem, ht, hgreatest⟩ := h.first (r := fun a b => b ≤ a) le_refl (fun _ _ _ h h' => h'.trans h) hl hw
  exact ⟨⟨hmem, ht⟩, fun u hu => hgreatest u hu.1 hu.2⟩

end Quantile
