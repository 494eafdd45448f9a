import Mathlib.Data.List.DropRight
import Mathlib.Order.Bounds.Basic
import Mathlib.Tactic.Common
/-!
# Cut — a list cut where a predicate ends

A predicate cuts a list when it holds of a prefix of it: an element before one of which it holds has it too.  Then the
elements that have it are the prefix as long as they are many (`Cuts.take_eq`), and the others are the rest
(`Cuts.drop_eq`).  A sorted list is cut by every bound.
-/
namespace Cut

variable {α : Type} {p : α → Bool} {l : List α}

/-- The predicate holds of a prefix of the list. -/
def Cuts (p : α → Bool) (l : List α) : Prop := l.Pairwise (fun x y => p y = true → p x = true)

theorem Cuts.append (h : Cuts p l) : l.filter p ++ l.filter (fun x => !p x) = l := by
  induction l with
  | nil => rfl
  | cons a l ih =>
    obtain ⟨ha, hl⟩ := List.pairwise_cons.mp h
    by_cases hp : p a = true
    · rw [List.filter_cons_of_pos hp, List.filter_cons_of_neg (by simp [hp]), List.cons_append, ih hl]
    · have hnil : l.filter p = [] := List.filter_eq_nil_iff.mpr (fun x hx hpx => hp (ha x hx hpx))
      have hall := ih hl
      rw [hnil, List.nil_append] at hall
      rw [List.filter_cons_of_neg hp, hnil, List.nil_append, List.filter_cons_of_pos (by simp [hp]), hall]

theorem Cuts.take_eq (h : Cuts p l) : l.take (l.filter p).length = l.filter p := by
  conv_lhs => arg 2; rw [← h.append]
  rw [List.take_left]

theorem Cuts.drop_eq (h : Cuts p l) : l.drop (l.filter p).length = l.filter (fun x => !p x) := by
  conv_lhs => arg 2; rw [← h.append]
  rw [List.drop_left]

theorem Cuts.holds_iff (h : Cuts p l) {i : ℕ} {x : α} (hx : l[i]? = some x) : p x = true ↔ i < (l.filter p).length := by
  rw [← h.append] at hx
  by_cases hi : i < (l.filter p).length
  · rw [List.getElem?_append_left hi] at hx
    exact ⟨fun _ => hi, fun _ => (List.mem_filter.mp (List.mem_of_getElem? hx)).2⟩
  · rw [List.getElem?_append_right (not_lt.mp hi)] at hx
    have hn := (List.mem_filter.mp (List.mem_of_getElem? hx)).2
    rw [Bool.not_eq_true'] at hn
    exact ⟨fun hp => absurd hn (by simp [hp]), fun h => absurd h hi⟩

theorem Cuts.rdropWhile_eq (h : Cuts p l) : l.rdropWhile (fun x => !p x) = l.filter p := by
  induction l using List.reverseRecOn with
  | nil => rfl
  | append_singleton l a ih =>
    obtain ⟨hl, -, ha⟩ := List.pairwise_append.mp h
    rw [List.filter_append]
    by_cases hp : p a = true
    · have hall : l.filter p = l := List.filter_eq_self.mpr (fun x hx => ha x hx a List.mem_cons_self hp)
      rw [List.rdropWhile_concat_neg (p := fun x => !p x) _ _ (by simp [hp]), hall, List.filter_cons_of_pos hp,
        List.filter_nil]
    · rw [List.rdropWhile_concat_pos (p := fun x => !p x) _ _ (by simp [hp]), ih hl, List.filter_cons_of_neg hp,
        List.filter_nil, List.append_nil]

variable [LinearOrder α] {t : α}

theorem cuts_lt (h : l.Pairwise (· < ·)) (t : α) : Cuts (fun x => decide (x < t)) l :=
  h.imp (fun hxy hy => decide_eq_true (hxy.trans (of_decide_eq_true hy)))

theorem cuts_le (h : l.Pairwise (· < ·)) (t : α) : Cuts (fun x => decide (x ≤ t)) l :=
  h.imp (fun hxy hy => decide_eq_true (hxy.le.trans (of_decide_eq_true hy)))

/-- From a member on, a sorted list is that member and what is greater. -/
theorem filter_ge (h : l.Pairwise (· < ·)) (ht : t ∈ l) :
    l.filter (fun x => t ≤ x) = t :: l.filter (fun x => t < x) := by
  induction l with
  | nil => cases ht
  | cons a l ih =>
    obtain ⟨ha, hl⟩ := List.pairwise_cons.mp h
    rcases List.mem_cons.mp ht with rfl | hm
    · have hle : l.filter (fun x => decide (t ≤ x)) = l.filter (fun x => decide (t < x)) :=
        List.filter_congr (fun x hx => by simp [ha x hx, (ha x hx).le])
      rw [List.filter_cons_of_pos (by simp), List.filter_cons_of_neg (by simp), hle]
    · have hta : a < t := ha t hm
      rw [List.filter_cons_of_neg (by simpa using hta), List.filter_cons_of_neg (by simpa using hta.le), ih hl hm]

/-- Up to a member, a sorted list is what is less and that member. -/
theorem filter_le (h : l.Pairwise (· < ·)) (ht : t ∈ l) :
    l.filter (fun x => x ≤ t) = l.filter (fun x => x < t) ++ [t] := by
  induction l with
  | nil => cases ht
  | cons a l ih =>
    obtain ⟨ha, hl⟩ := List.pairwise_cons.mp h
    rcases List.mem_cons.mp ht with rfl | hm
    · have hnil (q : α → Bool) (hq : ∀ x, q x = true → x ≤ t) : l.filter q = [] :=
        List.filter_eq_nil_iff.mpr (fun x hx hqx => absurd (ha x hx) (not_lt.mpr (hq x hqx)))
      rw [List.filter_cons_of_pos (by simp), List.filter_cons_of_neg (by simp),
        hnil _ (fun x hx => of_decide_eq_true hx), hnil _ (fun x hx => (of_decide_eq_true hx).le), List.nil_append]
    · have hta : a < t := ha t hm
      rw [List.filter_cons_of_pos (by simpa using hta.le), List.filter_cons_of_pos (by simpa using hta), ih hl hm,
        List.cons_append]

theorem filter_ge_of_notMem (ht : t ∉ l) : l.filter (fun x => t ≤ x) = l.filter (fun x => t < x) :=
  List.filter_congr (fun x hx => decide_eq_decide.mpr (by
    have : t ≠ x := fun he => ht (he ▸ hx)
    exact ⟨fun h => lt_of_le_of_ne h this, le_of_lt⟩))

theorem filter_le_of_notMem (ht : t ∉ l) : l.filter (fun x => x ≤ t) = l.filter (fun x => x < t) :=
  List.filter_congr (fun x hx => decide_eq_decide.mpr (by
    have : x ≠ t := fun he => ht (he ▸ hx)
    exact ⟨fun h => lt_of_le_of_ne h this, le_of_lt⟩))

theorem head?_eq_some_iff (h : l.Pairwise (· < ·)) : l.head? = some t ↔ IsLeast {x | x ∈ l} t := by
  cases l with
  | nil => exact ⟨fun h => absurd h.symm (Option.some_ne_none t), fun h => absurd h.1 List.not_mem_nil⟩
  | cons a l =>
    have hleast : IsLeast {x | x ∈ a :: l} a :=
      ⟨List.mem_cons_self, fun x hx => (List.mem_cons.mp hx).elim ge_of_eq
        (fun hm => ((List.pairwise_cons.mp h).1 x hm).le)⟩
    rw [List.head?_cons, Option.some.injEq]
    exact ⟨fun he => he ▸ hleast, fun ht => hleast.unique ht⟩

theorem getLast?_eq_some_iff (h : l.Pairwise (· < ·)) : l.getLast? = some t ↔ IsGreatest {x | x ∈ l} t := by
  induction l using List.reverseRecOn with
  | nil => exact ⟨fun h => absurd h.symm (Option.some_ne_none t), fun h => absurd h.1 List.not_mem_nil⟩
  | append_singleton l a _ =>
    obtain ⟨-, -, ha⟩ := List.pairwise_append.mp h
    have hgreatest : IsGreatest {x | x ∈ l ++ [a]} a :=
      ⟨List.mem_append_right _ List.mem_cons_self, fun x hx => (List.mem_append.mp hx).elim
        (fun hm => (ha x hm a List.mem_cons_self).le) (fun hm => (List.mem_singleton.mp hm).le)⟩
    rw [List.getLast?_concat, Option.some.injEq]
    exact ⟨fun he => he ▸ hgreatest, fun ht => hgreatest.unique ht⟩

end Cut
