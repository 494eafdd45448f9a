import Mathlib.Data.List.Basic
import Mathlib.Tactic.Common
/-!
# Ends — changing the first, the last or the inner elements of a list

The function that changes an element may fail, and then the whole change does.  Each change is given by what it does to
a list with its ends apart, `x :: (xs ++ [z])`.  A list is in order but at the ends when only its first two or its last
two elements may decrease (`InOrder`).
-/
namespace Ends

variable {α : Type} {f : α → Option α} {x z : α} {xs ys : List α}

/-- Changes the first element; there must be one. -/
def mapFirst (f : α → Option α) : List α → Option (List α)
  | []      => none
  | x :: xs => (f x).map (fun x => x :: xs)

/-- Changes the last element; there must be one. -/
def mapLast (f : α → Option α) : List α → Option (List α)
  | []           => none
  | [x]          => (f x).map (fun x => [x])
  | x :: y :: ys => (mapLast f (y :: ys)).map (fun ys => x :: ys)

/-- Changes every element but the last. -/
def mapInit (f : α → Option α) : List α → Option (List α)
  | []           => some []
  | [x]          => some [x]
  | x :: y :: ys => (f x).bind (fun x => (mapInit f (y :: ys)).map (fun ys => x :: ys))

/-- Changes every element but the first and the last. -/
def mapInner (f : α → Option α) : List α → Option (List α)
  | []      => some []
  | x :: xs => (mapInit f xs).map (fun xs => x :: xs)

theorem exists_ends : ∀ {l : List α}, 2 ≤ l.length → ∃ x xs z, l = x :: (xs ++ [z])
  | x :: y :: ys, _ => ⟨x, (y :: ys).dropLast, (y :: ys).getLast (by simp), by
    rw [List.dropLast_append_getLast]⟩

theorem mapFirst_cons (f : α → Option α) (x : α) (xs : List α) :
    mapFirst f (x :: xs) = (f x).map (fun x => x :: xs) := rfl

theorem mapLast_append (f : α → Option α) (z : α) : ∀ xs : List α,
    mapLast f (xs ++ [z]) = (f z).map (fun z => xs ++ [z])
  | []      => rfl
  | x :: xs => by
    obtain ⟨y, ys, hy⟩ : ∃ y ys, xs ++ [z] = y :: ys := List.exists_cons_of_ne_nil (by simp)
    rw [List.cons_append, hy, mapLast, ← hy, mapLast_append f z xs]
    cases f z <;> rfl

theorem mapM_cons_eq (f : α → Option α) (x : α) (xs : List α) :
    (x :: xs).mapM f = (f x).bind (fun y => (xs.mapM f).map (fun ys => y :: ys)) := by
  rw [List.mapM_cons]
  cases f x with
  | none   => rfl
  | some y => cases xs.mapM f <;> rfl

theorem mapInit_append (f : α → Option α) (z : α) : ∀ xs : List α,
    mapInit f (xs ++ [z]) = (xs.mapM f).map (fun xs => xs ++ [z])
  | []      => rfl
  | x :: xs => by
    have ih := mapInit_append f z xs
    obtain ⟨y, ys, hy⟩ : ∃ y ys, xs ++ [z] = y :: ys := List.exists_cons_of_ne_nil (by simp)
    rw [mapM_cons_eq, List.cons_append, hy, mapInit, ← hy, ih]
    cases f x with
    | none   => rfl
    | some x => cases xs.mapM f <;> rfl

theorem mapInner_ends (f : α → Option α) (x z : α) (xs : List α) :
    mapInner f (x :: (xs ++ [z])) = (xs.mapM f).map (fun xs => x :: (xs ++ [z])) := by
  rw [mapInner, mapInit_append, Option.map_map]
  rfl

theorem mapM_length : ∀ {xs ys : List α}, xs.mapM f = some ys → ys.length = xs.length
  | [], ys, h      => by
    obtain rfl : [] = ys := by simpa using h
    rfl
  | x :: xs, ys, h => by
    rw [mapM_cons_eq] at h
    obtain ⟨y, -, h⟩ := Option.bind_eq_some_iff.mp h
    obtain ⟨zs, hz, rfl⟩ := Option.map_eq_some_iff.mp h
    rw [List.length_cons, List.length_cons, mapM_length hz]

theorem mapM_mem : ∀ {xs ys : List α}, xs.mapM f = some ys → ∀ y ∈ ys, ∃ x ∈ xs, f x = some y
  | [], ys, h, y, hy      => by
    obtain rfl : [] = ys := by simpa using h
    exact absurd hy List.not_mem_nil
  | x :: xs, ys, h, y, hy => by
    rw [mapM_cons_eq] at h
    obtain ⟨w, hw, h⟩ := Option.bind_eq_some_iff.mp h
    obtain ⟨zs, hz, rfl⟩ := Option.map_eq_some_iff.mp h
    rcases List.mem_cons.mp hy with rfl | hy
    · exact ⟨x, List.mem_cons_self, hw⟩
    · obtain ⟨x', hx', h'⟩ := mapM_mem hz y hy
      exact ⟨x', List.mem_cons_of_mem x hx', h'⟩

theorem mapM_pairwise {R S : α → α → Prop}
    (hf : ∀ x x' y y', R x x' → f x = some y → f x' = some y' → S y y') :
    ∀ {xs ys : List α}, xs.Pairwise R → xs.mapM f = some ys → ys.Pairwise S
  | [], ys, _, h      => by
    obtain rfl : [] = ys := by simpa using h
    exact List.Pairwise.nil
  | x :: xs, ys, hp, h => by
    rw [mapM_cons_eq] at h
    obtain ⟨y, hy, h⟩ := Option.bind_eq_some_iff.mp h
    obtain ⟨zs, hz, rfl⟩ := Option.map_eq_some_iff.mp h
    obtain ⟨hx, hp⟩ := List.pairwise_cons.mp hp
    refine List.pairwise_cons.mpr ⟨fun w hw => ?_, mapM_pairwise hf hp hz⟩
    obtain ⟨x', hx', hw'⟩ := mapM_mem hz w hw
    exact hf x x' y w (hx x' hx') hy hw'

theorem mapFirst_length : ∀ {xs ys : List α}, mapFirst f xs = some ys → ys.length = xs.length
  | x :: xs, ys, h => by
    obtain ⟨y, -, rfl⟩ := Option.map_eq_some_iff.mp h
    rfl

theorem mapLast_length : ∀ {xs ys : List α}, mapLast f xs = some ys → ys.length = xs.length
  | [x], ys, h          => by
    obtain ⟨y, -, rfl⟩ := Option.map_eq_some_iff.mp h
    rfl
  | x :: z :: xs, ys, h => by
    obtain ⟨zs, hz, rfl⟩ := Option.map_eq_some_iff.mp h
    rw [List.length_cons, List.length_cons, mapLast_length hz]

theorem mapInit_length : ∀ {xs ys : List α}, mapInit f xs = some ys → ys.length = xs.length
  | [], ys, h           => by rw [← Option.some.inj h]
  | [x], ys, h          => by rw [← Option.some.inj h]
  | x :: z :: xs, ys, h => by
    obtain ⟨y, -, h⟩ := Option.bind_eq_some_iff.mp h
    obtain ⟨zs, hz, rfl⟩ := Option.map_eq_some_iff.mp h
    rw [List.length_cons, List.length_cons, mapInit_length hz]

theorem mapInner_length : ∀ {xs ys : List α}, mapInner f xs = some ys → ys.length = xs.length
  | [], ys, h      => by rw [← Option.some.inj h]
  | x :: xs, ys, h => by
    obtain ⟨zs, hz, rfl⟩ := Option.map_eq_some_iff.mp h
    rw [List.length_cons, List.length_cons, mapInit_length hz]

/-! ## Order but at the ends -/

/-- **In order but at the ends**: no element is after a later one, unless they are the first two or the last two. -/
def InOrder [LE α] (l : List α) : Prop :=
  ∀ j, ∀ hj : j < l.length, ∀ i, ∀ hi : i < j, (i + 1 < j ∨ 0 < i ∧ j + 1 < l.length) → l[i] ≤ l[j]

instance [LE α] [DecidableLE α] (l : List α) : Decidable (InOrder l) := by
  unfold InOrder
  infer_instance

theorem inOrder_of_sorted [LE α] {l : List α} (h : l.Pairwise (· ≤ ·)) : InOrder l :=
  fun j hj i hi _ => List.pairwise_iff_getElem.mp h i j (Nat.lt_trans hi hj) hj hi

theorem inOrder_two [LE α] {x y : α} : InOrder [x, y] := by
  intro j hj i hi hne
  simp only [List.length_cons, List.length_nil] at hj hne
  omega

theorem inOrder_three [LE α] {x y z : α} : InOrder [x, y, z] ↔ x ≤ z := by
  constructor
  · intro h
    exact h 2 (by simp) 0 (by simp) (.inl (by simp))
  · intro h j hj i hi hne
    simp only [List.length_cons, List.length_nil] at hj hne
    obtain ⟨rfl, rfl⟩ : i = 0 ∧ j = 2 := by omega
    exact h

theorem inOrder_four [LE α] {x y u v : α} {m : List α} : InOrder (x :: y :: (m ++ [u, v])) ↔
    m.Pairwise (· ≤ ·) ∧ (∀ a ∈ m, (x ≤ a ∧ y ≤ a) ∧ a ≤ u ∧ a ≤ v) ∧ (x ≤ u ∧ x ≤ v) ∧ y ≤ u ∧ y ≤ v := by
  have hlen : (x :: y :: (m ++ [u, v])).length = m.length + 4 := by simp
  constructor
  · intro h
    refine ⟨List.pairwise_iff_getElem.mpr (fun i j hi hj hij => ?_), fun a ha => ?_, ?_⟩
    · have := h (j + 2) (by omega) (i + 2) (by omega) (.inr (by omega))
      simpa [List.getElem_append_left, hi, hj] using this
    · obtain ⟨k, hk, rfl⟩ := List.getElem_of_mem ha
      have hx := h (k + 2) (by omega) 0 (by omega) (.inl (by omega))
      have hy := h (k + 2) (by omega) 1 (by omega) (.inr (by omega))
      have hu := h (m.length + 2) (by omega) (k + 2) (by omega) (.inr (by omega))
      have hv := h (m.length + 3) (by omega) (k + 2) (by omega) (.inl (by omega))
      simp [List.getElem_append_left, hk] at hx hy hu hv
      exact ⟨⟨hx, hy⟩, hu, hv⟩
    · have h₁ := h (m.length + 2) (by omega) 0 (by omega) (.inl (by omega))
      have h₂ := h (m.length + 3) (by omega) 0 (by omega) (.inl (by omega))
      have h₃ := h (m.length + 2) (by omega) 1 (by omega) (.inr (by omega))
      have h₄ := h (m.length + 3) (by omega) 1 (by omega) (.inl (by omega))
      simp at h₁ h₂ h₃ h₄
      exact ⟨⟨h₁, h₂⟩, h₃, h₄⟩
  · rintro ⟨hp, ha, hx, hy⟩ j hj i hi hne
    obtain ⟨k, rfl⟩ : ∃ k, j = k + 2 := ⟨j - 2, by omega⟩
    have hk : k < m.length ∨ k = m.length ∨ k = m.length + 1 := by omega
    match i with
    | 0     =>
      rcases hk with hk | rfl | rfl
      · simpa [List.getElem_append_left, hk] using (ha _ (List.getElem_mem hk)).1.1
      · simpa using hx.1
      · simpa using hx.2
    | 1     =>
      rcases hk with hk | rfl | rfl
      · simpa [List.getElem_append_left, hk] using (ha _ (List.getElem_mem hk)).1.2
      · simpa using hy.1
      · simpa using hy.2
    | i + 2 =>
      have hi' : i < m.length := by omega
      rcases hk with hk | rfl | rfl
      · simpa [List.getElem_append_left, hk, hi'] using List.pairwise_iff_getElem.mp hp i k hi' hk (by omega)
      · simpa [List.getElem_append_left, hi'] using (ha _ (List.getElem_mem hi')).2.1
      · simpa [List.getElem_append_left, hi'] using (ha _ (List.getElem_mem hi')).2.2
end Ends
