import Mathlib.Data.List.Sort
import Mathlib.Data.Set.Function
import Mathlib.Order.Monotone.Basic
import Mathlib.Tactic.Common
/-!
# Skip — positions counted past the excluded ones

A number drawn below the number of free positions becomes a position by one step over every excluded position that it has
reached, in their order.  The steps carry the numbers in order onto the positions that are free (`pastAll_bijOn`).  Positions
drawn one after the other, each excluded from then on, are in correspondence with the draws (`picks_bijOn`).
-/
namespace Skip

/-- One step over an excluded position that is reached. -/
def past (skip index : ℕ) : ℕ := if skip ≤ index then index + 1 else index

def pastAll (skips : List ℕ) (index : ℕ) : ℕ := skips.foldl (fun index skip => past skip index) index

variable {a i j n : ℕ} {l excluded draws : List ℕ}

theorem past_strictMono (a : ℕ) : StrictMono (past a) := by
  intro i j h
  unfold past
  split_ifs <;> omega

theorem past_ne (a i : ℕ) : past a i ≠ a := by
  unfold past
  split_ifs <;> omega

theorem exists_past (h : j ≠ a) : ∃ i, past a i = j := by
  unfold past
  rcases lt_or_gt_of_ne h with hlt | hgt
  · exact ⟨j, if_neg (by omega)⟩
  · exact ⟨j - 1, by rw [if_pos (by omega)]; omega⟩

theorem past_lt_iff (h : a < n) : past a i < n ↔ i + 1 < n := by
  unfold past
  split_ifs <;> omega

theorem pastAll_cons (a : ℕ) (l : List ℕ) (i : ℕ) : pastAll (a :: l) i = pastAll l (past a i) := rfl

theorem pastAll_strictMono : ∀ l, StrictMono (pastAll l)
  | []     => strictMono_id
  | a :: l => (pastAll_strictMono l).comp (past_strictMono a)

theorem le_past (a i : ℕ) : i ≤ past a i := by
  unfold past
  split_ifs <;> omega

theorem le_pastAll : ∀ (l : List ℕ) (i : ℕ), i ≤ pastAll l i
  | [], _     => le_rfl
  | a :: l, i => (le_past a i).trans (le_pastAll l _)

theorem pastAll_of_lt : ∀ {l : List ℕ}, (∀ x ∈ l, i < x) → pastAll l i = i
  | [], _     => rfl
  | a :: l, h => by
    obtain ⟨ha, hl⟩ := List.forall_mem_cons.1 h
    rw [pastAll_cons, past, if_neg (by omega), pastAll_of_lt hl]

theorem pastAll_notMem : ∀ {l : List ℕ} (i : ℕ), l.Pairwise (· < ·) → pastAll l i ∉ l
  | [], _, _     => List.not_mem_nil
  | a :: l, i, h => by
    obtain ⟨ha, hl⟩ := List.pairwise_cons.1 h
    rw [pastAll_cons, List.mem_cons, not_or]
    refine ⟨?_, pastAll_notMem _ hl⟩
    rcases lt_or_gt_of_ne (past_ne a i) with hlt | hgt
    · rw [pastAll_of_lt fun x hx => hlt.trans (ha x hx)]
      exact hlt.ne
    · exact (hgt.trans_le (le_pastAll l _)).ne'

theorem exists_pastAll : ∀ {l : List ℕ}, l.Pairwise (· < ·) → j ∉ l → ∃ i, pastAll l i = j
  | [], _, _     => ⟨j, rfl⟩
  | a :: l, h, hj => by
    obtain ⟨ha, hl⟩ := List.pairwise_cons.1 h
    obtain ⟨hja, hjl⟩ := not_or.1 (mt List.mem_cons.2 hj)
    obtain ⟨i, hi⟩ := exists_pastAll hl hjl
    have hia : i ≠ a := by
      rintro rfl
      rw [pastAll_of_lt ha] at hi
      exact hja hi.symm
    obtain ⟨i', rfl⟩ := exists_past hia
    exact ⟨i', hi⟩

theorem pastAll_lt_iff : ∀ {l : List ℕ} (i : ℕ), l.Pairwise (· < ·) → (∀ x ∈ l, x < n) →
    (pastAll l i < n ↔ i + l.length < n)
  | [], _, _, _      => Iff.rfl
  | a :: l, i, h, hn => by
    obtain ⟨ha, hl⟩ := List.pairwise_cons.1 h
    obtain ⟨han, hln⟩ := List.forall_mem_cons.1 hn
    -- the positions after the first are all above it
    have hroom : a + l.length < n := by
      rw [← pastAll_lt_iff a hl hln, pastAll_of_lt ha]
      exact han
    have hpast := past_lt_iff (i := i) (show a < n - l.length by omega)
    rw [pastAll_cons, pastAll_lt_iff _ hl hln, List.length_cons]
    omega

/-- **The steps** take the numbers below the number of free positions onto the free positions. -/
theorem pastAll_bijOn (h : l.Pairwise (· < ·)) (hn : ∀ x ∈ l, x < n) :
    Set.BijOn (pastAll l) {i | i + l.length < n} {j | j < n ∧ j ∉ l} := by
  refine ⟨fun i hi => ⟨(pastAll_lt_iff i h hn).2 hi, pastAll_notMem i h⟩, (pastAll_strictMono l).injective.injOn, ?_⟩
  rintro j ⟨hj, hjl⟩
  obtain ⟨i, rfl⟩ := exists_pastAll h hjl
  exact ⟨i, (pastAll_lt_iff i h hn).1 hj, rfl⟩

/-! ## One after the other -/

/-- The excluded positions in order. -/
def inOrder (excluded : List ℕ) : List ℕ := excluded.insertionSort (· ≤ ·)

/-- The positions of the draws, each of them excluded from then on. -/
def picks : List ℕ → List ℕ → List ℕ
  | _, []                  => []
  | excluded, draw :: rest =>
    let index := pastAll (inOrder excluded) draw
    index :: picks (inOrder excluded ++ [index]) rest

/-- Each of the draws is below the number of positions that are free then. -/
def Within (n : ℕ) : ℕ → List ℕ → Prop
  | _, []              => True
  | taken, draw :: rest => draw + taken < n ∧ Within n (taken + 1) rest

theorem inOrder_pairwise (h : excluded.Nodup) : (inOrder excluded).Pairwise (· < ·) := by
  have hsorted : (inOrder excluded).Pairwise (· ≤ ·) := List.pairwise_insertionSort (· ≤ ·) excluded
  have hnodup : (inOrder excluded).Nodup := (List.perm_insertionSort (· ≤ ·) excluded).nodup_iff.2 h
  exact (hsorted.and hnodup).imp fun h => lt_of_le_of_ne h.1 h.2

theorem mem_inOrder {x : ℕ} : x ∈ inOrder excluded ↔ x ∈ excluded := (List.perm_insertionSort (· ≤ ·) excluded).mem_iff

theorem length_inOrder : (inOrder excluded).length = excluded.length := (List.perm_insertionSort (· ≤ ·) excluded).length_eq

/-- The positions drawn: distinct, and none of the excluded ones. -/
structure Chosen (n : ℕ) (excluded chosen : List ℕ) : Prop where
  nodup : chosen.Nodup
  free : ∀ x ∈ chosen, x < n ∧ x ∉ excluded

/-- The excluded positions are distinct and below `n`. -/
structure Excludes (n : ℕ) (excluded : List ℕ) : Prop where
  nodup : excluded.Nodup
  lt : ∀ x ∈ excluded, x < n

theorem Excludes.bijOn (h : Excludes n excluded) : Set.BijOn (pastAll (inOrder excluded)) {i | i + excluded.length < n}
    {j | j < n ∧ j ∉ excluded} := by
  have hbij := pastAll_bijOn (inOrder_pairwise h.nodup) fun x hx => h.lt x (mem_inOrder.1 hx)
  simp only [length_inOrder, mem_inOrder] at hbij
  exact hbij

theorem mem_append {x : ℕ} : x ∈ inOrder excluded ++ [i] ↔ x ∈ excluded ∨ x = i := by
  rw [List.mem_append, mem_inOrder, List.mem_singleton]

theorem Excludes.append (h : Excludes n excluded) (hi : i < n) (hfree : i ∉ excluded) :
    Excludes n (inOrder excluded ++ [i]) := by
  refine ⟨List.Nodup.append ?_ (List.nodup_singleton i) ?_, fun x hx => ?_⟩
  · exact (List.perm_insertionSort (· ≤ ·) excluded).nodup_iff.2 h.nodup
  · rw [List.disjoint_singleton, mem_inOrder]
    exact hfree
  · rcases mem_append.1 hx with hx | rfl
    · exact h.lt x hx
    · exact hi

theorem length_append : (inOrder excluded ++ [i]).length = excluded.length + 1 := by
  rw [List.length_append, length_inOrder, List.length_singleton]

theorem picks_cons (excluded : List ℕ) (draw : ℕ) (rest : List ℕ) : picks excluded (draw :: rest) =
    pastAll (inOrder excluded) draw :: picks (inOrder excluded ++ [pastAll (inOrder excluded) draw]) rest := rfl

theorem length_picks : ∀ draws excluded, (picks excluded draws).length = draws.length
  | [], _                  => rfl
  | draw :: rest, excluded => by rw [picks_cons, List.length_cons, List.length_cons, length_picks rest]

/-- **What is drawn** is distinct and free. -/
theorem chosen_picks : ∀ {draws excluded : List ℕ}, Excludes n excluded → Within n excluded.length draws →
    Chosen n excluded (picks excluded draws)
  | [], _, _, _                         => ⟨List.nodup_nil, nofun⟩
  | draw :: rest, excluded, h, ⟨hdraw, hrest⟩ => by
    obtain ⟨hlt, hfree⟩ := h.bijOn.mapsTo hdraw
    have ih := chosen_picks (h.append hlt hfree) (length_append ▸ hrest)
    rw [picks_cons]
    refine ⟨List.nodup_cons.2 ⟨fun hmem => (ih.free _ hmem).2 (mem_append.2 (.inr rfl)), ih.nodup⟩, fun x hx => ?_⟩
    rcases List.mem_cons.1 hx with rfl | hx
    · exact ⟨hlt, hfree⟩
    · exact ⟨(ih.free x hx).1, fun hmem => (ih.free x hx).2 (mem_append.2 (.inl hmem))⟩

theorem picks_injective : ∀ {draws draws' excluded : List ℕ}, picks excluded draws = picks excluded draws' → draws = draws'
  | [], [], _, _                               => rfl
  | [], _ :: _, _, h                           => absurd h nofun
  | _ :: _, [], _, h                           => absurd h nofun
  | draw :: rest, draw' :: rest', excluded, h => by
    rw [picks_cons, picks_cons, List.cons.injEq] at h
    obtain rfl := (pastAll_strictMono _).injective h.1
    rw [picks_injective h.2]

theorem exists_draws : ∀ {chosen excluded : List ℕ}, Excludes n excluded → Chosen n excluded chosen →
    ∃ draws, Within n excluded.length draws ∧ picks excluded draws = chosen
  | [], _, _, _                      => ⟨[], trivial, rfl⟩
  | index :: rest, excluded, h, hchosen => by
    obtain ⟨hindex, hnodup⟩ := List.nodup_cons.1 hchosen.nodup
    obtain ⟨⟨hlt, hfree⟩, hrest⟩ := List.forall_mem_cons.1 hchosen.free
    obtain ⟨draw, hdraw, rfl⟩ := h.bijOn.surjOn ⟨hlt, hfree⟩
    have hnext : Chosen n (inOrder excluded ++ [pastAll (inOrder excluded) draw]) rest := by
      refine ⟨hnodup, fun x hx => ⟨(hrest x hx).1, fun hmem => ?_⟩⟩
      rcases mem_append.1 hmem with hmem | rfl
      · exact (hrest x hx).2 hmem
      · exact hindex hx
    obtain ⟨draws, hwithin, rfl⟩ := exists_draws (h.append hlt hfree) hnext
    exact ⟨draw :: draws, ⟨hdraw, length_append ▸ hwithin⟩, rfl⟩

/-- **So many draws** are in correspondence with so many distinct free positions. -/
theorem picks_bijOn (h : Excludes n excluded) (k : ℕ) :
    Set.BijOn (picks excluded) {draws | draws.length = k ∧ Within n excluded.length draws}
      {chosen | chosen.length = k ∧ Chosen n excluded chosen} := by
  refine ⟨?_, fun _ _ _ _ => picks_injective, ?_⟩
  · rintro draws ⟨hlength, hwithin⟩
    exact ⟨(length_picks _ _).trans hlength, chosen_picks h hwithin⟩
  · rintro chosen ⟨hlength, hchosen⟩
    obtain ⟨draws, hwithin, rfl⟩ := exists_draws h hchosen
    exact ⟨draws, ⟨(length_picks _ _).symm.trans hlength, hwithin⟩, rfl⟩

end Skip
