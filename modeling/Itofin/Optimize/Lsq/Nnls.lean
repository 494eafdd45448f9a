import Itofin.Optimize.Lsq.Householder
import Mathlib.Data.List.GetD
/-!
# Nnls — non-negative least squares

`itofin-optimize/src/lsq/nnls.rs`; `residual` and `dual` are those of `Mat`.  The loops take a bound on their turns, and
`none` is that it did not do; the bounds given always do (`inner_isSome`, `enter_isSome`, `outer_isSome`).
-/
namespace Itofin
namespace Lsq

open LeastSquares (Mat)

/-- Why a kernel returned no solution. -/
inductive Failure where
  | iterationCap
  | infeasible
  | rankDeficient
  deriving DecidableEq, Repr

structure Nnls (K : Type) where
  x            : ℕ → K
  residualNorm : K
  iterations   : ℕ

variable {K : Type} [Field K] [LinearOrder K]

/-- The last of the largest. -/
def maxBy (key : ℕ → K) : List ℕ → Option ℕ
  | []      => none
  | j :: js => some (js.foldl (fun best next => if key next < key best then best else next) j)

/-- The first of the smallest. -/
def minBy : List (ℕ × K) → Option (ℕ × K)
  | []      => none
  | p :: ps => some (ps.foldl (fun best next => if next.2 < best.2 then next else best) p)

/-- The passive columns, in their order. -/
def passiveColumns (n : ℕ) (passive : ℕ → Bool) : List ℕ := (List.range n).filter passive

/-- The matrix of the passive columns. -/
def passiveMat (a : Mat K) (passive : ℕ → Bool) : Mat K :=
  let columns := passiveColumns a.cols passive
  ⟨a.rows, columns.length, fun i k => a.entry i (columns.getD k 0)⟩

/-- The least-squares solution on the passive columns, and whether they have full rank. -/
def solvePassive (N : Numbers K) (a : Mat K) (b : ℕ → K) (passive : ℕ → Bool) : (ℕ → K) × Bool :=
  let columns := passiveColumns a.cols passive
  let qr := Qr.factor N (passiveMat a passive)
  let (y, _) := qr.solve N a.rows b
  (scatter (fun k => columns.getD k 0) columns.length y, qr.rank == columns.length)

/-- The index that enters the passive set: the set with it, and its solution; `some none` when there is no candidate. -/
def enter (N : Numbers K) (a : Mat K) (b w : ℕ → K) (passive : ℕ → Bool) :
    ℕ → (ℕ → Bool) → Option (Option ((ℕ → Bool) × (ℕ → K)))
  | 0, _               => none
  | left + 1, rejected =>
    match maxBy w ((List.range a.cols).filter fun j => !passive j && !rejected j && decide (0 < w j)) with
    | none   => some none
    | some t =>
      let trial := Function.update passive t true
      let (z, fullRank) := solvePassive N a b trial
      if fullRank && decide (0 < z t) then some (some (trial, z))
      else enter N a b w passive left (Function.update rejected t true)

/-- The passive index that reaches zero first on the way from `x` to `z`, and how far that is. -/
def blocking (n : ℕ) (x z : ℕ → K) (passive : ℕ → Bool) : Option (ℕ × K) :=
  minBy (((List.range n).filter fun j => passive j && decide (z j ≤ 0)).map fun j =>
    let gap := x j - z j
    (j, if 0 < gap then x j / gap else 0))

/-- The step back towards the feasible region, and the release of the indices that reach zero. -/
def stepBack (n q : ℕ) (alpha : K) (x z : ℕ → K) (passive : ℕ → Bool) : (ℕ → K) × (ℕ → Bool) :=
  let moved := fun j => x j + alpha * (z j - x j)
  (fun j => if j < n ∧ passive j then if j = q ∨ moved j ≤ 0 then 0 else moved j else x j,
    fun j => if j < n ∧ passive j then decide ¬(j = q ∨ moved j ≤ 0) else passive j)

/-- The inner loop. -/
def inner (N : Numbers K) (a : Mat K) (b : ℕ → K) :
    ℕ → (ℕ → K) → (ℕ → Bool) → (ℕ → K) → Option ((ℕ → K) × (ℕ → Bool))
  | 0, _, _, _              => none
  | left + 1, x, passive, z =>
    match blocking a.cols x z passive with
    | none            => some (z, passive)
    | some (q, alpha) =>
      let (x, passive) := stepBack a.cols q alpha x z passive
      inner N a b left x passive (solvePassive N a b passive).1

/-- The outer loop, after a number of iterations. -/
def outer (N : Numbers K) (a : Mat K) (b : ℕ → K) :
    ℕ → ℕ → (ℕ → K) → (ℕ → Bool) → Option (Except Failure (Nnls K))
  | 0, _, _, _                       => none
  | left + 1, iterations, x, passive =>
    match enter N a b (a.dual b x) passive (a.cols + 1) (fun _ => false) with
    | none                   => none
    | some none              => some (.ok ⟨x, norm N ((List.range a.rows).map (a.residual b x)), iterations⟩)
    | some (some (trial, z)) =>
      if 3 * a.cols < iterations + 1 then some (.error .iterationCap)
      else match inner N a b (a.cols + 1) x trial z with
        | none              => none
        | some (x, passive) => outer N a b left (iterations + 1) x passive

/-! ## What is chosen -/

section

omit [Field K]

theorem foldl_mem {α : Type} {choose : α → α → α} (h : ∀ x y, choose x y = x ∨ choose x y = y) :
    ∀ (xs : List α) (x : α), xs.foldl choose x ∈ x :: xs
  | [], x      => List.mem_singleton_self x
  | y :: xs, x => by
    have hrest := List.mem_cons.1 (foldl_mem h xs (choose x y))
    rw [List.foldl_cons, List.mem_cons, List.mem_cons]
    rcases h x y with hxy | hxy
    · rw [hxy] at hrest ⊢
      exact hrest.imp id .inr
    · rw [hxy] at hrest ⊢
      exact .inr hrest

theorem maxBy_mem {key : ℕ → K} {js : List ℕ} {t : ℕ} (h : maxBy key js = some t) : t ∈ js := by
  cases js with
  | nil => exact absurd h nofun
  | cons j js =>
    rw [← Option.some.inj h]
    exact foldl_mem (fun x y => by split <;> simp) js j

theorem minBy_mem {ps : List (ℕ × K)} {p : ℕ × K} (h : minBy ps = some p) : p ∈ ps := by
  cases ps with
  | nil => exact absurd h nofun
  | cons q ps =>
    rw [← Option.some.inj h]
    exact foldl_mem (fun x y => by split <;> simp) ps q

theorem eq_nil_of_maxBy {key : ℕ → K} {js : List ℕ} (h : maxBy key js = none) : js = [] := by
  cases js with
  | nil => rfl
  | cons j js => exact absurd h nofun

theorem eq_nil_of_minBy {ps : List (ℕ × K)} (h : minBy ps = none) : ps = [] := by
  cases ps with
  | nil => rfl
  | cons q ps => exact absurd h nofun

end

theorem blocking_passive {n q : ℕ} {alpha : K} {x z : ℕ → K} {passive : ℕ → Bool}
    (h : blocking n x z passive = some (q, alpha)) : q < n ∧ passive q := by
  obtain ⟨j, hj, he⟩ := List.mem_map.1 (minBy_mem h)
  obtain rfl : j = q := congrArg Prod.fst he
  obtain ⟨hj, hpassive⟩ := List.mem_filter.1 hj
  exact ⟨List.mem_range.1 hj, (Bool.and_eq_true_iff.1 hpassive).1⟩

/-- When nothing blocks, the solution is positive on the passive set. -/
theorem pos_of_blocking {n : ℕ} {x z : ℕ → K} {passive : ℕ → Bool} (h : blocking n x z passive = none) :
    ∀ j < n, passive j → 0 < z j := by
  intro j hj hpassive
  by_contra hz
  have hnone := List.map_eq_nil_iff.1 (eq_nil_of_minBy h)
  have hmem : j ∈ (List.range n).filter fun j => passive j && decide (z j ≤ 0) :=
    List.mem_filter.2 ⟨List.mem_range.2 hj, by simp [hpassive, not_lt.1 hz]⟩
  rw [hnone] at hmem
  exact absurd hmem List.not_mem_nil

/-! ## The loops end -/

/-- The passive indices. -/
def passiveSet (n : ℕ) (passive : ℕ → Bool) : Finset ℕ := (Finset.range n).filter fun j => passive j

theorem mem_passiveSet {n j : ℕ} {passive : ℕ → Bool} : j ∈ passiveSet n passive ↔ j < n ∧ passive j := by
  rw [passiveSet, Finset.mem_filter, Finset.mem_range]

theorem stepBack_subset (n q : ℕ) (alpha : K) (x z : ℕ → K) (passive : ℕ → Bool) {j : ℕ}
    (h : (stepBack n q alpha x z passive).2 j) : passive j := by
  simp only [stepBack] at h
  split at h
  · rename_i hj
    exact hj.2
  · exact h

/-- **A step back releases** what blocks. -/
theorem stepBack_card {n q : ℕ} (alpha : K) (x z : ℕ → K) {passive : ℕ → Bool} (hq : q < n) (hpassive : passive q) :
    (passiveSet n (stepBack n q alpha x z passive).2).card < (passiveSet n passive).card := by
  refine Finset.card_lt_card ⟨fun j hj => ?_, fun hall => ?_⟩
  · obtain ⟨hj, hkept⟩ := mem_passiveSet.1 hj
    exact mem_passiveSet.2 ⟨hj, stepBack_subset n q alpha x z passive hkept⟩
  · have hkept := (mem_passiveSet.1 (hall (mem_passiveSet.2 ⟨hq, hpassive⟩))).2
    simp [stepBack, hq, hpassive] at hkept

theorem inner_isSome (N : Numbers K) (a : Mat K) (b : ℕ → K) : ∀ (left : ℕ) (x : ℕ → K) (passive : ℕ → Bool)
    (z : ℕ → K), (passiveSet a.cols passive).card < left → (inner N a b left x passive z).isSome
  | left + 1, x, passive, z, h => by
    rw [inner]
    split
    · rfl
    · rename_i q alpha hblocking
      obtain ⟨hq, hpassive⟩ := blocking_passive hblocking
      exact inner_isSome N a b left _ _ _ ((stepBack_card alpha x z hq hpassive).trans_le (Nat.lt_succ_iff.1 h))

theorem passiveSet_card_le (n : ℕ) (passive : ℕ → Bool) : (passiveSet n passive).card ≤ n :=
  (Finset.card_filter_le _ _).trans_eq (Finset.card_range n)

theorem enter_isSome (N : Numbers K) (a : Mat K) (b w : ℕ → K) (passive : ℕ → Bool) : ∀ (left : ℕ)
    (rejected : ℕ → Bool), (passiveSet a.cols fun j => !rejected j).card < left →
      (enter N a b w passive left rejected).isSome
  | left + 1, rejected, h => by
    rw [enter]
    split
    · rfl
    · rename_i t ht
      obtain ⟨hrange, hcandidate⟩ := List.mem_filter.1 (maxBy_mem ht)
      simp only [Bool.and_eq_true] at hcandidate
      dsimp only
      split
      · rfl
      · refine enter_isSome N a b w passive left _
          (lt_of_lt_of_le (Finset.card_lt_card ⟨fun j hj => ?_, fun hall => ?_⟩) (Nat.lt_succ_iff.1 h))
        · obtain ⟨hj, hkept⟩ := mem_passiveSet.1 hj
          refine mem_passiveSet.2 ⟨hj, ?_⟩
          by_cases hjt : j = t
          · rw [hjt]; exact hcandidate.1.2
          · rwa [Function.update_of_ne hjt] at hkept
        · have hkept := (mem_passiveSet.1 (hall (mem_passiveSet.2 ⟨List.mem_range.1 hrange, hcandidate.1.2⟩))).2
          rw [Function.update_self] at hkept
          exact absurd hkept nofun

theorem outer_isSome (N : Numbers K) (a : Mat K) (b : ℕ → K) : ∀ (left iterations : ℕ) (x : ℕ → K)
    (passive : ℕ → Bool), 3 * a.cols + 1 ≤ left + iterations → iterations ≤ 3 * a.cols →
      (outer N a b left iterations x passive).isSome
  | 0, iterations, x, passive, h, hle        => absurd h (by omega)
  | left + 1, iterations, x, passive, h, hle => by
    have henter := enter_isSome N a b (a.dual b x) passive (a.cols + 1) (fun _ => false)
      (Nat.lt_succ_iff.2 (passiveSet_card_le _ _))
    rw [outer]
    split
    · rename_i hnone
      rw [hnone] at henter
      exact absurd henter nofun
    · rfl
    · rename_i trial z _
      have hinner := inner_isSome N a b (a.cols + 1) x trial z (Nat.lt_succ_iff.2 (passiveSet_card_le _ _))
      split
      · rfl
      · split
        · rename_i hnone
          rw [hnone] at hinner
          exact absurd hinner nofun
        · exact outer_isSome N a b left (iterations + 1) _ _ (by omega) (by omega)

/-- `min ‖a x - b‖` subject to `x ≥ 0`, by the active-set method. -/
def nnls (N : Numbers K) (a : Mat K) (b : ℕ → K) : Except Failure (Nnls K) :=
  (outer N a b (3 * a.cols + 1) 0 0 fun _ => false).get
    (outer_isSome N a b _ 0 0 _ le_rfl (Nat.zero_le _))

/-! ## The passive columns -/

section

variable {n : ℕ} {passive : ℕ → Bool} {a : Mat K}

omit [LinearOrder K]

theorem getD_passiveColumns {k : ℕ} (hk : k < (passiveColumns n passive).length) :
    (passiveColumns n passive).getD k 0 < n ∧ passive ((passiveColumns n passive).getD k 0) := by
  have hmem := List.getElem_mem hk
  rw [List.getD_eq_getElem _ _ hk]
  obtain ⟨hrange, hpassive⟩ := List.mem_filter.1 hmem
  exact ⟨List.mem_range.1 hrange, hpassive⟩

theorem getD_passiveColumns_inj {k l : ℕ} (hk : k < (passiveColumns n passive).length)
    (hl : l < (passiveColumns n passive).length)
    (he : (passiveColumns n passive).getD k 0 = (passiveColumns n passive).getD l 0) : k = l := by
  rw [List.getD_eq_getElem _ _ hk, List.getD_eq_getElem _ _ hl] at he
  exact (List.nodup_range.filter _).getElem_inj_iff.1 he

theorem exists_passiveColumns {j : ℕ} (hj : j < n) (hpassive : passive j) :
    ∃ k < (passiveColumns n passive).length, (passiveColumns n passive).getD k 0 = j := by
  obtain ⟨k, hk, he⟩ := List.getElem_of_mem (List.mem_filter.2 ⟨List.mem_range.2 hj, hpassive⟩)
  exact ⟨k, hk, (List.getD_eq_getElem _ _ hk).trans he⟩

/-- What the solution on the passive columns becomes among all the columns. -/
def spread (n : ℕ) (passive : ℕ → Bool) (y : ℕ → K) : ℕ → K :=
  scatter (fun k => (passiveColumns n passive).getD k 0) (passiveColumns n passive).length y

theorem spread_key (y : ℕ → K) {k : ℕ} (hk : k < (passiveColumns n passive).length) :
    spread n passive y ((passiveColumns n passive).getD k 0) = y k :=
  scatter_key (fun _ hi _ hj he => getD_passiveColumns_inj hi hj he) hk

theorem spread_of_not (y : ℕ → K) {j : ℕ} (hj : ¬ passive j) : spread n passive y j = 0 :=
  scatter_of_ne fun _ hk he => hj (he ▸ (getD_passiveColumns hk).2)

/-- **The passive columns** alone have the products of the spread vector. -/
theorem mulVec_spread (y : ℕ → K) (i : ℕ) :
    a.mulVec (spread a.cols passive y) i = (passiveMat a passive).mulVec y i := by
  have hsub : ∑ j ∈ passiveSet a.cols passive, a.entry i j * spread a.cols passive y j =
      ∑ j ∈ Finset.range a.cols, a.entry i j * spread a.cols passive y j := by
    refine Finset.sum_subset (Finset.filter_subset _ _) fun j hj hout => ?_
    rw [spread_of_not y fun hp => hout (Finset.mem_filter.2 ⟨hj, hp⟩), mul_zero]
  rw [Mat.mulVec, Mat.mulVec, ← hsub]
  symm
  refine Finset.sum_nbij (fun k => (passiveColumns a.cols passive).getD k 0) ?_ ?_ ?_ ?_
  · intro k hk
    exact mem_passiveSet.2 (getD_passiveColumns (Finset.mem_range.1 hk))
  · intro k hk l hl he
    exact getD_passiveColumns_inj (Finset.mem_range.1 hk) (Finset.mem_range.1 hl) he
  · intro j hj
    obtain ⟨hj, hp⟩ := mem_passiveSet.1 hj
    obtain ⟨k, hk, he⟩ := exists_passiveColumns hj hp
    exact ⟨k, Finset.mem_coe.2 (Finset.mem_range.2 hk), he⟩
  · intro k hk
    rw [spread_key y (Finset.mem_range.1 hk)]
    rfl

theorem independent_passiveMat (h : a.Independent (passive ·)) :
    (passiveMat a passive).Independent fun _ => True := by
  intro v _ hzero k hk
  rw [← spread_key v hk]
  refine h (spread a.cols passive v) (fun j _ hj => spread_of_not v hj) (fun i hi => ?_) _ (getD_passiveColumns hk).1
  rw [mulVec_spread]
  exact hzero i hi

end

section

variable [IsStrictOrderedRing K] {N : Numbers K} {a : Mat K} {passive : ℕ → Bool}

/-- **Independent passive columns** have full rank, and their solution fits. -/
theorem solvePassive_spec (hN : N.Exact) (b : ℕ → K) (h : a.Independent (passive ·)) :
    (solvePassive N a b passive).2 ∧ a.Fits b (passive ·) (solvePassive N a b passive).1 := by
  have hrank := Qr.rank_of_independent hN (independent_passiveMat h)
  obtain ⟨Q, hQ⟩ := Qr.full_rank hN hrank.not_lt
  refine ⟨beq_iff_eq.2 hrank, ⟨fun j _ hj => spread_of_not _ hj, fun j hj hp => ?_⟩⟩
  obtain ⟨k, hk, rfl⟩ := exists_passiveColumns hj hp
  have hresidual : a.residual b (solvePassive N a b passive).1 =
      (passiveMat a passive).residual b ((Qr.factor N (passiveMat a passive)).solve N a.rows b).1 := by
    funext i
    exact congrArg (b i - ·) (mulVec_spread _ i)
  rw [Mat.dual, hresidual]
  exact hQ.solve_spec (N := N) b hk

end

/-! ## The active set -/

/-- **At each turn of the outer loop**: the point fits its passive columns, which are independent, and is positive
there. -/
structure Active (a : Mat K) (b x : ℕ → K) (passive : ℕ → Bool) : Prop where
  fits        : a.Fits b (passive ·) x
  positive    : ∀ j < a.cols, passive j → 0 < x j
  independent : a.Independent (passive ·)

section

variable {N : Numbers K} {a : Mat K} {b x : ℕ → K} {passive : ℕ → Bool}

theorem active_start (a : Mat K) (b : ℕ → K) : Active a b 0 fun _ => false where
  fits        := ⟨fun _ _ _ => rfl, nofun⟩
  positive    := nofun
  independent := fun _ hv _ j hj => hv j hj nofun

theorem Active.complementary (h : Active a b x passive) (hw : ∀ j < a.cols, ¬ passive j → a.dual b x j ≤ 0) :
    a.Complementary b x where
  nonneg j hj := by
    by_cases hp : passive j
    · exact (h.positive j hj hp).le
    · exact (h.fits.support j hj hp).ge
  dual j hj := by
    by_cases hp : passive j
    · exact (h.fits.normal j hj hp).le
    · exact hw j hj hp
  slack j hj := by
    by_cases hp : passive j
    · exact .inr (h.fits.normal j hj hp)
    · exact .inl (h.fits.support j hj hp)

variable [IsStrictOrderedRing K]

/-- **The first candidate enters**: none is rejected. -/
theorem Active.enter_spec (hN : N.Exact) (h : Active a b x passive) (left : ℕ) :
    (enter N a b (a.dual b x) passive (left + 1) (fun _ => false) = some none ∧ a.Complementary b x) ∨
      ∃ trial z, enter N a b (a.dual b x) passive (left + 1) (fun _ => false) = some (some (trial, z)) ∧
        a.Independent (trial ·) ∧ a.Fits b (trial ·) z := by
  rw [enter]
  split
  · rename_i hnone
    refine .inl ⟨rfl, h.complementary fun j hj hp => not_lt.1 fun hw => ?_⟩
    have hmem : j ∈ (List.range a.cols).filter fun j => !passive j && !false && decide (0 < a.dual b x j) :=
      List.mem_filter.2 ⟨List.mem_range.2 hj, by simp [hp, hw]⟩
    rw [eq_nil_of_maxBy hnone] at hmem
    exact absurd hmem List.not_mem_nil
  · rename_i t ht
    obtain ⟨hrange, hcandidate⟩ := List.mem_filter.1 (maxBy_mem ht)
    simp only [Bool.and_eq_true, Bool.not_eq_true', decide_eq_true_eq] at hcandidate
    have htrial : (fun j => (Function.update passive t true j : Prop)) = fun j => passive j = true ∨ j = t := by
      funext j
      by_cases hjt : j = t
      · rw [hjt, Function.update_self]; simp
      · rw [Function.update_of_ne hjt]; simp [hjt]
    obtain ⟨hindependent, hpos⟩ := h.fits.enter h.independent (List.mem_range.1 hrange)
      (by rw [hcandidate.1.1]; exact nofun) hcandidate.2
    rw [← htrial] at hindependent hpos
    obtain ⟨hrank, hfits⟩ := solvePassive_spec hN b hindependent
    dsimp only
    rw [hrank, decide_eq_true (hpos _ hfits)]
    exact .inr ⟨_, _, rfl, hindependent, hfits⟩

/-- **The inner loop** ends where the point is positive on its passive columns. -/
theorem inner_spec (hN : N.Exact) : ∀ (left : ℕ) (x : ℕ → K) (trial : ℕ → Bool) (z : ℕ → K), a.Independent (trial ·) →
    a.Fits b (trial ·) z → ∀ {x' passive}, inner N a b left x trial z = some (x', passive) → Active a b x' passive
  | 0, _, _, _, _, _, _, _, h => absurd h nofun
  | left + 1, x, trial, z, hindependent, hfits, x', passive, h => by
    rw [inner] at h
    split at h
    · rename_i hblocking
      obtain ⟨rfl, rfl⟩ := Prod.mk.inj (Option.some.inj h)
      exact ⟨hfits, pos_of_blocking hblocking, hindependent⟩
    · rename_i q alpha _
      have hindependent := hindependent.mono (t := fun j => (stepBack a.cols q alpha x z trial).2 j)
        fun j => stepBack_subset a.cols q alpha x z trial
      exact inner_spec hN left _ _ _ hindependent (solvePassive_spec hN b hindependent).2 h

theorem outer_spec (hN : N.Exact) : ∀ (left iterations : ℕ) (x : ℕ → K) (passive : ℕ → Bool), Active a b x passive →
    ∀ {sol}, outer N a b left iterations x passive = some (.ok sol) → a.Complementary b sol.x
  | 0, _, _, _, _, _, h                                => absurd h nofun
  | left + 1, iterations, x, passive, hactive, sol, h => by
    rw [outer] at h
    rcases hactive.enter_spec hN a.cols with ⟨henter, hdone⟩ | ⟨trial, z, henter, hindependent, hfits⟩
    · rw [henter] at h
      obtain rfl := Except.ok.inj (Option.some.inj h)
      exact hdone
    · rw [henter] at h
      dsimp only at h
      split at h
      · exact absurd h nofun
      · split at h
        · exact absurd h nofun
        · rename_i x' passive' hinner
          exact outer_spec hN left (iterations + 1) x' passive' (inner_spec hN _ _ _ _ hindependent hfits hinner) h

theorem nnls_spec (hN : N.Exact) {sol : Nnls K} (h : nnls N a b = .ok sol) : a.Complementary b sol.x :=
  outer_spec hN _ 0 0 _ (active_start a b) (Option.eq_some_of_isSome _ |>.trans (congrArg some h))

end

/-- Nothing enters where no component of the dual at the origin is positive. -/
theorem nnls_of_dual_nonpos (N : Numbers K) {a : Mat K} {b : ℕ → K} (h : ∀ j < a.cols, a.dual b 0 j ≤ 0) :
    ∃ sol, nnls N a b = .ok sol ∧ sol.x = 0 := by
  have hnil : (List.range a.cols).filter (fun j => !false && !false && decide (0 < a.dual b 0 j)) = [] :=
    List.filter_eq_nil_iff.2 fun j hj => by simp [h j (List.mem_range.1 hj)]
  have henter : enter N a b (a.dual b 0) (fun _ => false) (a.cols + 1) (fun _ => false) = some none := by
    rw [enter, hnil]
    rfl
  have houter : outer N a b (3 * a.cols + 1) 0 0 (fun _ => false) =
      some (.ok ⟨0, norm N ((List.range a.rows).map (a.residual b 0)), 0⟩) := by
    rw [outer, henter]
  exact ⟨_, Option.get_of_eq_some _ houter, rfl⟩

end Lsq
end Itofin
