import Mathlib.Algebra.BigOperators.Ring.Finset
import Mathlib.Algebra.Order.BigOperators.Ring.Finset
import Mathlib.Algebra.Order.Field.Basic
import Mathlib.Algebra.Order.Ring.Abs
import Mathlib.Data.Fintype.BigOperators
import Mathlib.Data.Fintype.Sum
import Mathlib.Data.List.Sort
import Mathlib.Tactic.LinearCombination
/-!
# Kernel — sums of weighted squares

A kernel of two variables is a sum of squares on a set when it is `∑ o, w o * (v o i * v o j)` there, with weights that are
not negative.  Sums and products of such kernels are such kernels (`Squares.add`, `Squares.mul`), and a quadratic form with
one is not negative (`Squares.form_nonneg`).

The kernel of the unit interval (`interval`) holds the integrals of the products of two of the functions `t ↦ [x ≤ t]` and
`t ↦ t`.  Between two neighbours of a sorted list the first is constant and the other a constant and a rest, so the kernel
is a sum of squares on the values of every list (`interval_squares`).
-/
namespace Kernel

variable {K ι κ : Type} [Field K] [LinearOrder K] {S : Set ι} {q r : ι → ι → K}

def Squares (S : Set ι) (q : ι → ι → K) : Prop :=
  ∃ (Ω : Type) (_ : Fintype Ω) (w : Ω → K) (v : Ω → ι → K), (∀ o, 0 ≤ w o) ∧
    ∀ i ∈ S, ∀ j ∈ S, q i j = ∑ o, w o * (v o i * v o j)

theorem Squares.congr (h : Squares S q) (hr : ∀ i ∈ S, ∀ j ∈ S, r i j = q i j) : Squares S r := by
  obtain ⟨Ω, hΩ, w, v, hw, hq⟩ := h
  exact ⟨Ω, hΩ, w, v, hw, fun i hi j hj => (hr i hi j hj).trans (hq i hi j hj)⟩

theorem Squares.zero : Squares S (0 : ι → ι → K) :=
  ⟨Empty, inferInstance, Empty.elim, Empty.elim, Empty.rec, fun _ _ _ _ => rfl⟩

theorem Squares.square {w : K} (hw : 0 ≤ w) (v : ι → K) : Squares S (fun i j => w * (v i * v j)) :=
  ⟨Unit, inferInstance, fun _ => w, fun _ => v, fun _ => hw, fun i _ j _ => (Fintype.sum_unique (fun _ : Unit => w * (v i * v j))).symm⟩

theorem Squares.comap {T : Set κ} (h : Squares S q) (f : κ → ι) (hf : ∀ k ∈ T, f k ∈ S) :
    Squares T (fun k l => q (f k) (f l)) := by
  obtain ⟨Ω, hΩ, w, v, hw, hq⟩ := h
  exact ⟨Ω, hΩ, w, fun o k => v o (f k), hw, fun k hk l hl => hq (f k) (hf k hk) (f l) (hf l hl)⟩

theorem Squares.add (hq : Squares S q) (hr : Squares S r) : Squares S (q + r) := by
  obtain ⟨Ω, hΩ, w, v, hw, hq⟩ := hq
  obtain ⟨Ω', hΩ', w', v', hw', hr⟩ := hr
  refine ⟨Ω ⊕ Ω', inferInstance, Sum.elim w w', Sum.elim v v', fun o => ?_, fun i hi j hj => ?_⟩
  · cases o with
    | inl o => exact hw o
    | inr o => exact hw' o
  · rw [Pi.add_apply, Pi.add_apply, hq i hi j hj, hr i hi j hj, Fintype.sum_sum_type]
    rfl

theorem Squares.sum (l : List κ) {q : κ → ι → ι → K} (h : ∀ k ∈ l, Squares S (q k)) :
    Squares S (fun i j => (l.map (fun k => q k i j)).sum) := by
  induction l with
  | nil => exact Squares.zero
  | cons k l ih =>
    exact (h k List.mem_cons_self).add (ih (fun k hk => h k (List.mem_cons_of_mem _ hk)))

variable [IsStrictOrderedRing K]

theorem Squares.one : Squares S (1 : ι → ι → K) :=
  (Squares.square zero_le_one (fun _ => 1)).congr (fun _ _ _ _ => by rw [mul_one, mul_one]; rfl)

/-- **The product of two kernels**, over the pairs. -/
theorem Squares.mul (hq : Squares S q) (hr : Squares S r) : Squares S (q * r) := by
  obtain ⟨Ω, hΩ, w, v, hw, hq⟩ := hq
  obtain ⟨Ω', hΩ', w', v', hw', hr⟩ := hr
  refine ⟨Ω × Ω', inferInstance, fun o => w o.1 * w' o.2, fun o i => v o.1 i * v' o.2 i,
    fun o => mul_nonneg (hw o.1) (hw' o.2), fun i hi j hj => ?_⟩
  rw [Pi.mul_apply, Pi.mul_apply, hq i hi j hj, hr i hi j hj, Finset.sum_mul_sum, Fintype.sum_prod_type]
  refine Finset.sum_congr rfl (fun o _ => Finset.sum_congr rfl (fun o' _ => ?_))
  ring

theorem Squares.prod (s : Finset κ) {q : κ → ι → ι → K} (h : ∀ k ∈ s, Squares S (q k)) : Squares S (∏ k ∈ s, q k) :=
  Finset.prod_induction q (Squares S) (fun _ _ => Squares.mul) Squares.one h

omit [LinearOrder K] [IsStrictOrderedRing K] in
theorem sum_weighted_left {Ω : Type} [Fintype Ω] (w a : Ω → K) (v : Ω → ι → K) : ∀ l : List ι,
    (l.map (fun j => ∑ o, w o * (a o * v o j))).sum = ∑ o, w o * (a o * (l.map (v o)).sum)
  | []     => by simp only [List.map_nil, List.sum_nil, mul_zero, Finset.sum_const_zero]
  | j :: l => by
    simp only [List.map_cons, List.sum_cons, sum_weighted_left w a v l, mul_add, Finset.sum_add_distrib]

omit [LinearOrder K] [IsStrictOrderedRing K] in
theorem sum_weighted {Ω : Type} [Fintype Ω] (w : Ω → K) (v : Ω → ι → K) (m : List ι) : ∀ l : List ι,
    (l.map (fun i => (m.map (fun j => ∑ o, w o * (v o i * v o j))).sum)).sum =
      ∑ o, w o * ((l.map (v o)).sum * (m.map (v o)).sum)
  | []     => by simp only [List.map_nil, List.sum_nil, zero_mul, mul_zero, Finset.sum_const_zero]
  | i :: l => by
    rw [List.map_cons, List.sum_cons, sum_weighted w v m l, sum_weighted_left w (fun o => v o i) v m,
      ← Finset.sum_add_distrib]
    refine Finset.sum_congr rfl (fun o _ => ?_)
    rw [List.map_cons, List.sum_cons, add_mul, mul_add]

/-- **A quadratic form with a sum of squares.** -/
theorem Squares.form_nonneg (h : Squares S q) (c : ι → K) (l : List ι) (hl : ∀ i ∈ l, i ∈ S) :
    0 ≤ (l.map (fun i => (l.map (fun j => c i * c j * q i j)).sum)).sum := by
  obtain ⟨Ω, hΩ, w, v, hw, hq⟩ := h
  have hterm : ∀ i ∈ l, ∀ j ∈ l, c i * c j * q i j = ∑ o, w o * (c i * v o i * (c j * v o j)) := fun i hi j hj => by
    rw [hq i (hl i hi) j (hl j hj), Finset.mul_sum]
    refine Finset.sum_congr rfl (fun o _ => ?_)
    ring
  have hform := sum_weighted w (fun o i => c i * v o i) l l
  rw [List.map_congr_left (fun i hi => congrArg List.sum (List.map_congr_left (hterm i hi))), hform]
  exact Finset.sum_nonneg (fun o _ => mul_nonneg (hw o) (mul_self_nonneg _))

/-! ## The unit interval -/

/-- The neighbours in a list that begins with `a`. -/
def cells : K → List K → List (K × K)
  | _, []     => []
  | a, b :: l => (a, b) :: cells b l

omit [Field K] [IsStrictOrderedRing K] in
theorem le_of_mem_cells {c : K × K} : ∀ {a : K} {l : List K}, (a :: l).Pairwise (· ≤ ·) → c ∈ cells a l →
    a ≤ c.1 ∧ c.1 ≤ c.2
  | a, [], _, hc      => absurd hc List.not_mem_nil
  | a, b :: l, hl, hc => by
    have hab : a ≤ b := (List.pairwise_cons.mp hl).1 b List.mem_cons_self
    rcases List.mem_cons.mp hc with rfl | hc
    · exact ⟨le_rfl, hab⟩
    · obtain ⟨hb, hle⟩ := le_of_mem_cells (List.pairwise_cons.mp hl).2 hc
      exact ⟨hab.trans hb, hle⟩

omit [IsStrictOrderedRing K] in
/-- The differences over the neighbours from `x` on. -/
theorem sum_cells (f : K → K) {x : K} : ∀ {a : K} {l : List K}, (a :: l).Pairwise (· ≤ ·) → x ∈ a :: l →
    ((cells a l).map (fun c => if x ≤ c.1 then f c.2 - f c.1 else 0)).sum = f (l.getLastD a) - f x
  | a, [], _, hx      => by
    obtain rfl : x = a := List.mem_singleton.mp hx
    exact (sub_self _).symm
  | a, b :: l, hl, hx => by
    have hab : a ≤ b := (List.pairwise_cons.mp hl).1 b List.mem_cons_self
    have htail := (List.pairwise_cons.mp hl).2
    rw [cells, List.map_cons, List.sum_cons, List.getLastD_cons]
    by_cases hxa : x ≤ a
    · obtain rfl : x = a := hxa.antisymm (by
        rcases List.mem_cons.mp hx with rfl | hx
        · exact le_rfl
        · exact (List.pairwise_cons.mp hl).1 x hx)
      have hsame : (cells b l).map (fun c => if x ≤ c.1 then f c.2 - f c.1 else 0) =
          (cells b l).map (fun c => if b ≤ c.1 then f c.2 - f c.1 else 0) :=
        List.map_congr_left (fun c hc => by
          have hbc := (le_of_mem_cells htail hc).1
          rw [if_pos hbc, if_pos (hab.trans hbc)])
      rw [if_pos le_rfl, hsame, sum_cells f htail List.mem_cons_self]
      ring
    · have hxl : x ∈ b :: l := (List.mem_cons.mp hx).resolve_left (fun h => hxa h.le)
      rw [if_neg hxa, zero_add]
      exact sum_cells f htail hxl

/-- The integrals over the unit interval of the products of two functions: `some x` is `t ↦ [x ≤ t]` and `none` is
`t ↦ t`. -/
def interval : Option K → Option K → K
  | some x, some y => 1 - max x y
  | some x, none   => (1 - x * x) / ((2 : ℕ) : K)
  | none, some y   => (1 - y * y) / ((2 : ℕ) : K)
  | none, none     => 1 / ((3 : ℕ) : K)

/-- The constant part of a function between two neighbours. -/
def level (c : K × K) : Option K → K
  | some x => if x ≤ c.1 then 1 else 0
  | none   => (c.1 + c.2) / ((2 : ℕ) : K)

/-- The rest of it, which only the identity has. -/
def rest : Option K → K
  | some _ => 0
  | none   => 1

/-- The integrals between two neighbours. -/
def cell (c : K × K) (i j : Option K) : K :=
  (c.2 - c.1) * (level c i * level c j) + (c.2 - c.1) ^ 3 / ((12 : ℕ) : K) * (rest i * rest j)

theorem cell_squares {c : K × K} (hc : c.1 ≤ c.2) (S : Set (Option K)) : Squares S (cell c) := by
  have hlen : 0 ≤ c.2 - c.1 := sub_nonneg.mpr hc
  exact (Squares.square hlen (level c)).add (Squares.square (div_nonneg (pow_nonneg hlen 3) (Nat.cast_nonneg 12)) rest)

/-- **The integrals over the interval are the sums of those between neighbours.** -/
theorem interval_eq {l : List K} (hl : ((0 : K) :: l).Pairwise (· ≤ ·)) (hlast : l.getLastD 0 = 1) {i j : Option K}
    (hi : ∀ x ∈ i, x ∈ l) (hj : ∀ x ∈ j, x ∈ l) : interval i j = ((cells 0 l).map (fun c => cell c i j)).sum := by
  have hsum (f : K → K) {x : K} (hx : x ∈ (0 : K) :: l) {i j : Option K}
      (hcell : ∀ c ∈ cells 0 l, cell c i j = if x ≤ c.1 then f c.2 - f c.1 else 0) :
      ((cells 0 l).map (fun c => cell c i j)).sum = f 1 - f x := by
    rw [List.map_congr_left hcell, sum_cells f hl hx, hlast]
  cases i with
  | some x =>
    have hx : x ∈ (0 : K) :: l := List.mem_cons_of_mem _ (hi x rfl)
    cases j with
    | some y =>
      have hmem : max x y ∈ (0 : K) :: l := by
        rcases max_choice x y with h | h
        · rwa [h]
        · rw [h]
          exact List.mem_cons_of_mem _ (hj y rfl)
      rw [hsum (fun t => t) hmem (fun c _ => ?_)]
      · rfl
      · simp only [cell, level, rest, max_le_iff, mul_one, mul_ite, mul_zero, add_zero]
        by_cases hy : y ≤ c.1
        · rw [if_pos hy]
          exact (if_congr (and_iff_left hy) rfl rfl).symm
        · rw [if_neg hy, if_neg (fun h => hy h.2)]
    | none =>
      rw [hsum (fun t => t * t / ((2 : ℕ) : K)) hx (fun c _ => ?_)]
      · simp only [interval]
        ring
      · simp only [cell, level, rest]
        split_ifs
        · ring
        · ring
  | none =>
    cases j with
    | some y =>
      rw [hsum (fun t => t * t / ((2 : ℕ) : K)) (List.mem_cons_of_mem _ (hj y rfl)) (fun c _ => ?_)]
      · simp only [interval]
        ring
      · simp only [cell, level, rest]
        split_ifs
        · ring
        · ring
    | none =>
      rw [hsum (fun t => t ^ 3 / ((3 : ℕ) : K)) List.mem_cons_self (fun c hc => ?_)]
      · simp only [interval]
        ring
      · rw [if_pos (le_of_mem_cells hl hc).1]
        simp only [cell, level, rest]
        push_cast
        ring

/-- **The kernel of the interval is a sum of squares**, on any values in the interval. -/
theorem interval_squares (xs : List K) (h : ∀ x ∈ xs, 0 ≤ x ∧ x ≤ 1) :
    Squares {i : Option K | ∀ x ∈ i, x ∈ xs} interval := by
  have hmem : ∀ x, x ∈ xs.insertionSort (· ≤ ·) ↔ x ∈ xs := fun x => (List.perm_insertionSort (· ≤ ·) xs).mem_iff
  have hsorted : ((0 : K) :: (xs.insertionSort (· ≤ ·) ++ [1])).Pairwise (· ≤ ·) := by
    refine List.pairwise_cons.mpr ⟨fun x hx => ?_, List.pairwise_append.mpr
      ⟨List.pairwise_insertionSort (· ≤ ·) xs, List.pairwise_singleton _ _, fun x hx y hy => ?_⟩⟩
    · rcases List.mem_append.mp hx with hx | hx
      · exact (h x ((hmem x).mp hx)).1
      · exact List.mem_singleton.mp hx ▸ zero_le_one
    · exact List.mem_singleton.mp hy ▸ (h x ((hmem x).mp hx)).2
  have hsum := Squares.sum (S := {i : Option K | ∀ x ∈ i, x ∈ xs}) (cells 0 (xs.insertionSort (· ≤ ·) ++ [1]))
    (fun c hc => cell_squares (le_of_mem_cells hsorted hc).2 _)
  exact hsum.congr (fun i hi j hj => interval_eq hsorted List.getLastD_concat
    (fun x hx => List.mem_append_left _ ((hmem x).mpr (hi x hx)))
    (fun x hx => List.mem_append_left _ ((hmem x).mpr (hj x hx))))

end Kernel
