import Mathlib.Data.Set.Function
import Mathlib.Tactic.IntervalCases
import Itofin.Methods.TrinomialTree
/-!
# TwoFactorTree — the product of two trinomial trees

`TwoFactorTree` of `methods/lattices/treelattice2d.rs`, in exact arithmetic.  A joint node is a pair of nodes in one index,
and a correction to the products of the weights carries the correlation.

The corrections of a row or a column sum to zero (`correction_rows`, `correction_columns`), so they leave the weights of
either factor as they are; all the covariance is theirs (`correction_covariance`).
-/
namespace Itofin

open Finset ThreePoint

inductive TwoFactorError where
  /-- "two-factor tree factors must share the same number of columns (got {} and {})" -/
  | columns (columns1 columns2 : ℕ)

structure TwoFactorTree (K : Type) where
  tree1 : TrinomialTree K
  tree2 : TrinomialTree K
  rho : K
  m : List (List K)

variable {K ε ε' : Type} [Field K]

namespace TwoFactorTree

def new [LinearOrder K] (tree1 tree2 : TrinomialTree K) (correlation : K) : Except TwoFactorError (TwoFactorTree K) :=
  if tree1.columns = tree2.columns then
    let m : List (List K) :=
      if correlation < 0 then [[-1, -(4 : ℕ), (5 : ℕ)], [-(4 : ℕ), (8 : ℕ), -(4 : ℕ)], [(5 : ℕ), -(4 : ℕ), -1]]
      else [[(5 : ℕ), -(4 : ℕ), -1], [-(4 : ℕ), (8 : ℕ), -(4 : ℕ)], [-1, -(4 : ℕ), (5 : ℕ)]]
    .ok ⟨tree1, tree2, |correlation|, m⟩
  else .error (.columns tree1.columns tree2.columns)

variable (self : TwoFactorTree K)

def splitIndex (i index : ℕ) : ℕ × ℕ :=
  let modulo := self.tree1.size i
  (index % modulo, index / modulo)

def columns : ℕ := self.tree1.columns

def size (i : ℕ) : ℕ := self.tree1.size i * self.tree2.size i

def descendant (i index branch : ℕ) : ℕ :=
  let (index1, index2) := self.splitIndex i index
  let branch1 := branch % 3
  let branch2 := branch / 3
  let stride := self.tree1.size (i + 1)
  self.tree1.descendant i index1 branch1 + self.tree2.descendant i index2 branch2 * stride

/-- `rho * m[branch1][branch2] / 36.0` -/
def correction (branch1 branch2 : ℕ) : K := self.rho * (self.m.getD branch1 []).getD branch2 0 / (36 : ℕ)

def probability (i index branch : ℕ) : K :=
  let (index1, index2) := self.splitIndex i index
  let branch1 := branch % 3
  let branch2 := branch / 3
  let prob1 := self.tree1.probability i index1 branch1
  let prob2 := self.tree2.probability i index2 branch2
  prob1 * prob2 + self.correction branch1 branch2

/-! ## The jump of a node -/

/-- The first factor after a branch. -/
def jump1 (i index branch : ℕ) : K :=
  self.tree1.underlying (i + 1) (self.tree1.descendant i (self.splitIndex i index).1 (branch % 3))

/-- The second factor after a branch. -/
def jump2 (i index branch : ℕ) : K :=
  self.tree2.underlying (i + 1) (self.tree2.descendant i (self.splitIndex i index).2 (branch / 3))

/-- The mean of a value of the branch. -/
def mean (i index : ℕ) (f : ℕ → K) : K := ∑ branch ∈ range 9, self.probability i index branch * f branch

def covariance (i index : ℕ) : K :=
  self.mean i index (fun branch => (self.jump1 i index branch - self.mean i index (self.jump1 i index)) *
    (self.jump2 i index branch - self.mean i index (self.jump2 i index)))

end TwoFactorTree

/-! ## The correction -/

theorem sum_nine (f : ℕ → ℕ → K) :
    ∑ branch ∈ range 9, f (branch % 3) (branch / 3) = ∑ b1 ∈ range 3, ∑ b2 ∈ range 3, f b1 b2 := by
  simp [sum_range_succ]
  ring

section Correction

variable [LinearOrder K] {tree1 tree2 : TrinomialTree K} {correlation : K} {tree : TwoFactorTree K}

theorem new_eq (h : TwoFactorTree.new tree1 tree2 correlation = .ok tree) :
    tree1.columns = tree2.columns ∧ tree.tree1 = tree1 ∧ tree.tree2 = tree2 ∧ tree.rho = |correlation| ∧
      tree.m = if correlation < 0 then [[-1, -4, 5], [-4, 8, -4], [5, -4, -1]]
        else [[5, -4, -1], [-4, 8, -4], [-1, -4, 5]] := by
  unfold TwoFactorTree.new at h
  split at h
  · rename_i hcolumns
    cases h
    exact ⟨hcolumns, rfl, rfl, rfl, rfl⟩
  · cases h

theorem correction_rows (h : TwoFactorTree.new tree1 tree2 correlation = .ok tree) {b1 : ℕ} (hb : b1 < 3) :
    ∑ b2 ∈ range 3, tree.correction b1 b2 = 0 := by
  obtain ⟨-, -, -, -, hm⟩ := new_eq h
  unfold TwoFactorTree.correction
  rw [hm]
  split <;> interval_cases b1 <;> simp [sum_range_succ] <;> ring

theorem correction_columns (h : TwoFactorTree.new tree1 tree2 correlation = .ok tree) {b2 : ℕ} (hb : b2 < 3) :
    ∑ b1 ∈ range 3, tree.correction b1 b2 = 0 := by
  obtain ⟨-, -, -, -, hm⟩ := new_eq h
  unfold TwoFactorTree.correction
  rw [hm]
  split <;> interval_cases b2 <;> simp [sum_range_succ] <;> ring

/-- The corrections carry a covariance of a third of the correlation, in units of the spacings. -/
theorem correction_covariance [IsStrictOrderedRing K] (h : TwoFactorTree.new tree1 tree2 correlation = .ok tree)
    (c1 c2 dx1 dx2 : K) : ∑ b1 ∈ range 3, ∑ b2 ∈ range 3,
      tree.correction b1 b2 * ((c1 + ((b1 : K) - 1) * dx1) * (c2 + ((b2 : K) - 1) * dx2)) =
        correlation * (dx1 * dx2) / 3 := by
  obtain ⟨-, -, -, hrho, hm⟩ := new_eq h
  unfold TwoFactorTree.correction
  rw [hm, hrho]
  split
  · rename_i hneg
    rw [abs_of_neg hneg]
    simp [sum_range_succ]
    ring
  · rename_i hpos
    rw [abs_of_nonneg (not_lt.mp hpos)]
    simp [sum_range_succ]
    ring

/-! ## The weights of a node -/

section Node

variable (tree : TwoFactorTree K) (i index : ℕ)

/-- The weight of a pair of branches. -/
def TwoFactorTree.joint (b1 b2 : ℕ) : K :=
  tree.tree1.probability i (tree.splitIndex i index).1 b1 * tree.tree2.probability i (tree.splitIndex i index).2 b2 +
    tree.correction b1 b2

omit [LinearOrder K] in
theorem mean_eq (g : ℕ → ℕ → K) : tree.mean i index (fun branch => g (branch % 3) (branch / 3)) =
    ∑ b1 ∈ range 3, ∑ b2 ∈ range 3, tree.joint i index b1 b2 * g b1 b2 :=
  sum_nine (fun b1 b2 => tree.joint i index b1 b2 * g b1 b2)

variable {tree i index}

theorem joint_first (h : TwoFactorTree.new tree1 tree2 correlation = .ok tree)
    (h2 : ∑ b2 ∈ range 3, tree.tree2.probability i (tree.splitIndex i index).2 b2 = 1) {b1 : ℕ} (hb : b1 < 3) :
    ∑ b2 ∈ range 3, tree.joint i index b1 b2 = tree.tree1.probability i (tree.splitIndex i index).1 b1 := by
  unfold TwoFactorTree.joint
  rw [sum_add_distrib, correction_rows h hb, ← mul_sum, h2, mul_one, add_zero]

theorem joint_second (h : TwoFactorTree.new tree1 tree2 correlation = .ok tree)
    (h1 : ∑ b1 ∈ range 3, tree.tree1.probability i (tree.splitIndex i index).1 b1 = 1) {b2 : ℕ} (hb : b2 < 3) :
    ∑ b1 ∈ range 3, tree.joint i index b1 b2 = tree.tree2.probability i (tree.splitIndex i index).2 b2 := by
  unfold TwoFactorTree.joint
  rw [sum_add_distrib, correction_columns h hb, ← sum_mul, h1, one_mul, add_zero]

theorem joint_total (h : TwoFactorTree.new tree1 tree2 correlation = .ok tree)
    (h1 : ∑ b1 ∈ range 3, tree.tree1.probability i (tree.splitIndex i index).1 b1 = 1)
    (h2 : ∑ b2 ∈ range 3, tree.tree2.probability i (tree.splitIndex i index).2 b2 = 1) :
    ∑ b1 ∈ range 3, ∑ b2 ∈ range 3, tree.joint i index b1 b2 = 1 := by
  rw [sum_congr rfl (fun b1 hb => joint_first h h2 (mem_range.mp hb)), h1]

/-- **All the covariance is in the corrections**, for values about their means. -/
theorem joint_covariance [IsStrictOrderedRing K] (h : TwoFactorTree.new tree1 tree2 correlation = .ok tree)
    {x y : ℕ → K} {c1 c2 dx1 dx2 : K} (hx : ∀ b, x b = c1 + ((b : K) - 1) * dx1)
    (hy : ∀ b, y b = c2 + ((b : K) - 1) * dx2)
    (hx0 : ∑ b1 ∈ range 3, tree.tree1.probability i (tree.splitIndex i index).1 b1 * x b1 = 0) :
    ∑ b1 ∈ range 3, ∑ b2 ∈ range 3, tree.joint i index b1 b2 * (x b1 * y b2) = correlation * (dx1 * dx2) / 3 := by
  have hproduct : ∑ b1 ∈ range 3, ∑ b2 ∈ range 3, tree.tree1.probability i (tree.splitIndex i index).1 b1 *
      tree.tree2.probability i (tree.splitIndex i index).2 b2 * (x b1 * y b2) = 0 := by
    have (b1 b2 : ℕ) : tree.tree1.probability i (tree.splitIndex i index).1 b1 *
        tree.tree2.probability i (tree.splitIndex i index).2 b2 * (x b1 * y b2) =
          tree.tree1.probability i (tree.splitIndex i index).1 b1 * x b1 *
            (tree.tree2.probability i (tree.splitIndex i index).2 b2 * y b2) := by ring
    simp only [this]
    rw [← sum_mul_sum, hx0, zero_mul]
  unfold TwoFactorTree.joint
  simp only [add_mul, sum_add_distrib]
  rw [hproduct, zero_add, ← correction_covariance h c1 c2 dx1 dx2]
  simp only [hx, hy]

end Node
end Correction

/-! ## The joint tree -/

omit [Field K] in
theorem splitIndex_bijOn (tree : TwoFactorTree K) (i : ℕ) : Set.BijOn (tree.splitIndex i) (Set.Iio (tree.size i))
    (Set.Iio (tree.tree1.size i) ×ˢ Set.Iio (tree.tree2.size i)) := by
  refine ⟨fun index hindex => ?_, fun a _ b _ h => ?_, fun p hp => ?_⟩
  · have hlt : index < tree.tree1.size i * tree.tree2.size i := hindex
    have hpos : 0 < tree.tree1.size i := Nat.pos_of_mul_pos_right (Nat.zero_lt_of_lt hlt)
    exact ⟨Nat.mod_lt _ hpos, Nat.div_lt_of_lt_mul hlt⟩
  · obtain ⟨hmod, hdiv⟩ := Prod.mk.inj h
    rw [← Nat.mod_add_div a (tree.tree1.size i), ← Nat.mod_add_div b (tree.tree1.size i), hmod, hdiv]
  · obtain ⟨index1, index2⟩ := p
    obtain ⟨h1, h2⟩ : index1 < tree.tree1.size i ∧ index2 < tree.tree2.size i := hp
    have hpos : 0 < tree.tree1.size i := Nat.zero_lt_of_lt h1
    refine ⟨index1 + tree.tree1.size i * index2, ?_, ?_⟩
    · calc index1 + tree.tree1.size i * index2 < tree.tree1.size i + tree.tree1.size i * index2 :=
            Nat.add_lt_add_right h1 _
        _ = tree.tree1.size i * (index2 + 1) := by ring
        _ ≤ tree.tree1.size i * tree.tree2.size i := Nat.mul_le_mul_left _ h2
    · unfold TwoFactorTree.splitIndex
      dsimp only
      rw [Nat.add_mul_mod_self_left, Nat.mod_eq_of_lt h1, Nat.add_mul_div_left _ _ hpos, Nat.div_eq_of_lt h1,
        Nat.zero_add]

/-- **A joint node combines the two nodes it splits into**: its branches lead to the pairs of their descendants, and each
factor has its own weights. -/
structure Combines (tree : TwoFactorTree K) (i index : ℕ) : Prop where
  descendants : ∀ branch, branch < 9 → tree.descendant i index branch < tree.size (i + 1) ∧
    tree.splitIndex (i + 1) (tree.descendant i index branch) =
      (tree.tree1.descendant i (tree.splitIndex i index).1 (branch % 3),
        tree.tree2.descendant i (tree.splitIndex i index).2 (branch / 3))
  total       : ∑ branch ∈ range 9, tree.probability i index branch = 1
  first       : ∀ b1, b1 < 3 → ∑ b2 ∈ range 3, tree.probability i index (b1 + 3 * b2) =
    tree.tree1.probability i (tree.splitIndex i index).1 b1
  second      : ∀ b2, b2 < 3 → ∑ b1 ∈ range 3, tree.probability i index (b1 + 3 * b2) =
    tree.tree2.probability i (tree.splitIndex i index).2 b2

theorem probability_eq (tree : TwoFactorTree K) (i index : ℕ) {b1 : ℕ} (b2 : ℕ) (h : b1 < 3) :
    tree.probability i index (b1 + 3 * b2) = tree.joint i index b1 b2 := by
  have hmod : (b1 + 3 * b2) % 3 = b1 := by omega
  have hdiv : (b1 + 3 * b2) / 3 = b2 := by omega
  unfold TwoFactorTree.probability
  dsimp only
  rw [hmod, hdiv]
  rfl

variable [LinearOrder K] {sqrt : K → K} {process1 : StochasticProcess1D K ε} {process2 : StochasticProcess1D K ε'}
  {timeGrid1 timeGrid2 : Math.TimeGrid K} {isPositive1 isPositive2 : Bool} {tree : TwoFactorTree K} {correlation : K}
  {i index : ℕ}

theorem combines (h1 : Built sqrt process1 timeGrid1 isPositive1 tree.tree1)
    (h2 : Built sqrt process2 timeGrid2 isPositive2 tree.tree2)
    (h : TwoFactorTree.new tree.tree1 tree.tree2 correlation = .ok tree) (hi : i + 1 < tree.columns)
    (hindex : index < tree.size i) : Combines tree i index := by
  obtain ⟨hindex1, hindex2⟩ := (splitIndex_bijOn tree i).mapsTo hindex
  have hcolumns := (new_eq h).1
  have hnode1 := h1.reproduces hi hindex1
  have hnode2 := h2.reproduces (hcolumns ▸ hi) hindex2
  refine ⟨fun branch hbranch => ?_, ?_, fun b1 hb => ?_, fun b2 hb => ?_⟩
  · have hlt1 := hnode1.descendants (branch % 3) (Nat.mod_lt _ three_pos)
    have hlt2 := hnode2.descendants (branch / 3) (by omega)
    obtain ⟨joint, hjoint, hsplit⟩ := (splitIndex_bijOn tree (i + 1)).surjOn (Set.mk_mem_prod hlt1 hlt2)
    have hdescendant : tree.descendant i index branch = joint := by
      obtain ⟨hmod, hdiv⟩ := Prod.mk.inj hsplit
      rw [← Nat.mod_add_div joint (tree.tree1.size (i + 1)), hmod, hdiv, mul_comm]
      rfl
    rw [hdescendant]
    exact ⟨hjoint, hsplit⟩
  · exact (sum_nine (tree.joint i index)).trans (joint_total h hnode1.total hnode2.total)
  · rw [sum_congr rfl (fun b2 _ => probability_eq tree i index b2 hb), joint_first h hnode2.total hb]
  · rw [sum_congr rfl (fun b1 hb1 => probability_eq tree i index b2 (mem_range.mp hb1)), joint_second h hnode1.total hb]

/-- **The covariance of the two jumps of a node**, where neither spacing was widened. -/
theorem covariance_eq [IsStrictOrderedRing K] (hsqrt : IsSqrt sqrt)
    (h1 : Built sqrt process1 timeGrid1 isPositive1 tree.tree1)
    (h2 : Built sqrt process2 timeGrid2 isPositive2 tree.tree2)
    (h : TwoFactorTree.new tree.tree1 tree.tree2 correlation = .ok tree) (hi : i + 1 < tree.columns)
    (hindex : index < tree.size i) {v1 v2 : K} (hdx1 : tree.tree1.dx.getD (i + 1) 0 = sqrt v1 * sqrt 3)
    (hdx2 : tree.tree2.dx.getD (i + 1) 0 = sqrt v2 * sqrt 3) :
    tree.covariance i index = correlation * (sqrt v1 * sqrt v2) := by
  obtain ⟨hindex1, hindex2⟩ := (splitIndex_bijOn tree i).mapsTo hindex
  have hi2 : i + 1 < tree.tree2.columns := (new_eq h).1 ▸ hi
  have hnode1 := h1.reproduces hi hindex1
  have hnode2 := h2.reproduces hi2 hindex2
  have hx := h1.descendant_underlying hi hindex1
  have hy := h2.descendant_underlying hi2 hindex2
  set x := fun b1 => tree.tree1.underlying (i + 1) (tree.tree1.descendant i (tree.splitIndex i index).1 b1)
  set y := fun b2 => tree.tree2.underlying (i + 1) (tree.tree2.descendant i (tree.splitIndex i index).2 b2)
  set mean1 := tree.mean i index (tree.jump1 i index) with hmean1
  set mean2 := tree.mean i index (tree.jump2 i index)
  have hmean : mean1 = ∑ b1 ∈ range 3, tree.tree1.probability i (tree.splitIndex i index).1 b1 * x b1 := by
    refine hmean1.trans ((mean_eq tree i index (fun b1 _ => x b1)).trans (sum_congr rfl (fun b1 hb => ?_)))
    rw [← sum_mul, joint_first h hnode2.total (mem_range.mp hb)]
  have hcentred : ∑ b1 ∈ range 3, tree.tree1.probability i (tree.splitIndex i index).1 b1 * (x b1 - mean1) = 0 := by
    simp only [mul_sub, sum_sub_distrib]
    rw [← sum_mul, hnode1.total, one_mul, ← hmean, sub_self]
  have hjumps : tree.covariance i index =
      ∑ b1 ∈ range 3, ∑ b2 ∈ range 3, tree.joint i index b1 b2 * ((x b1 - mean1) * (y b2 - mean2)) :=
    mean_eq tree i index (fun b1 b2 => (x b1 - mean1) * (y b2 - mean2))
  have hx' (b : ℕ) : x b - mean1 = tree.tree1.x0 + (tree.tree1.linkOf i (tree.splitIndex i index).1).k * (sqrt v1 * sqrt 3) -
      mean1 + ((b : K) - 1) * (sqrt v1 * sqrt 3) := by
    rw [show x b = _ from hx b, hdx1]
    ring
  have hy' (b : ℕ) : y b - mean2 = tree.tree2.x0 + (tree.tree2.linkOf i (tree.splitIndex i index).2).k * (sqrt v2 * sqrt 3) -
      mean2 + ((b : K) - 1) * (sqrt v2 * sqrt 3) := by
    rw [show y b = _ from hy b, hdx2]
    ring
  have h33 := (hsqrt 3 zero_le_three).2
  rw [hjumps, joint_covariance h hx' hy' hcentred]
  linear_combination (correlation * (sqrt v1 * sqrt v2) / 3) * h33

/-- **The product of two trees.**  For any two trees that are built, with as many columns, and any correlation: the joint
index splits into the pairs of nodes of every slice, every joint node combines the two nodes it splits into, and where
neither spacing was widened the covariance of the two jumps is the correlation times the two standard deviations. -/
theorem joint_tree [IsStrictOrderedRing K] [FloorRing K] (hsqrt : IsSqrt sqrt)
    (process1 : StochasticProcess1D K ε) (process2 : StochasticProcess1D K ε') (timeGrid1 timeGrid2 : Math.TimeGrid K)
    (isPositive1 isPositive2 : Bool) (correlation : K) (tree1 tree2 : TrinomialTree K) (tree : TwoFactorTree K)
    (hpos1 : ∀ i step, IsStep process1 timeGrid1 i step → 0 < step.v2)
    (hpos2 : ∀ i step, IsStep process2 timeGrid2 i step → 0 < step.v2)
    (h1 : TrinomialTree.new sqrt process1 timeGrid1 isPositive1 = .ok tree1)
    (h2 : TrinomialTree.new sqrt process2 timeGrid2 isPositive2 = .ok tree2)
    (h : TwoFactorTree.new tree1 tree2 correlation = .ok tree) :
    (∀ i, Set.BijOn (tree.splitIndex i) (Set.Iio (tree.size i)) (Set.Iio (tree1.size i) ×ˢ Set.Iio (tree2.size i))) ∧
    ∀ i index, i + 1 < tree.columns → index < tree.size i →
      Combines tree i index ∧
      ∀ step1 step2, IsStep process1 timeGrid1 i step1 → IsStep process2 timeGrid2 i step2 →
        tree1.dx.getD (i + 1) 0 = sqrt step1.v2 * sqrt 3 → tree2.dx.getD (i + 1) 0 = sqrt step2.v2 * sqrt 3 →
          tree.covariance i index = correlation * (sqrt step1.v2 * sqrt step2.v2) := by
  obtain ⟨-, rfl, rfl, -, -⟩ := new_eq h
  have hbuilt1 := built_of_new hsqrt hpos1 h1
  have hbuilt2 := built_of_new hsqrt hpos2 h2
  refine ⟨splitIndex_bijOn tree, fun i index hi hindex => ⟨combines hbuilt1 hbuilt2 h hi hindex, ?_⟩⟩
  intro step1 step2 _ _ hdx1 hdx2
  exact covariance_eq hsqrt hbuilt1 hbuilt2 h hi hindex hdx1 hdx2

theorem joint_tree_one : ∃ tree1 tree, TwoFactorTree.new tree1 tree1 (-1 / 2) = .ok tree ∧
    (∀ i, Set.BijOn (tree.splitIndex i) (Set.Iio (tree.size i)) (Set.Iio (tree1.size i) ×ˢ Set.Iio (tree1.size i))) ∧
    ∀ i index, i + 1 < tree.columns → index < tree.size i →
      Combines tree i index ∧
      ∀ step1 step2, IsStep (driftless fun _ => 1) oneStep i step1 → IsStep (driftless fun _ => 1) oneStep i step2 →
        tree1.dx.getD (i + 1) 0 = Real.sqrt step1.v2 * Real.sqrt 3 →
          tree1.dx.getD (i + 1) 0 = Real.sqrt step2.v2 * Real.sqrt 3 →
            tree.covariance i index = -1 / 2 * (Real.sqrt step1.v2 * Real.sqrt step2.v2) := by
  have hpos (i : ℕ) (step : TreeStep ℝ) (h : IsStep (driftless fun _ => 1) oneStep i step) : 0 < step.v2 :=
    driftless_pos one_pos i step h
  obtain ⟨tree1, h1, -⟩ := new_ok false (driftless_raised fun _ => 1) isSqrt_real hpos
  have h : TwoFactorTree.new tree1 tree1 (-1 / 2) = .ok _ := if_pos rfl
  exact ⟨tree1, _, h, joint_tree isSqrt_real _ _ oneStep oneStep false false (-1 / 2) tree1 tree1 _ hpos hpos h1 h1 h⟩

end Itofin
