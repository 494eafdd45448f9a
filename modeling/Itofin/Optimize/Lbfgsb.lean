import Itofin.Lib.Bfgs
import Itofin.Lib.Elimination
import Mathlib.Algebra.Order.BigOperators.Ring.Finset
import Mathlib.Algebra.Order.Ring.Rat
import Mathlib.Data.Fin.VecNotation
import Mathlib.Data.List.DropRight
import Mathlib.Data.List.GetD
/-!
# Lbfgsb — limited-memory BFGS matrices

`Compact` of `itofin-optimize/src/lbfgsb.rs`, and the solver of its block systems, in exact arithmetic: the tests for
finite numbers all pass.  A vector has the length `n` by its type.
-/
namespace Itofin
namespace Lbfgsb

open Matrix
open Elimination (System eliminate backward SolvesFrom)

variable {K : Type} [Field K] [LinearOrder K]

/-- `f64::EPSILON` -/
def epsilon : K := 1 / (2 ^ 52 : ℕ)

/-! ## The solver -/

/-- The row from `k` on with the largest entry in column `k`, the last of several. -/
def pivot (n k : ℕ) (a : ℕ → ℕ → K) : ℕ :=
  (List.range' (k + 1) (n - (k + 1))).foldl (fun p i => if |a p k| ≤ |a i k| then i else p) k

def scale (n : ℕ) (a : ℕ → ℕ → K) : K :=
  ((List.range n).flatMap fun i => (List.range n).map fun j => |a i j|).foldl max 0

/-- A turn of the elimination, unless its pivot is too small. -/
def reduce (n : ℕ) (scale : K) (k : ℕ) (s : System K) : Option (System K) :=
  let s := Elimination.swap k s (pivot n k s.coefficient)
  if |s.coefficient k k| ≤ 64 * epsilon * scale then none else some (eliminate k s)

/-- The first turns. -/
def reduceAll (n : ℕ) (scale : K) : ℕ → System K → Option (System K)
  | 0, s     => some s
  | k + 1, s => (reduceAll n scale k s).bind (reduce n scale k)

def solve (n : ℕ) (s : System K) : Option (ℕ → K) :=
  let scale := scale n s.coefficient
  if scale = 0 then none else (reduceAll n scale n s).map fun s => backward n s n

/-! ## The matrices -/

/-- A correction pair with its product. -/
structure Pair (K : Type) [Field K] [LinearOrder K] (n : ℕ) where
  s        : Fin n → K
  y        : Fin n → K
  sy       : K
  product  : sy = s ⬝ᵥ y
  positive : 0 < sy

/-- The pairs are stored oldest first. -/
structure Compact (K : Type) [Field K] [LinearOrder K] (n : ℕ) where
  maxcor    : ℕ
  pairs     : List (Pair K n)
  theta     : K
  theta_pos : 0 < theta

namespace Compact

variable [IsStrictOrderedRing K] {n : ℕ}

def new (n maxcor : ℕ) : Compact K n := ⟨maxcor, [], 1, one_pos⟩

theorem product_pos {s y : Fin n → K} (h : epsilon * (y ⬝ᵥ y) < s ⬝ᵥ y) : 0 < s ⬝ᵥ y := by
  have hyy : 0 ≤ y ⬝ᵥ y := Finset.sum_nonneg fun i _ => mul_self_nonneg (y i)
  exact (mul_nonneg (div_nonneg zero_le_one (Nat.cast_nonneg _)) hyy).trans_lt h

/-- Whether the pair is accepted, and the matrix with it. -/
def update (c : Compact K n) (s y : Fin n → K) : Bool × Compact K n :=
  let sy := s ⬝ᵥ y
  let yy := y ⬝ᵥ y
  if h : epsilon * yy < sy then
    let theta := yy / sy
    if htheta : theta ≤ 0 then (false, c)
    else
      let pairs := if c.pairs.length = c.maxcor then c.pairs.tail else c.pairs
      (true, ⟨c.maxcor, pairs ++ [⟨s, y, sy, rfl, product_pos h⟩], theta, not_le.1 htheta⟩)
  else (false, c)

variable (c : Compact K n) (v : Fin n → K)

/-- The loop of `inverse_times` from the newest pair to the oldest. -/
def towardsOldest (pairs : List (Pair K n)) (q : Fin n → K) (alpha : List K) : (Fin n → K) × List K :=
  pairs.foldr (fun pair (q, alpha) =>
    let a := pair.s ⬝ᵥ q / pair.sy
    (q - a • pair.y, a :: alpha)) (q, alpha)

/-- And back. -/
def towardsNewest (pairs : List (Pair K n)) (alpha : List K) (q : Fin n → K) : Fin n → K :=
  (pairs.zip alpha).foldl (fun q (pair, a) =>
    let beta := pair.y ⬝ᵥ q / pair.sy
    q + (a - beta) • pair.s) q

def inverseTimes : Fin n → K :=
  let (q, alpha) := towardsOldest c.pairs v []
  towardsNewest c.pairs alpha fun i => q i / c.theta

def s (i : ℕ) : Fin n → K := (c.pairs.map Pair.s).getD i 0

def y (i : ℕ) : Fin n → K := (c.pairs.map Pair.y).getD i 0

/-- `W = [Y, theta S]` -/
def columns (i : ℕ) : Fin n → K :=
  let count := c.pairs.length
  if i < count then c.y i else c.theta • c.s (i - count)

/-- `[-D, L'; L, theta S'S]`, where `L` is below the diagonal. -/
def block (i j : ℕ) : K :=
  let count := c.pairs.length
  if i < count then
    if j < count then if i = j then -(c.pairs.map Pair.sy).getD i 0 else 0
    else if i < j - count then c.s (j - count) ⬝ᵥ c.y i else 0
  else
    if j < count then if j < i - count then c.s (i - count) ⬝ᵥ c.y j else 0
    else c.theta * (c.s (i - count) ⬝ᵥ c.s (j - count))

def times : Option (Fin n → K) :=
  if c.pairs.isEmpty then some (c.theta • v)
  else
    let size := 2 * c.pairs.length
    (solve size ⟨c.block, fun i => c.columns i ⬝ᵥ v⟩).map fun weights =>
      (List.range size).foldl (fun result i => result - weights i • c.columns i) (c.theta • v)

/-- The matrix that the pairs stand for: `theta I`, updated by every pair, the oldest first. -/
def dense : Matrix (Fin n) (Fin n) K :=
  c.pairs.foldl (fun B pair => Bfgs.update B pair.s pair.y) (c.theta • 1)

/-! ### Offers -/

/-- The matrix after offers of pairs, and the pairs accepted so far. -/
def offer : Compact K n × List ((Fin n → K) × (Fin n → K)) → (Fin n → K) × (Fin n → K) →
    Compact K n × List ((Fin n → K) × (Fin n → K))
  | (c, accepted), (s, y) =>
    let (ok, c) := c.update s y
    (c, if ok then accepted ++ [(s, y)] else accepted)

def offers (c : Compact K n) (pairs : List ((Fin n → K) × (Fin n → K))) :
    Compact K n × List ((Fin n → K) × (Fin n → K)) :=
  pairs.foldl offer (c, [])

end Compact

/-! ## The solver solves -/

theorem pivot_bounds {n k : ℕ} (hk : k < n) (a : ℕ → ℕ → K) : k ≤ pivot n k a ∧ pivot n k a < n := by
  have hfold : ∀ (l : List ℕ) (p : ℕ), (k ≤ p ∧ p < n) → (∀ i ∈ l, k ≤ i ∧ i < n) →
      k ≤ l.foldl (fun p i => if |a p k| ≤ |a i k| then i else p) p ∧
        l.foldl (fun p i => if |a p k| ≤ |a i k| then i else p) p < n := by
    intro l
    induction l with
    | nil         => exact fun p hp _ => hp
    | cons i l ih =>
      intro p hp hl
      refine ih _ ?_ fun j hj => hl j (List.mem_cons_of_mem i hj)
      by_cases hi : |a p k| ≤ |a i k|
      · simpa only [if_pos hi] using hl i List.mem_cons_self
      · simpa only [if_neg hi] using hp
  refine hfold _ k ⟨le_rfl, hk⟩ fun i hi => ?_
  have := List.mem_range'_1.1 hi
  omega

theorem scale_nonneg (n : ℕ) (a : ℕ → ℕ → K) : 0 ≤ scale n a := by
  have hfold : ∀ (l : List K) (x : K), 0 ≤ x → 0 ≤ l.foldl max x := by
    intro l
    induction l with
    | nil         => exact fun _ hx => hx
    | cons y l ih => exact fun x hx => ih _ (hx.trans (le_max_left x y))
  exact hfold _ 0 le_rfl

variable [IsStrictOrderedRing K]

theorem reduce_spec {n k : ℕ} (hk : k < n) {bound : K} (hbound : 0 ≤ bound) {s t : System K}
    (h : reduce n bound k s = some t) : t.coefficient k k ≠ 0 ∧ (∀ i < k, t.coefficient i i = s.coefficient i i) ∧
      ∀ x, SolvesFrom n (k + 1) t x → SolvesFrom n k s x := by
  obtain ⟨hkp, hp⟩ := pivot_bounds hk s.coefficient
  unfold reduce at h
  simp only at h
  split at h
  · exact nomatch h
  · rename_i hlarge
    obtain rfl := Option.some.inj h
    have hpivot : (Elimination.swap k s (pivot n k s.coefficient)).coefficient k k ≠ 0 := by
      intro hzero
      apply hlarge
      rw [hzero, abs_zero]
      exact mul_nonneg (mul_nonneg (by norm_num) (div_nonneg zero_le_one (Nat.cast_nonneg _))) hbound
    refine ⟨?_, fun i hi => ?_, fun x hx => ?_⟩
    · simpa [eliminate] using hpivot
    · have hswap : Equiv.swap k (pivot n k s.coefficient) i = i :=
        Equiv.swap_apply_of_ne_of_ne hi.ne (hi.trans_le hkp).ne
      simp only [eliminate, Elimination.swap, hswap, Nat.not_lt.2 hi.le, false_and, if_false]
    · exact Elimination.solves_swap hk hkp hp (Elimination.solves_eliminate hk hpivot hx)

theorem reduceAll_spec {n : ℕ} {bound : K} (hbound : 0 ≤ bound) : ∀ {k : ℕ} {s t : System K}, k ≤ n →
    reduceAll n bound k s = some t → (∀ i < k, t.coefficient i i ≠ 0) ∧ ∀ x, SolvesFrom n k t x → SolvesFrom n 0 s x
  | 0, s, t, _, h      => by
    obtain rfl := Option.some.inj h
    exact ⟨nofun, fun _ hx => hx⟩
  | k + 1, s, t, hk, h => by
    obtain ⟨m, hm, h⟩ := Option.bind_eq_some_iff.1 h
    obtain ⟨hdiagonal, hsolves⟩ := reduceAll_spec hbound (Nat.le_of_succ_le hk) hm
    obtain ⟨hpivot, hsame, hback⟩ := reduce_spec hk hbound h
    refine ⟨fun i hi => ?_, fun x hx => hsolves x (hback x hx)⟩
    rcases Nat.lt_succ_iff_lt_or_eq.1 hi with hi | rfl
    · exact hsame i hi ▸ hdiagonal i hi
    · exact hpivot

/-- **What the solver returns solves the system.** -/
theorem solve_spec {n : ℕ} {s : System K} {x : ℕ → K} (h : solve n s = some x) :
    ∀ i < n, ∑ j ∈ Finset.range n, s.coefficient i j * x j = s.rhs i := by
  unfold solve at h
  simp only at h
  split at h
  · exact nomatch h
  · obtain ⟨t, ht, rfl⟩ := Option.map_eq_some_iff.1 h
    obtain ⟨hdiagonal, hsolves⟩ := reduceAll_spec (scale_nonneg n s.coefficient) le_rfl ht
    exact Elimination.solvesFrom_zero.1 (hsolves _ (Elimination.solves_backward hdiagonal))

/-! ## The products -/

namespace Compact

variable {n : ℕ} (c : Compact K n) {v : Fin n → K}

omit [IsStrictOrderedRing K] in
theorem s_eq {i : ℕ} (hi : i < c.pairs.length) : c.s i = c.pairs[i].s := by
  rw [s, List.getD_eq_getElem _ _ (by simpa using hi), List.getElem_map]

omit [IsStrictOrderedRing K] in
theorem y_eq {i : ℕ} (hi : i < c.pairs.length) : c.y i = c.pairs[i].y := by
  rw [y, List.getD_eq_getElem _ _ (by simpa using hi), List.getElem_map]

omit [IsStrictOrderedRing K] in
theorem sy_eq {i : ℕ} (hi : i < c.pairs.length) : (c.pairs.map Pair.sy).getD i 0 = c.s i ⬝ᵥ c.y i := by
  rw [List.getD_eq_getElem _ _ (by simpa using hi), List.getElem_map, c.s_eq hi, c.y_eq hi, c.pairs[i].product]

omit [IsStrictOrderedRing K] in
theorem sy_pos {i : ℕ} (hi : i < c.pairs.length) : 0 < c.s i ⬝ᵥ c.y i := by
  rw [c.s_eq hi, c.y_eq hi, ← c.pairs[i].product]
  exact c.pairs[i].positive

omit [IsStrictOrderedRing K] in
theorem dense_eq : c.dense = Bfgs.dense c.theta c.s c.y c.pairs.length := by
  have htake : ∀ k ≤ c.pairs.length, (c.pairs.take k).foldl (fun B pair => Bfgs.update B pair.s pair.y) (c.theta • 1) =
      Bfgs.dense c.theta c.s c.y k := by
    intro k hk
    induction k with
    | zero      => rfl
    | succ k ih =>
      rw [List.take_add_one, List.getElem?_eq_getElem hk, List.foldl_append, ih (Nat.le_of_succ_le hk), Bfgs.dense,
        c.s_eq hk, c.y_eq hk]
      rfl
  have hall := htake c.pairs.length le_rfl
  rwa [List.take_length] at hall

theorem dense_positiveDefinite : Bfgs.PositiveDefinite c.dense := by
  rw [dense_eq]
  exact Bfgs.positiveDefinite_dense c.theta_pos fun i hi => c.sy_pos hi

/-! ### The two-loop recursion -/

omit [IsStrictOrderedRing K] in
theorem towardsOldest_eq (q : Fin n → K) (alpha : List K) : ∀ (pairs : List (Pair K n)),
    towardsOldest pairs q alpha = ((towardsOldest pairs q []).1, (towardsOldest pairs q []).2 ++ alpha)
  | []            => rfl
  | pair :: pairs => by
    have ih := towardsOldest_eq q alpha pairs
    unfold towardsOldest at ih ⊢
    rw [List.foldr_cons, ih]
    rfl

omit [IsStrictOrderedRing K] in
theorem towardsOldest_length (q : Fin n → K) : ∀ (pairs : List (Pair K n)),
    (towardsOldest pairs q []).2.length = pairs.length
  | []            => rfl
  | _ :: pairs    => congrArg (· + 1) (towardsOldest_length q pairs)

omit [IsStrictOrderedRing K] in
theorem towardsOldest_concat (pairs : List (Pair K n)) (pair : Pair K n) (q : Fin n → K) (alpha : List K) :
    towardsOldest (pairs ++ [pair]) q alpha =
      towardsOldest pairs (q - (pair.s ⬝ᵥ q / pair.sy) • pair.y) (pair.s ⬝ᵥ q / pair.sy :: alpha) :=
  List.foldr_append

omit [IsStrictOrderedRing K] in
theorem towardsNewest_concat {pairs : List (Pair K n)} {alpha : List K} (h : alpha.length = pairs.length)
    (pair : Pair K n) (a : K) (r : Fin n → K) : towardsNewest (pairs ++ [pair]) (alpha ++ [a]) r =
      towardsNewest pairs alpha r + (a - pair.y ⬝ᵥ towardsNewest pairs alpha r / pair.sy) • pair.s := by
  rw [towardsNewest, List.zip_append h.symm, List.foldl_append]
  rfl

/-- **The two loops invert the updates.** -/
theorem twoLoop_spec (theta : K) (htheta : 0 < theta) (pairs : List (Pair K n)) :
    Bfgs.PositiveDefinite (pairs.foldl (fun B pair => Bfgs.update B pair.s pair.y) (theta • 1)) ∧
      ∀ q, pairs.foldl (fun B pair => Bfgs.update B pair.s pair.y) (theta • (1 : Matrix (Fin n) (Fin n) K)) *ᵥ
        towardsNewest pairs (towardsOldest pairs q []).2 (fun i => (towardsOldest pairs q []).1 i / theta) = q := by
  induction pairs using List.reverseRecOn with
  | nil                    =>
    refine ⟨Bfgs.positiveDefinite_smul_one htheta, fun q => ?_⟩
    rw [List.foldl_nil, smul_mulVec, one_mulVec]
    funext i
    exact mul_div_cancel₀ _ htheta.ne'
  | append_singleton pairs pair ih =>
    obtain ⟨hpos, ih⟩ := ih
    have hsy : 0 < pair.s ⬝ᵥ pair.y := pair.product ▸ pair.positive
    have hs := hpos.positive pair.s (Bfgs.ne_zero_of_dotProduct hsy)
    rw [List.foldl_append, List.foldl_cons, List.foldl_nil]
    refine ⟨hpos.update hsy, fun q => ?_⟩
    rw [towardsOldest_concat, towardsOldest_eq _ [_], towardsNewest_concat (towardsOldest_length _ pairs), pair.product]
    exact Bfgs.update_mulVec_twoLoop hpos.symm hs.ne' hsy.ne' (ih _)

theorem dense_mulVec_inverseTimes (v : Fin n → K) : c.dense *ᵥ c.inverseTimes v = v :=
  (twoLoop_spec c.theta c.theta_pos c.pairs).2 v

theorem inverseTimes_dense_mulVec (v : Fin n → K) : c.inverseTimes (c.dense *ᵥ v) = v :=
  c.dense_positiveDefinite.injective (c.dense_mulVec_inverseTimes _)

/-! ### The compact product -/

omit [LinearOrder K] [IsStrictOrderedRing K] in
theorem foldl_sub (w : ℕ → K) (columns : ℕ → Fin n → K) (u : Fin n → K) : ∀ (size : ℕ),
    (List.range size).foldl (fun result i => result - w i • columns i) u = u - ∑ i ∈ Finset.range size, w i • columns i
  | 0        => by simp
  | size + 1 => by
    rw [List.range_succ, List.foldl_append, foldl_sub w columns u size, Finset.sum_range_succ]
    exact sub_sub _ _ _

variable {c} {w : ℕ → K}

omit [IsStrictOrderedRing K] in
/-- The rows of the block system for the changes of the gradient. -/
theorem block_top {i : ℕ} (hi : i < c.pairs.length)
    (h : ∑ j ∈ Finset.range (2 * c.pairs.length), c.block i j * w j = c.columns i ⬝ᵥ v) :
    -(c.s i ⬝ᵥ c.y i) * w i + ∑ k ∈ Finset.Ico (i + 1) c.pairs.length, (c.s k ⬝ᵥ c.y i) * w (c.pairs.length + k) =
      c.y i ⬝ᵥ v := by
  have hdiagonal : ∀ j ∈ Finset.range c.pairs.length, c.block i j * w j = if i = j then -(c.s i ⬝ᵥ c.y i) * w i else 0 := by
    intro j hj
    simp only [block, if_pos hi, if_pos (Finset.mem_range.1 hj), c.sy_eq hi]
    by_cases hij : i = j
    · rw [if_pos hij, if_pos hij, hij]
    · rw [if_neg hij, if_neg hij, zero_mul]
  have hupper : ∀ k ∈ Finset.range c.pairs.length, c.block i (c.pairs.length + k) * w (c.pairs.length + k) =
      if i < k then (c.s k ⬝ᵥ c.y i) * w (c.pairs.length + k) else 0 := by
    intro k _
    simp only [block, if_pos hi, Nat.not_lt.2 (Nat.le_add_right c.pairs.length k), if_false, Nat.add_sub_cancel_left,
      ite_mul, zero_mul]
  have hfilter : Finset.Ico (i + 1) c.pairs.length = (Finset.range c.pairs.length).filter (i < ·) := by
    ext k
    simp only [Finset.mem_Ico, Finset.mem_filter, Finset.mem_range]
    omega
  rw [two_mul, Finset.sum_range_add, Finset.sum_congr rfl hdiagonal, Finset.sum_congr rfl hupper, Finset.sum_ite_eq,
    if_pos (Finset.mem_range.2 hi), ← Finset.sum_filter, ← hfilter, columns, if_pos hi] at h
  exact h

omit [IsStrictOrderedRing K] in
theorem block_bottom {i : ℕ} (hi : i < c.pairs.length)
    (h : ∑ j ∈ Finset.range (2 * c.pairs.length), c.block (c.pairs.length + i) j * w j =
      c.columns (c.pairs.length + i) ⬝ᵥ v) :
    ∑ j ∈ Finset.range i, (c.s i ⬝ᵥ c.y j) * w j +
      ∑ k ∈ Finset.range c.pairs.length, c.theta * (c.s i ⬝ᵥ c.s k) * w (c.pairs.length + k) = c.theta * (c.s i ⬝ᵥ v) := by
  have hnot : ∀ k, ¬ c.pairs.length + k < c.pairs.length := fun k => Nat.not_lt.2 (Nat.le_add_right _ k)
  have hlower : ∀ j ∈ Finset.range c.pairs.length, c.block (c.pairs.length + i) j * w j =
      if j < i then (c.s i ⬝ᵥ c.y j) * w j else 0 := by
    intro j hj
    simp only [block, hnot, if_false, if_pos (Finset.mem_range.1 hj), Nat.add_sub_cancel_left, ite_mul, zero_mul]
  have hsteps : ∀ k ∈ Finset.range c.pairs.length, c.block (c.pairs.length + i) (c.pairs.length + k) *
      w (c.pairs.length + k) = c.theta * (c.s i ⬝ᵥ c.s k) * w (c.pairs.length + k) := by
    intro k _
    simp only [block, hnot, if_false, Nat.add_sub_cancel_left]
  have hfilter : Finset.range i = (Finset.range c.pairs.length).filter (· < i) := by
    ext j
    simp only [Finset.mem_filter, Finset.mem_range]
    omega
  rw [two_mul, Finset.sum_range_add, Finset.sum_congr rfl hlower, Finset.sum_congr rfl hsteps, ← Finset.sum_filter,
    ← hfilter, columns, if_neg (hnot i), Nat.add_sub_cancel_left, smul_dotProduct, smul_eq_mul] at h
  exact h

/-- **The product of the dense matrix**, from weights that solve the block system. -/
theorem dense_mulVec_of_weights (hrows : ∀ i < 2 * c.pairs.length,
    ∑ j ∈ Finset.range (2 * c.pairs.length), c.block i j * w j = c.columns i ⬝ᵥ v) :
    c.dense *ᵥ v = c.theta • v - ∑ i ∈ Finset.range (2 * c.pairs.length), w i • c.columns i := by
  rw [dense_eq, Bfgs.dense_mulVec_compact c.theta_pos (fun i hi => c.sy_pos hi)
    (fun i hi => block_top hi (hrows i (by omega)))
    (fun i hi => block_bottom hi (hrows (c.pairs.length + i) (by omega))), two_mul, Finset.sum_range_add]
  have hy : ∑ i ∈ Finset.range c.pairs.length, w i • c.columns i = ∑ i ∈ Finset.range c.pairs.length, w i • c.y i :=
    Finset.sum_congr rfl fun i hi => by rw [columns, if_pos (Finset.mem_range.1 hi)]
  have hs : ∑ i ∈ Finset.range c.pairs.length, w (c.pairs.length + i) • c.columns (c.pairs.length + i) =
      c.theta • ∑ i ∈ Finset.range c.pairs.length, w (c.pairs.length + i) • c.s i := by
    rw [Finset.smul_sum]
    refine Finset.sum_congr rfl fun i _ => ?_
    rw [columns, if_neg (Nat.not_lt.2 (Nat.le_add_right _ i)), Nat.add_sub_cancel_left, smul_comm]
  rw [hy, hs]
  module

/-- **The compact product, where it is defined, is that of the dense matrix.** -/
theorem times_spec {x : Fin n → K} (h : c.times v = some x) : x = c.dense *ᵥ v := by
  unfold times at h
  split at h
  · rename_i hempty
    rw [dense_eq, List.isEmpty_iff.1 hempty, List.length_nil, Bfgs.dense, smul_mulVec, one_mulVec]
    exact (Option.some.inj h).symm
  · obtain ⟨w, hw, rfl⟩ := Option.map_eq_some_iff.1 h
    rw [dense_mulVec_of_weights (solve_spec hw), foldl_sub]

/-! ### The pairs kept -/

/-- The pairs as they were offered. -/
def kept (c : Compact K n) : List ((Fin n → K) × (Fin n → K)) := c.pairs.map fun pair => (pair.s, pair.y)

theorem rtake_concat {α : Type} {m : ℕ} (hm : 0 < m) (l : List α) (x : α) :
    (if (l.rtake m).length = m then (l.rtake m).tail else l.rtake m) ++ [x] = (l ++ [x]).rtake m := by
  simp only [List.rtake, List.length_drop, List.length_append, List.length_singleton, List.tail_drop]
  by_cases hlen : m ≤ l.length
  · have hfull : l.length - (l.length - m) = m := by omega
    have hnext : l.length + 1 - m = l.length - m + 1 := by omega
    rw [if_pos hfull, hnext, List.drop_append_of_le_length (by omega)]
  · have hfull : l.length - (l.length - m) ≠ m := by omega
    have hall : l.length - m = 0 := by omega
    have hnext : l.length + 1 - m = 0 := by omega
    rw [if_neg hfull, hnext, hall, List.drop_zero, List.drop_zero]

theorem offer_keeps {st : Compact K n × List ((Fin n → K) × (Fin n → K))} (hm : 0 < st.1.maxcor)
    (h : st.1.kept = st.2.rtake st.1.maxcor) (pair : (Fin n → K) × (Fin n → K)) :
    (offer st pair).1.maxcor = st.1.maxcor ∧ (offer st pair).1.kept = (offer st pair).2.rtake st.1.maxcor := by
  obtain ⟨c, accepted⟩ := st
  obtain ⟨s, y⟩ := pair
  simp only [offer, update]
  split
  · split
    · exact ⟨rfl, h⟩
    · refine ⟨rfl, ?_⟩
      have hlen : c.pairs.length = (accepted.rtake c.maxcor).length := by rw [← h, kept, List.length_map]
      have htail : (if c.pairs.length = c.maxcor then c.pairs.tail else c.pairs).map (fun pair => (pair.s, pair.y)) =
          if (accepted.rtake c.maxcor).length = c.maxcor then (accepted.rtake c.maxcor).tail
          else accepted.rtake c.maxcor := by
        rw [← hlen, ← h]
        split
        · exact List.map_tail
        · rfl
      rw [kept, List.map_append, htail]
      exact rtake_concat hm accepted (s, y)
  · exact ⟨rfl, h⟩

theorem offers_keeps (hm : 0 < c.maxcor) (h : c.pairs = []) (pairs : List ((Fin n → K) × (Fin n → K))) :
    (c.offers pairs).1.maxcor = c.maxcor ∧ (c.offers pairs).1.kept = (c.offers pairs).2.rtake c.maxcor := by
  unfold offers
  induction pairs using List.reverseRecOn with
  | nil                          =>
    refine ⟨rfl, ?_⟩
    rw [List.foldl_nil, kept, h, List.rtake_nil]
    rfl
  | append_singleton pairs pair ih =>
    obtain ⟨hmaxcor, hkept⟩ := ih
    rw [List.foldl_append, List.foldl_cons, List.foldl_nil]
    obtain ⟨hmaxcor', hkept'⟩ := offer_keeps (hmaxcor ▸ hm) (hmaxcor ▸ hkept) pair
    exact ⟨hmaxcor'.trans hmaxcor, hmaxcor ▸ hkept'⟩

/-- **The limited-memory matrices are those of BFGS**, whatever pairs are offered.  The pairs kept are the last `maxcor`
accepted; the products, where they are defined, are those of the dense matrix and its inverse; the matrix is symmetric
and positive definite. -/
theorem agrees_with_dense {maxcor : ℕ} (hm : 0 < maxcor) (pairs : List ((Fin n → K) × (Fin n → K)))
    {c : Compact K n} {accepted : List ((Fin n → K) × (Fin n → K))}
    (h : (new n maxcor : Compact K n).offers pairs = (c, accepted)) :
    c.kept = accepted.rtake maxcor ∧
      (∀ v x, c.times v = some x → x = c.dense *ᵥ v ∧ c.inverseTimes x = v) ∧
      (∀ v, c.dense *ᵥ c.inverseTimes v = v ∧ c.inverseTimes (c.dense *ᵥ v) = v) ∧
      Bfgs.PositiveDefinite c.dense := by
  obtain ⟨-, hkept⟩ := offers_keeps (c := (new n maxcor : Compact K n)) hm rfl pairs
  rw [h] at hkept
  refine ⟨hkept, fun v x hx => ?_, fun v => ?_, c.dense_positiveDefinite⟩
  · have hdense := times_spec hx
    exact ⟨hdense, hdense ▸ c.inverseTimes_dense_mulVec v⟩
  · exact ⟨c.dense_mulVec_inverseTimes v, c.inverseTimes_dense_mulVec v⟩

/-- Two pairs, of which one is kept. -/
def two : List ((Fin 1 → ℚ) × (Fin 1 → ℚ)) := [(![1], ![1]), (![1], ![2])]

theorem agrees_with_dense_two : ((new 1 1 : Compact ℚ 1).offers two).1.kept = [(![1], ![2])] ∧
    ((new 1 1 : Compact ℚ 1).offers two).1.inverseTimes ![6] = ![3] := by
  have h := agrees_with_dense (K := ℚ) (n := 1) (show 0 < 1 by decide) two rfl
  exact ⟨h.1.trans (by decide +kernel), (h.2.1 ![3] ![6] (by decide +kernel)).2⟩

end Compact

end Lbfgsb
end Itofin
