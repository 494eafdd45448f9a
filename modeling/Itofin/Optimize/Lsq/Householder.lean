import Itofin.Lib.Elimination
import Itofin.Lib.LeastSquares
import Mathlib.Algebra.Order.Field.Basic
import Mathlib.Logic.Equiv.Basic
/-!
# Householder — QR with column pivoting

`itofin-optimize/src/lsq/householder.rs` and `norm` of `lsq/mod.rs`, over an ordered field with the square root and the
tolerances of the code as parameters (`Numbers`).  A vector is a function of the index, of which the entries below its
length count; the row-major buffer of the factorization is a function of row and column.
-/
namespace Itofin
namespace Lsq

open LeastSquares (Mat)
open Orthogonal (Rotation reflect reflection householder)

/-- What the kernels use of the arithmetic besides the field. -/
structure Numbers (K : Type) where
  sqrt          : K → K
  /-- `f64::EPSILON` in the rank tests. -/
  epsilon       : K
  /-- `INFEASIBILITY` -/
  infeasibility : K

variable {K : Type} [Field K] [LinearOrder K]

/-- **Exact arithmetic, with exact rank tests.** -/
structure Numbers.Exact (N : Numbers K) : Prop where
  sqrt_nonneg   : ∀ x, 0 ≤ x → 0 ≤ N.sqrt x
  mul_self_sqrt : ∀ x, 0 ≤ x → N.sqrt x * N.sqrt x = x
  epsilon       : N.epsilon = 0
  infeasibility : 0 ≤ N.infeasibility

/-- The Euclidean norm, scaled by the largest magnitude. -/
def norm (N : Numbers K) (values : List K) : K :=
  let scale := values.foldl (fun acc v => max acc |v|) 0
  if scale = 0 then 0 else scale * N.sqrt ((values.map fun v => (v / scale) ^ 2).sum)

/-- `x[keys[k]] = y[k]` for the first entries, over zeros. -/
def scatter (keys : ℕ → ℕ) (count : ℕ) (y : ℕ → K) : ℕ → K :=
  (List.range count).foldl (fun x k => Function.update x (keys k) (y k)) 0

/-- An elementary reflector `H = I + u u' / b`. -/
structure Reflector (K : Type) where
  len : ℕ
  u   : ℕ → K
  b   : K

/-- The entries from `offset` on become their image under `H`. -/
def Reflector.apply (h : Reflector K) (offset : ℕ) (v : ℕ → K) : ℕ → K :=
  let dot := ∑ i ∈ Finset.range h.len, h.u i * v (offset + i)
  if dot = 0 then v
  else
    let scale := dot / h.b
    fun i => if offset ≤ i ∧ i < offset + h.len then v i + scale * h.u (i - offset) else v i

/-- The factorization `A P = Q R`, truncated at its rank; column `k` of `A P` is column `perm k` of `A`. -/
structure Qr (K : Type) where
  r          : ℕ → ℕ → K
  cols       : ℕ
  reflectors : List (Reflector K)
  perm       : Equiv.Perm ℕ

namespace Qr

/-- The column of the largest norm from row `k` on, the first of several, and that norm. -/
def largest (N : Numbers K) (m n k : ℕ) (r : ℕ → ℕ → K) : ℕ × K :=
  ((List.range' k (n - k)).map fun j => (j, norm N ((List.range' k (m - k)).map fun i => r i j))).foldl
    (fun best next => if best.2 < next.2 then next else best) (k, -1)

/-- The new diagonal entry, of the sign against cancellation. -/
def diagonalOf (head largest : K) : K := if 0 < head then -largest else largest

/-- The reflector that takes column `k`, from row `k` on, to its diagonal entry `s`. -/
def reflectorOf (m k : ℕ) (s : K) (r : ℕ → ℕ → K) : Reflector K :=
  let head := r k k
  ⟨m - k, fun i => if i = 0 then head - s else r (k + i) k, s * (head - s)⟩

/-- A turn of the factorization, with the pivot and the norm of its column. -/
def step (m k pivot : ℕ) (largest : K) (qr : Qr K) : Qr K :=
  let r : ℕ → ℕ → K := fun i j => qr.r i (Equiv.swap k pivot j)
  let s := diagonalOf (r k k) largest
  let reflector := reflectorOf m k s r
  { qr with
    r := fun i j =>
      if j < k then r i j
      else if j = k then if i < k then r i k else if i = k then s else 0
      else reflector.apply k (fun i => r i j) i
    reflectors := qr.reflectors ++ [reflector]
    perm := (Equiv.swap k pivot).trans qr.perm }

/-- The turns from `k` on, `turns` at most. -/
def turns (N : Numbers K) (m n : ℕ) : ℕ → ℕ → K → Qr K → Qr K
  | 0, _, _, qr             => qr
  | left + 1, k, tolerance, qr =>
    let (pivot, largest) := largest N m n k qr.r
    let tolerance := if k = 0 then (max m n : ℕ) * N.epsilon * largest else tolerance
    if largest ≤ tolerance then qr else turns N m n left (k + 1) tolerance (step m k pivot largest qr)

def factor (N : Numbers K) (a : Mat K) : Qr K :=
  turns N a.rows a.cols (min a.rows a.cols) 0 0 ⟨a.entry, a.cols, [], Equiv.refl ℕ⟩

variable (qr : Qr K)

def rank : ℕ := qr.reflectors.length

/-- `Q' v` -/
def applyQt (v : ℕ → K) : ℕ → K := qr.reflectors.zipIdx.foldl (fun v (h, k) => h.apply k v) v

/-- `Q v` -/
def applyQ (v : ℕ → K) : ℕ → K := qr.reflectors.zipIdx.foldr (fun (h, k) v => h.apply k v) v

/-- Solves `R_11 z = y` on the first entries. -/
def solveR (y : ℕ → K) : ℕ → K := Elimination.backSolve qr.r qr.rank y

/-- Solves `R_11' z = y` on the first entries. -/
def solveRt (y : ℕ → K) : ℕ → K := Elimination.forwardSolve qr.r qr.rank y

/-- The basic least-squares solution, and its residual norm. -/
def solve (N : Numbers K) (m : ℕ) (b : ℕ → K) : (ℕ → K) × K :=
  let y := qr.applyQt b
  let residual := norm N ((List.range' qr.rank (m - qr.rank)).map y)
  let y := qr.solveR y
  (scatter qr.perm qr.rank y, residual)

end Qr

/-! ## The parts -/

section

variable [IsStrictOrderedRing K] {N : Numbers K}

omit [IsStrictOrderedRing K] in
theorem foldl_max_spec : ∀ (vs : List K) (acc : K), acc ≤ vs.foldl (fun acc v => max acc |v|) acc ∧
    ∀ v ∈ vs, |v| ≤ vs.foldl (fun acc v => max acc |v|) acc
  | [], acc      => ⟨le_rfl, nofun⟩
  | v :: vs, acc => by
    obtain ⟨hacc, hvs⟩ := foldl_max_spec vs (max acc |v|)
    refine ⟨(le_max_left _ _).trans hacc, fun w hw => ?_⟩
    rcases List.mem_cons.1 hw with rfl | hw
    · exact (le_max_right _ _).trans hacc
    · exact hvs w hw

theorem norm_nonneg (hN : N.Exact) (vs : List K) : 0 ≤ norm N vs := by
  unfold norm
  simp only
  split
  · exact le_rfl
  · refine mul_nonneg (foldl_max_spec vs 0).1 (hN.sqrt_nonneg _ (List.sum_nonneg fun x hx => ?_))
    obtain ⟨v, -, rfl⟩ := List.mem_map.1 hx
    exact sq_nonneg _

/-- **The scaling cancels.** -/
theorem norm_mul_self (hN : N.Exact) (vs : List K) : norm N vs * norm N vs = (vs.map fun v => v * v).sum := by
  unfold norm
  simp only
  obtain ⟨hscale, hle⟩ := foldl_max_spec vs 0
  set scale := vs.foldl (fun acc v => max acc |v|) 0
  split
  · rename_i h0
    rw [mul_zero]
    refine (List.sum_eq_zero fun x hx => ?_).symm
    obtain ⟨v, hv, rfl⟩ := List.mem_map.1 hx
    rw [abs_nonpos_iff.1 ((hle v hv).trans h0.le), mul_zero]
  · rename_i h0
    have hsum : 0 ≤ (vs.map fun v => (v / scale) ^ 2).sum := List.sum_nonneg fun x hx => by
      obtain ⟨v, -, rfl⟩ := List.mem_map.1 hx
      exact sq_nonneg _
    rw [mul_mul_mul_comm, hN.mul_self_sqrt _ hsum, ← List.sum_map_mul_left]
    refine congrArg List.sum (List.map_congr_left fun v _ => ?_)
    field_simp

end

section

omit [LinearOrder K]

theorem scatter_succ (keys : ℕ → ℕ) (count : ℕ) (y : ℕ → K) :
    scatter keys (count + 1) y = Function.update (scatter keys count y) (keys count) (y count) := by
  rw [scatter, List.range_succ, List.foldl_append]
  rfl

theorem scatter_of_ne {keys : ℕ → ℕ} {y : ℕ → K} {i : ℕ} : ∀ {count : ℕ}, (∀ k < count, keys k ≠ i) →
    scatter keys count y i = 0
  | 0, _         => rfl
  | count + 1, h => by
    rw [scatter_succ, Function.update_of_ne (h count (Nat.lt_succ_self count)).symm]
    exact scatter_of_ne fun k hk => h k (Nat.lt_succ_of_lt hk)

/-- **What is scattered is found at its key.** -/
theorem scatter_key {keys : ℕ → ℕ} {y : ℕ → K} {k : ℕ} : ∀ {count : ℕ},
    (∀ i < count, ∀ j < count, keys i = keys j → i = j) → k < count → scatter keys count y (keys k) = y k
  | count + 1, h, hk => by
    rw [scatter_succ]
    rcases Nat.lt_succ_iff_lt_or_eq.1 hk with hlt | rfl
    · rw [Function.update_of_ne fun he => hlt.ne (h k hk count (Nat.lt_succ_self count) he)]
      exact scatter_key (fun i hi j hj => h i (Nat.lt_succ_of_lt hi) j (Nat.lt_succ_of_lt hj)) hlt
    · exact Function.update_self ..

theorem sum_range' (f : ℕ → K) (k : ℕ) : ∀ c, ((List.range' k c).map f).sum = ∑ i ∈ Finset.range c, f (k + i)
  | 0     => rfl
  | c + 1 => by
    rw [List.range'_concat, List.map_append, List.sum_append, sum_range' f k c, Finset.sum_range_succ,
      List.map_singleton, List.sum_singleton, one_mul]

end

/-! ## Reflectors -/

namespace Reflector

/-- The vector of the reflector among all the entries. -/
def vector (h : Reflector K) (offset : ℕ) : ℕ → K := fun i =>
  if offset ≤ i ∧ i < offset + h.len then h.u (i - offset) else 0

omit [LinearOrder K] in
theorem dot_vector (h : Reflector K) (offset : ℕ) (v : ℕ → K) :
    Orthogonal.dot (offset + h.len) (h.vector offset) v = ∑ i ∈ Finset.range h.len, h.u i * v (offset + i) := by
  rw [Orthogonal.dot, Finset.sum_range_add]
  have hhead : ∑ i ∈ Finset.range offset, h.vector offset i * v i = 0 := Finset.sum_eq_zero fun i hi => by
    rw [vector, if_neg (by have := Finset.mem_range.1 hi; omega), zero_mul]
  rw [hhead, zero_add]
  refine Finset.sum_congr rfl fun i hi => ?_
  have hi := Finset.mem_range.1 hi
  rw [vector, if_pos (by omega), Nat.add_sub_cancel_left]

/-- **Algorithm H2 is the reflection.** -/
theorem apply_eq (h : Reflector K) (offset : ℕ) (v : ℕ → K) :
    h.apply offset v = reflect (offset + h.len) (h.vector offset) h.b v := by
  rw [apply, reflect, dot_vector]
  simp only
  split
  · rename_i h0
    rw [h0, zero_div, zero_smul, add_zero]
  · funext i
    rw [Pi.add_apply, Pi.smul_apply, vector, smul_eq_mul]
    split
    · rfl
    · rw [mul_zero, add_zero]

end Reflector

/-! ## The factorization -/

namespace Qr

/-- **After `k` turns**: `Q'` is a rotation of the columns, in the order of the permutation, to `R`, whose first columns
are those of an upper triangle. -/
structure Factors (a : Mat K) (k : ℕ) (Q : Rotation K a.rows) (qr : Qr K) : Prop where
  cols     : qr.cols = a.cols
  rank     : qr.rank = k
  rows_le  : k ≤ a.rows
  cols_le  : k ≤ a.cols
  perm     : ∀ j, qr.perm j < a.cols ↔ j < a.cols
  applyQt  : ∀ v, qr.applyQt v = Q.map v
  applyQ   : ∀ v, qr.applyQ v = Q.map.symm v
  rotates  : ∀ j < a.cols, ∀ i < a.rows, Q.map (a.column (qr.perm j)) i = qr.r i j
  lower    : ∀ j < k, ∀ i, j < i → i < a.rows → qr.r i j = 0
  diagonal : ∀ i < k, qr.r i i ≠ 0

theorem factors_start (a : Mat K) : Factors a 0 (Rotation.one K a.rows) ⟨a.entry, a.cols, [], Equiv.refl ℕ⟩ where
  cols := rfl
  rank := rfl
  rows_le := Nat.zero_le _
  cols_le := Nat.zero_le _
  perm := fun _ => Iff.rfl
  applyQt := fun _ => rfl
  applyQ := fun _ => rfl
  rotates := fun _ _ _ _ => rfl
  lower := nofun
  diagonal := nofun

theorem applyQt_append (qr : Qr K) (h : Reflector K) (v : ℕ → K) :
    ({ qr with reflectors := qr.reflectors ++ [h] } : Qr K).applyQt v = h.apply qr.rank (qr.applyQt v) := by
  simp only [applyQt, rank, List.zipIdx_append, List.foldl_append]
  simp

theorem applyQ_append (qr : Qr K) (h : Reflector K) (v : ℕ → K) :
    ({ qr with reflectors := qr.reflectors ++ [h] } : Qr K).applyQ v = qr.applyQ (h.apply qr.rank v) := by
  simp only [applyQ, rank, List.zipIdx_append, List.foldr_append]
  simp

/-- The exchange of two columns from `k` on. -/
theorem swap_lt {n k p j : ℕ} (hk : k < n) (hp : p < n) : Equiv.swap k p j < n ↔ j < n := by
  rw [Equiv.swap_apply_def]
  split
  · omega
  · split <;> omega

theorem swap_of_lt {k p j : ℕ} (hp : k ≤ p) (hj : j < k) : Equiv.swap k p j = j :=
  Equiv.swap_apply_of_ne_of_ne (by omega) (by omega)

variable [IsStrictOrderedRing K]

omit [IsStrictOrderedRing K] in
theorem reflectorOf_apply {m k : ℕ} (hk : k < m) (s : K) (r : ℕ → ℕ → K) (v : ℕ → K) :
    (reflectorOf m k s r).apply k v = reflect m (householder m k (fun i => r i k) s) (s * (r k k - s)) v := by
  have hvector : (reflectorOf m k s r).vector k = householder m k (fun i => r i k) s := by
    funext i
    simp only [Reflector.vector, reflectorOf, householder, Nat.add_sub_of_le hk.le]
    by_cases hi : k ≤ i ∧ i < m
    · rw [if_pos hi, if_pos hi]
      rcases Nat.eq_or_lt_of_le hi.1 with rfl | hlt
      · simp
      · rw [if_neg (by omega), if_neg (by omega), Nat.add_sub_of_le hi.1, sub_zero]
    · rw [if_neg hi, if_neg hi]
  have hlen : k + (reflectorOf m k s r).len = m := Nat.add_sub_of_le hk.le
  rw [Reflector.apply_eq, hvector, hlen]
  rfl

/-- **Nothing cancels** in the diagonal entry. -/
theorem diagonalOf_spec {largest : K} (h : 0 < largest) (head : K) :
    diagonalOf head largest * diagonalOf head largest = largest * largest ∧ diagonalOf head largest ≠ 0 ∧
      head - diagonalOf head largest ≠ 0 := by
  rw [diagonalOf]
  split
  · rename_i hhead
    exact ⟨neg_mul_neg _ _, (neg_neg_of_pos h).ne, (sub_pos.2 ((neg_neg_of_pos h).trans hhead)).ne'⟩
  · rename_i hhead
    exact ⟨rfl, h.ne', (sub_neg.2 ((not_lt.1 hhead).trans_lt h)).ne⟩

/-- **A turn**: the reflection takes the pivot column to the next one of the triangle, and leaves those before it. -/
theorem Factors.step {a : Mat K} {k p : ℕ} {Q : Rotation K a.rows} {qr : Qr K} {largest : K} (h : Factors a k Q qr)
    (hm : k < a.rows) (hkp : k ≤ p) (hp : p < a.cols) (hpos : 0 < largest)
    (hnorm : largest * largest = ∑ i ∈ Finset.Ico k a.rows, qr.r i p * qr.r i p) :
    ∃ Q', Factors a (k + 1) Q' (step a.rows k p largest qr) := by
  have hk : k < a.cols := hkp.trans_lt hp
  set r : ℕ → ℕ → K := fun i j => qr.r i (Equiv.swap k p j) with hr
  obtain ⟨hsquare, hs0, hgap⟩ := diagonalOf_spec hpos (r k k)
  set s := diagonalOf (r k k) largest
  have hss : s * s = ∑ i ∈ Finset.Ico k a.rows, r i k * r i k := by
    simp only [hr, Equiv.swap_apply_left, ← hnorm, hsquare]
  have hb : s * (r k k - s) ≠ 0 := mul_ne_zero hs0 hgap
  set u := householder a.rows k (fun i => r i k) s
  have happly : ∀ v, (reflectorOf a.rows k s r).apply k v = reflect a.rows u (s * (r k k - s)) v :=
    reflectorOf_apply hm s r
  have hrotates : ∀ j < a.cols, ∀ i < a.rows, Q.map (a.column (qr.perm (Equiv.swap k p j))) i = r i j :=
    fun j hj i hi => h.rotates _ ((swap_lt hk hp).2 hj) i hi
  -- what the turn writes below and beside the diagonal entry
  have hwrites : ∀ i j, (Qr.step a.rows k p largest qr).r i j = if j < k then r i j
      else if j = k then if i < k then r i k else if i = k then s else 0
      else (reflectorOf a.rows k s r).apply k (fun i => r i j) i := fun _ _ => rfl
  refine ⟨Q.andThen (reflection a.rows u _ hb (Orthogonal.dot_householder_self hm hss)), ?_⟩
  constructor
  case cols => exact h.cols
  case rank => exact List.length_append.trans (congrArg (· + 1) h.rank)
  case rows_le => exact hm
  case cols_le => exact hk
  case perm => exact fun j => (h.perm _).trans (swap_lt hk hp)
  case applyQt =>
    intro v
    refine (applyQt_append qr _ v).trans ?_
    rw [h.rank, h.applyQt]
    exact happly _
  case applyQ =>
    intro v
    refine (applyQ_append qr _ v).trans ?_
    rw [h.rank, h.applyQ]
    exact congrArg Q.map.symm (happly v)
  case rotates =>
    intro j hj i hi
    have hcolumn : (Q.andThen (reflection a.rows u _ hb (Orthogonal.dot_householder_self hm hss))).map
        (a.column (qr.perm (Equiv.swap k p j))) i = reflect a.rows u (s * (r k k - s)) (fun i => r i j) i :=
      Orthogonal.reflect_congr (hrotates j hj) hi
    apply hcolumn.trans
    rw [hwrites]
    rcases Nat.lt_trichotomy j k with hlt | rfl | hgt
    · -- cleared already
      have hclear : ∀ i, k ≤ i → i < a.rows → r i j = 0 := fun i hki hi => by
        simp only [hr, swap_of_lt hkp hlt]
        exact h.lower j hlt i (hlt.trans_le hki) hi
      rw [if_pos hlt, Orthogonal.reflect_householder_of_clear hm hclear]
    · rw [if_neg (lt_irrefl j), if_pos rfl]
      exact Orthogonal.reflect_householder hm hss hb hi
    · rw [if_neg hgt.not_gt, if_neg hgt.ne']
      exact (congrFun (happly _) i).symm
  case lower =>
    intro j hj i hji hi
    rw [hwrites]
    rcases Nat.lt_succ_iff_lt_or_eq.1 hj with hlt | rfl
    · rw [if_pos hlt]
      simp only [hr, swap_of_lt hkp hlt]
      exact h.lower j hlt i hji hi
    · rw [if_neg (lt_irrefl j), if_pos rfl, if_neg hji.not_gt, if_neg hji.ne']
  case diagonal =>
    intro i hi
    rw [hwrites]
    rcases Nat.lt_succ_iff_lt_or_eq.1 hi with hlt | rfl
    · rw [if_pos hlt]
      simp only [hr, swap_of_lt hkp hlt]
      exact h.diagonal i hlt
    · rw [if_neg (lt_irrefl i), if_pos rfl, if_neg (lt_irrefl i), if_pos rfl]
      exact hs0

omit [Field K] [IsStrictOrderedRing K] in
theorem foldl_best_spec : ∀ (xs : List (ℕ × K)) (best : ℕ × K),
    let found := xs.foldl (fun best next => if best.2 < next.2 then next else best) best
    (found = best ∨ found ∈ xs) ∧ best.2 ≤ found.2 ∧ ∀ x ∈ xs, x.2 ≤ found.2
  | [], best      => ⟨.inl rfl, le_rfl, nofun⟩
  | x :: xs, best => by
    simp only [List.foldl_cons]
    by_cases hx : best.2 < x.2
    · rw [if_pos hx]
      obtain ⟨hmem, hle, hall⟩ := foldl_best_spec xs x
      refine ⟨.inr (List.mem_cons.2 hmem), hx.le.trans hle, fun y hy => ?_⟩
      rcases List.mem_cons.1 hy with rfl | hy
      · exact hle
      · exact hall y hy
    · rw [if_neg hx]
      obtain ⟨hmem, hle, hall⟩ := foldl_best_spec xs best
      refine ⟨hmem.imp id (List.mem_cons_of_mem _), hle, fun y hy => ?_⟩
      rcases List.mem_cons.1 hy with rfl | hy
      · exact (not_lt.1 hx).trans hle
      · exact hall y hy

variable {N : Numbers K}

theorem columnNorm_mul_self (hN : N.Exact) {m k : ℕ} (r : ℕ → ℕ → K) (j : ℕ) :
    norm N ((List.range' k (m - k)).map fun i => r i j) * norm N ((List.range' k (m - k)).map fun i => r i j) =
      ∑ i ∈ Finset.Ico k m, r i j * r i j := by
  rw [norm_mul_self hN, List.map_map, sum_range', Finset.sum_Ico_eq_sum_range]
  rfl

/-- **The pivot column** has the largest norm. -/
theorem largest_spec (hN : N.Exact) {m n k : ℕ} (hn : k < n) (r : ℕ → ℕ → K) :
    let found := largest N m n k r
    k ≤ found.1 ∧ found.1 < n ∧ 0 ≤ found.2 ∧ found.2 * found.2 = ∑ i ∈ Finset.Ico k m, r i found.1 * r i found.1 ∧
      (found.2 = 0 → ∀ j, k ≤ j → j < n → ∀ i, k ≤ i → i < m → r i j = 0) := by
  intro found
  set column : ℕ → K := fun j => norm N ((List.range' k (m - k)).map fun i => r i j) with hcolumn
  obtain ⟨hmem, -, hall⟩ := foldl_best_spec ((List.range' k (n - k)).map fun j => (j, column j)) (k, -1)
  have hk : (k, column k) ∈ (List.range' k (n - k)).map fun j => (j, column j) :=
    List.mem_map.2 ⟨k, List.mem_range'_1.2 (by omega), rfl⟩
  have hfound : found ∈ (List.range' k (n - k)).map fun j => (j, column j) := by
    refine hmem.resolve_left (fun he => ?_)
    have hle := hall _ hk
    rw [he] at hle
    exact absurd ((norm_nonneg hN _).trans hle) (not_le.2 neg_one_lt_zero)
  obtain ⟨j, hj, he⟩ := List.mem_map.1 hfound
  have hj := List.mem_range'_1.1 hj
  refine ⟨he ▸ hj.1, ?_, he ▸ norm_nonneg hN _, he ▸ columnNorm_mul_self hN r j, fun h0 j' hkj hjn i hki him => ?_⟩
  · rw [← he]; omega
  · have hle : column j' ≤ 0 := h0 ▸ hall _ (List.mem_map.2 ⟨j', List.mem_range'_1.2 (by omega), rfl⟩)
    have hzero : column j' = 0 := le_antisymm hle (norm_nonneg hN _)
    have hsum := columnNorm_mul_self (m := m) (k := k) hN r j'
    rw [show norm N ((List.range' k (m - k)).map fun i => r i j') = 0 from hzero, mul_zero] at hsum
    have := (Finset.sum_eq_zero_iff_of_nonneg fun i _ => mul_self_nonneg (r i j')).1 hsum.symm i
      (Finset.mem_Ico.2 ⟨hki, him⟩)
    exact mul_self_eq_zero.1 this

/-- **The factorization stops** at the full rank, or where nothing is left of the columns. -/
theorem turns_spec (hN : N.Exact) (a : Mat K) : ∀ (left k : ℕ) (qr : Qr K) (Q : Rotation K a.rows), Factors a k Q qr →
    k + left = min a.rows a.cols →
      let qr' := turns N a.rows a.cols left k 0 qr
      ∃ Q', Factors a qr'.rank Q' qr' ∧ (qr'.rank < min a.rows a.cols → ∀ j, qr'.rank ≤ j → j < a.cols →
        ∀ i, qr'.rank ≤ i → i < a.rows → qr'.r i j = 0)
  | 0, k, qr, Q, h, _         => by
    refine ⟨Q, h.rank.symm ▸ h, fun hlt => absurd hlt ?_⟩
    simp only [turns, h.rank]
    omega
  | left + 1, k, qr, Q, h, hk => by
    obtain ⟨hkp, hpn, hnonneg, hnorm, hzero⟩ :=
      largest_spec hN (m := a.rows) (n := a.cols) (k := k) (by omega) qr.r
    simp only [turns, hN.epsilon, mul_zero, zero_mul, ite_self]
    split
    · rename_i hle
      refine ⟨Q, h.rank.symm ▸ h, fun _ => ?_⟩
      rw [h.rank]
      exact hzero (le_antisymm hle hnonneg)
    · rename_i hlt
      obtain ⟨Q', h'⟩ := h.step (by omega) hkp hpn (not_le.1 hlt) hnorm
      exact turns_spec hN a left (k + 1) _ Q' h' (by omega)

theorem factor_spec (hN : N.Exact) (a : Mat K) :
    ∃ Q, Factors a (factor N a).rank Q (factor N a) ∧ ((factor N a).rank < min a.rows a.cols →
      ∀ j, (factor N a).rank ≤ j → j < a.cols → ∀ i, (factor N a).rank ≤ i → i < a.rows → (factor N a).r i j = 0) :=
  turns_spec hN a _ 0 _ _ (factors_start a) (Nat.zero_add _)

/-! ## With the factors -/

namespace Factors

variable {a : Mat K} {k : ℕ} {Q : Rotation K a.rows} {qr : Qr K}

omit [IsStrictOrderedRing K]

theorem sum_perm {M : Type} [AddCommMonoid M] (h : Factors a k Q qr) (f : ℕ → M) :
    ∑ j ∈ Finset.range a.cols, f (qr.perm j) = ∑ j ∈ Finset.range a.cols, f j :=
  Finset.sum_equiv qr.perm (fun j => by rw [Finset.mem_range, Finset.mem_range, h.perm]) fun _ _ => rfl

theorem map_mulVec (h : Factors a k Q qr) (x : ℕ → K) {i : ℕ} (hi : i < a.rows) :
    Q.map (a.mulVec x) i = ∑ j ∈ Finset.range a.cols, qr.r i j * x (qr.perm j) := by
  rw [a.mulVec_eq_sum, ← h.sum_perm fun j => x j • a.column j, Q.map_combination, Finset.sum_apply]
  refine Finset.sum_congr rfl fun j hj => ?_
  rw [Pi.smul_apply, h.rotates j (Finset.mem_range.1 hj) i hi, smul_eq_mul, mul_comm]

theorem mulVecT_perm (h : Factors a k Q qr) (v : ℕ → K) {j : ℕ} (hj : j < k) :
    a.mulVecT v (qr.perm j) = ∑ i ∈ Finset.range k, qr.r i j * Q.map v i := by
  have hjn : j < a.cols := hj.trans_le h.cols_le
  rw [a.mulVecT_eq_dot, ← Q.dot_map, Orthogonal.dot_congr (h.rotates j hjn) (fun _ _ => rfl), Orthogonal.dot,
    ← Finset.sum_range_add_sum_Ico _ h.rows_le]
  refine add_eq_left.2 (Finset.sum_eq_zero fun i hi => ?_)
  have hi := Finset.mem_Ico.1 hi
  rw [h.lower j hj i (hj.trans_le hi.1) hi.2, zero_mul]

theorem sum_row (h : Factors a k Q qr) (z : ℕ → K) {i : ℕ} (hi : i < a.rows) :
    ∑ j ∈ Finset.range k, qr.r i j * z j = ∑ j ∈ Finset.Ico i k, qr.r i j * z j := by
  rcases Nat.le_total i k with hik | hki
  · rw [← Finset.sum_range_add_sum_Ico _ hik]
    refine add_eq_right.2 (Finset.sum_eq_zero fun j hj => ?_)
    have hj := Finset.mem_range.1 hj
    rw [h.lower j (hj.trans_le hik) i hj hi, zero_mul]
  · rw [Finset.Ico_eq_empty (not_lt.2 hki), Finset.sum_empty]
    refine Finset.sum_eq_zero fun j hj => ?_
    rw [h.lower j (Finset.mem_range.1 hj) i ((Finset.mem_range.1 hj).trans_le hki) hi, zero_mul]

theorem solveR_spec (h : Factors a k Q qr) (y : ℕ → K) {i : ℕ} (hi : i < k) :
    ∑ j ∈ Finset.range k, qr.r i j * qr.solveR y j = y i := by
  rw [h.sum_row _ (hi.trans_le h.rows_le), solveR, h.rank]
  exact (Elimination.backSolve_spec y h.diagonal).1 i hi

theorem solveRt_spec (h : Factors a k Q qr) (y : ℕ → K) {j : ℕ} (hj : j < k) :
    ∑ i ∈ Finset.range k, qr.r i j * qr.solveRt y i = y j := by
  have hsolved := (Elimination.forwardSolve_spec y h.diagonal).1 j hj
  rw [solveRt, h.rank, ← Finset.sum_range_add_sum_Ico _ (Nat.succ_le_of_lt hj), hsolved]
  refine add_eq_left.2 (Finset.sum_eq_zero fun i hi => ?_)
  have hi := Finset.mem_Ico.1 hi
  rw [h.lower j hj i hi.1 (hi.2.trans_le h.rows_le), zero_mul]

/-- **The two substitutions are adjoint.** -/
theorem dot_solveR (h : Factors a k Q qr) (row y : ℕ → K) :
    Orthogonal.dot k row (qr.solveR y) = Orthogonal.dot k (qr.solveRt row) y := by
  have hrow : Orthogonal.dot k row (qr.solveR y) =
      ∑ j ∈ Finset.range k, ∑ i ∈ Finset.range k, qr.r i j * qr.solveRt row i * qr.solveR y j :=
    Finset.sum_congr rfl fun j hj => by rw [← Finset.sum_mul, h.solveRt_spec row (Finset.mem_range.1 hj)]
  have hcolumn : Orthogonal.dot k (qr.solveRt row) y =
      ∑ i ∈ Finset.range k, ∑ j ∈ Finset.range k, qr.r i j * qr.solveRt row i * qr.solveR y j :=
    Finset.sum_congr rfl fun i hi => by
      rw [← h.solveR_spec y (Finset.mem_range.1 hi), Finset.mul_sum]
      exact Finset.sum_congr rfl fun j _ => by ring
  rw [hrow, hcolumn, Finset.sum_comm]

omit [LinearOrder K] in
theorem scatter_perm (y : ℕ → K) (perm : Equiv.Perm ℕ) {count j : ℕ} (hj : j < count) :
    scatter perm count y (perm j) = y j :=
  scatter_key (fun _ _ _ _ he => perm.injective he) hj

end Factors

theorem eq_of_map_eq {m : ℕ} (Q : Rotation K m) {v w : ℕ → K} (h : ∀ i < m, Q.map v i = Q.map w i) :
    ∀ i < m, v i = w i := by
  have hzero : Orthogonal.dot m (v - w) (v - w) = 0 := by
    rw [← Q.dot_map, map_sub]
    exact Orthogonal.dot_eq_zero fun i hi => .inl (by rw [Pi.sub_apply, h i hi, sub_self])
  exact fun i hi => sub_eq_zero.1 (Orthogonal.dot_self_eq_zero.1 hzero i hi)

theorem full_rank (hN : N.Exact) {a : Mat K} (h : ¬ (factor N a).rank < a.cols) :
    ∃ Q, Factors a a.cols Q (factor N a) := by
  obtain ⟨Q, hQ, -⟩ := factor_spec hN a
  exact ⟨Q, le_antisymm hQ.cols_le (not_lt.1 h) ▸ hQ⟩

/-- **Independent columns have the full rank**: the first column past the rank would be a combination of the ones
before it. -/
theorem rank_of_independent (hN : N.Exact) {a : Mat K} (h : a.Independent fun _ => True) :
    (factor N a).rank = a.cols := by
  obtain ⟨Q, hQ, hrest⟩ := factor_spec hN a
  set qr := factor N a
  refine le_antisymm hQ.cols_le (not_lt.1 fun hk => ?_)
  have hclear : ∀ i, qr.rank ≤ i → i < a.rows → qr.r i qr.rank = 0 := fun i hi him =>
    hrest (lt_min (hi.trans_lt him) hk) qr.rank le_rfl hk i hi him
  let z := qr.solveR fun i => qr.r i qr.rank
  let v : ℕ → K := fun j => if qr.perm.symm j < qr.rank then z (qr.perm.symm j) else
    if qr.perm.symm j = qr.rank then -1 else 0
  have hmap : ∀ i < a.rows, Q.map (a.mulVec v) i = Q.map 0 i := by
    intro i hi
    have htail : ∑ j ∈ Finset.Ico qr.rank a.cols, qr.r i j * v (qr.perm j) = -qr.r i qr.rank := by
      rw [Finset.sum_eq_sum_Ico_succ_bot hk]
      have hafter : ∑ j ∈ Finset.Ico (qr.rank + 1) a.cols, qr.r i j * v (qr.perm j) = 0 :=
        Finset.sum_eq_zero fun j hj => by
          have := (Finset.mem_Ico.1 hj).1
          simp only [v, Equiv.symm_apply_apply]
          rw [if_neg (by omega), if_neg (by omega), mul_zero]
      rw [hafter, add_zero]
      simp only [v, Equiv.symm_apply_apply, lt_irrefl, if_false, if_true, mul_neg_one]
    have hhead : ∑ j ∈ Finset.range qr.rank, qr.r i j * v (qr.perm j) = ∑ j ∈ Finset.range qr.rank, qr.r i j * z j :=
      Finset.sum_congr rfl fun j hj => by simp only [v, Equiv.symm_apply_apply, if_pos (Finset.mem_range.1 hj)]
    rw [hQ.map_mulVec v hi, map_zero, ← Finset.sum_range_add_sum_Ico _ hk.le, htail, hhead, Pi.zero_apply]
    rcases Nat.lt_or_ge i qr.rank with hlt | hge
    · rw [hQ.solveR_spec _ hlt, add_neg_cancel]
    · rw [hQ.sum_row z hi, Finset.Ico_eq_empty (not_lt.2 hge), Finset.sum_empty, hclear i hge hi, neg_zero, add_zero]
  have hzero := h v (fun _ _ hf => absurd trivial hf) (eq_of_map_eq Q hmap) _ ((hQ.perm qr.rank).2 hk)
  simp only [v, Equiv.symm_apply_apply, lt_irrefl, if_false, if_true] at hzero
  exact neg_ne_zero.2 one_ne_zero hzero

omit [IsStrictOrderedRing K] in
/-- **The least-squares solution** of a system of full rank meets its normal equations. -/
theorem Factors.solve_spec {a : Mat K} {Q : Rotation K a.rows} {qr : Qr K} (h : Factors a a.cols Q qr) (b : ℕ → K)
    {j : ℕ} (hj : j < a.cols) : a.dual b (qr.solve N a.rows b).1 j = 0 := by
  obtain ⟨l, rfl⟩ := qr.perm.surjective j
  have hl : l < a.cols := (h.perm l).1 hj
  rw [Mat.dual, h.mulVecT_perm _ hl]
  refine Finset.sum_eq_zero fun i hi => mul_eq_zero_of_right _ ?_
  have hi : i < a.cols := Finset.mem_range.1 hi
  rw [a.residual_eq, map_sub, Pi.sub_apply, h.map_mulVec _ (hi.trans_le h.rows_le), sub_eq_zero, ← h.applyQt,
    ← h.solveR_spec (qr.applyQt b) hi]
  refine Finset.sum_congr rfl fun j hj => ?_
  rw [Qr.solve, h.rank]
  exact congrArg _ (scatter_perm _ _ (Finset.mem_range.1 hj)).symm

/-- **A combination of the columns** is found by back substitution. -/
theorem Factors.mulVec_solveR {a : Mat K} {Q : Rotation K a.rows} {qr : Qr K} (h : Factors a a.cols Q qr) {v : ℕ → K}
    (hv : ∀ i, a.cols ≤ i → i < a.rows → Q.map v i = 0) :
    ∀ i < a.rows, a.mulVec (scatter qr.perm a.cols (qr.solveR (qr.applyQt v))) i = v i := by
  refine eq_of_map_eq Q fun i hi => ?_
  have hx : ∀ j ∈ Finset.range a.cols,
      qr.r i j * scatter qr.perm a.cols (qr.solveR (qr.applyQt v)) (qr.perm j) =
        qr.r i j * qr.solveR (qr.applyQt v) j :=
    fun j hj => congrArg _ (scatter_perm _ _ (Finset.mem_range.1 hj))
  rw [h.map_mulVec _ hi, Finset.sum_congr rfl hx]
  rcases Nat.lt_or_ge i a.cols with hlt | hge
  · rw [h.solveR_spec _ hlt, h.applyQt]
  · rw [h.sum_row _ hi, Finset.Ico_eq_empty (not_lt.2 hge), Finset.sum_empty, hv i hge hi]

end Qr
end Lsq
end Itofin
