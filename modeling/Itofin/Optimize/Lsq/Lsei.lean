import Itofin.Optimize.Lsq.Nnls
import Mathlib.Analysis.Real.Sqrt
/-!
# Lsei — least squares with equalities and inequalities

`itofin-optimize/src/lsq/lsei.rs`: least squares under equalities and inequalities, in the null space of the equalities;
under inequalities, as a least distance; and the least distance, by its dual.
-/
namespace Itofin

/-- A solution; the multipliers are those of the equalities first, then those of the inequalities. -/
structure Lsq (K : Type) where
  x            : ℕ → K
  residualNorm : K
  multipliers  : ℕ → K

namespace Lsq

open LeastSquares (Mat Feasible Multipliers Stationary)
open Orthogonal (Rotation)

variable {K : Type} [Field K] [LinearOrder K]

/-- The first entries of one vector, then those of the other. -/
def extend (count : ℕ) (y rest : ℕ → K) : ℕ → K := fun j => if j < count then y j else rest (j - count)

def hypot (N : Numbers K) (x y : K) : K := N.sqrt (x ^ 2 + y ^ 2)

/-- The matrix `[g'; h']` of the dual problem. -/
def ldpDual (g : Mat K) (h : ℕ → K) : Mat K := ⟨g.cols + 1, g.rows, fun j i => if j < g.cols then g.entry i j else h i⟩

/-- `(0, …, 0, 1)` -/
def ldpTarget (n : ℕ) : ℕ → K := Function.update 0 n 1

/-- `min ‖x‖` subject to `g x ≥ h`. -/
def ldp (N : Numbers K) (g : Mat K) (h : ℕ → K) : Except Failure (Lsq K) := do
  let n := g.cols
  let f := ldpTarget n
  let u := (← nnls N (ldpDual g h) f).x
  let r := fun j => (ldpDual g h).mulVec u j - f j
  let denominator := -r n
  if denominator ≤ N.infeasibility then .error .infeasible
  else
    let x := fun j => r j / denominator
    .ok ⟨x, norm N ((List.range n).map x), fun i => u i / denominator⟩

/-- `min ‖e x - f‖` subject to `g x ≥ h`, for `e` of full column rank. -/
def lsi (N : Numbers K) (e : Mat K) (f : ℕ → K) (g : Mat K) (h : ℕ → K) : Except Failure (Lsq K) := do
  let n := e.cols
  let qr := Qr.factor N e
  if qr.rank < n then .error .rankDeficient
  else
    let qf := qr.applyQt f
    let row := fun i => qr.solveRt fun k => g.entry i (qr.perm k)
    let bound := fun i => h i - Orthogonal.dot n (row i) qf
    let reduced ← ldp N ⟨g.rows, n, row⟩ bound
    let u := reduced.x
    let z := qr.solveR fun k => u k + qf k
    .ok ⟨scatter qr.perm n z,
      hypot N (norm N ((List.range n).map u)) (norm N ((List.range' n (e.rows - n)).map qf)), reduced.multipliers⟩

/-- The rows of `a q` past the equalities, and the right-hand side less the part that these fix. -/
def reduce (qr : Qr K) (n mc : ℕ) (y : ℕ → K) (a : Mat K) (rhs : ℕ → K) : Mat K × (ℕ → K) :=
  let row := fun i => qr.applyQt (a.entry i)
  (⟨a.rows, n - mc, fun i j => row i (mc + j)⟩, fun i => rhs i - Orthogonal.dot mc (row i) y)

/-- `min ‖e x - f‖` subject to `c x = d` and `g x ≥ h`. -/
def lsei (N : Numbers K) (c : Mat K) (d : ℕ → K) (e : Mat K) (f : ℕ → K) (g : Mat K) (h : ℕ → K) :
    Except Failure (Lsq K) := do
  let mc := c.rows
  let n := c.cols
  let qr := Qr.factor N c.transpose
  if qr.rank < mc then .error .rankDeficient
  else
    let y := qr.solveRt fun k => d (qr.perm k)
    let eTail := reduce qr n mc y e f
    let gTail := reduce qr n mc y g h
    let reduced ← lsi N eTail.1 eTail.2 gTail.1 gTail.2
    let x := qr.applyQ (extend mc y reduced.x)
    let lambda := reduced.multipliers
    let residual := fun i => ∑ j ∈ Finset.range n, e.entry i j * x j - f i
    let v := fun j => ∑ i ∈ Finset.range e.rows, e.entry i j * residual i -
      ∑ k ∈ Finset.range g.rows, g.entry k j * lambda k
    let v := qr.solveR (qr.applyQt v)
    let multipliers := scatter qr.perm mc v
    .ok ⟨x, reduced.residualNorm, extend mc multipliers lambda⟩

variable [IsStrictOrderedRing K] {N : Numbers K}

/-! ## Norms -/

theorem norm_range (hN : N.Exact) (n : ℕ) (v : ℕ → K) :
    norm N ((List.range n).map v) * norm N ((List.range n).map v) = Orthogonal.dot n v v := by
  rw [norm_mul_self hN, List.map_map, List.range_eq_range', sum_range']
  exact Finset.sum_congr rfl fun i _ => by rw [Nat.zero_add, Function.comp]

/-- **The norm of two parts.** -/
theorem hypot_mul_self (hN : N.Exact) {n m : ℕ} (hnm : n ≤ m) (u v : ℕ → K) :
    hypot N (norm N ((List.range n).map u)) (norm N ((List.range' n (m - n)).map v)) *
      hypot N (norm N ((List.range n).map u)) (norm N ((List.range' n (m - n)).map v)) =
        Orthogonal.dot m (fun i => if i < n then u i else v i) fun i => if i < n then u i else v i := by
  have hsplit : Orthogonal.dot m (fun i => if i < n then u i else v i) (fun i => if i < n then u i else v i) =
      Orthogonal.dot n u u + ∑ i ∈ Finset.Ico n m, v i * v i := by
    rw [Orthogonal.dot, ← Finset.sum_range_add_sum_Ico _ hnm]
    refine congrArg₂ (· + ·) (Finset.sum_congr rfl fun i hi => ?_) (Finset.sum_congr rfl fun i hi => ?_)
    · rw [if_pos (Finset.mem_range.1 hi)]
    · rw [if_neg (Nat.not_lt.2 (Finset.mem_Ico.1 hi).1)]
  rw [hypot, hN.mul_self_sqrt _ (add_nonneg (sq_nonneg _) (sq_nonneg _)), sq, sq, norm_range hN, norm_mul_self hN,
    List.map_map, sum_range', ← Finset.sum_Ico_eq_sum_range, hsplit]
  rfl

/-! ## Least distance -/

section

variable {g : Mat K} {h : ℕ → K}

omit [LinearOrder K] [IsStrictOrderedRing K] in
theorem ldpDual_mulVecT (r : ℕ → K) (i : ℕ) : (ldpDual g h).mulVecT r i = g.mulVec r i + h i * r g.cols := by
  simp only [Mat.mulVecT, Mat.mulVec, ldpDual, Finset.sum_range_succ, lt_irrefl, if_false]
  refine congrArg (· + _) (Finset.sum_congr rfl fun j hj => ?_)
  rw [if_pos (Finset.mem_range.1 hj)]

omit [LinearOrder K] [IsStrictOrderedRing K] in
theorem ldpDual_mulVec (u : ℕ → K) {j : ℕ} (hj : j < g.cols) : (ldpDual g h).mulVec u j = g.mulVecT u j := by
  simp only [Mat.mulVecT, Mat.mulVec, ldpDual, if_pos hj]

/-- **The least distance**: the point is the combination of the rows with its multipliers. -/
theorem ldp_spec (hN : N.Exact) {sol : Lsq K} (hsol : ldp N g h = .ok sol) :
    Multipliers g h sol.x sol.multipliers ∧ ∀ j < g.cols, sol.x j = g.mulVecT sol.multipliers j := by
  rw [ldp] at hsol
  cases hnnls : nnls N (ldpDual g h) (ldpTarget g.cols) with
  | error e => rw [hnnls] at hsol; exact absurd hsol nofun
  | ok dual =>
    rw [hnnls] at hsol
    obtain ⟨hnonneg, hdual, hslack⟩ := nnls_spec hN hnnls
    change (if _ then _ else _) = _ at hsol
    split at hsol
    · exact absurd hsol nofun
    rename_i hinfeasible
    obtain rfl := Except.ok.inj hsol
    set r : ℕ → K := fun j => (ldpDual g h).mulVec dual.x j - ldpTarget g.cols j with hr
    have hpos : 0 < -r g.cols := hN.infeasibility.trans_lt (not_le.1 hinfeasible)
    have hgap : ∀ i, g.mulVec (fun j => r j / -r g.cols) i - h i =
        -(ldpDual g h).dual (ldpTarget g.cols) dual.x i / -r g.cols := by
      intro i
      have hneg : (ldpDual g h).dual (ldpTarget g.cols) dual.x = -(ldpDual g h).mulVecT r := by
        rw [Mat.dual, Mat.residual_eq, ← neg_sub, ← zero_sub, Mat.mulVecT_sub]
        funext j
        simp [Mat.mulVecT, hr]
      rw [hneg, Pi.neg_apply, neg_neg, ldpDual_mulVecT, g.mulVec_div, eq_div_iff hpos.ne', sub_mul,
        div_mul_cancel₀ _ hpos.ne']
      ring
    refine ⟨⟨fun i hi => ?_, fun i hi => ?_, fun i hi hlt => ?_⟩, fun j hj => ?_⟩
    · rw [← sub_nonneg, hgap]
      exact div_nonneg (neg_nonneg.2 (hdual i hi)) hpos.le
    · exact div_nonneg (hnonneg i hi) hpos.le
    · rcases hslack i hi with h0 | h0
      · change dual.x i / _ = 0
        rw [h0, zero_div]
      · rw [← sub_pos, hgap, h0, neg_zero, zero_div] at hlt
        exact absurd hlt (lt_irrefl 0)
    · have hrow : r j = g.mulVecT dual.x j := by
        rw [← ldpDual_mulVec (h := h) dual.x hj, hr, ldpTarget]
        exact (congrArg _ (Function.update_of_ne hj.ne _ _)).trans (sub_zero _)
      exact (congrArg (· / -r g.cols) hrow).trans (g.mulVecT_div dual.x _ j).symm

end

/-! ## Inequalities -/

section

variable {e g : Mat K} {f h : ℕ → K}

/-- **Inequality-constrained least squares**: the triangle carries the point and the rows to a least distance, and the
multipliers stay. -/
theorem lsi_spec (hN : N.Exact) (hg : g.cols = e.cols) {sol : Lsq K} (hsol : lsi N e f g h = .ok sol) :
    Multipliers g h sol.x sol.multipliers ∧
      (∀ j < e.cols, e.mulVecT (e.mulVec sol.x - f) j = g.mulVecT sol.multipliers j) ∧
        sol.residualNorm * sol.residualNorm = Orthogonal.dot e.rows (e.mulVec sol.x - f) (e.mulVec sol.x - f) := by
  rw [lsi] at hsol
  dsimp only at hsol
  split at hsol
  · exact absurd hsol nofun
  rename_i hrank
  obtain ⟨Q, hQ⟩ := Qr.full_rank hN hrank
  set qr := Qr.factor N e
  set qf := qr.applyQt f with hqf
  set row : ℕ → ℕ → K := fun i => qr.solveRt fun k => g.entry i (qr.perm k) with hrow
  cases hldp : ldp N ⟨g.rows, e.cols, row⟩ (fun i => h i - Orthogonal.dot e.cols (row i) qf) with
  | error failure => rw [hldp] at hsol; exact absurd hsol nofun
  | ok reduced =>
    rw [hldp] at hsol
    obtain rfl := Except.ok.inj hsol
    obtain ⟨hmultipliers, hcombination⟩ := ldp_spec hN hldp
    set z := qr.solveR fun k => reduced.x k + qf k with hz
    have hx : ∀ k < e.cols, scatter qr.perm e.cols z (qr.perm k) = z k :=
      fun k hk => Qr.Factors.scatter_perm z qr.perm hk
    have hmap : ∀ i < e.rows, Q.map (e.mulVec (scatter qr.perm e.cols z) - f) i =
        if i < e.cols then reduced.x i else -qf i := by
      intro i hi
      rw [map_sub, Pi.sub_apply, hQ.map_mulVec _ hi,
        Finset.sum_congr rfl fun k hk => congrArg _ (hx k (Finset.mem_range.1 hk)), ← hQ.applyQt f]
      split
      · rename_i hlt
        rw [hz, hQ.solveR_spec _ hlt]
        exact add_sub_cancel_right _ _
      · rename_i hge
        rw [hQ.sum_row _ hi, Finset.Ico_eq_empty (fun hlt => hge hlt), Finset.sum_empty, zero_sub]
    refine ⟨hmultipliers.transfer rfl fun i _ => ?_, fun j hj => ?_, ?_⟩
    · have hdot : g.mulVec (scatter qr.perm e.cols z) i = Orthogonal.dot e.cols (row i) (reduced.x + qf) := by
        rw [hrow, ← hQ.dot_solveR, Mat.mulVec, hg, ← hQ.sum_perm]
        exact Finset.sum_congr rfl fun k hk => congrArg _ (hx k (Finset.mem_range.1 hk))
      rw [hdot, Orthogonal.dot_add]
      change _ = Orthogonal.dot e.cols (row i) reduced.x - (h i - Orthogonal.dot e.cols (row i) qf)
      ring
    · obtain ⟨k, rfl⟩ := qr.perm.surjective j
      have hk : k < e.cols := (hQ.perm k).1 hj
      rw [hQ.mulVecT_perm _ hk]
      have hcolumn : ∀ i ∈ Finset.range e.cols, qr.r i k * Q.map (e.mulVec (scatter qr.perm e.cols z) - f) i =
          ∑ l ∈ Finset.range g.rows, qr.r i k * row l i * reduced.multipliers l := by
        intro i hi
        have hi := Finset.mem_range.1 hi
        rw [hmap i (hi.trans_le hQ.rows_le), if_pos hi, hcombination i hi, Mat.mulVecT, Finset.mul_sum]
        exact Finset.sum_congr rfl fun l _ => (mul_assoc _ _ _).symm
      rw [Finset.sum_congr rfl hcolumn, Finset.sum_comm, Mat.mulVecT]
      refine Finset.sum_congr rfl fun l _ => ?_
      rw [← Finset.sum_mul, hrow, hQ.solveRt_spec _ hk]
    · rw [hypot_mul_self hN hQ.rows_le, ← Q.dot_map (_ - f)]
      refine Finset.sum_congr rfl fun i hi => ?_
      dsimp only
      rw [hmap i (Finset.mem_range.1 hi)]
      split
      · rfl
      · exact (neg_mul_neg _ _).symm

end

/-! ## Equalities and inequalities -/

section

omit [Field K] [LinearOrder K] [IsStrictOrderedRing K]

theorem extend_of_lt {count j : ℕ} (y rest : ℕ → K) (hj : j < count) : extend count y rest j = y j := if_pos hj

theorem extend_add (count : ℕ) (y rest : ℕ → K) (j : ℕ) : extend count y rest (count + j) = rest j := by
  rw [extend, if_neg (Nat.not_lt.2 (Nat.le_add_right count j)), Nat.add_sub_cancel_left]

end

section

variable {c e g : Mat K} {d f h : ℕ → K}

omit [IsStrictOrderedRing K]

/-- **The rows in the rotated coordinates**: what the equalities fix goes to the right-hand side. -/
theorem reduce_gap {n mc : ℕ} (hmc : mc ≤ n) {qr : Qr K} {Q : Rotation K n} (hQt : ∀ v, qr.applyQt v = Q.map v)
    (y rest : ℕ → K) {a : Mat K} (ha : a.cols = n) (rhs : ℕ → K) (i : ℕ) :
    a.mulVec (Q.map.symm (extend mc y rest)) i - rhs i =
      (reduce qr n mc y a rhs).1.mulVec rest i - (reduce qr n mc y a rhs).2 i := by
  have hrow : a.mulVec (Q.map.symm (extend mc y rest)) i = Orthogonal.dot n (Q.map (a.entry i)) (extend mc y rest) := by
    rw [← Q.dot_symm, Mat.mulVec, ha]
    rfl
  have hdot : a.mulVec (Q.map.symm (extend mc y rest)) i =
      Orthogonal.dot mc (qr.applyQt (a.entry i)) y + (reduce qr n mc y a rhs).1.mulVec rest i := by
    rw [hrow, hQt, Orthogonal.dot, ← Finset.sum_range_add_sum_Ico _ hmc, Finset.sum_Ico_eq_sum_range]
    refine congrArg₂ (· + ·) (Finset.sum_congr rfl fun j hj => ?_) (Finset.sum_congr rfl fun j _ => ?_)
    · rw [extend_of_lt y rest (Finset.mem_range.1 hj)]
    · rw [extend_add, ← hQt]
      rfl
  rw [hdot, reduce]
  ring

theorem reduce_cols (qr : Qr K) (n mc : ℕ) (y : ℕ → K) (a : Mat K) (rhs : ℕ → K) :
    (reduce qr n mc y a rhs).1.cols = n - mc :=
  rfl

theorem reduce_mulVecT {n mc : ℕ} {qr : Qr K} {Q : Rotation K n} (hQt : ∀ v, qr.applyQt v = Q.map v) (y : ℕ → K)
    (a : Mat K) (rhs r : ℕ → K) (j : ℕ) :
    (reduce qr n mc y a rhs).1.mulVecT r j = Q.map (a.mulVecT r) (mc + j) := by
  rw [a.mulVecT_eq_sum, Q.map_combination, Finset.sum_apply, Mat.mulVecT]
  refine Finset.sum_congr rfl fun i _ => ?_
  rw [Pi.smul_apply, smul_eq_mul, mul_comm, ← hQt]
  rfl

/-- **The equalities** fix the first coordinates. -/
theorem equalities_hold {Q : Rotation K c.cols} {qr : Qr K} (hQ : Qr.Factors c.transpose c.rows Q qr) (rest : ℕ → K)
    {i : ℕ} (hi : i < c.rows) :
    c.mulVec (Q.map.symm (extend c.rows (qr.solveRt fun k => d (qr.perm k)) rest)) i = d i := by
  obtain ⟨k, rfl⟩ := qr.perm.surjective i
  have hk : k < c.rows := (hQ.perm k).1 hi
  refine (hQ.mulVecT_perm _ hk).trans ?_
  rw [LinearEquiv.apply_symm_apply, ← hQ.solveRt_spec (fun k => d (qr.perm k)) hk]
  exact Finset.sum_congr rfl fun l hl => congrArg _ (extend_of_lt _ rest (Finset.mem_range.1 hl))

variable [IsStrictOrderedRing K]

/-- **Equality- and inequality-constrained least squares.** -/
theorem lsei_spec (hN : N.Exact) (he : e.cols = c.cols) (hg : g.cols = c.cols) {sol : Lsq K}
    (hsol : lsei N c d e f g h = .ok sol) :
    (Stationary c d e f g h sol.x sol.multipliers fun i => sol.multipliers (c.rows + i)) ∧
      sol.residualNorm * sol.residualNorm = Orthogonal.dot e.rows (e.mulVec sol.x - f) (e.mulVec sol.x - f) := by
  rw [lsei] at hsol
  dsimp only at hsol
  split at hsol
  · exact absurd hsol nofun
  rename_i hrank
  obtain ⟨Q, hQ⟩ := Qr.full_rank (a := c.transpose) hN hrank
  set qr := Qr.factor N c.transpose
  set y := qr.solveRt fun k => d (qr.perm k)
  cases hlsi : lsi N (reduce qr c.cols c.rows y e f).1 (reduce qr c.cols c.rows y e f).2
      (reduce qr c.cols c.rows y g h).1 (reduce qr c.cols c.rows y g h).2 with
  | error failure => rw [hlsi] at hsol; exact absurd hsol nofun
  | ok reduced =>
    rw [hlsi] at hsol
    obtain rfl := Except.ok.inj hsol
    obtain ⟨hmultipliers, hgradient, hnorm⟩ :=
      lsi_spec hN ((reduce_cols qr _ _ y g h).trans (reduce_cols qr _ _ y e f).symm) hlsi
    rw [hQ.applyQ]
    set x := Q.map.symm (extend c.rows y reduced.x)
    have hgap : ∀ (a : Mat K) (rhs : ℕ → K), a.cols = c.cols → ∀ i, a.mulVec x i - rhs i =
        (reduce qr c.cols c.rows y a rhs).1.mulVec reduced.x i - (reduce qr c.cols c.rows y a rhs).2 i :=
      fun a rhs ha i => reduce_gap hQ.rows_le hQ.applyQt y reduced.x ha rhs i
    -- what the equalities have to answer for
    set v : ℕ → K := e.mulVecT (e.mulVec x - f) - g.mulVecT reduced.multipliers with hv
    have hsame : e.mulVec x - f =
        (reduce qr c.cols c.rows y e f).1.mulVec reduced.x - (reduce qr c.cols c.rows y e f).2 :=
      funext (hgap e f he)
    have hzero : ∀ i, c.rows ≤ i → i < c.cols → Q.map v i = 0 := by
      intro i hi hin
      obtain ⟨j, rfl⟩ := Nat.exists_eq_add_of_le hi
      rw [hv, map_sub, Pi.sub_apply, ← reduce_mulVecT hQ.applyQt y e f, ← reduce_mulVecT hQ.applyQt y g h, hsame]
      exact sub_eq_zero.2 (hgradient j (Nat.lt_sub_of_add_lt (Nat.add_comm j c.rows ▸ hin)))
    have hresult : (fun j => ∑ i ∈ Finset.range e.rows,
        e.entry i j * (∑ j ∈ Finset.range c.cols, e.entry i j * x j - f i) -
          ∑ k ∈ Finset.range g.rows, g.entry k j * reduced.multipliers k) = v := by
      rw [hv, ← he]
      rfl
    rw [hresult]
    set mu := scatter qr.perm c.rows (qr.solveR (qr.applyQt v)) with hmu
    have hlambda : (fun i => extend c.rows mu reduced.multipliers (c.rows + i)) = reduced.multipliers :=
      funext fun i => extend_add c.rows mu reduced.multipliers i
    have hmultipliers' : Multipliers g h x reduced.multipliers := hmultipliers.transfer rfl fun i _ => hgap g h hg i
    refine ⟨⟨hlambda.symm ▸ hmultipliers', fun i hi => equalities_hold hQ reduced.x hi, fun j hj => ?_⟩, ?_⟩
    have hhead : c.mulVecT (extend c.rows mu reduced.multipliers) j = c.mulVecT mu j :=
      Finset.sum_congr rfl fun i hi => congrArg _ (extend_of_lt mu _ (Finset.mem_range.1 hi))
    · dsimp only
      rw [hhead, hlambda]
      exact sub_eq_iff_eq_add.1 (hQ.mulVec_solveR hzero j (hj.trans_eq he)).symm
    · dsimp only
      rw [hnorm, hsame]
      rfl

end

/-! ## Nothing left free -/

omit [IsStrictOrderedRing K] in
theorem ldp_of_nonpos (hN : N.infeasibility < 1) {g : Mat K} {h : ℕ → K} (hh : ∀ i < g.rows, h i ≤ 0) :
    ∃ sol, ldp N g h = .ok sol := by
  have hzero : (ldpDual g h).mulVec 0 = 0 := by
    funext j
    simp [Mat.mulVec]
  have hdual : ∀ i < (ldpDual g h).cols, (ldpDual g h).dual (ldpTarget g.cols) 0 i ≤ 0 := by
    intro i hi
    have hrow : g.mulVec (ldpTarget g.cols) i = 0 := Finset.sum_eq_zero fun j hj => by
      rw [ldpTarget, Function.update_of_ne (Finset.mem_range.1 hj).ne, Pi.zero_apply, mul_zero]
    rw [Mat.dual, Mat.residual_eq, hzero, sub_zero, ldpDual_mulVecT, hrow, ldpTarget, Function.update_self, mul_one,
      zero_add]
    exact hh i hi
  obtain ⟨u, hu, hx⟩ := nnls_of_dual_nonpos N hdual
  have hdenominator : -((ldpDual g h).mulVec u.x g.cols - ldpTarget g.cols g.cols) = 1 := by
    rw [hx, hzero, ldpTarget, Function.update_self, Pi.zero_apply, zero_sub, neg_neg]
  rw [ldp, hu]
  change ∃ sol, (if -((ldpDual g h).mulVec u.x g.cols - ldpTarget g.cols g.cols) ≤ N.infeasibility then _ else _) = _
  rw [hdenominator, if_neg (not_le.2 hN)]
  exact ⟨_, rfl⟩

omit [IsStrictOrderedRing K] in
theorem lsi_of_nonpos (hN : N.infeasibility < 1) {e g : Mat K} {f h : ℕ → K} (he : e.cols = 0)
    (hh : ∀ i < g.rows, h i ≤ 0) : ∃ sol, lsi N e f g h = .ok sol := by
  rw [lsi]
  dsimp only
  rw [if_neg (he ▸ Nat.not_lt_zero _)]
  have hbound : ∀ row : ℕ → ℕ → K, ∀ i < g.rows,
      h i - Orthogonal.dot e.cols (row i) ((Qr.factor N e).applyQt f) ≤ 0 := by
    intro row i hi
    rw [he, Orthogonal.dot, Finset.range_zero, Finset.sum_empty, sub_zero]
    exact hh i hi
  obtain ⟨reduced, hreduced⟩ := ldp_of_nonpos hN (g := ⟨g.rows, e.cols, fun i => _⟩) (hbound _)
  rw [hreduced]
  exact ⟨_, rfl⟩

theorem lsei_of_fixed (hN : N.Exact) (hone : N.infeasibility < 1) {c e g : Mat K} {d f h : ℕ → K}
    (hc : c.transpose.Independent fun _ => True) (hcols : c.cols = c.rows) (hg : g.cols = c.cols)
    (hinside : ∀ x, (∀ i < c.rows, c.mulVec x i = d i) → ∀ i < g.rows, h i ≤ g.mulVec x i) :
    ∃ sol, lsei N c d e f g h = .ok sol := by
  have hrank := Qr.rank_of_independent hN hc
  obtain ⟨Q, hQ⟩ := Qr.full_rank hN hrank.not_lt
  rw [lsei]
  dsimp only
  set qr := Qr.factor N c.transpose
  set y := qr.solveRt fun k => d (qr.perm k)
  rw [if_neg (show ¬ qr.rank < c.rows from hrank.not_lt)]
  have hshifted : ∀ i < g.rows, (reduce qr c.cols c.rows y g h).2 i ≤ 0 := by
    intro i hi
    have hgap : g.mulVec (Q.map.symm (extend c.rows y 0)) i - h i =
        (reduce qr c.cols c.rows y g h).1.mulVec 0 i - (reduce qr c.cols c.rows y g h).2 i :=
      reduce_gap hQ.rows_le hQ.applyQt y 0 hg h i
    have hle : 0 ≤ g.mulVec (Q.map.symm (extend c.rows y 0)) i - h i :=
      sub_nonneg.2 (hinside _ (fun i hi => equalities_hold hQ 0 hi) i hi)
    have htail : (reduce qr c.cols c.rows y g h).1.mulVec 0 i = 0 := by simp [Mat.mulVec]
    rw [hgap, htail, zero_sub] at hle
    exact neg_nonneg.1 hle
  have htail : (reduce qr c.cols c.rows y e f).1.cols = 0 :=
    (reduce_cols qr _ _ y e f).trans (Nat.sub_eq_zero_of_le hcols.le)
  obtain ⟨reduced, hreduced⟩ := lsi_of_nonpos hone (f := (reduce qr c.cols c.rows y e f).2) htail
    (g := (reduce qr c.cols c.rows y g h).1) hshifted
  rw [hreduced]
  exact ⟨_, rfl⟩

/-! ## In exact arithmetic -/

/-- The exact arithmetic of the reals. -/
noncomputable def reals : Numbers ℝ := ⟨Real.sqrt, 0, (1000 : ℕ) / (2 ^ 52 : ℕ)⟩

theorem reals_exact : reals.Exact where
  sqrt_nonneg   := fun x _ => Real.sqrt_nonneg x
  mul_self_sqrt := fun _ hx => Real.mul_self_sqrt hx
  epsilon       := rfl
  infeasibility := by norm_num [reals]

/-- **What the kernels return in exact arithmetic**: `lsei` a minimum with its multipliers, `nnls` a minimum over the
non-negative points; and the inner loop ends. -/
theorem lsei_minimises {c e g : Mat K} {d f h : ℕ → K} (hN : N.Exact) (he : e.cols = c.cols) (hg : g.cols = c.cols) :
    (∀ sol, lsei N c d e f g h = .ok sol →
      (Stationary c d e f g h sol.x sol.multipliers fun i => sol.multipliers (c.rows + i)) ∧
        ∀ y, Feasible c d g h y →
          Orthogonal.dot e.rows (e.mulVec sol.x - f) (e.mulVec sol.x - f) ≤
            Orthogonal.dot e.rows (e.mulVec y - f) (e.mulVec y - f)) ∧
      (∀ (a : Mat K) (b : ℕ → K) (sol : Nnls K), nnls N a b = .ok sol → a.Complementary b sol.x) ∧
        ∀ (a : Mat K) (b x : ℕ → K) (passive : ℕ → Bool) (z : ℕ → K),
          (inner N a b (a.cols + 1) x passive z).isSome := by
  refine ⟨fun sol hsol => ?_, fun a b sol hsol => nnls_spec hN hsol, fun a b x passive z => ?_⟩
  · have hx := (lsei_spec hN he hg hsol).1
    exact ⟨hx, fun y hy => hx.minimises he.symm (hg.trans he.symm) hy⟩
  · exact inner_isSome N a b _ x passive z (Nat.lt_succ_iff.2 (passiveSet_card_le _ _))

theorem lsei_minimises_three :
    ∃ sol, lsei reals ⟨1, 1, fun _ _ => 1⟩ (fun _ => 3) ⟨1, 1, fun _ _ => 1⟩ (fun _ => 1) ⟨1, 1, fun _ _ => 1⟩
        (fun _ => 2) = .ok sol ∧
      Stationary ⟨1, 1, fun _ _ => 1⟩ (fun _ => 3) ⟨1, 1, fun _ _ => 1⟩ (fun _ => 1) ⟨1, 1, fun _ _ => 1⟩ (fun _ => 2)
        sol.x sol.multipliers fun i => sol.multipliers (1 + i) := by
  have hindependent : (Mat.transpose (⟨1, 1, fun _ _ => 1⟩ : Mat ℝ)).Independent fun _ => True := by
    intro v _ hzero j hj
    obtain rfl : j = 0 := Nat.lt_one_iff.1 hj
    simpa [Mat.transpose, Mat.mulVec] using hzero 0 Nat.one_pos
  obtain ⟨sol, hsol⟩ := lsei_of_fixed (e := ⟨1, 1, fun _ _ => 1⟩) (d := fun _ => 3) (f := fun _ => 1)
    (g := ⟨1, 1, fun _ _ => 1⟩) (h := fun _ => 2) reals_exact (by norm_num [reals]) hindependent rfl rfl
      fun x hx i hi => by
        rw [show Mat.mulVec _ x i = 3 from hx i hi]
        norm_num
  exact ⟨sol, hsol, ((lsei_minimises reals_exact rfl rfl).1 sol hsol).1⟩

end Lsq
end Itofin
