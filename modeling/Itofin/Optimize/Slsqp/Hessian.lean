import Itofin.Lib.Cholesky
import Itofin.Lib.Loop
import Mathlib.LinearAlgebra.Matrix.RowCol
import Mathlib.Tactic.Linarith
import Mathlib.Tactic.NormNum
import Mathlib.Tactic.Positivity
/-!
# Hessian — the quasi-Newton matrix of SLSQP

`slsqp/hessian.rs`, in exact arithmetic.  The damped update lifts the curvature of a step to a fraction of what it was along
the step, so the matrix stays positive definite (`update_positiveDefinite`), and the factorisation of a positive definite
matrix does not fail (`cholesky_spec`).
-/
namespace Itofin
namespace Optimize
namespace Slsqp

open Matrix Bfgs

variable {K : Type} [Field K] [LinearOrder K] {n : ℕ}

abbrev Hessian (K : Type) (n : ℕ) : Type := Matrix (Fin n) (Fin n) K

namespace Hessian

/-- The curvature fraction below which the update is damped. -/
def damping : K := 1 / (5 : ℕ)

def identity (K : Type) [Field K] (n : ℕ) : Hessian K n := 1

def setEntry (l : Hessian K n) (i j : Fin n) (v : K) : Hessian K n := Matrix.updateRow l i (Function.update (l i) j v)

/-- The entry of the factor in a row and a column. -/
def choleskyEntry (sqrt : K → K) (b : Hessian K n) (i : Fin n) (l : Hessian K n) (j : Fin n) : Option (Hessian K n) :=
  let dot := ∑ k with k < j, l i k * l j k
  let entry := b i j - dot
  if i = j then
    if 0 < entry then some (setEntry l i i (sqrt entry)) else none
  else some (setEntry l i j (entry / l j j))

/-- The lower-triangular factor, or `none` when the matrix is not positive definite. -/
def cholesky (sqrt : K → K) (b : Hessian K n) : Option (Hessian K n) :=
  (List.finRange n).foldlM (fun l (i : Fin n) =>
    (List.finRange (i + 1)).foldlM (fun l j => choleskyEntry sqrt b i l (j.castLE i.isLt)) l) 0

/-- `r`: the change `y`, moved towards the product with the step where it has too little curvature. -/
def damped (b : Hessian K n) (s y : Fin n → K) : Fin n → K :=
  let bs := b *ᵥ s
  let sbs := s ⬝ᵥ bs
  let sy := s ⬝ᵥ y
  let theta := if damping * sbs ≤ sy then 1 else (1 - damping) * sbs / (sbs - sy)
  fun i => theta * y i + (1 - theta) * bs i

/-- The damped update for the step `s` and the change `y` in the gradient. -/
def update (b : Hessian K n) (s y : Fin n → K) : Hessian K n :=
  let bs := b *ᵥ s
  let sbs := s ⬝ᵥ bs
  if sbs ≤ 0 then b
  else
    let r := damped b s y
    let sr := s ⬝ᵥ r
    fun i j => b i j + (r i * r j / sr - bs i * bs j / sbs)

/-! ## The factorisation -/

section

variable {b l : Hessian K n} {i j : Fin n} {v : K}

omit [LinearOrder K] in
theorem setEntry_row (h : l i j = 0) : setEntry l i j v i = l i + Pi.single j v := by
  rw [setEntry, updateRow_self]
  funext k
  by_cases hk : k = j
  · rw [hk, Function.update_self, Pi.add_apply, h, Pi.single_eq_same, zero_add]
  · rw [Function.update_of_ne hk, Pi.add_apply, Pi.single_eq_of_ne hk, add_zero]

omit [Field K] [LinearOrder K] in
theorem setEntry_of_ne {a : Fin n} (h : a ≠ i) : setEntry l i j v a = l a := by
  rw [setEntry, updateRow_ne h]

/-- **The factor so far**: the rows before `i`, and the columns before `j` in row `i`. -/
structure Factored (b : Hessian K n) (i j : ℕ) (l : Hessian K n) : Prop where
  low     : ∀ a c, a < c → l a c = 0
  rest    : ∀ a c : Fin n, i ≤ a → (a = i → j ≤ c) → l a c = 0
  diag    : ∀ a : Fin n, a < i → l a a ≠ 0
  product : ∀ a c : Fin n, c ≤ a → a < i ∨ a = i ∧ c < j → l a ⬝ᵥ l c = b a c

omit [LinearOrder K] in
theorem factored_zero : Factored b 0 0 0 where
  low _ _ _        := rfl
  rest _ _ _ _     := rfl
  diag a ha        := absurd ha (Nat.not_lt_zero _)
  product a c _ hc := by omega

omit [LinearOrder K] in
/-- The sum that an entry takes away is the whole product of its rows. -/
theorem Factored.dot (h : Factored b i j l) : ∑ k with k < j, l i k * l j k = l i ⬝ᵥ l j := by
  refine Finset.sum_subset (Finset.filter_subset _ _) fun k _ hk => ?_
  rw [h.rest i k le_rfl (fun _ => ?_), zero_mul]
  exact not_lt.1 fun hlt => hk (Finset.mem_filter.2 ⟨Finset.mem_univ k, hlt⟩)

omit [LinearOrder K] in
/-- **An entry off the diagonal.** -/
theorem Factored.offDiagonal (h : Factored b i j l) (hij : j < i) :
    Factored b i (j + 1) (setEntry l i j ((b i j - l i ⬝ᵥ l j) / l j j)) := by
  have hzero : l i j = 0 := h.rest i j le_rfl fun _ => le_rfl
  have hrow : setEntry l i j ((b i j - l i ⬝ᵥ l j) / l j j) i = l i + Pi.single j ((b i j - l i ⬝ᵥ l j) / l j j) :=
    setEntry_row hzero
  have hother : ∀ a, a ≠ i → setEntry l i j ((b i j - l i ⬝ᵥ l j) / l j j) a = l a := fun a ha => setEntry_of_ne ha
  have hdiag : l j j ≠ 0 := h.diag j hij
  refine ⟨fun a c hac => ?_, fun a c ha hc => ?_, fun a ha => ?_, fun a c hca hc => ?_⟩
  · by_cases hai : a = i
    · subst hai
      rw [hrow, Pi.add_apply, h.low _ c hac, Pi.single_eq_of_ne (hij.trans hac).ne', add_zero]
    · rw [hother a hai]
      exact h.low a c hac
  · by_cases hai : a = i
    · subst hai
      have hjc : j.val + 1 ≤ c := hc rfl
      have hne : c ≠ j := by
        rintro rfl
        exact Nat.not_succ_le_self _ hjc
      rw [hrow, Pi.add_apply, h.rest _ c ha fun _ => Nat.le_of_succ_le hjc, Pi.single_eq_of_ne hne, add_zero]
    · rw [hother a hai]
      exact h.rest a c ha fun hai' => absurd (Fin.ext hai') hai
  · have hai : a ≠ i := by
      rintro rfl
      exact absurd ha (Nat.lt_irrefl _)
    rw [hother a hai]
    exact h.diag a ha
  · rcases hc with ha | ⟨hai, hc⟩
    · have hai : a ≠ i := by
        rintro rfl
        exact absurd ha (Nat.lt_irrefl _)
      have hci : c ≠ i := by
        rintro rfl
        exact absurd (lt_of_le_of_lt (Fin.le_def.1 hca) ha) (Nat.lt_irrefl _)
      rw [hother a hai, hother c hci]
      exact h.product a c hca (.inl ha)
    · obtain rfl : a = i := Fin.ext hai
      have hci : c ≠ a := fun heq => by
        rw [heq] at hc
        exact absurd hc (Nat.not_lt.2 (Fin.lt_def.1 hij))
      rw [hrow, hother c hci, add_dotProduct, single_dotProduct]
      rcases Nat.lt_succ_iff_lt_or_eq.1 hc with hlt | heq
      · rw [h.low c j hlt, mul_zero, add_zero]
        exact h.product a c hca (.inr ⟨rfl, hlt⟩)
      · obtain rfl : c = j := Fin.ext heq
        rw [div_mul_cancel₀ _ hdiag, add_sub_cancel]

omit [LinearOrder K] in
/-- **An entry on the diagonal.** -/
theorem Factored.onDiagonal (h : Factored b i i l) (hne : v ≠ 0) (hv : v * v = b i i - l i ⬝ᵥ l i) :
    Factored b (i + 1) 0 (setEntry l i i v) := by
  have hzero : l i i = 0 := h.rest i i le_rfl fun _ => le_rfl
  have hrow : setEntry l i i v i = l i + Pi.single i v := setEntry_row hzero
  have hother : ∀ a, a ≠ i → setEntry l i i v a = l a := fun a ha => setEntry_of_ne ha
  refine ⟨fun a c hac => ?_, fun a c ha _ => ?_, fun a ha => ?_, fun a c hca hc => ?_⟩
  · by_cases hai : a = i
    · subst hai
      rw [hrow, Pi.add_apply, h.low _ c hac, Pi.single_eq_of_ne hac.ne', add_zero]
    · rw [hother a hai]
      exact h.low a c hac
  · have hai : a ≠ i := by
      rintro rfl
      exact Nat.not_succ_le_self _ ha
    rw [hother a hai]
    exact h.rest a c (Nat.le_of_succ_le ha) fun hai' => absurd (Fin.ext hai') hai
  · by_cases hai : a = i
    · subst hai
      rw [hrow, Pi.add_apply, hzero, Pi.single_eq_same, zero_add]
      exact hne
    · rw [hother a hai]
      exact h.diag a ((Nat.lt_succ_iff_lt_or_eq.1 ha).resolve_right fun heq => hai (Fin.ext heq))
  · have hai : a.val ≤ i := by omega
    by_cases heq : a = i
    · subst heq
      by_cases hca' : c = a
      · subst hca'
        rw [hrow, add_dotProduct, dotProduct_add, single_dotProduct, dotProduct_single, Pi.add_apply, hzero,
          Pi.single_eq_same, zero_mul, zero_add, add_zero, hv, add_sub_cancel]
      · have hlt : c < a := lt_of_le_of_ne hca hca'
        rw [hrow, hother c hca', add_dotProduct, single_dotProduct, h.low c a hlt, mul_zero, add_zero]
        exact h.product a c hca (.inr ⟨rfl, hlt⟩)
    · have hlt : a < i := lt_of_le_of_ne (Fin.le_def.2 hai) heq
      have hci : c ≠ i := (lt_of_le_of_lt hca hlt).ne
      rw [hother a heq, hother c hci]
      exact h.product a c hca (.inl hlt)

variable [IsStrictOrderedRing K] {sqrt : K → K}

theorem choleskyEntry_spec (hsqrt : ∀ x, 0 ≤ x → sqrt x * sqrt x = x) (hb : PositiveDefinite b) (hji : j ≤ i)
    (h : Factored b i j l) : ∃ l', choleskyEntry sqrt b i l j = some l' ∧
      if j = i then Factored b (i + 1) 0 l' else Factored b i (j + 1) l' := by
  by_cases hij : j = i
  · subst hij
    have hpivot : 0 < b j j - l j ⬝ᵥ l j := by
      refine Cholesky.pivot_pos hb j h.low (fun a ha => h.diag a ha) (fun k hk => h.rest j k le_rfl fun _ => hk) ?_
      intro a ha c hca hcj
      rcases ha.lt_or_eq with hlt | rfl
      · exact h.product a c hca (.inl hlt)
      · exact h.product a c hca (.inr ⟨rfl, hcj⟩)
    have hroot := hsqrt _ hpivot.le
    refine ⟨setEntry l j j (sqrt (b j j - l j ⬝ᵥ l j)), ?_, ?_⟩
    · rw [choleskyEntry, h.dot, if_pos rfl, if_pos hpivot]
    · rw [if_pos rfl]
      refine h.onDiagonal (fun hzero => ?_) hroot
      rw [hzero, mul_zero] at hroot
      exact hpivot.ne hroot
  · refine ⟨setEntry l i j ((b i j - l i ⬝ᵥ l j) / l j j), ?_, ?_⟩
    · rw [choleskyEntry, h.dot, if_neg (Ne.symm hij)]
    · rw [if_neg hij]
      exact h.offDiagonal (lt_of_le_of_ne hji hij)

/-- **The factorisation of a positive definite matrix** does not fail, and its factor is lower triangular and gives the
matrix. -/
theorem cholesky_spec (hsqrt : ∀ x, 0 ≤ x → sqrt x * sqrt x = x) (hb : PositiveDefinite b) :
    ∃ l, cholesky sqrt b = some l ∧ (∀ a c, a < c → l a c = 0) ∧ l * lᵀ = b := by
  obtain ⟨l, hl, h⟩ := Loop.foldlM_finRange n (fun k l => Factored b k 0 l) factored_zero (fun i l hl => by
    obtain ⟨l', hl', h⟩ := Loop.foldlM_finRange (i + 1)
      (fun k l => if k = i.val + 1 then Factored b (i + 1) 0 l else Factored b i k l)
      (f := fun l j => choleskyEntry sqrt b i l (j.castLE i.isLt)) (s := l) (by rwa [if_neg (by omega)]) (fun j l hl => by
        have hji : j.castLE i.isLt ≤ i := Fin.le_def.2 (Nat.le_of_lt_succ j.isLt)
        rw [if_neg (Nat.ne_of_lt j.isLt)] at hl
        obtain ⟨l', hl', h⟩ := choleskyEntry_spec (j := j.castLE i.isLt) hsqrt hb hji hl
        refine ⟨l', hl', ?_⟩
        by_cases heq : j.castLE i.isLt = i
        · have hval : j.val = i := congrArg Fin.val heq
          rw [if_pos heq] at h
          rwa [if_pos (congrArg Nat.succ hval)]
        · have hval : ¬ j.val + 1 = i + 1 := fun hval => heq (Fin.ext (Nat.succ_inj.1 hval))
          rw [if_neg heq] at h
          rwa [if_neg hval])
    rw [if_pos rfl] at h
    exact ⟨l', hl', h⟩)
  refine ⟨l, hl, h.low, ?_⟩
  ext a c
  have hmul : (l * lᵀ) a c = l a ⬝ᵥ l c := rfl
  rw [hmul]
  rcases le_total c a with hle | hle
  · exact h.product a c hle (.inl a.isLt)
  · rw [dotProduct_comm, h.product c a hle (.inl c.isLt), hb.symm.apply]

end

/-! ## The update -/

section

variable [IsStrictOrderedRing K] {b : Hessian K n} {s y : Fin n → K}

omit [IsStrictOrderedRing K] in
theorem update_eq (b : Hessian K n) (s y : Fin n → K) :
    update b s y = if s ⬝ᵥ b *ᵥ s ≤ 0 then b else Bfgs.update b s (damped b s y) := rfl

/-- **Damping lifts the curvature** to a fraction of what it was along the step. -/
theorem damped_curvature (hpos : 0 < s ⬝ᵥ b *ᵥ s) : damping * (s ⬝ᵥ b *ᵥ s) ≤ s ⬝ᵥ damped b s y := by
  have hlift : ∀ theta : K, s ⬝ᵥ (fun i => theta * y i + (1 - theta) * (b *ᵥ s) i) =
      theta * (s ⬝ᵥ y) + (1 - theta) * (s ⬝ᵥ b *ᵥ s) := by
    intro theta
    have hvector : (fun i => theta * y i + (1 - theta) * (b *ᵥ s) i) = theta • y + (1 - theta) • (b *ᵥ s) := rfl
    rw [hvector, dotProduct_add, dotProduct_smul, dotProduct_smul, smul_eq_mul, smul_eq_mul]
  rw [damped, hlift]
  by_cases hsy : damping * (s ⬝ᵥ b *ᵥ s) ≤ s ⬝ᵥ y
  · rw [if_pos hsy, one_mul, sub_self, zero_mul, add_zero]
    exact hsy
  · have hgap : 0 < s ⬝ᵥ b *ᵥ s - s ⬝ᵥ y := by
      have hless : damping * (s ⬝ᵥ b *ᵥ s) < s ⬝ᵥ b *ᵥ s := by
        apply mul_lt_of_lt_one_left hpos
        rw [damping]
        norm_num
      linarith [not_le.1 hsy]
    have htheta := div_mul_cancel₀ ((1 - damping) * (s ⬝ᵥ b *ᵥ s)) hgap.ne'
    rw [if_neg hsy]
    linarith

/-- **An update keeps the matrix positive definite**, whatever the sign of the curvature. -/
theorem update_positiveDefinite (hb : PositiveDefinite b) (s y : Fin n → K) : PositiveDefinite (update b s y) := by
  rw [update_eq]
  by_cases hsbs : s ⬝ᵥ b *ᵥ s ≤ 0
  · rw [if_pos hsbs]
    exact hb
  · rw [if_neg hsbs]
    have hpos : 0 < s ⬝ᵥ b *ᵥ s := not_le.1 hsbs
    refine hb.update (lt_of_lt_of_le (mul_pos ?_ hpos) (damped_curvature hpos))
    rw [damping]
    positivity

/-- The matrix after some updates. -/
def updates (b : Hessian K n) (pairs : List ((Fin n → K) × (Fin n → K))) : Hessian K n :=
  pairs.foldl (fun b p => update b p.1 p.2) b

theorem updates_positiveDefinite (hb : PositiveDefinite b) : ∀ pairs : List ((Fin n → K) × (Fin n → K)),
    PositiveDefinite (updates b pairs) := by
  intro pairs
  induction pairs generalizing b with
  | nil            => exact hb
  | cons p pairs ih => exact ih (update_positiveDefinite hb p.1 p.2)

theorem identity_positiveDefinite : PositiveDefinite (identity K n) := by
  have h : PositiveDefinite ((1 : K) • (1 : Matrix (Fin n) (Fin n) K)) := positiveDefinite_smul_one zero_lt_one
  rwa [one_smul] at h

end
end Hessian
end Slsqp
end Optimize
end Itofin
