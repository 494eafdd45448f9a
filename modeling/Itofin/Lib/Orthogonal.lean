import Mathlib.Algebra.BigOperators.Module
import Mathlib.Algebra.BigOperators.Ring.Finset
import Mathlib.Algebra.Field.Basic
import Mathlib.Algebra.Module.Equiv.Defs
import Mathlib.Algebra.Module.Pi
import Mathlib.Algebra.Order.BigOperators.Ring.Finset
import Mathlib.LinearAlgebra.DFinsupp
import Mathlib.Tactic.FieldSimp
import Mathlib.Tactic.LinearCombination
import Mathlib.Tactic.Ring
/-!
# Orthogonal — inner products of vectors of one length, and the maps that keep them

A vector of length `m` is a function of the index, of which the entries below `m` count.  A reflection along `u` with
`⟨u, u⟩ = -2 b` is its own inverse and keeps the inner products (`reflection`); such maps compose.
-/
namespace Orthogonal

variable {K : Type} [Field K] {m n : ℕ}

def dot (m : ℕ) (v w : ℕ → K) : K := ∑ i ∈ Finset.range m, v i * w i

theorem dot_comm (v w : ℕ → K) : dot m v w = dot m w v := Finset.sum_congr rfl fun _ _ => mul_comm _ _

theorem dot_add (u v w : ℕ → K) : dot m u (v + w) = dot m u v + dot m u w := by
  simp only [dot, Pi.add_apply, mul_add, Finset.sum_add_distrib]

theorem dot_smul (c : K) (u v : ℕ → K) : dot m u (c • v) = c * dot m u v := by
  simp only [dot, Pi.smul_apply, smul_eq_mul, Finset.mul_sum]
  exact Finset.sum_congr rfl fun _ _ => by ring

theorem dot_sub (u v w : ℕ → K) : dot m u (v - w) = dot m u v - dot m u w := by
  simp only [dot, Pi.sub_apply, mul_sub, Finset.sum_sub_distrib]

theorem add_dot (u v w : ℕ → K) : dot m (u + v) w = dot m u w + dot m v w := by
  rw [dot_comm, dot_add, dot_comm w, dot_comm w]

theorem smul_dot (c : K) (u v : ℕ → K) : dot m (c • u) v = c * dot m u v := by
  rw [dot_comm, dot_smul, dot_comm v]

theorem dot_congr {v v' w w' : ℕ → K} (hv : ∀ i < m, v i = v' i) (hw : ∀ i < m, w i = w' i) :
    dot m v w = dot m v' w' :=
  Finset.sum_congr rfl fun i hi => by rw [hv i (Finset.mem_range.1 hi), hw i (Finset.mem_range.1 hi)]

theorem dot_eq_zero {v w : ℕ → K} (h : ∀ i < m, v i = 0 ∨ w i = 0) : dot m v w = 0 :=
  Finset.sum_eq_zero fun i hi => mul_eq_zero.2 (h i (Finset.mem_range.1 hi))

section

variable [LinearOrder K] [IsStrictOrderedRing K]

theorem dot_self_nonneg (v : ℕ → K) : 0 ≤ dot m v v := Finset.sum_nonneg fun i _ => mul_self_nonneg (v i)

theorem dot_self_eq_zero {v : ℕ → K} : dot m v v = 0 ↔ ∀ i < m, v i = 0 := by
  rw [dot, Finset.sum_eq_zero_iff_of_nonneg fun i _ => mul_self_nonneg (v i)]
  exact ⟨fun h i hi => mul_self_eq_zero.1 (h i (Finset.mem_range.2 hi)),
    fun h i hi => mul_self_eq_zero.2 (h i (Finset.mem_range.1 hi))⟩

end

/-! ## Maps that keep the inner products -/

/-- A linear equivalence of the vectors that keeps the inner products of length `m`. -/
structure Rotation (K : Type) [Field K] (m : ℕ) where
  map     : (ℕ → K) ≃ₗ[K] (ℕ → K)
  dot_map : ∀ v w, dot m (map v) (map w) = dot m v w

namespace Rotation

def one (K : Type) [Field K] (m : ℕ) : Rotation K m := ⟨LinearEquiv.refl K _, fun _ _ => rfl⟩

/-- First `P`, then `Q`. -/
def andThen (P Q : Rotation K m) : Rotation K m := ⟨P.map.trans Q.map, fun v w => by
  rw [LinearEquiv.trans_apply, LinearEquiv.trans_apply, Q.dot_map, P.dot_map]⟩

theorem dot_symm (Q : Rotation K m) (v w : ℕ → K) : dot m v (Q.map.symm w) = dot m (Q.map v) w := by
  rw [← Q.dot_map v, LinearEquiv.apply_symm_apply]

theorem map_combination (Q : Rotation K m) (c : ℕ → K) (columns : ℕ → ℕ → K) :
    Q.map (∑ j ∈ Finset.range n, c j • columns j) = ∑ j ∈ Finset.range n, c j • Q.map (columns j) := by
  rw [map_sum]
  exact Finset.sum_congr rfl fun j _ => map_smul Q.map _ _

end Rotation

/-! ## Reflections -/

/-- The vector, moved along `u`. -/
def reflect (m : ℕ) (u : ℕ → K) (b : K) (v : ℕ → K) : ℕ → K := v + (dot m u v / b) • u

theorem reflect_congr {u v v' : ℕ → K} {b : K} (h : ∀ i < m, v i = v' i) {i : ℕ} (hi : i < m) :
    reflect m u b v i = reflect m u b v' i := by
  rw [reflect, reflect, dot_congr (fun _ _ => rfl) h, Pi.add_apply, Pi.add_apply, h i hi]

section

variable {u : ℕ → K} {b : K}

theorem dot_reflect_self (hb : b ≠ 0) (hu : dot m u u = -(b + b)) (v : ℕ → K) :
    dot m u (reflect m u b v) = -dot m u v := by
  rw [reflect, dot_add, dot_smul, hu]
  field_simp
  ring

theorem reflect_reflect (hb : b ≠ 0) (hu : dot m u u = -(b + b)) (v : ℕ → K) :
    reflect m u b (reflect m u b v) = v := by
  have hback : dot m u (reflect m u b v) / b = -(dot m u v / b) := by rw [dot_reflect_self hb hu, neg_div]
  rw [reflect, hback, reflect, neg_smul, add_neg_cancel_right]

theorem dot_reflect (hb : b ≠ 0) (hu : dot m u u = -(b + b)) (v w : ℕ → K) :
    dot m (reflect m u b v) (reflect m u b w) = dot m v w := by
  have hv : dot m (reflect m u b v) w = dot m v w + dot m u v / b * dot m u w := by
    rw [reflect, add_dot, smul_dot]
  have hu' : dot m (reflect m u b v) u = -dot m u v := by rw [dot_comm, dot_reflect_self hb hu]
  rw [show reflect m u b w = w + (dot m u w / b) • u from rfl, dot_add, dot_smul, hv, hu']
  ring

/-- **The reflection along a vector.** -/
def reflection (m : ℕ) (u : ℕ → K) (b : K) (hb : b ≠ 0) (hu : dot m u u = -(b + b)) : Rotation K m where
  map :=
    { toFun     := reflect m u b
      map_add'  := fun v w => by
        simp only [reflect, dot_add, add_div, add_smul]
        abel
      map_smul' := fun c v => by
        simp only [reflect, dot_smul, RingHom.id_apply, smul_add, smul_smul, mul_div_assoc]
      invFun    := reflect m u b
      left_inv  := reflect_reflect hb hu
      right_inv := reflect_reflect hb hu }
  dot_map := dot_reflect hb hu

/-- A vector orthogonal to `u` stays as it is. -/
theorem reflect_of_dot_eq_zero {v : ℕ → K} (h : dot m u v = 0) : reflect m u b v = v := by
  rw [reflect, h, zero_div, zero_smul, add_zero]

end

/-! ## The reflection that clears a vector below an entry -/

section

variable {k : ℕ} {c : ℕ → K} {s : K}

/-- The difference of the entries from `k` on and the vector `s` at `k`. -/
def householder (m k : ℕ) (c : ℕ → K) (s : K) : ℕ → K := fun i =>
  if k ≤ i ∧ i < m then c i - if i = k then s else 0 else 0

theorem dot_householder (hk : k < m) (v : ℕ → K) :
    dot m (householder m k c s) v = ∑ i ∈ Finset.Ico k m, c i * v i - s * v k := by
  have hentry : ∀ i ∈ Finset.Ico k m, householder m k c s i * v i = c i * v i - if i = k then s * v k else 0 := by
    intro i hi
    rw [householder, if_pos (Finset.mem_Ico.1 hi), sub_mul]
    split
    · rename_i h
      rw [h]
    · rw [zero_mul]
  have hhead : ∑ i ∈ Finset.range k, householder m k c s i * v i = 0 := Finset.sum_eq_zero fun i hi => by
    rw [householder, if_neg (fun h => absurd (Finset.mem_range.1 hi) (not_lt.2 h.1)), zero_mul]
  rw [dot, ← Finset.sum_range_add_sum_Ico _ hk.le, hhead, zero_add, Finset.sum_congr rfl hentry,
    Finset.sum_sub_distrib, Finset.sum_ite_eq' (Finset.Ico k m) k, if_pos (Finset.mem_Ico.2 ⟨le_rfl, hk⟩)]

theorem dot_householder_self (hk : k < m) (hs : s * s = ∑ i ∈ Finset.Ico k m, c i * c i) :
    dot m (householder m k c s) (householder m k c s) = -(s * (c k - s) + s * (c k - s)) := by
  have hsum : ∑ i ∈ Finset.Ico k m, c i * householder m k c s i = s * s - c k * s := by
    have hentry : ∀ i ∈ Finset.Ico k m, c i * householder m k c s i = c i * c i - if i = k then c k * s else 0 := by
      intro i hi
      rw [householder, if_pos (Finset.mem_Ico.1 hi), mul_sub]
      split
      · rename_i h
        rw [h]
      · rw [mul_zero]
    rw [Finset.sum_congr rfl hentry, Finset.sum_sub_distrib, Finset.sum_ite_eq' (Finset.Ico k m) k,
      if_pos (Finset.mem_Ico.2 ⟨le_rfl, hk⟩), hs]
  rw [dot_householder hk, hsum, householder, if_pos ⟨le_rfl, hk⟩, if_pos rfl]
  ring

/-- **The vector is cleared below the entry**, which becomes `s`. -/
theorem reflect_householder (hk : k < m) (hs : s * s = ∑ i ∈ Finset.Ico k m, c i * c i) (hb : s * (c k - s) ≠ 0)
    {i : ℕ} (hi : i < m) :
    reflect m (householder m k c s) (s * (c k - s)) c i = if i < k then c i else if i = k then s else 0 := by
  have hdot : dot m (householder m k c s) c / (s * (c k - s)) = -1 := by
    rw [dot_householder hk, ← hs, div_eq_iff hb]
    ring
  rw [reflect, hdot, Pi.add_apply, Pi.smul_apply, smul_eq_mul, neg_one_mul, householder]
  by_cases hik : k ≤ i
  · rw [if_pos ⟨hik, hi⟩, if_neg (not_lt.2 hik)]
    split
    · rename_i h
      rw [h]; ring
    · ring
  · rw [if_neg fun h => hik h.1, if_pos (not_le.1 hik), neg_zero, add_zero]

/-- A vector that is clear already from `k` on stays as it is. -/
theorem reflect_householder_of_clear (hk : k < m) {b : K} {v : ℕ → K} (hv : ∀ i, k ≤ i → i < m → v i = 0) :
    reflect m (householder m k c s) b v = v := by
  apply reflect_of_dot_eq_zero
  rw [dot_householder hk, hv k le_rfl hk, mul_zero, sub_zero]
  exact Finset.sum_eq_zero fun i hi => by rw [hv i (Finset.mem_Ico.1 hi).1 (Finset.mem_Ico.1 hi).2, mul_zero]

end

end Orthogonal
