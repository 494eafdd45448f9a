import Mathlib.Algebra.Order.Field.Basic
import Mathlib.LinearAlgebra.Matrix.NonsingularInverse
import Mathlib.LinearAlgebra.Matrix.ToLin
import Mathlib.Tactic.FieldSimp
import Mathlib.Tactic.LinearCombination
import Mathlib.Tactic.Ring
/-!
# Wiener — paths whose covariance is the earlier of two times

The values of a path are vectors of coefficients of independent variates, and their inner product is their covariance.  A
point put between two neighbours of a path, on the line between them and off it by an independent variate, keeps the
covariance (`Path.bridge`).  The increments of such a path are orthogonal (`Path.increments`), and rows that are orthonormal
make an orthogonal matrix (`orthogonal_of_rows`).
-/
namespace Wiener

variable {K E ι : Type} [Field K] [LinearOrder K] [AddCommGroup E] [Module K E]
variable {B : LinearMap.BilinForm K E} {t : ι → K} {S : Set ι} {w : ι → E} {a b l : ι} {z : E}

/-- On the points of `S` the path `w` has the covariance `min`. -/
def Path (B : LinearMap.BilinForm K E) (t : ι → K) (S : Set ι) (w : ι → E) : Prop :=
  ∀ p ∈ S, ∀ q ∈ S, B (w p) (w q) = min (t p) (t q)

theorem Path.congr {w' : ι → E} (h : Path B t S w) (hw : ∀ p ∈ S, w' p = w p) : Path B t S w' := by
  intro p hp q hq
  rw [hw p hp, hw q hq]
  exact h p hp q hq

/-- A point is added: its covariance with the others and with itself is to be known. -/
theorem Path.insert [DecidableEq ι] (hB : ∀ v w, B v w = B w v) (h : Path B t S w) (hl : l ∉ S) {x : E}
    (hx : ∀ q ∈ S, B x (w q) = min (t l) (t q)) (hxx : B x x = t l) :
    Path B t (Insert.insert l S) (Function.update w l x) := by
  have hother : ∀ q ∈ S, Function.update w l x q = w q := fun q hq =>
    Function.update_of_ne (fun he : q = l => hl (he ▸ hq)) x w
  have hself : Function.update w l x l = x := Function.update_self l x w
  rintro p (rfl | hp) q (rfl | hq)
  · rw [hself, hxx, min_self]
  · rw [hself, hother q hq, hx q hq]
  · rw [hself, hother p hp, hB, hx p hp, min_comm]
  · rw [hother p hp, hother q hq, h p hp q hq]

variable [IsStrictOrderedRing K]

/-- **A point between two neighbours**, at its share of the line between them and off it by a variate of its own. -/
theorem Path.bridge [DecidableEq ι] (hB : ∀ v w, B v w = B w v) (h : Path B t S w) (ha : a ∈ S) (hb : b ∈ S)
    (hl : l ∉ S) (hal : t a < t l) (hlb : t l < t b) (hgap : ∀ q ∈ S, t q ≤ t a ∨ t b ≤ t q)
    (hz : ∀ q ∈ S, B (w q) z = 0) (hzz : B z z = 1) {sd : K}
    (hsd : sd * sd = (t l - t a) * (t b - t l) / (t b - t a)) :
    Path B t (Insert.insert l S) (Function.update w l
      (((t b - t l) / (t b - t a)) • w a + ((t l - t a) / (t b - t a)) • w b + sd • z)) := by
  have hab : t b - t a ≠ 0 := (sub_pos.2 (hal.trans hlb)).ne'
  have hza : B z (w a) = 0 := by rw [hB, hz a ha]
  have hzb : B z (w b) = 0 := by rw [hB, hz b hb]
  refine h.insert hB hl (fun q hq => ?_) ?_
  · have hzq : B z (w q) = 0 := by rw [hB, hz q hq]
    simp only [map_add, map_smul, LinearMap.add_apply, LinearMap.smul_apply, smul_eq_mul, hzq, h a ha q hq, h b hb q hq]
    rcases hgap q hq with hqa | hbq
    · rw [min_eq_right hqa, min_eq_right (hqa.trans (hal.trans hlb).le), min_eq_right (hqa.trans hal.le)]
      field_simp
      ring
    · rw [min_eq_left ((hal.trans hlb).le.trans hbq), min_eq_left hbq, min_eq_left (hlb.le.trans hbq)]
      field_simp
      ring
  · simp only [map_add, map_smul, LinearMap.add_apply, LinearMap.smul_apply, smul_eq_mul, hza, hzb, hz a ha, hz b hb, hzz,
      h a ha a ha, h b hb b hb, h a ha b hb, h b hb a ha, min_self, min_eq_left (hal.trans hlb).le,
      min_eq_right (hal.trans hlb).le, mul_zero, mul_one, add_zero, zero_add, hsd]
    field_simp
    ring

/-! ## The increments of a path -/

section Increments

variable {τ : ℕ → K} {n : ℕ} {w : ℕ → E}

omit [IsStrictOrderedRing K] in
theorem Path.increments (h : Path B τ (Set.Iic n) w) (hτ : MonotoneOn τ (Set.Iic n)) {p q : ℕ} (hp : p < n) (hq : q < n) :
    B (w (p + 1) - w p) (w (q + 1) - w q) = if p = q then τ (p + 1) - τ p else 0 := by
  have hle : ∀ i j, i ≤ j → j ≤ n → τ i ≤ τ j := fun i j hij hj => hτ (hij.trans hj) hj hij
  have hw : ∀ i j, i ≤ n → j ≤ n → B (w i) (w j) = min (τ i) (τ j) := fun i j hi hj => h i hi j hj
  simp only [map_sub, LinearMap.sub_apply]
  rw [hw _ _ hp hq, hw _ _ hp hq.le, hw _ _ hp.le hq, hw _ _ hp.le hq.le]
  rcases lt_trichotomy p q with hlt | rfl | hgt
  · rw [if_neg hlt.ne, min_eq_left (hle (p + 1) (q + 1) (by omega) hq), min_eq_left (hle (p + 1) q hlt hq.le),
      min_eq_left (hle p (q + 1) (by omega) hq), min_eq_left (hle p q hlt.le hq.le)]
    ring
  · rw [if_pos rfl, min_self, min_self, min_eq_right (hle p (p + 1) (by omega) hp), min_eq_left (hle p (p + 1) (by omega) hp)]
    ring
  · rw [if_neg hgt.ne', min_eq_right (hle (q + 1) (p + 1) (by omega) hp), min_eq_right (hle q (p + 1) (by omega) hp),
      min_eq_right (hle (q + 1) p hgt hp.le), min_eq_right (hle q p hgt.le hp.le)]
    ring

/-- The increments over the roots of their variances are orthonormal. -/
theorem Path.normalized (h : Path B τ (Set.Iic n) w) (hτ : StrictMonoOn τ (Set.Iic n)) {s : ℕ → K}
    (hs : ∀ p < n, s p * s p = τ (p + 1) - τ p) {p q : ℕ} (hp : p < n) (hq : q < n) :
    B ((s p)⁻¹ • (w (p + 1) - w p)) ((s q)⁻¹ • (w (q + 1) - w q)) = if p = q then 1 else 0 := by
  rw [map_smul, map_smul, LinearMap.smul_apply, h.increments hτ.monotoneOn hp hq, smul_eq_mul, smul_eq_mul]
  rcases eq_or_ne p q with rfl | hne
  · have hpos : 0 < τ (p + 1) - τ p := sub_pos.2 (hτ hp.le hp (Nat.lt_succ_self p))
    have hne : s p ≠ 0 := by
      intro h0
      rw [← hs p hp, h0, mul_zero] at hpos
      exact hpos.false
    rw [if_pos rfl, if_pos rfl, ← hs p hp]
    field_simp
  · rw [if_neg hne, if_neg hne, mul_zero, mul_zero]

end Increments

end Wiener

namespace Wiener

open Matrix

/-- Rows that are orthonormal make a matrix that is orthogonal on both sides. -/
theorem orthogonal_of_rows {K : Type} [Field K] {n : ℕ} {A : Matrix (Fin n) (Fin n) K}
    (h : ∀ p q, A p ⬝ᵥ A q = if p = q then 1 else 0) : A * Aᵀ = 1 ∧ Aᵀ * A = 1 := by
  have hrows : A * Aᵀ = 1 := by
    ext p q
    rw [mul_apply', one_apply]
    exact h p q
  exact ⟨hrows, mul_eq_one_comm.1 hrows⟩

end Wiener
