import Mathlib.Algebra.Order.Field.Basic
import Mathlib.Data.List.Nodup
import Mathlib.Data.List.Perm.Subperm
import Mathlib.Tactic.FieldSimp
import Mathlib.Tactic.GCongr
import Mathlib.Tactic.Linarith
import Mathlib.Tactic.Ring
/-!
# Mirrored — digits mirrored at the point

The radical inverse of a number to a base: its digits behind the point, the lowest one first.  It is known by its recursion
(`Mirrors`): the lowest digit and the inverse of the rest, a place further down.
-/
namespace Mirrored

variable {K : Type} [Field K] [LinearOrder K] [IsStrictOrderedRing K] {b : ℕ} {φ : ℕ → K}

/-- The function mirrors the digits to a base. -/
structure Mirrors (b : ℕ) (φ : ℕ → K) : Prop where
  base : 2 ≤ b
  zero : φ 0 = 0
  step : ∀ k, φ k = ((k % b : ℕ) + φ (k / b)) / b

omit [IsStrictOrderedRing K] [LinearOrder K] in
theorem Mirrors.induct {P : ℕ → Prop} (h : Mirrors b φ) (h₀ : P 0) (hstep : ∀ k, 0 < k → P (k / b) → P k) : ∀ k, P k := by
  intro k
  induction k using Nat.strong_induction_on with
  | _ k ih =>
    rcases Nat.eq_zero_or_pos k with rfl | hk
    · exact h₀
    · exact hstep k hk (ih _ (Nat.div_lt_self hk h.base))

theorem Mirrors.base_pos (h : Mirrors b φ) : (0 : K) < b := by
  have := h.base
  exact_mod_cast Nat.zero_lt_of_lt this

/-- **The inverse lies below one, and is not negative.** -/
theorem Mirrors.range (h : Mirrors b φ) : ∀ k, 0 ≤ φ k ∧ φ k < 1 := by
  refine h.induct ⟨h.zero.ge, by rw [h.zero]; exact zero_lt_one⟩ (fun k _ ih => ?_)
  have hb := h.base_pos
  have hdigit : ((k % b : ℕ) : K) + 1 ≤ b := by
    exact_mod_cast Nat.mod_lt k (Nat.zero_lt_of_lt h.base)
  rw [h.step, div_lt_one hb]
  exact ⟨div_nonneg (add_nonneg (Nat.cast_nonneg _) ih.1) hb.le, by linarith [ih.2]⟩

theorem Mirrors.pos (h : Mirrors b φ) : ∀ k, 0 < k → 0 < φ k := by
  refine h.induct (fun h => absurd h (lt_irrefl 0)) (fun k hk ih _ => ?_)
  rw [h.step]
  refine div_pos ?_ h.base_pos
  by_cases hrest : 0 < k / b
  · exact add_pos_of_nonneg_of_pos (Nat.cast_nonneg _) (ih hrest)
  · -- a single digit
    have hdigit : k % b = k := by
      have := Nat.div_add_mod k b
      rw [Nat.eq_zero_of_not_pos hrest, Nat.mul_zero, Nat.zero_add] at this
      exact this
    rw [hdigit]
    exact add_pos_of_pos_of_nonneg (by exact_mod_cast hk) (h.range _).1

theorem digit_unique {m n : ℕ} {x y : K} (hx : 0 ≤ x ∧ x < 1) (hy : 0 ≤ y ∧ y < 1) (h : (m : K) + x = n + y) :
    m = n ∧ x = y := by
  have hmn : (m : K) < n + 1 := by linarith [hx.1, hy.2]
  have hnm : (n : K) < m + 1 := by linarith [hy.1, hx.2]
  have heq : m = n := by
    have h₁ : m < n + 1 := by exact_mod_cast hmn
    have h₂ : n < m + 1 := by exact_mod_cast hnm
    omega
  refine ⟨heq, ?_⟩
  rw [heq] at h
  exact add_left_cancel h

/-- **Different numbers have different inverses.** -/
theorem Mirrors.injective (h : Mirrors b φ) : Function.Injective φ := by
  have hall : ∀ k l, φ k = φ l → k = l := by
    refine h.induct (fun l hl => ?_) (fun k _ ih l hl => ?_)
    · rcases Nat.eq_zero_or_pos l with rfl | hpos
      · rfl
      · rw [h.zero] at hl
        exact absurd hl (h.pos l hpos).ne
    · rw [h.step k, h.step l, div_left_inj' h.base_pos.ne'] at hl
      obtain ⟨hdigit, hrest⟩ := digit_unique (h.range _) (h.range _) hl
      rw [← Nat.div_add_mod k b, ← Nat.div_add_mod l b, ih _ hrest, hdigit]
  exact fun k l => hall k l

/-- With so many digits the inverse is a multiple of the last place. -/
theorem Mirrors.multiple (h : Mirrors b φ) : ∀ m k, k < b ^ m → ∃ j : ℕ, φ k = j / (b : K) ^ m
  | 0, k, hk     => by
    obtain rfl : k = 0 := by simpa using hk
    exact ⟨0, by rw [h.zero, Nat.cast_zero, zero_div]⟩
  | m + 1, k, hk => by
    have hb := h.base_pos.ne'
    obtain ⟨j, hj⟩ := h.multiple m (k / b) (Nat.div_lt_of_lt_mul (by rwa [pow_succ, Nat.mul_comm] at hk))
    refine ⟨k % b * b ^ m + j, ?_⟩
    rw [h.step, hj]
    push_cast
    field_simp
    ring

/-- **The positive numbers of so many digits have the positive multiples of the last place, each once.** -/
theorem Mirrors.perm (h : Mirrors b φ) (m : ℕ) :
    ((List.range' 1 (b ^ m - 1)).map φ).Perm ((List.range' 1 (b ^ m - 1)).map (fun j : ℕ => (j : K) / (b : K) ^ m)) := by
  have hpow : (0 : K) < (b : K) ^ m := pow_pos h.base_pos m
  refine (List.subperm_of_subset (List.Nodup.map h.injective (List.nodup_range' ..)) (fun x hx => ?_)).perm_of_length_le (by simp)
  obtain ⟨k, hk, rfl⟩ := List.mem_map.mp hx
  rw [List.mem_range'_1] at hk
  obtain ⟨j, hj⟩ := h.multiple m k (by omega)
  refine List.mem_map.mpr ⟨j, ?_, hj.symm⟩
  have hpos : (0 : K) < j := by
    have := h.pos k (by omega)
    rwa [hj, div_pos_iff_of_pos_right hpow] at this
  have hlt : (j : K) < (b : K) ^ m := by
    have := (h.range k).2
    rwa [hj, div_lt_one hpow] at this
  have hj₀ : 0 < j := by exact_mod_cast hpos
  have hj₁ : j < b ^ m := by exact_mod_cast hlt
  rw [List.mem_range'_1]
  omega

end Mirrored
