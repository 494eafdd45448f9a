import Mathlib.Algebra.BigOperators.Group.List.Basic
import Mathlib.Algebra.Order.Field.Basic
import Mathlib.Data.List.Perm.Basic
import Mathlib.Tactic.FieldSimp
import Mathlib.Tactic.LinearCombination
import Mathlib.Tactic.Positivity
import Mathlib.Tactic.Ring
/-!
# Moments — sums of powers of deviations over weighted samples

A sample is a value with a weight.  `central k c` is the weighted sum of the `k`-th powers of the deviations from `c`.
Moving the centre of a list by `s` changes each sum by the lower ones (`central_shift_two` and its neighbours), so the
sums about the mean after one more sample are those before it, moved, and one more term.  The closed forms of one step
(`one_pass_two` and its neighbours) are those of a one-pass accumulator.
-/
namespace Moments

variable {K : Type} [Field K] {l l' : List (K × K)} {p : K × K} {c μ s : K} {k : ℕ}

def total (l : List (K × K)) : K := (l.map Prod.snd).sum

/-- The weighted sum of the powers of the deviations. -/
def central (k : ℕ) (c : K) (l : List (K × K)) : K := (l.map (fun p => p.2 * (p.1 - c) ^ k)).sum

theorem central_eq (k : ℕ) (c : K) (l : List (K × K)) : central k c l = (l.map (fun p => (p.1 - c) ^ k * p.2)).sum :=
  congrArg List.sum (List.map_congr_left (fun _ _ => mul_comm _ _))

theorem total_append (l : List (K × K)) (p : K × K) : total (l ++ [p]) = total l + p.2 := by
  rw [total, total, List.map_append, List.sum_append, List.map_singleton, List.sum_singleton]

theorem central_append (k : ℕ) (c : K) (l : List (K × K)) (p : K × K) :
    central k c (l ++ [p]) = central k c l + p.2 * (p.1 - c) ^ k := by
  rw [central, central, List.map_append, List.sum_append, List.map_singleton, List.sum_singleton]

theorem total_perm (h : l.Perm l') : total l = total l' := (h.map _).sum_eq

theorem central_perm (h : l.Perm l') : central k c l = central k c l' := (h.map _).sum_eq

/-! ## Moving the centre -/

theorem central_shift_one (c s : K) : ∀ l : List (K × K), central 1 (c + s) l = central 1 c l - s * total l
  | []     => by simp [central, total]
  | p :: l => by
    have ih := central_shift_one c s l
    simp only [central, total, List.map_cons, List.sum_cons] at ih ⊢
    rw [ih]
    ring

theorem central_shift_two (c s : K) : ∀ l : List (K × K),
    central 2 (c + s) l = central 2 c l - 2 * s * central 1 c l + s ^ 2 * total l
  | []     => by simp [central, total]
  | p :: l => by
    have ih := central_shift_two c s l
    simp only [central, total, List.map_cons, List.sum_cons] at ih ⊢
    rw [ih]
    ring

theorem central_shift_three (c s : K) : ∀ l : List (K × K), central 3 (c + s) l =
    central 3 c l - 3 * s * central 2 c l + 3 * s ^ 2 * central 1 c l - s ^ 3 * total l
  | []     => by simp [central, total]
  | p :: l => by
    have ih := central_shift_three c s l
    simp only [central, total, List.map_cons, List.sum_cons] at ih ⊢
    rw [ih]
    ring

theorem central_shift_four (c s : K) : ∀ l : List (K × K), central 4 (c + s) l =
    central 4 c l - 4 * s * central 3 c l + 6 * s ^ 2 * central 2 c l - 4 * s ^ 3 * central 1 c l + s ^ 4 * total l
  | []     => by simp [central, total]
  | p :: l => by
    have ih := central_shift_four c s l
    simp only [central, total, List.map_cons, List.sum_cons] at ih ⊢
    rw [ih]
    ring

/-! ## One step of a one-pass accumulator -/

/-- The mean moves so far when the sample comes in. -/
def shift (μ : K) (l : List (K × K)) (p : K × K) : K := (p.1 - μ) * p.2 / (total l + p.2)

theorem one_pass_one (hμ : central 1 μ l = 0) (hw : total l + p.2 ≠ 0) :
    central 1 (μ + shift μ l p) (l ++ [p]) = 0 := by
  rw [central_append, central_shift_one, hμ, shift]
  field_simp
  ring

theorem one_pass_two (hμ : central 1 μ l = 0) (hw : total l + p.2 ≠ 0) :
    central 2 (μ + shift μ l p) (l ++ [p]) =
      central 2 μ l + p.2 * (p.1 - μ) * (p.1 - μ - shift μ l p) := by
  rw [central_append, central_shift_two, hμ, shift]
  field_simp
  ring

theorem one_pass_three (hμ : central 1 μ l = 0) (hw : total l + p.2 ≠ 0) :
    central 3 (μ + shift μ l p) (l ++ [p]) =
      central 3 μ l + (p.2 * (p.1 - μ) ^ 3 * total l * (total l - p.2) / ((total l + p.2) * (total l + p.2)) -
        3 * shift μ l p * central 2 μ l) := by
  rw [central_append, central_shift_three, hμ, shift]
  field_simp
  ring

theorem one_pass_four (hμ : central 1 μ l = 0) (hw : total l + p.2 ≠ 0) :
    central 4 (μ + shift μ l p) (l ++ [p]) =
      central 4 μ l + (p.2 * (p.1 - μ) ^ 4 * total l *
          (total l * total l - total l * p.2 + p.2 * p.2) / (total l + p.2) ^ 3 +
        6 * shift μ l p * shift μ l p * central 2 μ l - 4 * shift μ l p * central 3 μ l) := by
  rw [central_append, central_shift_four, hμ, shift]
  field_simp
  ring

/-! ## Means -/

theorem central_one (c : K) : ∀ l : List (K × K), central 1 c l = (l.map (fun p => p.1 * p.2)).sum - c * total l
  | []     => by simp [central, total]
  | p :: l => by
    have ih := central_one c l
    simp only [central, total, List.map_cons, List.sum_cons] at ih ⊢
    rw [ih]
    ring

theorem mean_eq (hμ : central 1 μ l = 0) (hw : total l ≠ 0) : μ = (l.map (fun p => p.1 * p.2)).sum / total l := by
  rw [central_one, sub_eq_zero] at hμ
  rw [hμ, mul_div_assoc, div_self hw, mul_one]

end Moments
