import Mathlib.Tactic.Common
/-!
# Lagged — recurrences with a long lag, and the ring that holds their last terms

A recurrence whose next term depends on the last `L` and on a carry is a register that shifts.  A ring of `L` places holds
the register without shifting: the next term takes the place of the oldest (`Holds.write`).
-/
namespace Lagged

variable {α γ : Type}

/-- The last terms, the oldest first, and the carry. -/
structure Register (α γ : Type) where
  term : ℕ → α
  carry : γ

variable (L : ℕ) (next : (ℕ → α) → γ → α × γ)

def shift (r : Register α γ) : Register α γ where
  term i := if i + 1 < L then r.term (i + 1) else (next r.term r.carry).1
  carry := (next r.term r.carry).2

/-- The register after so many terms. -/
def after (r : Register α γ) : ℕ → Register α γ
  | 0     => r
  | n + 1 => shift L next (after r n)

/-- The terms of the recurrence, from those of the register on. -/
def seq (r : Register α γ) (n : ℕ) : α := (after L next r n).term 0

variable {L next} {r : Register α γ} {n i k : ℕ} {x : List α} {a : α}

theorem after_term (r : Register α γ) : ∀ {i n : ℕ}, i < L → (after L next r n).term i = seq L next r (n + i)
  | 0, _, _     => rfl
  | i + 1, n, h => by
    have ih : (after L next r (n + 1)).term i = seq L next r (n + 1 + i) := after_term r (Nat.lt_of_succ_lt h)
    rw [after, shift] at ih
    dsimp only at ih
    rw [if_pos h] at ih
    rw [ih, Nat.add_right_comm, Nat.add_assoc]

/-- **The recurrence**: the next term is that of the last ones. -/
theorem seq_add (hL : 0 < L) (n : ℕ) :
    seq L next r (n + L) = (next (after L next r n).term (after L next r n).carry).1 := by
  have hlast : (after L next r (n + 1)).term (L - 1) = seq L next r (n + 1 + (L - 1)) := after_term r (by omega)
  rw [after, shift] at hlast
  dsimp only at hlast
  rw [if_neg (by omega), show n + 1 + (L - 1) = n + L by omega] at hlast
  exact hlast.symm

theorem seq_of_lt (h : i < L) : seq L next r i = r.term i := by
  rw [← Nat.zero_add i, ← after_term r h]
  simp [after]

/-- **Two sequences that agree on a window agree from there on**, where the next term depends on the last ones alone. -/
theorem seq_eq_of_window {next : (ℕ → α) → Unit → α × Unit} {r r' : Register α Unit} (hL : 0 < L)
    (hnext : ∀ {s t : ℕ → α}, (∀ i, i < L → s i = t i) → (next s ()).1 = (next t ()).1)
    (h : ∀ i, i < L → seq L next r (n + i) = seq L next r' (k + i)) : ∀ i, seq L next r (n + i) = seq L next r' (k + i) := by
  intro i
  induction i using Nat.strongRecOn with
  | _ i ih =>
    by_cases hi : i < L
    · exact h i hi
    · obtain ⟨j, rfl⟩ : ∃ j, i = j + L := ⟨i - L, by omega⟩
      rw [← Nat.add_assoc, ← Nat.add_assoc, seq_add hL, seq_add hL]
      apply hnext
      intro m hm
      rw [after_term r hm, after_term r' hm, Nat.add_assoc, Nat.add_assoc]
      exact ih (j + m) (by omega)

/-- The ring holds the register, with its oldest term at place `k`. -/
structure Holds (L : ℕ) (x : List α) (k : ℕ) (r : Register α γ) : Prop where
  length : x.length = L
  lt : k < L
  place : ∀ i, i < L → x[(k + i) % L]? = some (r.term i)

theorem mod_place (hk : k < L) (hi : i < L) : (k + i) % L = if k + i < L then k + i else k + i - L := by
  split_ifs with h
  · exact Nat.mod_eq_of_lt h
  · rw [Nat.mod_eq_sub_mod (by omega), Nat.mod_eq_of_lt (by omega)]

theorem Holds.mem (h : Holds L x k r) (ha : a ∈ x) : ∃ i, i < L ∧ r.term i = a := by
  obtain ⟨j, hj, rfl⟩ := List.mem_iff_getElem.1 ha
  have hlt := h.lt
  rw [h.length] at hj
  -- the term at place `j` is as far behind the oldest as the place is
  obtain ⟨i, hi, hplace⟩ : ∃ i, i < L ∧ (k + i) % L = j := by
    rcases Nat.lt_or_ge j k with hjk | hjk
    · exact ⟨j + L - k, by omega, by rw [mod_place hlt (by omega)]; split_ifs <;> omega⟩
    · exact ⟨j - k, by omega, by rw [mod_place hlt (by omega)]; split_ifs <;> omega⟩
  have hterm := h.place i hi
  rw [hplace, List.getElem?_eq_getElem (by rw [h.length]; exact hj)] at hterm
  exact ⟨i, hi, (Option.some.inj hterm).symm⟩

/-- **A new term takes the place of the oldest.** -/
theorem Holds.write (h : Holds L x k r) :
    Holds L (x.set k (next r.term r.carry).1) ((k + 1) % L) (shift L next r) := by
  have hlt := h.lt
  refine ⟨by rw [List.length_set, h.length], Nat.mod_lt _ (by omega), fun i hi => ?_⟩
  rw [Nat.mod_add_mod, Nat.add_assoc, Nat.add_comm 1 i, List.getElem?_set, shift]
  dsimp only
  by_cases hlast : i + 1 < L
  · have hne : k ≠ (k + (i + 1)) % L := by
      rw [mod_place hlt hlast]
      split_ifs <;> omega
    rw [if_neg hne, if_pos hlast, h.place (i + 1) hlast]
  · have heq : (k + (i + 1)) % L = k := by
      rw [show i + 1 = L by omega, Nat.add_mod_right, Nat.mod_eq_of_lt hlt]
    rw [heq, if_pos rfl, if_pos (by rw [h.length]; exact hlt), if_neg hlast]

/-! ## Blocks -/

/-- Of the block of a sequence after the one from `b` on, the first `k` places are written. -/
def Written (L : ℕ) (word : ℕ → α) (b k : ℕ) (place : ℕ → α) : Prop :=
  ∀ i, i < L → place i = if i < k then word (b + L + i) else word (b + i)

variable {word place : ℕ → α} {b : ℕ}

theorem Written.ahead (h : Written L word b k place) (hk : k ≤ i) (hi : i < L) : place i = word (b + i) := by
  rw [h i hi, if_neg (by omega)]

theorem Written.behind (h : Written L word b k place) (hi : i < k) (hk : k ≤ L) : place i = word (b + L + i) := by
  rw [h i (by omega), if_pos hi]

theorem Written.write (h : Written L word b k place) (ha : a = word (b + L + k)) :
    Written L word b (k + 1) (Function.update place k a) := by
  intro i hi
  by_cases hik : i = k
  · simp [hik, ha]
  · rw [Function.update_of_ne hik, h i hi]
    exact if_congr (by omega) rfl rfl

theorem Written.full (h : Written L word b L place) : Written L word (b + L) 0 place := by
  intro i hi
  simpa [hi] using h i hi

end Lagged
