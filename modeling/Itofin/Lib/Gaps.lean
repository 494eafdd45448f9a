import Mathlib.Tactic.Common
/-!
# Gaps — filling a range by halving its gaps

Of the positions from `0` to `m` the last is filled from the start.  A sweep goes through the gaps from left to right, fills
the middle of each, and begins anew behind the last position; it looks for the next empty position from where it stands, and
for the filled one after it.

The last gap is as wide as any that the sweep has not come to, and those it has passed are at most half as wide (`Sweep`).
So an empty position is left ahead of it as long as there is one at all (`Sweep.next`, `Sweep.full`).
-/
namespace Gaps

variable {filled : ℕ → Prop} {m j g i k p : ℕ}

/-- Between two filled positions, or from the start to one, nothing is filled. -/
structure Gap (filled : ℕ → Prop) (j k : ℕ) : Prop where
  lt    : j < k
  left  : ∀ p, p + 1 = j → filled p
  right : filled k
  empty : ∀ p, j ≤ p → p < k → ¬ filled p

/-- One of the `w + 1` positions from `p` on is filled. -/
def Reached (filled : ℕ → Prop) (w p : ℕ) : Prop := ∃ q, p ≤ q ∧ q ≤ p + w ∧ filled q

/-- A sweep that stands at `j`, where the last gap has `g` positions. -/
structure Sweep (m : ℕ) (filled : ℕ → Prop) (j g : ℕ) : Prop where
  pinned : filled m
  start  : ∀ p, p + 1 = j → filled p
  ahead  : j + g ≤ m
  tail   : ∀ p, m ≤ p + g → p < m → ¬ filled p
  wide   : ∀ p, j ≤ p → p + g ≤ m → Reached filled g p
  narrow : ∀ p, p + g / 2 < j → Reached filled (g / 2) p

theorem Sweep.init (m : ℕ) : Sweep m (· = m) 0 m where
  pinned := rfl
  start p hp := by omega
  ahead := by omega
  tail p _ hp := by omega
  wide p _ hp := ⟨m, by omega, by omega, rfl⟩
  narrow p hp := by omega

theorem Sweep.full (h : Sweep m filled j 0) (hp : p ≤ m) : filled p := by
  rcases Nat.lt_or_ge p j with hlt | hge
  · obtain ⟨q, hpq, hqp, hq⟩ := h.narrow p (by omega)
    obtain rfl : q = p := by omega
    exact hq
  · obtain ⟨q, hpq, hqp, hq⟩ := h.wide p hge (by omega)
    obtain rfl : q = p := by omega
    exact hq

/-- What a sweep finds: the first empty position from `j` on, and the first filled one after it. -/
structure Finds (filled : ℕ → Prop) (j i k : ℕ) : Prop where
  le      : j ≤ i
  skipped : ∀ p, j ≤ p → p < i → filled p
  first   : ¬ filled i
  le'     : i ≤ k
  right   : filled k
  empty   : ∀ p, i ≤ p → p < k → ¬ filled p

namespace Sweep

theorem gap (h : Sweep m filled j g) (hf : Finds filled j i k) : Gap filled i k where
  lt := by
    rcases Nat.lt_or_ge i k with hlt | hge
    · exact hlt
    · obtain rfl : i = k := Nat.le_antisymm hf.le' hge
      exact absurd hf.right hf.first
  left p hp := by
    rcases Nat.lt_or_ge p j with hlt | hge
    · exact h.start p (by have := hf.le; omega)
    · exact hf.skipped p hge (by omega)
  right := hf.right
  empty := hf.empty

theorem width (h : Sweep m filled j g) (hf : Finds filled j i k) (hk : k ≤ m) : k ≤ i + g := by
  by_contra hwide
  obtain ⟨q, hiq, hqi, hq⟩ := h.wide i hf.le (by omega)
  exact hf.empty q hiq (by omega) hq

/-- Once the middle of the gap is filled, half its width is enough for every stretch before its end. -/
theorem narrow_next (h : Sweep m filled j g) (hf : Finds filled j i k) (hk : k ≤ m) (hp : p + g / 2 < k + 1) :
    Reached (fun p => filled p ∨ p = i + (k - 1 - i) / 2) (g / 2) p := by
  have hgap := h.gap hf
  have hlt := hgap.lt
  have hwidth := h.width hf hk
  have hji := hf.le
  rcases Nat.lt_or_ge (p + g / 2) k with hpk | hpk
  swap
  · exact ⟨k, by omega, by omega, .inl hf.right⟩
  rcases Nat.lt_or_ge p i with hpi | hpi
  swap
  · exact ⟨i + (k - 1 - i) / 2, by omega, by omega, .inr rfl⟩
  rcases Nat.lt_or_ge (p + g / 2) j with hpj | hpj
  · obtain ⟨q, hpq, hqp, hq⟩ := h.narrow p hpj
    exact ⟨q, hpq, hqp, .inl hq⟩
  · -- The stretch ends among the positions that were skipped, or holds the one before the gap.
    rcases Nat.lt_or_ge (p + g / 2) i with hlast | hlast
    · exact ⟨p + g / 2, by omega, Nat.le_refl _, .inl (hf.skipped _ hpj hlast)⟩
    · exact ⟨i - 1, by omega, by omega, .inl (hgap.left (i - 1) (by omega))⟩

/-- **One turn of the sweep**: it finds a gap before the end of the range, and after its middle is filled the sweep goes on
behind it, or from the start. -/
theorem next (h : Sweep m filled j g) (hf : Finds filled j i k) (hk : k ≤ m) :
    ∃ g', Sweep m (fun p => filled p ∨ p = i + (k - 1 - i) / 2) (if m + 1 ≤ k + 1 then 0 else k + 1) g' := by
  have hgap := h.gap hf
  have hlt := hgap.lt
  have hwidth := h.width hf hk
  have hji := hf.le
  rcases Nat.lt_or_ge k m with hkm | hkm
  · rw [if_neg (by omega)]
    have hbefore : k + g < m := by
      by_contra hin
      exact h.tail k (by omega) hkm hf.right
    refine ⟨g, .inl h.pinned, ?_, by omega, ?_, ?_, fun p hp => h.narrow_next hf hk hp⟩
    · rintro p hp
      obtain rfl : p = k := by omega
      exact .inl hf.right
    · rintro p hp hpm (hfp | rfl)
      · exact h.tail p hp hpm hfp
      · omega
    · intro p hp hpm
      obtain ⟨q, hpq, hqp, hq⟩ := h.wide p (by omega) hpm
      exact ⟨q, hpq, hqp, .inl hq⟩
  · obtain rfl : k = m := by omega
    rw [if_pos (Nat.le_refl _)]
    -- The gap is the last one: it starts where that one does.
    have hi : i + g = k := by
      have := h.ahead
      by_contra hne
      exact h.tail (k - g) (by omega) (by omega) (hf.skipped (k - g) (by omega) (by omega))
    refine ⟨g / 2, .inl h.pinned, fun p hp => by omega, by omega, ?_, ?_, fun p hp => by omega⟩
    · rintro p hp hpk (hfp | rfl)
      · exact h.tail p (by omega) hpk hfp
      · omega
    · exact fun p _ hp => h.narrow_next hf hk (by omega)

end Sweep

end Gaps
