import Mathlib.Order.Bounds.Basic
import Mathlib.Order.Cover
import Mathlib.Order.WellFounded
import Mathlib.Algebra.Order.Group.Abs
import Mathlib.Algebra.Order.Group.Int
import Mathlib.Tactic.Common
/-!
# Rolling — the next, the previous and the nearest point of a set

A predicate picks points of a linear order and a point is rolled to one of them.  `IsNext` and `IsPrev` are the least
point from `d` on and the greatest up to `d`; each is the other over the dual order.  A *modified* roll does not leave
the block of `d` — a block is a value of a monotone function — unless it must: it rolls the other way when the first
point found lies in another block.  `Nearest` takes the closest point, the later one of a tie.  Each of the rolls is
monotone.
-/
namespace Rolling

variable {α β : Type} [LinearOrder α] [PartialOrder β] {P : α → Prop} {block : α → β} {b d d' r r' : α}

/-- The least picked point from `d` on. -/
def IsNext (P : α → Prop) (d r : α) : Prop := IsLeast {x | P x ∧ d ≤ x} r

/-- The greatest picked point up to `d`. -/
def IsPrev (P : α → Prop) (d r : α) : Prop := IsGreatest {x | P x ∧ x ≤ d} r

theorem isNext_iff : IsNext P d r ↔ P r ∧ d ≤ r ∧ ∀ x, P x → d ≤ x → r ≤ x :=
  ⟨fun h => ⟨h.1.1, h.1.2, fun _ hx hd => h.2 ⟨hx, hd⟩⟩, fun h => ⟨⟨h.1, h.2.1⟩, fun x hx => h.2.2 x hx.1 hx.2⟩⟩

namespace IsNext

theorem holds (h : IsNext P d r) : P r := h.1.1

theorem le (h : IsNext P d r) : d ≤ r := h.1.2

theorem le_of (h : IsNext P d r) (hx : P b) (hd : d ≤ b) : r ≤ b := h.2 ⟨hx, hd⟩

theorem unique (h : IsNext P d r) (h' : IsNext P d r') : r = r' := IsLeast.unique h h'

theorem self (h : P d) : IsNext P d d := ⟨⟨h, le_rfl⟩, fun _ hx => hx.2⟩

theorem eq_of_holds (h : IsNext P d r) (hd : P d) : r = d := h.unique (self hd)

theorem mono (h : IsNext P d r) (h' : IsNext P d' r') (hd : d ≤ d') : r ≤ r' :=
  h.le_of h'.holds (le_trans hd h'.le)

theorem exists_of_le [WellFoundedLT α] (h : P b) (hd : d ≤ b) : ∃ r, IsNext P d r :=
  ⟨wellFounded_lt.min {x | P x ∧ d ≤ x} ⟨b, h, hd⟩, wellFounded_lt.min_mem _ _,
    fun _ hx => not_lt.mp (wellFounded_lt.not_lt_min _ hx)⟩

end IsNext

namespace IsPrev

theorem holds (h : IsPrev P d r) : P r := h.1.1

theorem le (h : IsPrev P d r) : r ≤ d := h.1.2

theorem le_of (h : IsPrev P d r) (hx : P b) (hd : b ≤ d) : b ≤ r := h.2 ⟨hx, hd⟩

theorem unique (h : IsPrev P d r) (h' : IsPrev P d r') : r = r' := IsGreatest.unique h h'

theorem self (h : P d) : IsPrev P d d := ⟨⟨h, le_rfl⟩, fun _ hx => hx.2⟩

theorem eq_of_holds (h : IsPrev P d r) (hd : P d) : r = d := h.unique (self hd)

theorem mono (h : IsPrev P d r) (h' : IsPrev P d' r') (hd : d ≤ d') : r ≤ r' :=
  h'.le_of h.holds (le_trans h.le hd)

theorem exists_of_le [WellFoundedGT α] (h : P b) (hd : b ≤ d) : ∃ r, IsPrev P d r :=
  IsNext.exists_of_le (α := αᵒᵈ) h hd

end IsPrev

/-! ## Walking to a picked point -/

/-- `next`, taken from `d` until `stop` holds; `none` when there is no further point to take. -/
def seek (next : α → Option α) (stop : α → Bool) : ℕ → α → Option α
  | 0, _        => none
  | fuel + 1, d => if stop d then some d else (next d).bind (seek next stop fuel)

/-- `next` takes the points of `inv` one after the other, up to the last one, and `stop` recognises the picked ones. -/
structure Walks (P : α → Prop) (next : α → Option α) (stop : α → Bool) (inv : α → Prop) (left : α → ℕ) : Prop where
  stop_iff : ∀ d, inv d → (stop d = true ↔ P d)
  covBy : ∀ d d', inv d → next d = some d' → d ⋖ d' ∧ inv d' ∧ left d' < left d
  last : ∀ d, inv d → next d = none → ∀ x, P x → x ≤ d

/-- **A walk finds the next picked point**, and returns when there is one. -/
theorem Walks.seek_eq_some_iff {next : α → Option α} {stop : α → Bool} {inv : α → Prop} {left : α → ℕ}
    (w : Walks P next stop inv left) : ∀ (fuel : ℕ) (d : α), inv d → left d < fuel →
    (seek next stop fuel d = some r ↔ IsNext P d r)
  | 0, _, _, hl        => absurd hl (Nat.not_lt_zero _)
  | fuel + 1, d, hd, hl => by
    rw [seek]
    by_cases hs : stop d = true
    · have hP := (w.stop_iff d hd).mp hs
      rw [if_pos hs, Option.some.injEq]
      exact ⟨fun h => h ▸ IsNext.self hP, fun h => (h.eq_of_holds hP).symm⟩
    have hP : ¬ P d := fun h => hs ((w.stop_iff d hd).mpr h)
    rw [if_neg hs]
    cases hn : next d with
    | none =>
      refine ⟨fun h => absurd h (Option.some_ne_none _).symm, fun h => absurd h.holds ?_⟩
      rwa [le_antisymm (w.last d hd hn r h.holds) h.le]
    | some d' =>
      obtain ⟨hc, hd', hl'⟩ := w.covBy d d' hd hn
      rw [Option.bind_some, w.seek_eq_some_iff fuel d' hd' (by omega)]
      have hiff : ∀ x, P x → (d ≤ x ↔ d' ≤ x) := fun x hx =>
        ⟨fun h => hc.ge_of_gt (lt_of_le_of_ne h (fun he => hP (he ▸ hx))), fun h => le_trans hc.le h⟩
      rw [isNext_iff, isNext_iff]
      exact ⟨fun ⟨h₁, h₂, h₃⟩ => ⟨h₁, (hiff r h₁).mpr h₂, fun x hx h => h₃ x hx ((hiff x hx).mp h)⟩,
        fun ⟨h₁, h₂, h₃⟩ => ⟨h₁, (hiff r h₁).mp h₂, fun x hx h => h₃ x hx ((hiff x hx).mpr h)⟩⟩

/-! ## Modified rolls -/

/-- The next picked point if it lies in the block of `d`, else the previous one. -/
def ModifiedNext (P : α → Prop) (block : α → β) (d r : α) : Prop :=
  (IsNext P d r ∧ block r = block d) ∨ ((∃ n, IsNext P d n ∧ block n ≠ block d) ∧ IsPrev P d r)

/-- The previous picked point if it lies in the block of `d`, else the next one. -/
def ModifiedPrev (P : α → Prop) (block : α → β) (d r : α) : Prop :=
  (IsPrev P d r ∧ block r = block d) ∨ ((∃ n, IsPrev P d n ∧ block n ≠ block d) ∧ IsNext P d r)

namespace ModifiedNext

theorem block_eq (hb : Monotone block) (h : ModifiedNext P block d r) (hx : P b) (hxd : block b = block d) :
    block r = block d := by
  rcases h with ⟨-, h⟩ | ⟨⟨n, hn, hne⟩, h⟩
  · exact h
  rcases le_total d b with hle | hle
  · refine absurd (le_antisymm ?_ (hb hn.le)) hne
    rw [← hxd]
    exact hb (hn.le_of hx hle)
  · refine le_antisymm (hb h.le) ?_
    rw [← hxd]
    exact hb (h.le_of hx hle)

/-- **A modified roll is monotone**: a point that falls back does so past the earlier points of its own block. -/
theorem mono (hb : Monotone block) (h : ModifiedNext P block d r) (h' : ModifiedNext P block d' r') (hd : d ≤ d') :
    r ≤ r' := by
  rcases h with ⟨h, hbl⟩ | ⟨-, h⟩ <;> rcases h' with ⟨h', -⟩ | ⟨⟨n, hn, hne⟩, h'⟩
  · exact h.mono h' hd
  · rcases le_or_gt r d' with hr | hr
    · exact h'.le_of h.holds hr
    · -- the same point comes next after both, so it is in no other block than `d'`
      have hnr : n = r := le_antisymm (hn.le_of h.holds hr.le) (h.mono hn hd)
      rw [hnr] at hne
      exact absurd (le_antisymm (hbl ▸ hb hd) (hb hr.le)) hne
  · exact le_trans h.le (le_trans hd h'.le)
  · exact h.mono h' hd

end ModifiedNext

namespace ModifiedPrev

-- over the dual orders a modified roll back is a modified roll forward
theorem block_eq (hb : Monotone block) (h : ModifiedPrev P block d r) (hx : P b) (hxd : block b = block d) :
    block r = block d :=
  ModifiedNext.block_eq (α := αᵒᵈ) (β := βᵒᵈ) hb.dual h hx hxd

theorem mono (hb : Monotone block) (h : ModifiedPrev P block d r) (h' : ModifiedPrev P block d' r') (hd : d ≤ d') :
    r ≤ r' :=
  ModifiedNext.mono (α := αᵒᵈ) (β := βᵒᵈ) hb.dual h' h hd

end ModifiedPrev

/-! ## The nearest point -/

/-- The picked point at the least distance, the later of two. -/
def Nearest (P : ℤ → Prop) (d r : ℤ) : Prop :=
  P r ∧ ∀ x, P x → |r - d| ≤ |x - d| ∧ (|x - d| = |r - d| → x ≤ r)

namespace Nearest

variable {P : ℤ → Prop} {d d' r r' : ℤ}

/-- The nearest point is monotone: points that cross are both at the middle, where the later one wins. -/
theorem mono (h : Nearest P d r) (h' : Nearest P d' r') (hd : d ≤ d') : r ≤ r' := by
  by_contra hlt
  have h₁ := (h.2 r' h'.1).1
  obtain ⟨h₂, h₃⟩ := h'.2 r h.1
  have hne : |r - d'| ≠ |r' - d'| := fun he => hlt (h₃ he)
  rcases abs_cases (r - d) with ⟨e₁, c₁⟩ | ⟨e₁, c₁⟩ <;> rcases abs_cases (r' - d) with ⟨e₂, c₂⟩ | ⟨e₂, c₂⟩ <;>
    rcases abs_cases (r - d') with ⟨e₃, c₃⟩ | ⟨e₃, c₃⟩ <;> rcases abs_cases (r' - d') with ⟨e₄, c₄⟩ | ⟨e₄, c₄⟩ <;>
    omega

end Nearest

end Rolling
