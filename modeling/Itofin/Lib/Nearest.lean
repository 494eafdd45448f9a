import Mathlib.Algebra.Order.Ring.Abs
import Mathlib.Tactic.Linarith
/-!
# Nearest — the value nearest to a target

A non-decreasing function of a linear order crosses a target between two of its points when every other point is on
one of their sides.  Then the nearer of the two is the nearest of all.
-/
namespace Nearest

variable {α K : Type} [Field K] [LinearOrder K] [IsStrictOrderedRing K]

/-- The value of the point is as near to the target as that of every point. -/
def IsNearest (s : Set α) (f : α → K) (t : K) (x : α) : Prop := ∀ y ∈ s, |f x - t| ≤ |f y - t|

variable {s : Set α} {f : α → K} {t t' δ : K} {x y : α}

/-- Where no value is before the target, the least is the nearest. -/
theorem nearest_least (ht : t ≤ f x) (h : ∀ z ∈ s, f x ≤ f z) : IsNearest s f t x := fun z hz => by
  rw [abs_of_nonneg (sub_nonneg.mpr ht), abs_of_nonneg (sub_nonneg.mpr (ht.trans (h z hz)))]
  linarith [h z hz]

/-- Where no value is after the target, the greatest is the nearest. -/
theorem nearest_greatest (ht : f x ≤ t) (h : ∀ z ∈ s, f z ≤ f x) : IsNearest s f t x := fun z hz => by
  rw [abs_of_nonpos (sub_nonpos.mpr ht), abs_of_nonpos (sub_nonpos.mpr ((h z hz).trans ht))]
  linarith [h z hz]

/-- **A crossing**: the values of the set end at one of the points before the target and start again at the other. -/
structure Crosses (s : Set α) (f : α → K) (t : K) (x y : α) : Prop where
  before : f x ≤ t
  after : t ≤ f y
  covers : ∀ z ∈ s, f z ≤ f x ∨ f y ≤ f z

theorem Crosses.nearest_left (h : Crosses s f t x y) (hn : |f x - t| ≤ |f y - t|) : IsNearest s f t x := by
  intro z hz
  rcases h.covers z hz with hl | hr
  · exact nearest_greatest (s := {w | f w ≤ f x}) h.before (fun _ hw => hw) z hl
  · exact hn.trans (nearest_least (s := {w | f y ≤ f w}) h.after (fun _ hw => hw) z hr)

theorem Crosses.nearest_right (h : Crosses s f t x y) (hn : |f y - t| ≤ |f x - t|) : IsNearest s f t y := by
  intro z hz
  rcases h.covers z hz with hl | hr
  · exact hn.trans (nearest_greatest (s := {w | f w ≤ f x}) h.before (fun _ hw => hw) z hl)
  · exact nearest_least (s := {w | f y ≤ f w}) h.after (fun _ hw => hw) z hr

/-- The nearest to a target is nearest to one close by, up to twice the distance of the two. -/
theorem IsNearest.move (h : IsNearest s f t' x) (hδ : |t' - t| ≤ δ) (hy : y ∈ s) : |f x - t| ≤ |f y - t| + 2 * δ := by
  have hx : |f x - t| ≤ |f x - t'| + |t' - t| := abs_sub_le _ _ _
  have hy' : |f y - t'| ≤ |f y - t| + |t' - t| := by
    rw [abs_sub_comm t' t]
    exact abs_sub_le _ _ _
  linarith [h y hy]

end Nearest
