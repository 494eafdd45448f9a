import Itofin.Lib.Descent
import Itofin.Optimize.Lbfgsb
import Mathlib.Algebra.BigOperators.Field
import Mathlib.Data.List.Sort
/-!
# Geometry — the Cauchy point of a box and the step on its free coordinates

`lbfgsb/geometry.rs`, in exact arithmetic: the tests for finite numbers all pass.

The projected path moves every coordinate against its gradient until a bound stops it (`path_eq`).  The search goes along it
from one time at which a bound is met to the next; between two of them the model is a quadratic of the time (`At`).
-/
namespace Itofin
namespace Lbfgsb

open Matrix Descent

variable {K : Type} [Field K] [LinearOrder K] {n : ℕ}

/-- Box bounds; `none` leaves a side open. -/
structure Bounds (K : Type) [LinearOrder K] (n : ℕ) where
  lower   : Fin n → Option K
  upper   : Fin n → Option K
  ordered : ∀ i, ∀ l ∈ lower i, ∀ u ∈ upper i, l ≤ u

namespace Bounds

variable (b : Bounds K n)

/-- `x > lower[i]` -/
def Above (i : Fin n) (x : K) : Prop := ∀ l ∈ b.lower i, l < x

/-- `x < upper[i]` -/
def Below (i : Fin n) (x : K) : Prop := ∀ u ∈ b.upper i, x < u

def Contains (x : Fin n → K) : Prop := ∀ i, (∀ l ∈ b.lower i, l ≤ x i) ∧ ∀ u ∈ b.upper i, x i ≤ u

instance (i : Fin n) (x : K) : Decidable (b.Above i x) := inferInstanceAs (Decidable (∀ l ∈ b.lower i, l < x))

instance (i : Fin n) (x : K) : Decidable (b.Below i x) := inferInstanceAs (Decidable (∀ u ∈ b.upper i, x < u))

instance (x : Fin n → K) : Decidable (b.Contains x) :=
  inferInstanceAs (Decidable (∀ i, (∀ l ∈ b.lower i, l ≤ x i) ∧ ∀ u ∈ b.upper i, x i ≤ u))

def clamp (i : Fin n) (x : K) : K :=
  let x := (b.lower i).elim x fun l => max x l
  (b.upper i).elim x fun u => min x u

end Bounds

/-- The generalized Cauchy point and the coordinates strictly between their bounds. -/
structure Cauchy (K : Type) (n : ℕ) where
  point : Fin n → K
  free  : List (Fin n)

section

variable (b : Bounds K n)

def freeIndices (x : Fin n → K) : List (Fin n) := (List.finRange n).filter fun i => b.Above i (x i) ∧ b.Below i (x i)

def pointOnPath (x displacement : Fin n → K) (active : Fin n → Option K) : Cauchy K n :=
  let point := fun i => (active i).getD (b.clamp i (x i + displacement i))
  ⟨point, freeIndices b point⟩

/-- The search along the path: the time it has reached, and the times at which bounds are met from there on. -/
structure Search (K : Type) (n : ℕ) where
  displacement : Fin n → K
  active       : Fin n → Option K
  direction    : Fin n → K
  previous     : K
  breakpoints  : List (K × Fin n)

variable (c : Compact K n) (x g : Fin n → K)

/-- The direction of a coordinate at first. -/
def velocity (i : Fin n) : K :=
  let velocity := -g i
  if 0 < velocity ∧ b.Below i (x i) then velocity else if velocity < 0 ∧ b.Above i (x i) then velocity else 0

/-- The time at which it meets a bound, if it does. -/
def breakTime (i : Fin n) : Option K :=
  let velocity := -g i
  if 0 < velocity ∧ b.Below i (x i) then (b.upper i).map fun u => (u - x i) / velocity
  else if velocity < 0 ∧ b.Above i (x i) then (b.lower i).map fun l => (l - x i) / velocity
  else none

def sortedBreakpoints : List (K × Fin n) :=
  ((List.finRange n).filterMap fun i => (breakTime b x g i).map fun t => (t, i)).insertionSort fun p q => p.1 ≤ q.1

def Search.start : Search K n := ⟨0, fun _ => none, velocity b x g, 0, sortedBreakpoints b x g⟩

/-- The coordinate stops at its bound, a finite one since there is a time at which it is met. -/
def Search.stop (s : Search K n) (i : Fin n) : Search K n :=
  ((if 0 < s.direction i then b.upper i else b.lower i)).elim s fun bound => { s with
    displacement := Function.update s.displacement i (bound - x i)
    active       := Function.update s.active i (some bound)
    direction    := Function.update s.direction i 0 }

/-- The coordinates that meet their bounds at the time reached stop. -/
def Search.arrive (next : K) : List (K × Fin n) → Search K n → Search K n
  | [], s            => { s with breakpoints := [], previous := next }
  | (t, i) :: bs, s => if t = next then arrive next bs (s.stop b x i) else { s with breakpoints := (t, i) :: bs, previous := next }

/-- A turn of the search: no point, or the point, or the search from the next time on. -/
def Search.turn (s : Search K n) : Option (Cauchy K n ⊕ Search K n) := do
  if ∀ i, s.direction i = 0 then return .inl (pointOnPath b x s.displacement s.active)
  let bd ← c.times s.direction
  let bz ← c.times s.displacement
  let slope := g ⬝ᵥ s.direction + bz ⬝ᵥ s.direction
  let curvature := s.direction ⬝ᵥ bd
  if ¬ 0 < curvature then none
  else if 0 ≤ slope then return .inl (pointOnPath b x s.displacement s.active)
  else
    let minimizer := -slope / curvature
    match s.breakpoints with
    | []             => return .inl (pointOnPath b x (s.displacement + minimizer • s.direction) s.active)
    | (next, i) :: bs =>
      let segment := next - s.previous
      if minimizer < segment then return .inl (pointOnPath b x (s.displacement + minimizer • s.direction) s.active)
      else
        let s := { s with displacement := s.displacement + segment • s.direction }
        return .inr (s.arrive b x next ((next, i) :: bs))

/-- Turns of the search; as many as there are times are enough (`search_more`). -/
def search : ℕ → Search K n → Option (Cauchy K n)
  | 0, _         => none
  | turns + 1, s => do
    match ← s.turn b c x g with
    | .inl cauchy => return cauchy
    | .inr s      => search turns s

def generalizedCauchy : Option (Cauchy K n) := search b c x g ((sortedBreakpoints b x g).length + 1) (.start b x g)

/-! ### The step on the free coordinates -/

/-- The step to the minimum of the model over the free coordinates. -/
def subspaceStep (free : List (Fin n)) (r : Fin n → K) : Option (Fin n → K) :=
  if c.pairs.isEmpty then some fun i => if i ∈ free then -r i / c.theta else 0
  else do
    let size := 2 * c.pairs.length
    let rhs := fun i => (free.map fun k => c.columns i k * r k).sum
    let gram := fun i j => (free.map fun k => c.columns i k * c.columns j k).sum
    let weights ← solve size ⟨fun i j => c.block i j - gram i j / c.theta, rhs⟩
    let correction := fun i => ((List.range size).map fun j => c.columns j i * weights j).sum
    return fun i => if i ∈ free then -(r i + correction i / c.theta) / c.theta else 0

def truncate (point step : Fin n → K) (alpha : K) (i : Fin n) : K :=
  if 0 < step i then (b.upper i).elim alpha fun u => min alpha ((u - point i) / step i)
  else if step i < 0 then (b.lower i).elim alpha fun l => min alpha ((l - point i) / step i)
  else alpha

def primalMinimize (cauchy : Cauchy K n) : Option (Fin n → K) := do
  if cauchy.free.isEmpty then return cauchy.point
  let displacement := cauchy.point - x
  let product ← c.times displacement
  let r := product + g
  let step ← subspaceStep c cauchy.free r
  let alpha := cauchy.free.foldl (truncate b cauchy.point step) 1
  return fun i => if i ∈ cauchy.free then b.clamp i (cauchy.point i + alpha * step i) else cauchy.point i

end

/-! ## The box -/

section

variable {b : Bounds K n} {i : Fin n} {x : K}

omit [Field K] in
theorem Bounds.clamp_mem (b : Bounds K n) (i : Fin n) (x : K) :
    (∀ l ∈ b.lower i, l ≤ b.clamp i x) ∧ ∀ u ∈ b.upper i, b.clamp i x ≤ u := by
  rw [clamp]
  constructor
  · intro l hl
    rw [Option.mem_def.1 hl]
    cases hu : b.upper i with
    | none   => exact le_max_right x l
    | some u => exact le_min (le_max_right x l) (b.ordered i l hl u hu)
  · intro u hu
    rw [Option.mem_def.1 hu]
    exact min_le_right _ u

omit [Field K] in
theorem Bounds.clamp_of_mem (hl : ∀ l ∈ b.lower i, l ≤ x) (hu : ∀ u ∈ b.upper i, x ≤ u) : b.clamp i x = x := by
  have hlow : ((b.lower i).elim x fun l => max x l) = x := by
    cases h : b.lower i with
    | none   => rfl
    | some l => exact max_eq_left (hl l h)
  rw [clamp, hlow]
  cases h : b.upper i with
  | none   => rfl
  | some u => exact min_eq_left (hu u h)

omit [Field K] in
theorem Bounds.clamp_of_le {u : K} (hu : u ∈ b.upper i) (h : u ≤ x) : b.clamp i x = u := by
  have hlow : u ≤ (b.lower i).elim x fun l => max x l := by
    cases b.lower i with
    | none   => exact h
    | some l => exact h.trans (le_max_left x l)
  rw [clamp, Option.mem_def.1 hu]
  exact min_eq_right hlow

omit [Field K] in
theorem Bounds.clamp_of_ge {l : K} (hl : l ∈ b.lower i) (h : x ≤ l) : b.clamp i x = l := by
  rw [clamp, Option.mem_def.1 hl]
  change (b.upper i).elim (max x l) (fun u => min (max x l) u) = l
  rw [max_eq_right h]
  cases hu : b.upper i with
  | none   => rfl
  | some u => exact min_eq_left (b.ordered i l hl u hu)

variable [IsStrictOrderedRing K] {v t : K}

/-- **A coordinate that rises** stops at its upper bound. -/
theorem Bounds.clamp_rising {u : K} (hl : ∀ l ∈ b.lower i, l ≤ x) (hu : u ∈ b.upper i) (hv : 0 < v) (ht : 0 ≤ t) :
    b.clamp i (x + t * v) = x + min t ((u - x) / v) * v := by
  have hT : (u - x) / v * v = u - x := div_mul_cancel₀ _ hv.ne'
  rcases le_total t ((u - x) / v) with hle | hle
  · have hmul := mul_le_mul_of_nonneg_right hle hv.le
    rw [min_eq_left hle]
    refine clamp_of_mem (fun l h => (hl l h).trans (le_add_of_nonneg_right (mul_nonneg ht hv.le))) fun u' hu' => ?_
    obtain rfl : u = u' := Option.some.inj (hu.symm.trans hu')
    linarith
  · have hmul := mul_le_mul_of_nonneg_right hle hv.le
    rw [min_eq_right hle, hT, add_sub_cancel]
    exact clamp_of_le hu (by linarith)

/-- **A coordinate that falls** stops at its lower bound. -/
theorem Bounds.clamp_falling {l : K} (hl : l ∈ b.lower i) (hu : ∀ u ∈ b.upper i, x ≤ u) (hv : v < 0) (ht : 0 ≤ t) :
    b.clamp i (x + t * v) = x + min t ((l - x) / v) * v := by
  have hT : (l - x) / v * v = l - x := div_mul_cancel₀ _ hv.ne
  rcases le_total t ((l - x) / v) with hle | hle
  · have hmul := mul_le_mul_of_nonpos_right hle hv.le
    rw [min_eq_left hle]
    refine clamp_of_mem (fun l' hl' => ?_) fun u h =>
      (add_le_of_nonpos_right (mul_nonpos_of_nonneg_of_nonpos ht hv.le)).trans (hu u h)
    obtain rfl : l = l' := Option.some.inj (hl.symm.trans hl')
    linarith
  · have hmul := mul_le_mul_of_nonpos_right hle hv.le
    rw [min_eq_right hle, hT, add_sub_cancel]
    exact clamp_of_ge hl (by linarith)

end

/-! ## The path -/

section

variable (b : Bounds K n) (c : Compact K n) (x g : Fin n → K)

/-- The projected steepest-descent path. -/
def path (t : K) : Fin n → K := fun i => b.clamp i (x i - t * g i)

/-- The quadratic model, less its value at `x`. -/
def model (p : Fin n → K) : K := g ⬝ᵥ (p - x) + (p - x) ⬝ᵥ c.dense *ᵥ (p - x) / (2 : ℕ)

/-- The direction of a coordinate from a time on. -/
def directionAt (τ : K) (i : Fin n) : K := if (breakTime b x g i).any (· ≤ τ) then 0 else velocity b x g i

variable {b c x g} [IsStrictOrderedRing K] {i : Fin n} {t τ T : K}

/-- **How a coordinate goes along the path**: it stays, or it goes on for ever, or it stops at a bound. -/
theorem coordinate_cases (hx : b.Contains x) (i : Fin n) :
    (velocity b x g i = 0 ∧ breakTime b x g i = none ∧ ∀ t, 0 ≤ t → path b x g t i = x i) ∨
      velocity b x g i ≠ 0 ∧ ((breakTime b x g i = none ∧ ∀ t, 0 ≤ t → path b x g t i = x i + t * velocity b x g i) ∨
        ∃ T, breakTime b x g i = some T ∧ 0 < T ∧
          (x i + T * velocity b x g i) ∈ (if 0 < velocity b x g i then b.upper i else b.lower i) ∧
          ∀ t, 0 ≤ t → path b x g t i = x i + min t T * velocity b x g i) := by
  have hpath : ∀ t, path b x g t i = b.clamp i (x i + t * -g i) := fun t => by rw [path, mul_neg, sub_eq_add_neg]
  by_cases hup : 0 < -g i ∧ b.Below i (x i)
  · have hv : velocity b x g i = -g i := by rw [velocity, if_pos hup]
    refine .inr ⟨hv ▸ hup.1.ne', ?_⟩
    cases hu : b.upper i with
    | none   =>
      refine .inl ⟨by rw [breakTime, if_pos hup, hu]; rfl, fun t ht => ?_⟩
      rw [hpath, hv]
      refine Bounds.clamp_of_mem (fun l hl => ?_) (by rw [hu]; exact nofun)
      exact ((hx i).1 l hl).trans (le_add_of_nonneg_right (mul_nonneg ht hup.1.le))
    | some u =>
      refine .inr ⟨(u - x i) / -g i, by rw [breakTime, if_pos hup, hu]; rfl,
        div_pos (sub_pos.2 (hup.2 u hu)) hup.1, ?_, fun t ht => ?_⟩
      · rw [hv, if_pos hup.1, div_mul_cancel₀ _ hup.1.ne', add_sub_cancel]
        rfl
      · rw [hpath, hv]
        exact Bounds.clamp_rising (hx i).1 hu hup.1 ht
  by_cases hdown : -g i < 0 ∧ b.Above i (x i)
  · have hv : velocity b x g i = -g i := by rw [velocity, if_neg hup, if_pos hdown]
    refine .inr ⟨hv ▸ hdown.1.ne, ?_⟩
    cases hl : b.lower i with
    | none   =>
      refine .inl ⟨by rw [breakTime, if_neg hup, if_pos hdown, hl]; rfl, fun t ht => ?_⟩
      rw [hpath, hv]
      refine Bounds.clamp_of_mem (by rw [hl]; exact nofun) (fun u hu => ?_)
      exact (add_le_of_nonpos_right (mul_nonpos_of_nonneg_of_nonpos ht hdown.1.le)).trans ((hx i).2 u hu)
    | some l =>
      refine .inr ⟨(l - x i) / -g i, by rw [breakTime, if_neg hup, if_pos hdown, hl]; rfl,
        div_pos_of_neg_of_neg (sub_neg.2 (hdown.2 l hl)) hdown.1, ?_, fun t ht => ?_⟩
      · rw [hv, if_neg (not_lt.2 hdown.1.le), div_mul_cancel₀ _ hdown.1.ne, add_sub_cancel]
        rfl
      · rw [hpath, hv]
        exact Bounds.clamp_falling hl (hx i).2 hdown.1 ht
  · refine .inl ⟨by rw [velocity, if_neg hup, if_neg hdown], by rw [breakTime, if_neg hup, if_neg hdown], fun t ht => ?_⟩
    rw [hpath]
    rcases lt_trichotomy (-g i) 0 with hneg | hzero | hpos
    · -- the coordinate is pinned at its lower bound
      have hpinned : ¬ b.Above i (x i) := fun h => hdown ⟨hneg, h⟩
      rw [Bounds.Above, not_forall₂] at hpinned
      obtain ⟨l, hl, hle⟩ := hpinned
      obtain rfl : l = x i := le_antisymm ((hx i).1 l hl) (not_lt.1 hle)
      exact Bounds.clamp_of_ge hl (add_le_of_nonpos_right (mul_nonpos_of_nonneg_of_nonpos ht hneg.le))
    · rw [hzero, mul_zero, add_zero]
      exact Bounds.clamp_of_mem (hx i).1 (hx i).2
    · have hpinned : ¬ b.Below i (x i) := fun h => hup ⟨hpos, h⟩
      rw [Bounds.Below, not_forall₂] at hpinned
      obtain ⟨u, hu, hle⟩ := hpinned
      obtain rfl : u = x i := le_antisymm (not_lt.1 hle) ((hx i).2 u hu)
      exact Bounds.clamp_of_le hu (le_add_of_nonneg_right (mul_nonneg ht hpos.le))

omit [IsStrictOrderedRing K] in
theorem path_zero (hx : b.Contains x) : path b x g 0 = x := by
  funext i
  rw [path, zero_mul, sub_zero]
  exact Bounds.clamp_of_mem (hx i).1 (hx i).2

omit [IsStrictOrderedRing K] in
theorem path_contains (b : Bounds K n) (x g : Fin n → K) (t : K) : b.Contains (path b x g t) := fun i =>
  b.clamp_mem i _

theorem breakTime_pos (hx : b.Contains x) (h : breakTime b x g i = some T) : 0 < T := by
  rcases coordinate_cases hx i with ⟨-, hnone, -⟩ | ⟨-, ⟨hnone, -⟩ | ⟨T', hT', hpos, -, -⟩⟩
  · exact nomatch h.symm.trans hnone
  · exact nomatch h.symm.trans hnone
  · rwa [Option.some.inj (h.symm.trans hT')]

/-- **Between two times at which bounds are met the path is straight.** -/
theorem path_segment (hx : b.Contains x) (hτ : 0 ≤ τ) (ht : τ ≤ t) (hclear : ∀ T ∈ breakTime b x g i, τ < T → t ≤ T) :
    path b x g t i = path b x g τ i + (t - τ) * directionAt b x g τ i := by
  rcases coordinate_cases hx i with ⟨hv, hnone, hpath⟩ | ⟨-, ⟨hnone, hpath⟩ | ⟨T, hT, -, -, hpath⟩⟩
  · rw [hpath t (hτ.trans ht), hpath τ hτ, directionAt, hnone, hv]
    simp
  · rw [hpath t (hτ.trans ht), hpath τ hτ, directionAt, hnone]
    simp only [Option.any_none, Bool.false_eq_true, if_false]
    ring
  · rw [hpath t (hτ.trans ht), hpath τ hτ, directionAt, hT, Option.any_some]
    by_cases hle : T ≤ τ
    · rw [min_eq_right hle, min_eq_right (hle.trans ht), if_pos (decide_eq_true hle), mul_zero, add_zero]
    · have hlt : τ < T := not_le.1 hle
      rw [min_eq_left hlt.le, min_eq_left (hclear T hT hlt), if_neg (by simpa using hlt)]
      ring

theorem path_stopped (hx : b.Contains x) (hτ : 0 ≤ τ) (ht : τ ≤ t) (h : directionAt b x g τ i = 0) :
    path b x g t i = path b x g τ i := by
  rcases coordinate_cases hx i with ⟨-, -, hpath⟩ | ⟨hv, ⟨hnone, -⟩ | ⟨T, hT, -, -, hpath⟩⟩
  · rw [hpath t (hτ.trans ht), hpath τ hτ]
  · rw [directionAt, hnone] at h
    exact absurd h hv
  · have hle : T ≤ τ := by
      by_contra hlt
      rw [directionAt, hT, Option.any_some, if_neg (by simpa using hlt)] at h
      exact hv h
    rw [hpath t (hτ.trans ht), hpath τ hτ, min_eq_right hle, min_eq_right (hle.trans ht)]

/-- A coordinate that meets its bound at the time reached is there. -/
theorem path_met (hx : b.Contains x) (hT : breakTime b x g i = some T) :
    path b x g T i ∈ if 0 < velocity b x g i then b.upper i else b.lower i := by
  rcases coordinate_cases hx i with ⟨-, hnone, -⟩ | ⟨-, ⟨hnone, -⟩ | ⟨T', hT', hpos, hbound, hpath⟩⟩
  · exact nomatch hT.symm.trans hnone
  · exact nomatch hT.symm.trans hnone
  · obtain rfl : T = T' := Option.some.inj (hT.symm.trans hT')
    rwa [hpath T hpos.le, min_self]

/-- **The model along a line.** -/
theorem model_add (c : Compact K n) (x g p d : Fin n → K) (h : K) :
    model c x g (p + h • d) = model c x g p + h * (g ⬝ᵥ d + (c.dense *ᵥ (p - x)) ⬝ᵥ d) +
      h * h / (2 : ℕ) * (d ⬝ᵥ c.dense *ᵥ d) := by
  have hsymm := c.dense_positiveDefinite.symm
  have hmove : p + h • d - x = p - x + h • d := by rw [add_sub_right_comm]
  have hcross : d ⬝ᵥ c.dense *ᵥ (p - x) = (c.dense *ᵥ (p - x)) ⬝ᵥ d := dotProduct_comm _ _
  have hcross' : (p - x) ⬝ᵥ c.dense *ᵥ d = (c.dense *ᵥ (p - x)) ⬝ᵥ d := (Bfgs.dotProduct_mulVec_comm hsymm _ _).symm
  rw [model, model, hmove, mulVec_add, mulVec_smul]
  simp only [dotProduct_add, add_dotProduct, dotProduct_smul, smul_dotProduct, smul_eq_mul]
  rw [hcross, hcross']
  push_cast
  ring

end

/-! ## The search -/

section

variable [IsStrictOrderedRing K] (b : Bounds K n) (c : Compact K n) (x g : Fin n → K)

/-- **The search at the time it has reached.**  It stands on the path, the coordinates that have met their bounds have stopped,
the times at which the others do are ahead, and the model has fallen all the way. -/
structure At (s : Search K n) : Prop where
  nonneg    : 0 ≤ s.previous
  position  : ∀ i, x i + s.displacement i = path b x g s.previous i
  direction : ∀ i, s.direction i = directionAt b x g s.previous i
  active    : ∀ i, ∀ bound ∈ s.active i, path b x g s.previous i = bound ∧ s.direction i = 0
  sorted    : s.breakpoints.Pairwise fun p q => p.1 ≤ q.1
  nodup     : s.breakpoints.Nodup
  breaks    : ∀ t i, (t, i) ∈ s.breakpoints ↔ breakTime b x g i = some t ∧ s.previous < t
  descent   : StrictAntiOn (fun t => model c x g (path b x g t)) (Set.Icc 0 s.previous)

variable {b c x g} {s : Search K n} {t : K}

omit [IsStrictOrderedRing K] in
theorem mem_sortedBreakpoints {i : Fin n} : (t, i) ∈ sortedBreakpoints b x g ↔ breakTime b x g i = some t := by
  rw [sortedBreakpoints, List.mem_insertionSort, List.mem_filterMap]
  constructor
  · rintro ⟨j, -, hj⟩
    obtain ⟨t', ht', heq⟩ := Option.map_eq_some_iff.1 hj
    cases heq
    exact ht'
  · intro h
    exact ⟨i, List.mem_finRange i, by rw [h]; rfl⟩

theorem at_start (hx : b.Contains x) : At b c x g (.start b x g) where
  nonneg     := le_rfl
  position i := by
    change x i + 0 = path b x g 0 i
    rw [path_zero hx, add_zero]
  direction i := by
    change velocity b x g i = directionAt b x g 0 i
    rw [directionAt]
    cases hT : breakTime b x g i with
    | none   => rfl
    | some T => rw [Option.any_some, if_neg (by simpa using breakTime_pos hx hT)]
  active i   := nofun
  sorted     := List.pairwise_insertionSort _ _
  nodup      := by
    refine (List.perm_insertionSort _ _).nodup_iff.2 ((List.nodup_finRange n).filterMap fun i j p hi hj => ?_)
    obtain ⟨t, -, rfl⟩ := Option.map_eq_some_iff.1 hi
    obtain ⟨u, -, heq⟩ := Option.map_eq_some_iff.1 hj
    exact (congrArg Prod.snd heq).symm
  breaks t i := by
    change (t, i) ∈ sortedBreakpoints b x g ↔ _ ∧ 0 < t
    rw [mem_sortedBreakpoints]
    exact ⟨fun h => ⟨h, breakTime_pos hx h⟩, fun h => h.1⟩
  descent    := by
    change StrictAntiOn _ (Set.Icc 0 0)
    rw [Set.Icc_self]
    exact Set.strictAntiOn_singleton _

omit [IsStrictOrderedRing K] in
theorem at_beyond {next : K} (hnext : 0 ≤ next)
    (hdescent : StrictAntiOn (fun t => model c x g (path b x g t)) (Set.Icc 0 next))
    {bs : List (K × Fin n)} {s : Search K n} (hposition : ∀ i, x i + s.displacement i = path b x g next i)
    (hdirection : ∀ i, s.direction i = if (next, i) ∈ bs then velocity b x g i else directionAt b x g next i)
    (hactive : ∀ i, ∀ bound ∈ s.active i, path b x g next i = bound ∧ s.direction i = 0)
    (hsorted : bs.Pairwise fun p q => p.1 ≤ q.1) (hnodup : bs.Nodup)
    (hbreaks : ∀ t i, (t, i) ∈ bs → breakTime b x g i = some t)
    (hahead : ∀ t i, breakTime b x g i = some t → next < t → (t, i) ∈ bs) (hbeyond : ∀ t i, (t, i) ∈ bs → next < t) :
    At b c x g { s with breakpoints := bs, previous := next } where
  nonneg      := hnext
  position    := hposition
  direction i := (hdirection i).trans (if_neg fun hmem => lt_irrefl _ (hbeyond _ i hmem))
  active      := hactive
  sorted      := hsorted
  nodup       := hnodup
  breaks t i  := ⟨fun h => ⟨hbreaks t i h, hbeyond t i h⟩, fun h => hahead t i h.1 h.2⟩
  descent     := hdescent

/-- The coordinates that meet their bounds at a time stop, one by one. -/
theorem at_arrive (hx : b.Contains x) {next : K} (hnext : 0 ≤ next)
    (hdescent : StrictAntiOn (fun t => model c x g (path b x g t)) (Set.Icc 0 next))
    (bs : List (K × Fin n)) {s : Search K n} (hposition : ∀ i, x i + s.displacement i = path b x g next i)
    (hdirection : ∀ i, s.direction i = if (next, i) ∈ bs then velocity b x g i else directionAt b x g next i)
    (hactive : ∀ i, ∀ bound ∈ s.active i, path b x g next i = bound ∧ s.direction i = 0)
    (hsorted : bs.Pairwise fun p q => p.1 ≤ q.1) (hnodup : bs.Nodup)
    (hbreaks : ∀ t i, (t, i) ∈ bs → breakTime b x g i = some t ∧ next ≤ t)
    (hahead : ∀ t i, breakTime b x g i = some t → next < t → (t, i) ∈ bs) : At b c x g (s.arrive b x next bs) := by
  induction bs generalizing s with
  | nil          =>
    exact at_beyond hnext hdescent hposition hdirection hactive hsorted hnodup
      (fun t i h => absurd h List.not_mem_nil) hahead (fun t i h => absurd h List.not_mem_nil)
  | cons p bs ih =>
    obtain ⟨t, j⟩ := p
    have hhead := hbreaks t j List.mem_cons_self
    rw [Search.arrive]
    by_cases ht : t = next
    · subst ht
      rw [if_pos rfl]
      have hj : s.direction j = velocity b x g j := (hdirection j).trans (if_pos List.mem_cons_self)
      have hnot : (t, j) ∉ bs := (List.nodup_cons.1 hnodup).1
      have hmet := path_met hx hhead.1
      have hstop : s.stop b x j = { s with
          displacement := Function.update s.displacement j (path b x g t j - x j)
          active       := Function.update s.active j (some (path b x g t j))
          direction    := Function.update s.direction j 0 } := by
        rw [Search.stop, hj, Option.mem_def.1 hmet]
        rfl
      rw [hstop]
      refine ih (fun i => ?_) (fun i => ?_) (fun i bound hbound => ?_)
        (List.pairwise_cons.1 hsorted).2 (List.nodup_cons.1 hnodup).2
        (fun u i hu => hbreaks u i (List.mem_cons_of_mem _ hu)) (fun u i hu hlt => ?_)
      · by_cases hi : i = j
        · subst hi
          simp
        · simpa [Function.update_of_ne hi] using hposition i
      · by_cases hi : i = j
        · subst hi
          have hstopped : directionAt b x g t i = 0 := by
            rw [directionAt, hhead.1, Option.any_some, if_pos (decide_eq_true le_rfl)]
          simp [hnot, hstopped]
        · have hmem : (t, i) ∈ (t, j) :: bs ↔ (t, i) ∈ bs := by simp [hi]
          simpa [Function.update_of_ne hi, hmem] using hdirection i
      · by_cases hi : i = j
        · subst hi
          simpa using hbound
        · simp only [Function.update_of_ne hi] at hbound ⊢
          exact hactive i bound hbound
      · refine (List.mem_cons.1 (hahead u i hu hlt)).resolve_left fun heq => ?_
        exact hlt.ne' (congrArg Prod.fst heq)
    · rw [if_neg ht]
      have hbeyond : ∀ u i, (u, i) ∈ (t, j) :: bs → next < u := by
        intro u i hu
        have hlt : next < t := lt_of_le_of_ne hhead.2 (Ne.symm ht)
        rcases List.mem_cons.1 hu with heq | hu
        · cases heq
          exact hlt
        · exact hlt.trans_le ((List.pairwise_cons.1 hsorted).1 (u, i) hu)
      exact at_beyond hnext hdescent hposition hdirection hactive hsorted hnodup
        (fun u i hu => (hbreaks u i hu).1) hahead hbeyond

/-- A search that ends at a time: the model along the path has its first minimum there, and the point is that of the path. -/
def Found (b : Bounds K n) (c : Compact K n) (x g : Fin n → K) (cauchy : Cauchy K n) : Prop :=
  ∃ t, FirstMinimum (fun t => model c x g (path b x g t)) t ∧ cauchy = ⟨path b x g t, freeIndices b (path b x g t)⟩

theorem At.line (hx : b.Contains x) (h : At b c x g s) (ht : s.previous ≤ t)
    (hclear : ∀ i, ∀ T ∈ breakTime b x g i, s.previous < T → t ≤ T) :
    path b x g t = path b x g s.previous + (t - s.previous) • s.direction := by
  funext i
  rw [path_segment hx h.nonneg ht (hclear i), ← h.direction i]
  rfl

omit [IsStrictOrderedRing K] in
theorem At.displacement (h : At b c x g s) : path b x g s.previous - x = s.displacement := by
  funext i
  rw [Pi.sub_apply, ← h.position i, add_sub_cancel_left]

theorem At.quadratic (hx : b.Contains x) (h : At b c x g s) (hclear : ∀ i, ∀ T ∈ breakTime b x g i, s.previous < T → t ≤ T) :
    Quadratic (fun t => model c x g (path b x g t)) s.previous t
      (g ⬝ᵥ s.direction + (c.dense *ᵥ s.displacement) ⬝ᵥ s.direction) (s.direction ⬝ᵥ c.dense *ᵥ s.direction) := by
  intro u hu hut
  have hline := h.line hx hu fun i T hT hlt => hut.trans (hclear i T hT hlt)
  change model c x g (path b x g u) = _
  rw [hline, model_add, h.displacement]

theorem At.found (hx : b.Contains x) (h : At b c x g s) (ht : s.previous ≤ t) {z : Fin n → K}
    (hz : ∀ i, x i + z i = path b x g t i) (hmin : FirstMinimum (fun t => model c x g (path b x g t)) t) :
    Found b c x g (pointOnPath b x z s.active) := by
  refine ⟨t, hmin, ?_⟩
  have hpoint : (fun i => (s.active i).getD (b.clamp i (x i + z i))) = path b x g t := by
    funext i
    cases hactive : s.active i with
    | none       =>
      rw [Option.getD_none, hz i]
      exact Bounds.clamp_of_mem (path_contains b x g t i).1 (path_contains b x g t i).2
    | some bound =>
      obtain ⟨hbound, hstopped⟩ := h.active i bound hactive
      rw [Option.getD_some, path_stopped hx h.nonneg ht (by rw [← h.direction i, hstopped]), hbound]
  rw [pointOnPath, hpoint]

omit [IsStrictOrderedRing K] in
theorem At.clear (h : At b c x g s) : (∀ p ∈ s.breakpoints.head?, s.previous < p.1) ∧
    ∀ u, (∀ p ∈ s.breakpoints.head?, u ≤ p.1) → ∀ i, ∀ T ∈ breakTime b x g i, s.previous < T → u ≤ T := by
  constructor
  · intro p hp
    exact ((h.breaks p.1 p.2).1 (List.mem_of_mem_head? hp)).2
  · intro u hu i T hT hlt
    have hmem := (h.breaks T i).2 ⟨hT, hlt⟩
    have hsorted := h.sorted
    cases hbs : s.breakpoints with
    | nil       =>
      rw [hbs] at hmem
      exact absurd hmem List.not_mem_nil
    | cons p bs =>
      rw [hbs] at hmem hsorted hu
      have hhead : u ≤ p.1 := hu p rfl
      rcases List.mem_cons.1 hmem with heq | hmem
      · rw [← heq] at hhead
        exact hhead
      · exact hhead.trans ((List.pairwise_cons.1 hsorted).1 (T, i) hmem)

theorem At.ahead (h : At b c x g s) : ∃ u, s.previous < u ∧ ∀ p ∈ s.breakpoints.head?, u ≤ p.1 := by
  cases hbs : s.breakpoints with
  | nil       => exact ⟨s.previous + 1, lt_add_one _, nofun⟩
  | cons p bs =>
    refine ⟨p.1, h.clear.1 p (by rw [hbs]; rfl), fun q hq => ?_⟩
    obtain rfl : p = q := Option.some.inj hq
    exact le_rfl

omit [IsStrictOrderedRing K] in
theorem arrive_length (next : K) : ∀ (bs : List (K × Fin n)) (s : Search K n),
    (s.arrive b x next bs).breakpoints.length ≤ bs.length := by
  intro bs
  induction bs with
  | nil          => exact fun _ => le_rfl
  | cons p bs ih =>
    intro s
    rw [Search.arrive]
    split
    · exact (ih _).trans (Nat.le_succ _)
    · exact le_rfl

theorem At.interior (hx : b.Contains x) (h : At b c x g s) {slope curvature : K} (hcurvature : 0 < curvature) (hdown : slope < 0)
    (hslope : g ⬝ᵥ s.direction + (c.dense *ᵥ s.displacement) ⬝ᵥ s.direction = slope)
    (hbend : s.direction ⬝ᵥ c.dense *ᵥ s.direction = curvature)
    (hfits : ∀ p ∈ s.breakpoints.head?, s.previous + -slope / curvature < p.1) :
    Found b c x g (pointOnPath b x (s.displacement + (-slope / curvature) • s.direction) s.active) := by
  have hmin : 0 < -slope / curvature := div_pos (neg_pos.2 hdown) hcurvature
  obtain ⟨u, hu, hclear⟩ : ∃ u, s.previous + -slope / curvature < u ∧ ∀ p ∈ s.breakpoints.head?, u ≤ p.1 := by
    cases hbs : s.breakpoints.head? with
    | none   => exact ⟨_, lt_add_one _, nofun⟩
    | some p => exact ⟨p.1, hfits p hbs, fun q hq => (congrArg Prod.fst (Option.some.inj hq)).le⟩
  have hle : s.previous ≤ s.previous + -slope / curvature := le_add_of_nonneg_right hmin.le
  have hquadratic := h.quadratic hx (h.clear.2 u hclear)
  have hquadratic' := h.quadratic hx (h.clear.2 (s.previous + -slope / curvature) fun p hp => hu.le.trans (hclear p hp))
  rw [hslope, hbend] at hquadratic hquadratic'
  have hfall := hquadratic'.strictAntiOn hcurvature (by rw [add_sub_cancel_left])
  refine h.found hx hle (fun i => ?_) (.of_strictAntiOn (h.nonneg.trans hle) (strictAntiOn_append h.descent hfall h.nonneg hle) hu
    fun v hv hvu => hquadratic.le_of_minimizer hcurvature hdown.le hv hvu)
  have hline := h.line hx hle (h.clear.2 _ fun p hp => hu.le.trans (hclear p hp))
  rw [hline, add_sub_cancel_left, Pi.add_apply, Pi.add_apply, ← h.position i, add_assoc]

theorem At.next (hx : b.Contains x) (h : At b c x g s) {next : K} {i : Fin n} {bs : List (K × Fin n)}
    (hbs : s.breakpoints = (next, i) :: bs) {slope curvature : K} (hcurvature : 0 < curvature)
    (hslope : g ⬝ᵥ s.direction + (c.dense *ᵥ s.displacement) ⬝ᵥ s.direction = slope)
    (hbend : s.direction ⬝ᵥ c.dense *ᵥ s.direction = curvature) (hreach : next - s.previous ≤ -slope / curvature) :
    At b c x g (({ s with displacement := s.displacement + (next - s.previous) • s.direction }).arrive b x next
      ((next, i) :: bs)) := by
  have hle : s.previous ≤ next := (h.clear.1 (next, i) (by rw [hbs]; rfl)).le
  have hclear := h.clear.2 next fun p hp => by
    rw [hbs] at hp
    exact (congrArg Prod.fst (Option.some.inj hp)).le
  have hquadratic := h.quadratic hx hclear
  rw [hslope, hbend] at hquadratic
  have hfall := strictAntiOn_append h.descent (hquadratic.strictAntiOn hcurvature hreach) h.nonneg hle
  refine at_arrive hx (h.nonneg.trans hle) hfall _ (fun j => ?_) (fun j => ?_) (fun j bound hbound => ?_)
    (hbs ▸ h.sorted) (hbs ▸ h.nodup) (fun t j ht => ?_) (fun t j ht hlt => ?_)
  · rw [h.line hx hle hclear, Pi.add_apply, ← h.position j]
    exact (add_assoc _ _ _).symm
  · rw [← hbs]
    change s.direction j = _
    rw [h.direction j]
    by_cases hmem : (next, j) ∈ s.breakpoints
    · obtain ⟨hT, hlt⟩ := (h.breaks next j).1 hmem
      rw [if_pos hmem, directionAt, hT, Option.any_some, if_neg (by simpa using hlt)]
    · rw [if_neg hmem, directionAt, directionAt]
      cases hT : breakTime b x g j with
      | none   => rfl
      | some T =>
        have hiff : T ≤ s.previous ↔ T ≤ next := by
          refine ⟨fun hT => hT.trans hle, fun hTn => ?_⟩
          by_contra hlt
          obtain rfl : T = next := le_antisymm hTn (hclear j T hT (not_le.1 hlt))
          exact hmem ((h.breaks T j).2 ⟨hT, not_le.1 hlt⟩)
        simp only [Option.any_some, hiff]
  · obtain ⟨hpath, hstopped⟩ := h.active j bound hbound
    exact ⟨(path_stopped hx h.nonneg hle (by rw [← h.direction j, hstopped])).trans hpath, hstopped⟩
  · obtain ⟨hT, hlt⟩ := (h.breaks t j).1 (hbs ▸ ht)
    exact ⟨hT, hclear j t hT hlt⟩
  · exact hbs ▸ (h.breaks t j).2 ⟨ht, hle.trans_lt hlt⟩

/-- **A turn** ends the search at the first minimum of the model along the path, or goes on to the next time. -/
theorem At.turn (hx : b.Contains x) (h : At b c x g s) {r : Cauchy K n ⊕ Search K n} (hr : s.turn b c x g = some r) :
    match r with
    | .inl cauchy => Found b c x g cauchy
    | .inr s'     => At b c x g s' ∧ s'.breakpoints.length < s.breakpoints.length := by
  obtain ⟨u, hu, hclear⟩ := h.ahead
  rw [Search.turn] at hr
  by_cases hzero : ∀ i, s.direction i = 0
  · rw [if_pos hzero] at hr
    obtain rfl := Option.some.inj hr
    refine h.found hx le_rfl h.position (.of_strictAntiOn h.nonneg h.descent hu fun v hv _ => ?_)
    have hstay : path b x g v = path b x g s.previous :=
      funext fun i => path_stopped hx h.nonneg hv (by rw [← h.direction i, hzero i])
    change model c x g (path b x g s.previous) ≤ model c x g (path b x g v)
    rw [hstay]
  rw [if_neg hzero] at hr
  obtain ⟨bd, hbd, hr⟩ := Option.bind_eq_some_iff.1 hr
  obtain ⟨bz, hbz, hr⟩ := Option.bind_eq_some_iff.1 hr
  obtain rfl := Compact.times_spec hbd
  obtain rfl := Compact.times_spec hbz
  dsimp only at hr
  by_cases hcurvature : 0 < s.direction ⬝ᵥ c.dense *ᵥ s.direction
  swap
  · rw [if_pos hcurvature] at hr
    exact nomatch hr
  rw [if_neg (not_not.2 hcurvature)] at hr
  have hquadratic := h.quadratic hx (h.clear.2 u hclear)
  generalize hslope : g ⬝ᵥ s.direction + (c.dense *ᵥ s.displacement) ⬝ᵥ s.direction = slope at *
  by_cases hup : 0 ≤ slope
  · rw [if_pos hup] at hr
    obtain rfl := Option.some.inj hr
    exact h.found hx le_rfl h.position (.of_strictAntiOn h.nonneg h.descent hu fun v hv hvu =>
      hquadratic.le_of_nonneg hcurvature.le hup hv hvu)
  rw [if_neg hup] at hr
  have hdown : slope < 0 := not_le.1 hup
  cases hbs : s.breakpoints with
  | nil       =>
    simp only [hbs] at hr
    obtain rfl := Option.some.inj hr
    exact h.interior hx hcurvature hdown hslope rfl (by rw [hbs]; exact nofun)
  | cons p bs =>
    obtain ⟨next, i⟩ := p
    simp only [hbs] at hr
    by_cases hfits : -slope / (s.direction ⬝ᵥ c.dense *ᵥ s.direction) < next - s.previous
    · rw [if_pos hfits] at hr
      obtain rfl := Option.some.inj hr
      refine h.interior hx hcurvature hdown hslope rfl fun p hp => ?_
      rw [hbs] at hp
      obtain rfl := Option.some.inj hp
      linarith
    · rw [if_neg hfits] at hr
      obtain rfl := Option.some.inj hr
      have hnext := h.next hx hbs hcurvature hslope rfl (not_lt.1 hfits)
      rw [hbs] at hnext
      refine ⟨hnext, ?_⟩
      rw [Search.arrive, if_pos rfl]
      exact Nat.lt_succ_of_le (arrive_length next bs _)

theorem search_found (hx : b.Contains x) {cauchy : Cauchy K n} : ∀ (turns : ℕ) {s : Search K n}, At b c x g s →
    search b c x g turns s = some cauchy → Found b c x g cauchy := by
  intro turns
  induction turns with
  | zero          => exact nofun
  | succ turns ih =>
    intro s h hs
    rw [search] at hs
    obtain ⟨r, hr, hs⟩ := Option.bind_eq_some_iff.1 hs
    have hturn := h.turn hx hr
    cases r with
    | inl cauchy' =>
      obtain rfl := Option.some.inj hs
      exact hturn
    | inr s'      => exact ih hturn.1 hs

/-- **More turns than there are bounds to meet do not change the search.** -/
theorem search_more (hx : b.Contains x) : ∀ (turns turns' : ℕ) {s : Search K n}, At b c x g s → s.breakpoints.length < turns →
    s.breakpoints.length < turns' → search b c x g turns s = search b c x g turns' s := by
  intro turns
  induction turns with
  | zero          => exact fun _ _ _ hlt _ => absurd hlt (Nat.not_lt_zero _)
  | succ turns ih =>
    intro turns' s h hlt hlt'
    cases turns' with
    | zero        => exact absurd hlt' (Nat.not_lt_zero _)
    | succ turns' =>
      rw [search, search]
      cases hr : s.turn b c x g with
      | none   => rfl
      | some r =>
        have hturn := h.turn hx hr
        cases r with
        | inl cauchy => rfl
        | inr s'     => exact ih turns' hturn.1 (by omega) (by omega)

theorem generalizedCauchy_found (hx : b.Contains x) {cauchy : Cauchy K n} (h : generalizedCauchy b c x g = some cauchy) :
    Found b c x g cauchy := search_found hx _ (at_start hx) h

end

/-! ## The step -/

section

variable [IsStrictOrderedRing K] {b : Bounds K n} {c : Compact K n} {free : List (Fin n)} {r step : Fin n → K}

omit [LinearOrder K] [IsStrictOrderedRing K] in
theorem dot_support (u f : Fin n → K) :
    (u ⬝ᵥ fun k => if k ∈ free then f k else 0) = ∑ k ∈ free.toFinset, u k * f k := by
  rw [dotProduct, ← Finset.sum_subset (Finset.subset_univ free.toFinset)]
  · exact Finset.sum_congr rfl fun k hk => by rw [if_pos (List.mem_toFinset.1 hk)]
  · exact fun k _ hk => by rw [if_neg fun hmem => hk (List.mem_toFinset.2 hmem), mul_zero]

omit [LinearOrder K] [IsStrictOrderedRing K] in
/-- A row of the system, as the product of its column with the step. -/
theorem reduced_row {size j : ℕ} {theta : K} {F : Finset (Fin n)} {row w : ℕ → K} {column : ℕ → Fin n → K}
    (h : ∑ m ∈ Finset.range size, (row m - (∑ k ∈ F, column j k * column m k) / theta) * w m =
      ∑ k ∈ F, column j k * r k) :
    ∑ m ∈ Finset.range size, row m * (-w m / theta) =
      ∑ k ∈ F, column j k * (-(r k + (∑ m ∈ Finset.range size, column m k * w m) / theta) / theta) := by
  have hgram : (∑ k ∈ F, column j k * ∑ m ∈ Finset.range size, column m k * w m) / theta =
      ∑ m ∈ Finset.range size, (∑ k ∈ F, column j k * column m k) / theta * w m := by
    simp only [Finset.mul_sum, Finset.sum_div, Finset.sum_mul]
    rw [Finset.sum_comm]
    exact Finset.sum_congr rfl fun m _ => Finset.sum_congr rfl fun k _ => by ring
  have hrow : ∑ m ∈ Finset.range size, row m * w m -
      (∑ k ∈ F, column j k * ∑ m ∈ Finset.range size, column m k * w m) / theta = ∑ k ∈ F, column j k * r k := by
    rw [← h, hgram, ← Finset.sum_sub_distrib]
    exact Finset.sum_congr rfl fun m _ => by ring
  have hleft : ∑ m ∈ Finset.range size, row m * (-w m / theta) = -(∑ m ∈ Finset.range size, row m * w m) / theta := by
    rw [← Finset.sum_neg_distrib, Finset.sum_div]
    exact Finset.sum_congr rfl fun m _ => by ring
  have hright : ∑ k ∈ F, column j k * (-(r k + (∑ m ∈ Finset.range size, column m k * w m) / theta) / theta) =
      -(∑ k ∈ F, column j k * r k + (∑ k ∈ F, column j k * ∑ m ∈ Finset.range size, column m k * w m) / theta) / theta := by
    rw [Finset.sum_div, ← Finset.sum_add_distrib, ← Finset.sum_neg_distrib, Finset.sum_div]
    exact Finset.sum_congr rfl fun k _ => by ring
  rw [hleft, hright, ← hrow]
  ring

/-- **The step solves the system of the free coordinates.** -/
theorem subspaceStep_spec (hfree : free.Nodup) (h : subspaceStep c free r = some step) :
    (∀ i, i ∉ free → step i = 0) ∧ ∀ i ∈ free, (c.dense *ᵥ step) i = -r i := by
  have htheta := c.theta_pos.ne'
  rw [subspaceStep] at h
  by_cases hempty : c.pairs.isEmpty
  · rw [if_pos hempty] at h
    obtain rfl := Option.some.inj h
    refine ⟨fun i hi => if_neg hi, fun i hi => ?_⟩
    rw [c.dense_eq, List.isEmpty_iff.1 hempty, List.length_nil, Bfgs.dense, smul_mulVec, one_mulVec, Pi.smul_apply,
      if_pos hi, smul_eq_mul, mul_div_cancel₀ _ htheta]
  rw [if_neg hempty] at h
  obtain ⟨weights, hweights, h⟩ := Option.bind_eq_some_iff.1 h
  obtain rfl := Option.some.inj h
  refine ⟨fun i hi => if_neg hi, fun i hi => ?_⟩
  let size := 2 * c.pairs.length
  let correction : Fin n → K := fun k => ∑ j ∈ Finset.range size, c.columns j k * weights j
  have hcorrection : ∀ k, ((List.range size).map fun j => c.columns j k * weights j).sum = correction k := fun k => by
    rw [← List.sum_toFinset _ List.nodup_range, List.toFinset_range]
  have hrhs : ∀ f : Fin n → K, (free.map f).sum = ∑ k ∈ free.toFinset, f k := fun f => (List.sum_toFinset f hfree).symm
  have hrows := solve_spec hweights
  simp only [hrhs] at hrows
  -- the products of the columns with the step, by the rows of the system
  have hproduct : ∀ j < size, ∑ m ∈ Finset.range size, c.block j m * (-weights m / c.theta) = c.columns j ⬝ᵥ
      fun k => if k ∈ free then -(r k + ((List.range size).map fun j => c.columns j k * weights j).sum / c.theta) / c.theta
        else 0 := by
    intro j hj
    simp only [hcorrection]
    rw [dot_support]
    exact reduced_row (hrows j hj)
  rw [Compact.dense_mulVec_of_weights hproduct, Pi.sub_apply, Pi.smul_apply, smul_eq_mul, if_pos hi, hcorrection,
    Finset.sum_apply, mul_div_cancel₀ _ htheta]
  have hcolumns : ∑ j ∈ Finset.range size, ((-weights j / c.theta) • c.columns j) i = -correction i / c.theta := by
    rw [← Finset.sum_neg_distrib, Finset.sum_div]
    exact Finset.sum_congr rfl fun j _ => by
      rw [Pi.smul_apply, smul_eq_mul]
      ring
  rw [hcolumns]
  ring

/-- What part of a step a coordinate allows. -/
def Fits (b : Bounds K n) (point step : Fin n → K) (alpha : K) (i : Fin n) : Prop :=
  (∀ l ∈ b.lower i, l ≤ point i + alpha * step i) ∧ ∀ u ∈ b.upper i, point i + alpha * step i ≤ u

variable {point : Fin n → K} {alpha : K} {i : Fin n}

/-- A coordinate between its bounds truncates the step to what it allows. -/
theorem truncate_spec (habove : b.Above i (point i)) (hbelow : b.Below i (point i)) (halpha : 0 ≤ alpha) :
    0 ≤ truncate b point step alpha i ∧ truncate b point step alpha i ≤ alpha ∧
      ∀ a, 0 ≤ a → a ≤ truncate b point step alpha i → Fits b point step a i := by
  rw [truncate]
  by_cases hup : 0 < step i
  · rw [if_pos hup]
    have hlow : ∀ a, 0 ≤ a → ∀ l ∈ b.lower i, l ≤ point i + a * step i := fun a ha l hl =>
      (habove l hl).le.trans (le_add_of_nonneg_right (mul_nonneg ha hup.le))
    cases hu : b.upper i with
    | none   => exact ⟨halpha, le_rfl, fun a ha _ => ⟨hlow a ha, by rw [hu]; exact nofun⟩⟩
    | some u =>
      refine ⟨le_min halpha (div_nonneg (sub_nonneg.2 (hbelow u hu).le) hup.le), min_le_left _ _, fun a ha hle =>
        ⟨hlow a ha, fun u' hu' => ?_⟩⟩
      obtain rfl : u = u' := Option.some.inj (hu.symm.trans hu')
      have := (le_div_iff₀ hup).1 (hle.trans (min_le_right _ _))
      linarith
  rw [if_neg hup]
  by_cases hdown : step i < 0
  · rw [if_pos hdown]
    have hhigh : ∀ a, 0 ≤ a → ∀ u ∈ b.upper i, point i + a * step i ≤ u := fun a ha u hu =>
      (add_le_of_nonpos_right (mul_nonpos_of_nonneg_of_nonpos ha hdown.le)).trans (hbelow u hu).le
    cases hl : b.lower i with
    | none   => exact ⟨halpha, le_rfl, fun a ha _ => ⟨by rw [hl]; exact nofun, hhigh a ha⟩⟩
    | some l =>
      refine ⟨le_min halpha (div_nonneg_of_nonpos (sub_nonpos.2 (habove l hl).le) hdown.le), min_le_left _ _, fun a ha hle =>
        ⟨fun l' hl' => ?_, hhigh a ha⟩⟩
      obtain rfl : l = l' := Option.some.inj (hl.symm.trans hl')
      have := (le_div_iff_of_neg hdown).1 (hle.trans (min_le_right _ _))
      linarith
  · rw [if_neg hdown]
    have hzero : step i = 0 := le_antisymm (not_lt.1 hup) (not_lt.1 hdown)
    refine ⟨halpha, le_rfl, fun a _ _ => ⟨fun l hl => ?_, fun u hu => ?_⟩⟩
    · rw [hzero, mul_zero, add_zero]
      exact (habove l hl).le
    · rw [hzero, mul_zero, add_zero]
      exact (hbelow u hu).le

theorem foldl_truncate : ∀ (free : List (Fin n)), (∀ i ∈ free, b.Above i (point i) ∧ b.Below i (point i)) → ∀ alpha, 0 ≤ alpha →
    0 ≤ free.foldl (truncate b point step) alpha ∧ free.foldl (truncate b point step) alpha ≤ alpha ∧
      ∀ i ∈ free, Fits b point step (free.foldl (truncate b point step) alpha) i := by
  intro free
  induction free with
  | nil            => exact fun _ alpha halpha => ⟨halpha, le_rfl, nofun⟩
  | cons i free ih =>
    intro hfree alpha halpha
    obtain ⟨hi, hrest⟩ := List.forall_mem_cons.1 hfree
    obtain ⟨hnonneg, hle, hfits⟩ : 0 ≤ truncate b point step alpha i ∧ _ := truncate_spec hi.1 hi.2 halpha
    obtain ⟨hnonneg', hle', hfits'⟩ := ih hrest _ hnonneg
    rw [List.foldl_cons]
    exact ⟨hnonneg', hle'.trans hle, List.forall_mem_cons.2 ⟨hfits _ hnonneg' hle', hfits'⟩⟩

variable {x g : Fin n → K} {cauchy : Cauchy K n}

omit [Field K] [IsStrictOrderedRing K] in
theorem mem_freeIndices {x : Fin n → K} : i ∈ freeIndices b x ↔ b.Above i (x i) ∧ b.Below i (x i) := by
  simp [freeIndices]

/-- **The step on the free coordinates** stays in the box, moves nothing else and does not raise the model. -/
theorem primalMinimize_spec (hpoint : b.Contains cauchy.point) (hfree : cauchy.free = freeIndices b cauchy.point)
    (h : primalMinimize b c x g cauchy = some point) :
    b.Contains point ∧ (∀ i, i ∉ cauchy.free → point i = cauchy.point i) ∧ model c x g point ≤ model c x g cauchy.point := by
  rw [primalMinimize] at h
  by_cases hempty : cauchy.free.isEmpty
  · rw [if_pos hempty] at h
    obtain rfl := Option.some.inj h
    exact ⟨hpoint, fun _ _ => rfl, le_rfl⟩
  rw [if_neg hempty] at h
  obtain ⟨product, hproduct, h⟩ := Option.bind_eq_some_iff.1 h
  obtain ⟨step, hstep, h⟩ := Option.bind_eq_some_iff.1 h
  obtain rfl := Compact.times_spec hproduct
  have hnodup : cauchy.free.Nodup := by
    rw [hfree]
    exact (List.nodup_finRange n).filter _
  have hbetween : ∀ i ∈ cauchy.free, b.Above i (cauchy.point i) ∧ b.Below i (cauchy.point i) := fun i hi =>
    mem_freeIndices.1 (hfree ▸ hi)
  obtain ⟨hoff, hon⟩ := subspaceStep_spec hnodup hstep
  obtain ⟨hnonneg, hle, hfits⟩ : 0 ≤ cauchy.free.foldl (truncate b cauchy.point step) 1 ∧ _ :=
    foldl_truncate cauchy.free hbetween 1 zero_le_one
  generalize cauchy.free.foldl (truncate b cauchy.point step) 1 = alpha at *
  have hpoint' : point = cauchy.point + alpha • step := by
    rw [← Option.some.inj h]
    funext i
    by_cases hi : i ∈ cauchy.free
    · rw [if_pos hi]
      exact Bounds.clamp_of_mem (hfits i hi).1 (hfits i hi).2
    · rw [if_neg hi, Pi.add_apply, Pi.smul_apply, hoff i hi, smul_zero, add_zero]
  refine ⟨fun i => ?_, fun i hi => ?_, ?_⟩
  · rw [hpoint']
    by_cases hi : i ∈ cauchy.free
    · exact hfits i hi
    · rw [Pi.add_apply, Pi.smul_apply, hoff i hi, smul_zero, add_zero]
      exact hpoint i
  · rw [hpoint', Pi.add_apply, Pi.smul_apply, hoff i hi, smul_zero, add_zero]
  · have hslope : g ⬝ᵥ step + (c.dense *ᵥ (cauchy.point - x)) ⬝ᵥ step = -(step ⬝ᵥ c.dense *ᵥ step) := by
      rw [← add_dotProduct, add_comm, dotProduct_comm, ← dotProduct_neg]
      refine Finset.sum_congr rfl fun i _ => ?_
      by_cases hi : i ∈ cauchy.free
      · rw [Pi.neg_apply, hon i hi, neg_neg]
      · rw [hoff i hi, zero_mul, zero_mul]
    have hcurvature := c.dense_positiveDefinite.nonneg step
    rw [hpoint', model_add, hslope]
    have hgain : 0 ≤ alpha * (step ⬝ᵥ c.dense *ᵥ step) * (1 - alpha / 2) :=
      mul_nonneg (mul_nonneg hnonneg hcurvature) (by linarith)
    push_cast
    linarith

/-- **The geometry of a step**, for every box, every point in it, every gradient and every matrix.  A Cauchy point lies in the
box; the model along the projected path has its first local minimum there; the coordinates listed as free are those strictly
between their bounds.  The step on them stays in the box, moves nothing else and does not raise the model. -/
theorem geometry_spec (b : Bounds K n) (c : Compact K n) {x : Fin n → K} (g : Fin n → K) (hx : b.Contains x)
    {cauchy : Cauchy K n} (h : generalizedCauchy b c x g = some cauchy) :
    b.Contains cauchy.point ∧
    (∃ t, FirstMinimum (fun t => model c x g (path b x g t)) t ∧ cauchy.point = path b x g t) ∧
    (cauchy.free.Nodup ∧ ∀ i, i ∈ cauchy.free ↔ b.Above i (cauchy.point i) ∧ b.Below i (cauchy.point i)) ∧
    ∀ point, primalMinimize b c x g cauchy = some point →
      b.Contains point ∧ (∀ i, i ∉ cauchy.free → point i = cauchy.point i) ∧
        model c x g point ≤ model c x g cauchy.point := by
  obtain ⟨t, hmin, rfl⟩ := generalizedCauchy_found hx h
  have hpoint := path_contains b x g t
  exact ⟨hpoint, ⟨t, hmin, rfl⟩, ⟨(List.nodup_finRange n).filter _, fun i => mem_freeIndices⟩, fun point hprimal =>
    primalMinimize_spec hpoint rfl hprimal⟩

/-- A box with an open side. -/
def box : Bounds ℚ 2 := ⟨![some 0, none], ![some 1, none], by decide +kernel⟩

theorem geometry_spec_box : ∃ cauchy, generalizedCauchy box (.new 2 1) ![0, 0] ![-3, 1] = some cauchy ∧
    box.Contains cauchy.point ∧ ∀ i, i ∈ cauchy.free ↔ box.Above i (cauchy.point i) ∧ box.Below i (cauchy.point i) := by
  have hsome : (generalizedCauchy box (.new 2 1) ![0, 0] ![-3, 1]).isSome := by decide +kernel
  obtain ⟨cauchy, h⟩ := Option.isSome_iff_exists.1 hsome
  have hspec := geometry_spec box (.new 2 1) ![-3, 1] (x := ![0, 0]) (by decide +kernel) h
  exact ⟨cauchy, h, hspec.1, hspec.2.2.1.2⟩

end
end Lbfgsb
end Itofin
