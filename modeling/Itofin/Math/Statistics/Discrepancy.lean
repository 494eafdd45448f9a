import Itofin.Lib.Kernel
import Itofin.Math.Statistics.Sequence
import Mathlib.Algebra.BigOperators.Pi
import Mathlib.Data.List.GetD
import Mathlib.Tactic.Linarith
/-!
# Discrepancy — the L2 discrepancy of points in the unit cube

`DiscrepancyStatistics` of `math/statistics/discrepancy.rs`, in exact arithmetic: a point is added with its products with
the points before it, twice, and with itself.

The sums that are kept are those over all pairs and all points (`Holds`), so the order of the points is of no consequence.
The square of the discrepancy is a quadratic form with the kernel of the unit cube, a product of kernels of the interval, so
it is not negative (`squared_nonneg`).
-/
namespace Itofin

structure CompensatedSum (K : Type) where
  sum        : K
  correction : K
deriving DecidableEq

structure DiscrepancyStatistics (K : Type) where
  dimension     : ℕ
  /-- In rows of the dimension. -/
  values        : List (List K)
  pairSum       : CompensatedSum K
  coordinateSum : CompensatedSum K
deriving DecidableEq

variable {K : Type} [Field K] [LinearOrder K]

namespace CompensatedSum

def zero : CompensatedSum K := ⟨0, 0⟩

def add (s : CompensatedSum K) (value : K) : CompensatedSum K :=
  let next := s.sum + value
  ⟨next, s.correction + if |value| ≤ |s.sum| then (s.sum - next) + value else (value - next) + s.sum⟩

def total (s : CompensatedSum K) : K := s.sum + s.correction

theorem add_total (s : CompensatedSum K) (value : K) : (s.add value).total = s.total + value := by
  unfold add total
  dsimp only
  split <;> ring

theorem foldl_total (values : List K) : ∀ s : CompensatedSum K, (values.foldl add s).total = s.total + values.sum := by
  induction values with
  | nil => exact fun s => (add_zero _).symm
  | cons value values ih =>
    intro s
    rw [List.foldl_cons, ih, add_total, List.sum_cons, add_assoc]

end CompensatedSum

namespace DiscrepancyStatistics

def validateDiscrepancyShape (rows dimension : ℕ) : Except (Failure K) ℕ := do
  require (2 ≤ dimension) "discrepancy dimension must be at least two"
  let _ ← validateSequenceShape rows dimension
  require (rows ≤ 4096) "discrepancy row limit exceeded"
  require (rows * rows * dimension ≤ 100000000) "discrepancy pair work limit exceeded"
  .ok (rows * dimension)

def validateCoordinates (values : List K) : Except (Failure K) Unit :=
  require (∀ value ∈ values, 0 ≤ value ∧ value ≤ 1) "discrepancy coordinates must be finite and in [0,1]"

def new (dimension : ℕ) : Except (Failure K) (DiscrepancyStatistics K) := do
  let _ ← validateDiscrepancyShape (K := K) 1 dimension
  .ok ⟨dimension, [], .zero, .zero⟩

def samples (s : DiscrepancyStatistics K) : ℕ := s.values.length

/-- `product(k) (1 - max(x[i,k], x[j,k]))` -/
def product (point sample : List K) : K := ((point.zip sample).map (fun p => 1 - max p.1 p.2)).prod

def addWeighted (s : DiscrepancyStatistics K) (sample : List K) (weight : K) :
    Except (Failure K) (DiscrepancyStatistics K) := do
  require (weight = 1) "discrepancy requires unit weights"
  require (sample.length = s.dimension) "discrepancy sample dimension mismatch"
  let _ ← validateDiscrepancyShape (K := K) (s.samples + 1) s.dimension
  validateCoordinates sample
  let pairSum := s.values.foldl (fun sum point => sum.add (((2 : ℕ) : K) * product point sample)) s.pairSum
  let pairSum := pairSum.add (sample.map (fun value => 1 - value)).prod
  let coordinateProduct := (sample.map (fun value => 1 - value * value)).prod
  .ok { s with
    values := s.values ++ [sample]
    pairSum := pairSum
    coordinateSum := s.coordinateSum.add coordinateProduct }

def add (s : DiscrepancyStatistics K) (sample : List K) : Except (Failure K) (DiscrepancyStatistics K) :=
  s.addWeighted sample 1

def reset (s : DiscrepancyStatistics K) (dimension : ℕ) : Except (Failure K) (DiscrepancyStatistics K) := do
  let dimension := if dimension = 0 then s.dimension else dimension
  let _ ← validateDiscrepancyShape (K := K) 1 dimension
  .ok ⟨dimension, [], .zero, .zero⟩

/-- `8.0 * f64::EPSILON` -/
def slack : K := ((8 : ℕ) : K) / ((2 ^ 52 : ℕ) : K)

def finishDiscrepancy (sqrt : K → K) (pair coordinate constant : K) (dimension : ℕ) : Except (Failure K) K := do
  let squared := (pair - coordinate) + constant
  let tolerance := slack * ((dimension + 2 : ℕ) : K) * (|pair| + |coordinate| + |constant|)
  require (-tolerance ≤ squared) "invalid discrepancy squared result"
  .ok (sqrt (max squared 0))

def discrepancy (sqrt : K → K) (s : DiscrepancyStatistics K) : Except (Failure K) K := do
  require (0 < s.samples) "discrepancy requires at least one point"
  let count : K := s.samples
  let exponent : ℤ := s.dimension
  let pairTerm := s.pairSum.total / count / count
  let coordinateTerm := ((2 : ℕ) : K) ^ (1 - exponent) * s.coordinateSum.total / count
  let constantTerm := ((3 : ℕ) : K) ^ (-exponent)
  finishDiscrepancy sqrt pairTerm coordinateTerm constantTerm s.dimension

/-! ## The sums -/

/-- `sum(i,j) product(k) (1 - max(x[i,k], x[j,k]))` -/
def pairs (points : List (List K)) : K := (points.map (fun x => (points.map (fun y => product x y)).sum)).sum

/-- `sum(i) product(k) (1 - x[i,k]²)` -/
def coordinates (points : List (List K)) : K :=
  (points.map (fun x => (x.map (fun value => 1 - value * value)).prod)).sum

variable {points points' : List (List K)} {s s' : DiscrepancyStatistics K} {dimension : ℕ}

theorem product_comm (x y : List K) : product x y = product y x := by
  rw [product, product, ← List.zip_swap, List.map_map]
  exact congrArg List.prod (List.map_congr_left (fun p _ => congrArg (1 - ·) (max_comm _ _)))

theorem product_self (x : List K) : product x x = (x.map (fun value => 1 - value)).prod := by
  rw [product, List.zip, List.zipWith_self, List.map_map]
  exact congrArg List.prod (List.map_congr_left (fun value _ => congrArg (1 - ·) (max_self value)))

/-- One more point: its products with the others twice, and the one with itself. -/
theorem pairs_append (points : List (List K)) (x : List K) : pairs (points ++ [x]) =
    pairs points + (points.map (fun y => ((2 : ℕ) : K) * product y x)).sum + product x x := by
  have hcomm : points.map (product x) = points.map (fun y => product y x) :=
    List.map_congr_left (fun y _ => product_comm x y)
  simp only [pairs, List.map_append, List.sum_append, List.map_singleton, List.sum_singleton, List.sum_map_add,
    List.sum_map_mul_left]
  rw [hcomm]
  push_cast
  ring

omit [LinearOrder K] in
theorem coordinates_append (points : List (List K)) (x : List K) : coordinates (points ++ [x]) =
    coordinates points + (x.map (fun value => 1 - value * value)).prod := by
  rw [coordinates, coordinates, List.map_append, List.sum_append, List.map_singleton, List.sum_singleton]

theorem pairs_perm (h : points.Perm points') : pairs points = pairs points' := by
  have hinner : ∀ x, (points.map (product x)).sum = (points'.map (product x)).sum := fun x => (h.map _).sum_eq
  rw [pairs, List.map_congr_left (fun x _ => hinner x)]
  exact (h.map _).sum_eq

omit [LinearOrder K] in
theorem coordinates_perm (h : points.Perm points') : coordinates points = coordinates points' := (h.map _).sum_eq

/-! ## Runs -/

def accumulate (dimension : ℕ) (points : List (List K)) : Except (Failure K) (DiscrepancyStatistics K) := do
  let s ← new dimension
  points.foldlM add s

inductive Call (K : Type) where
  | addWeighted (sample : List K) (weight : K)
  | reset (dimension : ℕ)

/-- A call of the program, which goes on after an error. -/
def call (s : DiscrepancyStatistics K) (c : Call K) : DiscrepancyStatistics K :=
  match (match c with
    | .addWeighted sample weight => s.addWeighted sample weight
    | .reset dimension           => s.reset dimension) with
  | .ok s'   => s'
  | .error _ => s

def run (s : DiscrepancyStatistics K) (calls : List (Call K)) : DiscrepancyStatistics K := calls.foldl call s

/-- Points that an accumulator of the dimension takes. -/
structure Takes (dimension : ℕ) (points : List (List K)) : Prop where
  bounds : 2 ≤ dimension ∧ dimension ≤ 256
  rows   : points.length ≤ 4096 ∧ points.length * points.length * dimension ≤ 100000000
  cube   : ∀ x ∈ points, x.length = dimension ∧ ∀ value ∈ x, 0 ≤ value ∧ value ≤ 1

/-- **What the accumulator is after points.** -/
structure Holds (s : DiscrepancyStatistics K) (dimension : ℕ) (points : List (List K)) : Prop where
  dimension     : s.dimension = dimension
  values        : s.values = points
  pairSum       : s.pairSum.total = pairs points
  coordinateSum : s.coordinateSum.total = coordinates points

omit [Field K] [LinearOrder K] in
theorem validateDiscrepancyShape_eq_ok {rows n : ℕ} : validateDiscrepancyShape (K := K) rows dimension = .ok n ↔
    (2 ≤ dimension ∧ dimension ≤ 256) ∧ 0 < rows ∧ (rows ≤ 4096 ∧ rows * rows * dimension ≤ 100000000) ∧
      rows * dimension = n := by
  rw [validateDiscrepancyShape, validateSequenceShape]
  simp only [require_bind]
  by_cases h : (2 ≤ dimension ∧ dimension ≤ 256) ∧ 0 < rows ∧ rows ≤ 4096 ∧ rows * rows * dimension ≤ 100000000
  · obtain ⟨⟨hlow, hhigh⟩, hpos, hrows, hwork⟩ := h
    have hcomponents : rows * dimension ≤ 1000000 := by nlinarith
    rw [if_pos hlow, if_pos ⟨by omega, hhigh⟩, if_pos ⟨hpos, by omega⟩, if_pos hcomponents, ok_bind, if_pos hrows,
      if_pos hwork, Except.ok.injEq]
    exact ⟨fun h => ⟨⟨hlow, hhigh⟩, hpos, ⟨hrows, hwork⟩, h⟩, fun h => h.2.2.2⟩
  · refine iff_of_false (fun hrun => h ?_) (fun h' => h ⟨h'.1, h'.2.1, h'.2.2.1⟩)
    split_ifs at hrun with h₁ h₂ h₃ h₄ h₅ h₆
    · exact ⟨⟨h₁, h₂.2⟩, h₃.1, h₅, h₆⟩
    all_goals cases hrun

theorem Takes.of_append {x : List K} (h : Takes dimension (points ++ [x])) : Takes dimension points := by
  obtain ⟨hrows, hwork⟩ := h.rows
  rw [List.length_append, List.length_singleton] at hrows hwork
  refine ⟨h.bounds, ⟨by omega, le_trans (Nat.mul_le_mul_right _ ?_) hwork⟩, fun y hy => h.cube y (List.mem_append_left _ hy)⟩
  exact Nat.mul_le_mul (Nat.le_succ _) (Nat.le_succ _)

theorem Holds.append (h : Holds s dimension points) (x : List K) : Holds {
    dimension := dimension
    values := s.values ++ [x]
    pairSum := (s.values.foldl (fun sum point => sum.add (((2 : ℕ) : K) * product point x)) s.pairSum).add
      (x.map (fun value => 1 - value)).prod
    coordinateSum := s.coordinateSum.add (x.map (fun value => 1 - value * value)).prod } dimension (points ++ [x]) where
  dimension := rfl
  values := congrArg (· ++ [x]) h.values
  pairSum := by
    have hfold := CompensatedSum.foldl_total (points.map (fun point => ((2 : ℕ) : K) * product point x)) s.pairSum
    rw [List.foldl_map] at hfold
    dsimp only
    rw [CompensatedSum.add_total, h.values, hfold, h.pairSum, pairs_append, product_self]
  coordinateSum := by
    dsimp only
    rw [CompensatedSum.add_total, h.coordinateSum, coordinates_append]

/-- **A point is added just when it can be taken.** -/
theorem add_cases (h : Holds s dimension points) (ht : Takes dimension points) (x : List K) :
    (Takes dimension (points ++ [x]) ∧ ∃ s', s.add x = .ok s' ∧ Holds s' dimension (points ++ [x])) ∨
      ¬ Takes dimension (points ++ [x]) ∧ ∃ e, s.add x = .error e := by
  have hsamples : s.samples = points.length := congrArg List.length h.values
  rw [add, addWeighted, require_bind, if_pos rfl, require_bind, h.dimension, hsamples]
  by_cases hlen : x.length = dimension
  case neg =>
    refine .inr ⟨fun h' => hlen (h'.cube x (List.mem_append_right _ List.mem_cons_self)).1, ?_⟩
    rw [if_neg hlen]
    exact ⟨_, rfl⟩
  rw [if_pos hlen]
  cases hshape : validateDiscrepancyShape (K := K) (points.length + 1) dimension with
  | error e =>
    refine .inr ⟨fun h' => ?_, e, rfl⟩
    have hrows := h'.rows
    rw [List.length_append, List.length_singleton] at hrows
    rw [validateDiscrepancyShape_eq_ok.mpr ⟨ht.bounds, Nat.succ_pos _, hrows, rfl⟩] at hshape
    cases hshape
  | ok n =>
    obtain ⟨-, -, hrows, -⟩ := validateDiscrepancyShape_eq_ok.mp hshape
    rw [ok_bind, validateCoordinates, require_bind]
    by_cases hcube : ∀ value ∈ x, 0 ≤ value ∧ value ≤ 1
    · rw [if_pos hcube]
      refine .inl ⟨⟨ht.bounds, ?_, fun y hy => ?_⟩, _, rfl, h.append x⟩
      · rwa [List.length_append, List.length_singleton]
      · rcases List.mem_append.mp hy with hy | hy
        · exact ht.cube y hy
        · exact List.mem_singleton.mp hy ▸ ⟨hlen, hcube⟩
    · refine .inr ⟨fun h' => hcube (h'.cube x (List.mem_append_right _ List.mem_cons_self)).2, ?_⟩
      rw [if_neg hcube]
      exact ⟨_, rfl⟩

theorem addAll_cases : ∀ (rest : List (List K)) {s : DiscrepancyStatistics K} {points : List (List K)},
    Holds s dimension points → Takes dimension points →
    (Takes dimension (points ++ rest) ∧ ∃ s', rest.foldlM add s = .ok s' ∧ Holds s' dimension (points ++ rest)) ∨
      ¬ Takes dimension (points ++ rest) ∧ ∃ e, rest.foldlM add s = .error e
  | [], s, points, h, ht        => by
    rw [List.append_nil]
    exact .inl ⟨ht, s, rfl, h⟩
  | x :: rest, s, points, h, ht => by
    rw [List.foldlM_cons, show points ++ x :: rest = points ++ [x] ++ rest by simp]
    rcases add_cases h ht x with ⟨ht', s', hs', h'⟩ | ⟨ht', e, he⟩
    · rw [hs', ok_bind]
      exact addAll_cases rest h' ht'
    · rw [he]
      refine .inr ⟨fun hall => ht' ?_, e, rfl⟩
      induction rest using List.reverseRecOn with
      | nil => rwa [List.append_nil] at hall
      | append_singleton rest y ih => exact ih (by rw [← List.append_assoc] at hall; exact hall.of_append)

theorem takes_nil (h : 2 ≤ dimension ∧ dimension ≤ 256) : Takes dimension ([] : List (List K)) :=
  ⟨h, ⟨Nat.zero_le _, by simp⟩, fun x hx => absurd hx List.not_mem_nil⟩

/-- **The accumulation of points.** -/
theorem accumulate_cases (dimension : ℕ) (points : List (List K)) :
    (Takes dimension points ∧ ∃ s, accumulate dimension points = .ok s ∧ Holds s dimension points) ∨
      ¬ Takes dimension points ∧ ∃ e, accumulate dimension points = .error e := by
  rw [accumulate, new]
  cases hshape : validateDiscrepancyShape (K := K) 1 dimension with
  | error e =>
    refine .inr ⟨fun h => ?_, e, rfl⟩
    have hb := h.bounds
    rw [validateDiscrepancyShape_eq_ok.mpr ⟨hb, Nat.one_pos, ⟨by omega, by omega⟩, rfl⟩] at hshape
    cases hshape
  | ok n =>
    have ht : Takes dimension ([] : List (List K)) := takes_nil (validateDiscrepancyShape_eq_ok.mp hshape).1
    have h : Holds ⟨dimension, [], .zero, .zero⟩ dimension ([] : List (List K)) := ⟨rfl, rfl, add_zero _, add_zero _⟩
    exact addAll_cases points h ht

/-! ## The square of the discrepancy -/

/-- `A/N² - 2^(1-d) C/N + 3^(-d)` -/
def squared (dimension : ℕ) (points : List (List K)) : K :=
  pairs points / points.length / points.length -
    ((2 : ℕ) : K) ^ (1 - (dimension : ℤ)) * coordinates points / points.length + ((3 : ℕ) : K) ^ (-(dimension : ℤ))

/-- The coordinate of a point, or the identity. -/
def coordinate (k : ℕ) (i : Option (List K)) : Option K := i.map (fun x => x.getD k 0)

/-- The kernel of the unit cube: the integrals of the products of two indicators of boxes, or of the volume. -/
def cube (dimension : ℕ) : Option (List K) → Option (List K) → K :=
  ∏ k ∈ Finset.range dimension, fun i j => Kernel.interval (coordinate k i) (coordinate k j)

omit [Field K] [LinearOrder K] in
theorem prod_zip {M : Type} [CommMonoid M] {α β : Type} (f : α × β → M) (a : α) (b : β) : ∀ {n : ℕ} {x : List α} {y : List β},
    x.length = n → y.length = n → ((x.zip y).map f).prod = ∏ k ∈ Finset.range n, f (x.getD k a, y.getD k b)
  | 0, x, y, hx, hy         => by
    rw [List.eq_nil_of_length_eq_zero hx]
    rfl
  | n + 1, x :: l, y :: m, hx, hy => by
    rw [Finset.prod_range_succ', List.zip_cons_cons, List.map_cons, List.prod_cons,
      prod_zip f a b (Nat.succ.inj hx) (Nat.succ.inj hy), mul_comm]
    rfl

theorem cube_apply (dimension : ℕ) (i j : Option (List K)) :
    cube dimension i j = ∏ k ∈ Finset.range dimension, Kernel.interval (coordinate k i) (coordinate k j) := by
  rw [cube, Finset.prod_apply, Finset.prod_apply]

theorem cube_pair {x y : List K} (hx : x.length = dimension) (hy : y.length = dimension) :
    cube dimension (some x) (some y) = product x y := by
  rw [cube_apply, product, prod_zip _ 0 0 hx hy]
  rfl

theorem cube_point {x : List K} (hx : x.length = dimension) : cube dimension (some x) none =
    (((2 : ℕ) : K) ^ dimension)⁻¹ * (x.map (fun value => 1 - value * value)).prod := by
  have hmap : x.map (fun value => 1 - value * value) = (x.zip x).map (fun p => 1 - p.1 * p.2) := by
    rw [List.zip, List.zipWith_self, List.map_map]
    rfl
  rw [cube_apply, hmap, prod_zip _ 0 0 hx hx]
  simp only [coordinate, Option.map_some, Option.map_none, Kernel.interval]
  rw [Finset.prod_div_distrib, Finset.prod_const, Finset.card_range, div_eq_inv_mul]

theorem cube_comm (dimension : ℕ) (i j : Option (List K)) : cube dimension i j = cube dimension j i := by
  rw [cube_apply, cube_apply]
  refine Finset.prod_congr rfl (fun k _ => ?_)
  cases i with
  | none   => cases j <;> rfl
  | some x =>
    cases j with
    | none   => rfl
    | some y => exact congrArg (1 - ·) (max_comm _ _)

theorem cube_volume (dimension : ℕ) : cube dimension (none : Option (List K)) none = ((3 : ℕ) : K) ^ (-(dimension : ℤ)) := by
  rw [cube_apply]
  simp only [coordinate, Option.map_none, Kernel.interval, Finset.prod_const, Finset.card_range]
  rw [zpow_neg, zpow_natCast, one_div, inv_pow]

variable [IsStrictOrderedRing K]

theorem cube_squares (h : ∀ x ∈ points, x.length = dimension ∧ ∀ value ∈ x, 0 ≤ value ∧ value ≤ 1) :
    Kernel.Squares {i : Option (List K) | ∀ x ∈ i, x ∈ points} (cube dimension) := by
  refine Kernel.Squares.prod _ (fun k hk => ?_)
  have hinterval := Kernel.interval_squares (points.map (fun x => x.getD k 0)) (fun v hv => by
    obtain ⟨x, hx, rfl⟩ := List.mem_map.mp hv
    have hlt : k < x.length := (h x hx).1 ▸ Finset.mem_range.mp hk
    rw [List.getD_eq_getElem _ _ hlt]
    exact (h x hx).2 _ (List.getElem_mem hlt))
  refine hinterval.comap (coordinate k) (fun i hi v hv => ?_)
  obtain ⟨x, hx, rfl⟩ := Option.mem_map.mp hv
  exact List.mem_map_of_mem (hi x hx)

/-- **The square of the discrepancy is not negative.** -/
theorem squared_nonneg (h : ∀ x ∈ points, x.length = dimension ∧ ∀ value ∈ x, 0 ≤ value ∧ value ≤ 1) :
    0 ≤ squared dimension points := by
  have hform := (cube_squares h).form_nonneg (fun i => i.elim (-1) (fun _ => (points.length : K)⁻¹))
    (none :: points.map some) (fun i hi => by
      rcases List.mem_cons.mp hi with rfl | hi
      · exact fun x hx => nomatch hx
      · obtain ⟨x, hx, rfl⟩ := List.mem_map.mp hi
        exact fun y hy => Option.mem_some.mp hy ▸ hx)
  have hpair : ∀ x ∈ points, ∀ y ∈ points, cube dimension (some x) (some y) = product x y :=
    fun x hx y hy => cube_pair (h x hx).1 (h y hy).1
  have hpoint : ∀ x ∈ points, cube dimension (some x) none =
      (((2 : ℕ) : K) ^ dimension)⁻¹ * (x.map (fun value => 1 - value * value)).prod := fun x hx => cube_point (h x hx).1
  simp only [List.map_cons, List.map_map, List.sum_cons, Function.comp_def, Option.elim_none, Option.elim_some,
    List.sum_map_add, List.sum_map_mul_left, cube_comm dimension none (some _)] at hform
  rw [List.map_congr_left hpoint, List.map_congr_left (fun x hx => congrArg List.sum (List.map_congr_left (hpair x hx))),
    List.sum_map_mul_left, cube_volume] at hform
  have htwo : ((2 : ℕ) : K) ^ (1 - (dimension : ℤ)) = ((2 : ℕ) : K) * (((2 : ℕ) : K) ^ dimension)⁻¹ := by
    rw [zpow_sub₀ (Nat.cast_ne_zero.mpr two_ne_zero), zpow_one, zpow_natCast, div_eq_mul_inv]
  rw [squared, htwo, pairs, coordinates]
  apply hform.trans_eq
  push_cast
  ring

omit [IsStrictOrderedRing K] in
theorem accumulate_holds (h : accumulate dimension points = .ok s) : Takes dimension points ∧ Holds s dimension points := by
  rcases accumulate_cases dimension points with ⟨ht, s', hs', hh⟩ | ⟨-, e, he⟩
  · obtain rfl := Except.ok.inj (hs'.symm.trans h)
    exact ⟨ht, hh⟩
  · cases he.symm.trans h

omit [IsStrictOrderedRing K] in
theorem accumulate_append (h : accumulate dimension points = .ok s) (x : List K) :
    accumulate dimension (points ++ [x]) = s.add x := by
  unfold accumulate at h ⊢
  cases hn : new (K := K) dimension with
  | error e =>
    rw [hn] at h
    cases h
  | ok s₀ =>
    rw [hn, ok_bind] at h
    rw [ok_bind, List.foldlM_append, h, ok_bind, List.foldlM_cons]
    cases s.add x <;> rfl

omit [IsStrictOrderedRing K] in
theorem accumulate_call (h : accumulate s.dimension s.values = .ok s) (c : Call K) :
    accumulate (s.call c).dimension (s.call c).values = .ok (s.call c) := by
  cases c with
  | addWeighted sample weight =>
    rw [call]
    cases hadd : s.addWeighted sample weight with
    | error e => exact h
    | ok s'   =>
      have hw : weight = 1 := by
        rw [addWeighted, require_bind] at hadd
        split at hadd
        · assumption
        · cases hadd
      have hs' : accumulate s.dimension (s.values ++ [sample]) = .ok s' :=
        (accumulate_append h sample).trans (by rwa [hw] at hadd)
      obtain ⟨-, hh⟩ := accumulate_holds hs'
      rw [hh.dimension, hh.values]
      exact hs'
  | reset dimension =>
    rw [call]
    cases hreset : s.reset dimension with
    | error e => exact h
    | ok s'   =>
      unfold reset at hreset
      dsimp only at hreset
      cases hshape : validateDiscrepancyShape (K := K) 1 (if dimension = 0 then s.dimension else dimension) with
      | error e =>
        rw [hshape] at hreset
        cases hreset
      | ok n =>
        rw [hshape, ok_bind] at hreset
        obtain rfl := Except.ok.inj hreset
        dsimp only
        rw [accumulate, new, hshape]
        rfl

omit [IsStrictOrderedRing K] in
theorem accumulate_run {s₀ : DiscrepancyStatistics K} (h : new dimension = .ok s₀) (calls : List (Call K)) :
    accumulate (run s₀ calls).dimension (run s₀ calls).values = .ok (run s₀ calls) := by
  have hrun : ∀ (calls : List (Call K)) {s : DiscrepancyStatistics K}, accumulate s.dimension s.values = .ok s →
      accumulate (run s calls).dimension (run s calls).values = .ok (run s calls) := fun calls => by
    induction calls with
    | nil => exact fun h => h
    | cons c calls ih => exact fun h => ih (accumulate_call h c)
  have hnil : accumulate dimension [] = .ok s₀ := by
    rw [accumulate, h]
    rfl
  obtain ⟨-, hh⟩ := accumulate_holds hnil
  exact hrun calls (by rw [hh.dimension, hh.values]; exact hnil)

theorem finishDiscrepancy_eq (sqrt : K → K) {pair coordinate constant : K} (dimension : ℕ)
    (h : 0 ≤ (pair - coordinate) + constant) :
    finishDiscrepancy sqrt pair coordinate constant dimension = .ok (sqrt ((pair - coordinate) + constant)) := by
  have hslack : (0 : K) ≤ slack := div_nonneg (Nat.cast_nonneg _) (Nat.cast_nonneg _)
  have htolerance : 0 ≤ slack * ((dimension + 2 : ℕ) : K) * (|pair| + |coordinate| + |constant|) :=
    mul_nonneg (mul_nonneg hslack (Nat.cast_nonneg _)) (by positivity)
  rw [finishDiscrepancy, require_bind, if_pos ((neg_nonpos.mpr htolerance).trans h), max_eq_left h]

theorem discrepancy_eq (h : Holds s dimension points) (ht : Takes dimension points) (hne : points ≠ []) (sqrt : K → K) :
    s.discrepancy sqrt = .ok (sqrt (squared dimension points)) := by
  have hsamples : s.samples = points.length := congrArg List.length h.values
  have hnonneg := squared_nonneg ht.cube
  rw [discrepancy, hsamples, require_bind, if_pos (List.length_pos_of_ne_nil hne)]
  dsimp only
  rw [h.pairSum, h.coordinateSum, h.dimension]
  exact finishDiscrepancy_eq sqrt dimension hnonneg

/-- **The discrepancy of points in the unit cube.**  An accumulator takes them just when there are not too many; then its
sums are those over all pairs and all points, the square of the discrepancy is not negative, and the discrepancy is its root
in any order of the points.  Every run leaves the accumulation of the points that are held. -/
theorem discrepancy_spec (sqrt : K → K) (dimension : ℕ) (points : List (List K)) :
    ((∃ s, accumulate dimension points = .ok s) ↔ Takes dimension points) ∧
      (∀ s, accumulate dimension points = .ok s → s.values = points ∧ s.pairSum.total = pairs points ∧
        s.coordinateSum.total = coordinates points ∧ 0 ≤ squared dimension points ∧
        (points ≠ [] → s.discrepancy sqrt = .ok (sqrt (squared dimension points))) ∧
        ∀ points', points.Perm points' → squared dimension points' = squared dimension points ∧
          ∃ s', accumulate dimension points' = .ok s' ∧ s'.discrepancy sqrt = s.discrepancy sqrt) ∧
      ∀ s₀, new dimension = .ok s₀ → ∀ calls : List (Call K),
        accumulate (run s₀ calls).dimension (run s₀ calls).values = .ok (run s₀ calls) := by
  refine ⟨?_, fun s hs => ?_, fun s₀ hs₀ calls => accumulate_run hs₀ calls⟩
  · rcases accumulate_cases dimension points with ⟨ht, s, hs, -⟩ | ⟨ht, e, he⟩
    · exact iff_of_true ⟨s, hs⟩ ht
    · exact iff_of_false (fun ⟨s, hs⟩ => by cases he.symm.trans hs) ht
  · obtain ⟨ht, h⟩ := accumulate_holds hs
    refine ⟨h.values, h.pairSum, h.coordinateSum, squared_nonneg ht.cube, fun hne => discrepancy_eq h ht hne sqrt,
      fun points' hp => ?_⟩
    have hsquared : squared dimension points' = squared dimension points := by
      rw [squared, squared, pairs_perm hp, coordinates_perm hp, hp.length_eq]
    have ht' : Takes dimension points' := ⟨ht.bounds, hp.length_eq ▸ ht.rows, fun x hx => ht.cube x (hp.mem_iff.mpr hx)⟩
    obtain ⟨-, s', hs', h'⟩ | ⟨hn, -⟩ := accumulate_cases dimension points'
    · refine ⟨hsquared, s', hs', ?_⟩
      by_cases hne : points = []
      · obtain rfl : points' = [] := List.perm_nil.mp (hne ▸ hp.symm)
        rw [hne] at hs
        rw [Except.ok.inj (hs.symm.trans hs')]
      · have hne' : points' ≠ [] := fun h => hne (List.perm_nil.mp (h ▸ hp))
        rw [discrepancy_eq h ht hne, discrepancy_eq h' ht' hne', hsquared]
    · exact absurd ht' hn

/-- Two points of the square. -/
theorem discrepancy_spec_two : (∃ s, accumulate 2 [[(1 : ℚ) / 2, 1 / 4], [3 / 4, 1]] = .ok s ∧
    s.discrepancy (fun x => x) = .ok (squared 2 [[1 / 2, 1 / 4], [3 / 4, 1]])) ∧
      squared 2 [[(1 : ℚ) / 2, 1 / 4], [3 / 4, 1]] = 67 / 2304 := by
  have hspec := discrepancy_spec (fun x : ℚ => x) 2 [[1 / 2, 1 / 4], [3 / 4, 1]]
  obtain ⟨s, hs⟩ := hspec.1.mpr ⟨by decide, by decide, by decide +kernel⟩
  obtain ⟨-, -, -, -, hroot, -⟩ := hspec.2.1 s hs
  exact ⟨⟨s, hs, hroot (List.cons_ne_nil _ _)⟩, by decide +kernel⟩

end DiscrepancyStatistics

end Itofin
