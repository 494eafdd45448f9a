import Itofin.Optimize.Problem
/-!
# Rounded — the matrices and the projected path in rounded arithmetic

`Compact` of `lbfgsb.rs` and `lbfgsb/geometry.rs`, over the numbers of a floating format, where a product or a solution that
is not finite is given up.

The search along the path ends: a turn that does not end it passes at least one of the times at which a bound is met
(`turn_spec`).
-/
namespace Itofin
namespace Optimize
namespace Lbfgsb

open Format (Number)

variable {K : Type} [Field K] [LinearOrder K] {R : Format K} {n : ℕ}

/-- `f64::EPSILON` -/
def epsilon : R.Number := R.literal 1 (2 ^ 52)

def sum (values : List R.Number) : R.Number := values.foldl (· + ·) 0

def dot (a b : Point R n) : R.Number := sum ((List.finRange n).map fun i => a i * b i)

/-- The vector, if it is finite. -/
def finiteOrNone (v : Point R n) : Option (Point R n) := if ∀ i, (v i).isFinite then some v else none

/-! ## The solver -/

variable (R) in
structure System where
  coefficient : ℕ → ℕ → R.Number
  right       : ℕ → R.Number

/-- The row from `k` on with the largest entry in column `k`, the last of several; what is not a number is largest. -/
def pivot (size k : ℕ) (a : ℕ → ℕ → R.Number) : ℕ :=
  (List.range' (k + 1) (size - (k + 1))).foldl
    (fun p i => if (a i k).IsNan ∨ (a p k).abs ≤ (a i k).abs then i else p) k

def scale (size : ℕ) (a : ℕ → ℕ → R.Number) : R.Number :=
  ((List.range size).flatMap fun i => (List.range size).map fun j => (a i j).abs).foldl Number.max 0

def System.swap (s : System R) (k pivot : ℕ) : System R where
  coefficient i := s.coefficient (Equiv.swap k pivot i)
  right i       := s.right (Equiv.swap k pivot i)

/-- The rows below `k` without their entries in column `k`, which are not read again. -/
def System.eliminate (s : System R) (k : ℕ) : System R where
  coefficient i j :=
    if k < i ∧ k < j then s.coefficient i j - s.coefficient i k / s.coefficient k k * s.coefficient k j
    else s.coefficient i j
  right i         := if k < i then s.right i - s.coefficient i k / s.coefficient k k * s.right k else s.right i

/-- A turn of the elimination, unless its pivot is too small. -/
def System.reduce (size : ℕ) (scale : R.Number) (s : System R) (k : ℕ) : Option (System R) :=
  let s := s.swap k (pivot size k s.coefficient)
  let diagonal := s.coefficient k k
  if ¬ diagonal.isFinite ∨ diagonal.abs ≤ R.ofNat 64 * epsilon * scale then none else some (s.eliminate k)

def System.backward (size : ℕ) (s : System R) : ℕ → R.Number :=
  (List.range size).reverse.foldl (fun x i =>
    let known := sum ((List.range' (i + 1) (size - (i + 1))).map fun j => s.coefficient i j * x j)
    Function.update x i ((s.right i - known) / s.coefficient i i)) fun _ => 0

def solve (size : ℕ) (s : System R) : Option (ℕ → R.Number) := do
  let scale := scale size s.coefficient
  if ¬ scale.isFinite ∨ scale.Equals 0 ∨ ¬ ∀ i < size, (s.right i).isFinite then none
  else
    let s ← (List.range size).foldlM (System.reduce size scale) s
    let x := s.backward size
    if ∀ i < size, (x i).isFinite then some x else none

/-! ## The matrices -/

variable (R n) in
structure Pair where
  s  : Point R n
  y  : Point R n
  sy : R.Number

variable (R n) in
/-- The pairs are stored oldest first. -/
structure Compact where
  maxcor : ℕ
  pairs  : List (Pair R n)
  theta  : R.Number

namespace Compact

def new (maxcor : ℕ) : Compact R n := ⟨maxcor, [], 1⟩

/-- Whether the pair is accepted, and the matrix with it. -/
def update (c : Compact R n) (s y : Point R n) : Bool × Compact R n :=
  let sy := dot s y
  let yy := dot y y
  if ¬ (sy.isFinite ∧ yy.isFinite ∧ epsilon * yy < sy) then (false, c)
  else
    let theta := yy / sy
    if ¬ theta.isFinite ∨ theta ≤ 0 then (false, c)
    else
      let pairs := if c.pairs.length = c.maxcor then c.pairs.tail else c.pairs
      (true, { c with pairs := pairs ++ [⟨s, y, sy⟩], theta })

variable (c : Compact R n)

def s (i : ℕ) : Point R n := (c.pairs.map Pair.s).getD i fun _ => 0

def y (i : ℕ) : Point R n := (c.pairs.map Pair.y).getD i fun _ => 0

/-- `W = [Y, theta S]` -/
def columns (i : ℕ) : Point R n :=
  let count := c.pairs.length
  if i < count then c.y i else fun k => c.theta * c.s (i - count) k

/-- `[-D, L'; L, theta S'S]`, where `L` is below the diagonal. -/
def block (i j : ℕ) : R.Number :=
  let count := c.pairs.length
  if i < count then
    if j < count then if i = j then -(c.pairs.map Pair.sy).getD i 0 else 0
    else if i < j - count then dot (c.s (j - count)) (c.y i) else 0
  else
    if j < count then if j < i - count then dot (c.s (i - count)) (c.y j) else 0
    else c.theta * dot (c.s (i - count)) (c.s (j - count))

def times (v : Point R n) : Option (Point R n) := do
  if c.pairs.isEmpty then finiteOrNone fun i => c.theta * v i
  else
    let size := 2 * c.pairs.length
    let weights ← solve size ⟨c.block, fun i => dot (c.columns i) v⟩
    finiteOrNone ((List.range size).foldl (fun result i k => result k - weights i * c.columns i k) fun i => c.theta * v i)

end Compact

/-! ## The projected path -/

variable (R n) in
/-- The generalized Cauchy point and the coordinates strictly between their bounds. -/
structure Cauchy where
  point : Point R n
  free  : List (Fin n)

section

variable (bounds : Bounds R n)

def freeIndices (x : Point R n) : List (Fin n) :=
  (List.finRange n).filter fun i => bounds.lower i < x i ∧ x i < bounds.upper i

def pointOnPath (x displacement : Point R n) (active : Fin n → Option R.Number) : Option (Cauchy R n) :=
  (finiteOrNone fun i => (active i).getD ((x i + displacement i).clamp (bounds.lower i) (bounds.upper i))).map fun point =>
    ⟨point, freeIndices bounds point⟩

variable (R n) in
/-- The search along the path: the time it has reached, and the times at which bounds are met from there on. -/
structure Walk where
  displacement : Point R n
  active       : Fin n → Option R.Number
  direction    : Point R n
  previous     : R.Number
  breakpoints  : List (R.Number × Fin n)

variable (c : Compact R n) (x g : Point R n)

/-- The direction of a coordinate at first. -/
def velocity (i : Fin n) : R.Number :=
  let velocity := -g i
  if 0 < velocity ∧ x i < bounds.upper i then velocity else if velocity < 0 ∧ bounds.lower i < x i then velocity else 0

/-- The time at which it meets a bound, if it is finite. -/
def breakTime (i : Fin n) : Option R.Number :=
  let velocity := -g i
  if 0 < velocity ∧ x i < bounds.upper i then
    let time := (bounds.upper i - x i) / velocity
    if time.isFinite then some time else none
  else if velocity < 0 ∧ bounds.lower i < x i then
    let time := (bounds.lower i - x i) / velocity
    if time.isFinite then some time else none
  else none

def sortedBreakpoints : List (R.Number × Fin n) :=
  ((List.finRange n).filterMap fun i => (breakTime bounds x g i).map fun time => (time, i)).mergeSort fun p q => p.1 ≤ q.1

def Walk.start : Walk R n := ⟨fun _ => 0, fun _ => none, velocity bounds x g, 0, sortedBreakpoints bounds x g⟩

/-- The coordinate stops at its bound. -/
def Walk.stop (w : Walk R n) (i : Fin n) : Walk R n :=
  let bound := if 0 < w.direction i then bounds.upper i else bounds.lower i
  { w with
    displacement := Function.update w.displacement i (bound - x i)
    active       := Function.update w.active i (some bound)
    direction    := Function.update w.direction i 0 }

/-- The coordinates that meet their bounds at the time reached stop. -/
def Walk.arrive (next : R.Number) : List (R.Number × Fin n) → Walk R n → Walk R n
  | [], w             => { w with breakpoints := [], previous := next }
  | (time, i) :: rest, w =>
    if time.Equals next then arrive next rest (w.stop bounds x i)
    else { w with breakpoints := (time, i) :: rest, previous := next }

/-- The displacement after so much more time. -/
def Walk.advance (w : Walk R n) (time : R.Number) : Point R n := fun i => w.displacement i + time * w.direction i

/-- A turn of the search: its end, with a point or without, or the search from the next time on. -/
def Walk.turn (w : Walk R n) : Option (Cauchy R n) ⊕ Walk R n :=
  if ∀ i, (w.direction i).Equals 0 then .inl (pointOnPath bounds x w.displacement w.active)
  else
    match c.times w.direction, c.times w.displacement with
    | some bd, some bz =>
      let slope := dot g w.direction + dot bz w.direction
      let curvature := dot w.direction bd
      if ¬ (slope.isFinite ∧ curvature.isFinite ∧ 0 < curvature) then .inl none
      else if 0 ≤ slope then .inl (pointOnPath bounds x w.displacement w.active)
      else
        let next := (w.breakpoints.head?.map Prod.fst).getD R.infinity
        let segment := next - w.previous
        let minimizer := -slope / curvature
        if ¬ minimizer.isFinite then .inl none
        else if minimizer < segment then .inl (pointOnPath bounds x (w.advance minimizer) w.active)
        else .inr (Walk.arrive bounds x next w.breakpoints { w with displacement := w.advance segment })
    | _, _             => .inl none

/-- `none` is that the turns did not do. -/
def walk : ℕ → Walk R n → Option (Option (Cauchy R n))
  | 0, _         => none
  | turns + 1, w =>
    match w.turn bounds c x g with
    | .inl cauchy => some cauchy
    | .inr w      => walk turns w

def generalizedCauchy (turns : ℕ) : Option (Option (Cauchy R n)) := walk bounds c x g turns (.start bounds x g)

/-! ### The step on the free coordinates -/

/-- The step to the minimum of the model over the free coordinates. -/
def subspaceStep (free : List (Fin n)) (r : Point R n) : Option (Point R n) := do
  if c.pairs.isEmpty then some fun i => if free.contains i then -r i / c.theta else 0
  else
    let size := 2 * c.pairs.length
    let gram (i j : ℕ) := sum (free.map fun k => c.columns i k * c.columns j k)
    let right (i : ℕ) := sum (free.map fun k => c.columns i k * r k)
    let weights ← solve size ⟨fun i j => c.block i j - gram i j / c.theta, right⟩
    some fun i =>
      if free.contains i then -(r i + sum ((List.range size).map fun j => c.columns j i * weights j) / c.theta) / c.theta else 0

/-- How much of the step stays in the box. -/
def reach (cauchy : Cauchy R n) (step : Point R n) : R.Number :=
  cauchy.free.foldl (fun alpha i =>
    if 0 < step i then alpha.min ((bounds.upper i - cauchy.point i) / step i)
    else if step i < 0 then alpha.min ((bounds.lower i - cauchy.point i) / step i)
    else alpha) 1

def primalMinimize (cauchy : Cauchy R n) : Option (Point R n) := do
  if cauchy.free.isEmpty then some cauchy.point
  else
    let b ← c.times fun i => cauchy.point i - x i
    let step ← (subspaceStep c cauchy.free fun i => b i + g i).bind finiteOrNone
    let alpha := reach bounds cauchy step
    finiteOrNone fun i =>
      if cauchy.free.contains i then (cauchy.point i + alpha * step i).clamp (bounds.lower i) (bounds.upper i) else cauchy.point i

/-! ## The end of the search -/

variable {bounds c x g}

/-- **The times are finite**, those that were reached and those to come. -/
structure Walk.Timed (w : Walk R n) : Prop where
  previous    : w.previous.IsFinite
  breakpoints : ∀ b ∈ w.breakpoints, b.1.IsFinite

theorem breakTime_isFinite {i : Fin n} {time : R.Number} (h : breakTime bounds x g i = some time) : time.IsFinite := by
  have hsome : ∀ {t : R.Number}, (if t.isFinite then some t else none) = some time → time.IsFinite := by
    intro t ht
    split at ht
    · rename_i hfinite
      exact Option.some.inj ht ▸ Number.isFinite_iff.1 hfinite
    · cases ht
  unfold breakTime at h
  dsimp only at h
  split at h
  · exact hsome h
  · split at h
    · exact hsome h
    · cases h

theorem start_timed : (Walk.start bounds x g).Timed where
  previous          := ⟨0, rfl⟩
  breakpoints b hb := by
    obtain ⟨i, -, hi⟩ := List.mem_filterMap.1 ((List.mergeSort_perm _ _).mem_iff.1 hb)
    obtain ⟨time, htime, rfl⟩ := Option.map_eq_some_iff.1 hi
    exact breakTime_isFinite htime

theorem start_breakpoints_length : (Walk.start bounds x g).breakpoints.length ≤ n := by
  change (sortedBreakpoints bounds x g).length ≤ n
  unfold sortedBreakpoints
  rw [List.length_mergeSort]
  exact (List.length_filterMap_le _ _).trans (List.length_finRange).le

theorem arrive_spec (bounds : Bounds R n) (x : Point R n) {next : R.Number} (hnext : next.IsFinite) :
    ∀ (breakpoints : List (R.Number × Fin n)) (w : Walk R n), (∀ b ∈ breakpoints, b.1.IsFinite) →
      (w.arrive bounds x next breakpoints).Timed ∧
        (w.arrive bounds x next breakpoints).breakpoints.length ≤ breakpoints.length
  | [], _, _                   => ⟨⟨hnext, fun b hb => absurd hb List.not_mem_nil⟩, le_rfl⟩
  | (time, i) :: rest, w, hfinite => by
    rw [Walk.arrive]
    split
    · have hrest := arrive_spec bounds x hnext rest (w.stop bounds x i) (fun b hb => hfinite b (List.mem_cons_of_mem _ hb))
      exact ⟨hrest.1, hrest.2.trans (Nat.le_succ _)⟩
    · exact ⟨⟨hnext, hfinite⟩, le_rfl⟩

theorem arrive_head {next : R.Number} (hnext : next.IsFinite) {i : Fin n} {rest : List (R.Number × Fin n)}
    (hrest : ∀ b ∈ rest, b.1.IsFinite) (w : Walk R n) : (w.arrive bounds x next ((next, i) :: rest)).Timed ∧
      (w.arrive bounds x next ((next, i) :: rest)).breakpoints.length < ((next, i) :: rest).length := by
  rw [Walk.arrive, if_pos ⟨Number.le_self hnext.not_isNan, Number.le_self hnext.not_isNan⟩]
  have harrive := arrive_spec bounds x hnext rest (w.stop bounds x i) hrest
  exact ⟨harrive.1, Nat.lt_succ_of_le harrive.2⟩

/-- **A turn of the search** ends it, or passes one of the times to come. -/
theorem turn_spec (bounds : Bounds R n) (c : Compact R n) (x g : Point R n) {w : Walk R n} (h : w.Timed) :
    (∃ cauchy, w.turn bounds c x g = .inl cauchy) ∨
    ∃ w', w.turn bounds c x g = .inr w' ∧ w'.Timed ∧ w'.breakpoints.length < w.breakpoints.length := by
  unfold Walk.turn
  split_ifs
  · exact .inl ⟨_, rfl⟩
  · rcases c.times w.direction with _ | bd
    · exact .inl ⟨_, rfl⟩
    · rcases c.times w.displacement with _ | bz
      · exact .inl ⟨_, rfl⟩
      · dsimp only
        split_ifs with hcurvature hslope hminimizer hsegment
        · exact .inl ⟨_, rfl⟩
        · exact .inl ⟨_, rfl⟩
        · -- without a time to come the segment is infinite
          rcases hbreakpoints : w.breakpoints with _ | ⟨⟨next, i⟩, rest⟩
          · rw [hbreakpoints] at hsegment
            exact absurd (Number.lt_infinity_sub (Number.isFinite_iff.1 hminimizer) h.previous) hsegment
          · have hfinite := h.breakpoints
            rw [hbreakpoints] at hfinite
            have hnext : next.IsFinite := hfinite (next, i) List.mem_cons_self
            exact .inr ⟨_, rfl, arrive_head hnext (fun b hb => hfinite b (List.mem_cons_of_mem _ hb)) _⟩
        · exact .inl ⟨_, rfl⟩
        · exact .inl ⟨_, rfl⟩

theorem walk_ne_none : ∀ {turns : ℕ} {w : Walk R n}, w.Timed → w.breakpoints.length < turns →
    walk bounds c x g turns w ≠ none
  | 0, _, _, hturns         => absurd hturns (Nat.not_lt_zero _)
  | turns + 1, w, h, hturns => by
    rw [walk]
    rcases turn_spec bounds c x g h with ⟨cauchy, hturn⟩ | ⟨w', hturn, h', hless⟩
    · rw [hturn]
      exact Option.some_ne_none cauchy
    · rw [hturn]
      exact walk_ne_none h' (by omega)

/-- **The search along the path ends**, within a turn for each coordinate and one more. -/
theorem generalizedCauchy_ne_none {turns : ℕ} (hturns : n < turns) : generalizedCauchy bounds c x g turns ≠ none :=
  walk_ne_none start_timed (start_breakpoints_length.trans_lt hturns)

end

end Lbfgsb
end Optimize
end Itofin
