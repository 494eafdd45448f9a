import Mathlib.Algebra.Order.Field.Basic
import Mathlib.Algebra.Order.Ring.Rat
import Mathlib.Tactic.Ring
import Itofin.Lib.Flow
import Itofin.Lib.Loop
import Itofin.Lib.Machine
/-!
# TreeLattice — state prices and rollback

`TreeLattice` of `methods/lattices/treelattice.rs`, in exact arithmetic, where two times are close when they are equal.
State prices are pushed forward from the root into a cache that grows as slices are asked for; values are pulled back.

`priceList` are the state prices of a slice and `Cached` says that the cache holds those of the slices up to its limit,
which every query keeps.  A step back pulls the values back (`stepback_eq`), so the product with the state prices stays
the same along a rollback (`duality`).
-/
namespace Itofin

open Loop Flow Machine Finset

/-- The errors, and `outOfRange` for the panics: an index out of range, arrays of different sizes. -/
inductive LatticeError (K : Type) where
  /-- "there is no zeronomial lattice!" -/
  | zeronomial
  /-- "using inadequate time grid: no node is close enough to the required time t = .. (closest node is t1 = ..)" -/
  | inadequateGrid (t t1 : K)
  /-- "cannot roll the asset back to .. (it is already at t = ..)" -/
  | cannotRollBack (stop start : K)
  | outOfRange

/-- The tree and the discount factors of a lattice.  There is a single root, and every branch leads into the next
slice. -/
structure TreeLatticeImpl (K : Type) where
  branches : ℕ
  size : ℕ → ℕ
  descendant : ℕ → ℕ → ℕ → ℕ
  probability : ℕ → ℕ → ℕ → K
  discount : ℕ → ℕ → K
  size_zero : size 0 = 1
  descendant_lt : ∀ i index branch, index < size i → branch < branches → descendant i index branch < size (i + 1)

structure TimeGrid (K : Type) [LT K] where
  times : List K
  increasing : times.Pairwise (· < ·)

structure TreeLattice (K : Type) [LT K] where
  implementation : TreeLatticeImpl K
  timeGrid : TimeGrid K
  statePrices : List (List K)
  statePricesLimit : ℕ

/-- An asset, as far as a lattice rolls it back. -/
structure DiscretizedAsset (K : Type) where
  time : K
  values : List K

variable {K : Type} [Field K]

/-- `array[index]` -/
def fetch (array : List K) (index : ℕ) : Except (LatticeError K) K :=
  match array[index]? with
  | some x => .ok x
  | none   => .error .outOfRange

/-- `array[index] = f(array[index])` -/
def update (array : List K) (index : ℕ) (f : K → K) : Except (LatticeError K) (List K) :=
  if index < array.length then .ok (array.modify index f) else .error .outOfRange

/-- `dot`, which panics on a size mismatch. -/
def dot (a b : List K) : Except (LatticeError K) K :=
  if a.length = b.length then .ok (List.zipWith (· * ·) a b).sum else .error .outOfRange

namespace TimeGrid

variable [LinearOrder K]

/-- `partition_point` of the times before `t`, and the nearer one of it and its predecessor. -/
def closestIndex (grid : TimeGrid K) (t : K) : ℕ :=
  let result := (grid.times.takeWhile (· < t)).length
  if result = 0 then 0
  else if result = grid.times.length then grid.times.length - 1
  else
    let dt1 := grid.times.getD result 0 - t
    let dt2 := t - grid.times.getD (result - 1) 0
    if dt1 < dt2 then result else result - 1

def index (grid : TimeGrid K) (t : K) : Except (LatticeError K) ℕ := do
  let i := grid.closestIndex t
  let t1 ← fetch grid.times i
  if t = t1 then .ok i else .error (.inadequateGrid t t1)

end TimeGrid

namespace TreeLattice

variable [LinearOrder K]

def new (implementation : TreeLatticeImpl K) (timeGrid : TimeGrid K) : Except (LatticeError K) (TreeLattice K) :=
  if 0 < implementation.branches then .ok ⟨implementation, timeGrid, [[1]], 0⟩ else .error .zeronomial

/-- `for branch in 0..branches { state_prices[i + 1][destination] += state_price * discount * probability; }` -/
def feed (impl : TreeLatticeImpl K) (i j : ℕ) (statePrice : K) (next : List K) : Except (LatticeError K) (List K) :=
  loop impl.branches (fun next branch =>
    update next (impl.descendant i j branch)
      (fun x => x + statePrice * impl.discount i j * impl.probability i j branch)) next

/-- A turn of `compute_state_prices`: the slice `i + 1` from the slice `i`. -/
def computeSlice (impl : TreeLatticeImpl K) (statePrices : List (List K)) (i : ℕ) :
    Except (LatticeError K) (List (List K)) := do
  let statePrices := statePrices ++ [List.replicate (impl.size (i + 1)) 0]
  match statePrices[i]?, statePrices[i + 1]? with
  | some current, some next =>
    let next ← loop (impl.size i) (fun next j => do
      let statePrice ← fetch current j
      feed impl i j statePrice next) next
    .ok (statePrices.set (i + 1) next)
  | _, _                    => .error .outOfRange

def computeStatePrices (lattice : TreeLattice K) («until» : ℕ) : Except (LatticeError K) (TreeLattice K) := do
  let limit := lattice.statePricesLimit
  let statePrices ← loop («until» - limit) (fun statePrices k => computeSlice lattice.implementation statePrices
    (limit + k)) lattice.statePrices
  .ok { lattice with statePrices := statePrices, statePricesLimit := «until» }

/-- `state_prices`: the slice, and the lattice with its cache. -/
def getStatePrices (lattice : TreeLattice K) (i : ℕ) : Except (LatticeError K) (List K × TreeLattice K) := do
  let lattice ← (if lattice.statePricesLimit < i then lattice.computeStatePrices i else .ok lattice)
  match lattice.statePrices[i]? with
  | some slice => .ok (slice, lattice)
  | none       => .error .outOfRange

/-- `for branch in 0..branches { value += probability * values[descendant]; } value *= discount;` -/
def rolledBack (impl : TreeLatticeImpl K) (i : ℕ) (values : List K) (j : ℕ) : Except (LatticeError K) K := do
  let value ← loop impl.branches (fun value branch => do
    let x ← fetch values (impl.descendant i j branch)
    .ok (value + impl.probability i j branch * x)) 0
  .ok (value * impl.discount i j)

def stepback (impl : TreeLatticeImpl K) (i : ℕ) (values newValues : List K) : Except (LatticeError K) (List K) :=
  loop (impl.size i) (fun newValues j => do
    let value ← rolledBack impl i values j
    update newValues j (fun _ => value)) newValues

/-- `partial_rollback`; `adjustValues` is the one of the asset. -/
def partialRollback (adjustValues : DiscretizedAsset K → Except (LatticeError K) (DiscretizedAsset K))
    (lattice : TreeLattice K) (asset : DiscretizedAsset K) (stop : K) : Except (LatticeError K) (DiscretizedAsset K) :=
  let start := asset.time
  if start = stop then .ok asset
  else if stop < start then do
    let iFrom ← lattice.timeGrid.index start
    let iTo ← lattice.timeGrid.index stop
    loop (iFrom - iTo) (fun asset k => do
      let i := iFrom - 1 - k
      let newValues ← stepback lattice.implementation i asset.values (List.replicate (lattice.implementation.size i) 0)
      let time ← fetch lattice.timeGrid.times i
      let asset : DiscretizedAsset K := ⟨time, newValues⟩
      if i ≠ iTo then adjustValues asset else .ok asset) asset
  else .error (.cannotRollBack stop start)

def rollback (adjustValues : DiscretizedAsset K → Except (LatticeError K) (DiscretizedAsset K))
    (lattice : TreeLattice K) (asset : DiscretizedAsset K) (stop : K) :
    Except (LatticeError K) (DiscretizedAsset K) := do
  let asset ← lattice.partialRollback adjustValues asset stop
  adjustValues asset

/-- `present_value`, with the lattice and its cache. -/
def presentValue (lattice : TreeLattice K) (asset : DiscretizedAsset K) :
    Except (LatticeError K) (K × TreeLattice K) := do
  let i ← lattice.timeGrid.index asset.time
  let (statePrices, lattice) ← lattice.getStatePrices i
  let value ← dot asset.values statePrices
  .ok (value, lattice)

end TreeLattice

/-! ## Arrays -/

variable {n i j k : ℕ} {f g : ℕ → K} {l : List K} {x : K}

def table (n : ℕ) (f : ℕ → K) : List K := (List.range n).map f

omit [Field K] in
@[simp] theorem table_length (n : ℕ) (f : ℕ → K) : (table n f).length = n := by
  rw [table, List.length_map, List.length_range]

omit [Field K] in
theorem table_get (h : k < n) : (table n f)[k]? = some (f k) := by
  rw [table, List.getElem?_map, List.getElem?_range h, Option.map_some]

theorem table_getD (h : k < n) : (table n f).getD k 0 = f k := by
  rw [List.getD_eq_getElem?_getD, table_get h, Option.getD_some]

theorem eq_table (hl : l.length = n) (h : ∀ k, k < n → l.getD k 0 = f k) : l = table n f := by
  refine List.ext_getElem? (fun k => ?_)
  by_cases hk : k < n
  · have := h k hk
    rw [List.getD_eq_getElem?_getD, List.getElem?_eq_getElem (hl ▸ hk), Option.getD_some] at this
    rw [table_get hk, List.getElem?_eq_getElem (hl ▸ hk), this]
  · rw [List.getElem?_eq_none (by omega), List.getElem?_eq_none (by rw [table_length]; omega)]

theorem fetch_of_lt (h : k < l.length) : fetch l k = .ok (l.getD k 0) := by
  rw [fetch, List.getD_eq_getElem?_getD, List.getElem?_eq_getElem h]
  rfl

theorem fetch_table (h : k < n) : fetch (table n f) k = .ok (f k) := by
  rw [fetch_of_lt (by rwa [table_length]), table_getD h]

theorem modify_getD {h : K → K} (hk : k < l.length) :
    (l.modify i h).getD k 0 = if i = k then h (l.getD k 0) else l.getD k 0 := by
  rw [List.getD_eq_getElem?_getD, List.getD_eq_getElem?_getD, List.getElem?_modify, List.getElem?_eq_getElem hk]
  split <;> rfl

theorem sum_table (n : ℕ) (f : ℕ → K) : (table n f).sum = ∑ k ∈ range n, f k := by
  induction n with
  | zero => rfl
  | succ n ih =>
    rw [table] at ih ⊢
    rw [List.range_succ, List.map_append, List.sum_append, ih, sum_range_succ, List.map_singleton, List.sum_singleton]

theorem dot_table (n : ℕ) (f g : ℕ → K) : dot (table n f) (table n g) = .ok (∑ k ∈ range n, f k * g k) := by
  rw [dot, if_pos (by rw [table_length, table_length]), ← sum_table]
  congr 2
  rw [table, table, table, List.zipWith_map, List.zipWith_self]

theorem dot_comm (a b : List K) : dot a b = dot b a := by
  by_cases h : a.length = b.length
  · rw [dot, dot, if_pos h, if_pos h.symm, List.zipWith_comm_of_comm mul_comm]
  · rw [dot, dot, if_neg h, if_neg (Ne.symm h)]

/-! ## The time grid -/

theorem closestIndex_eq [LinearOrder K] [IsStrictOrderedRing K] {grid : TimeGrid K} (h : grid.times[i]? = some x) :
    grid.closestIndex x = i := by
  obtain ⟨hi, hx⟩ := List.getElem?_eq_some_iff.mp h
  have hsplit : grid.times = grid.times.take i ++ x :: grid.times.drop (i + 1) := by
    rw [← hx, List.cons_getElem_drop_succ, List.take_append_drop]
  have hinc := grid.increasing
  rw [hsplit] at hinc
  have hlt := (List.pairwise_append.mp hinc).2.2
  have hlen : (grid.times.takeWhile (· < x)).length = i := by
    rw [hsplit, List.takeWhile_append_of_pos (fun a ha => decide_eq_true (hlt a ha x List.mem_cons_self)),
      List.takeWhile_cons_of_neg (by simp), List.append_nil, List.length_take]
    omega
  rw [TimeGrid.closestIndex, hlen]
  by_cases h₀ : i = 0
  · rw [if_pos h₀, h₀]
  rw [if_neg h₀, if_neg hi.ne]
  have hprev : grid.times.getD (i - 1) 0 < x := by
    refine hlt _ ?_ x List.mem_cons_self
    rw [List.getD_eq_getElem?_getD, List.getElem?_eq_getElem (by omega), Option.getD_some]
    exact List.mem_take_iff_getElem.mpr ⟨i - 1, by omega, rfl⟩
  have hthis : grid.times.getD i 0 = x := by rw [List.getD_eq_getElem?_getD, h, Option.getD_some]
  rw [if_pos (by rw [hthis, sub_self]; exact sub_pos.mpr hprev)]

theorem index_eq [LinearOrder K] [IsStrictOrderedRing K] {grid : TimeGrid K} (h : grid.times[i]? = some x) :
    grid.index x = .ok i := by
  rw [TimeGrid.index, closestIndex_eq h, fetch, h]
  exact if_pos rfl

/-! ## State prices -/

variable {impl : TreeLatticeImpl K}

/-- What a node hands on to a node of the next slice, over all its branches. -/
def weight (impl : TreeLatticeImpl K) (i j k : ℕ) : K :=
  ∑ b ∈ range impl.branches, if impl.descendant i j b = k then impl.discount i j * impl.probability i j b else 0

/-- The state prices of a slice, pushed forward from the root. -/
def priceList (impl : TreeLatticeImpl K) (i : ℕ) : List K :=
  table (impl.size i) (pushes impl.size (weight impl) 0 (fun _ => 1) i)

/-- **The cache holds the state prices of the slices up to its limit.** -/
def Cached [LT K] (lattice : TreeLattice K) : Prop :=
  lattice.statePrices = (List.range (lattice.statePricesLimit + 1)).map (priceList lattice.implementation)

omit [Field K] in
theorem table_congr (h : ∀ k, k < n → f k = g k) : table n f = table n g :=
  List.map_congr_left (fun k hk => h k (List.mem_range.mp hk))

theorem update_table {h : K → K} (hi : i < n) :
    update (table n f) i h = .ok (table n (fun k => if i = k then h (f k) else f k)) := by
  rw [update, if_pos (by rwa [table_length])]
  refine congrArg _ (eq_table (by rw [List.length_modify, table_length]) (fun k hk => ?_))
  rw [modify_getD (by rwa [table_length]), table_getD hk]

theorem feed_eq (hj : j < impl.size i) : TreeLattice.feed impl i j x (table (impl.size (i + 1)) f) =
    .ok (table (impl.size (i + 1)) (fun k => f k + x * weight impl i j k)) := by
  let fed (b : ℕ) : List K := table (impl.size (i + 1)) (fun k => f k + x * ∑ b ∈ range b,
    if impl.descendant i j b = k then impl.discount i j * impl.probability i j b else 0)
  have hfed : fed 0 = table (impl.size (i + 1)) f :=
    table_congr (fun k _ => by rw [sum_range_zero, mul_zero, add_zero])
  rw [TreeLattice.feed, ← hfed]
  refine loop_eq fed (fun b hb => ?_)
  rw [update_table (impl.descendant_lt i j b hj hb)]
  refine congrArg _ (table_congr (fun k _ => ?_))
  rw [sum_range_succ]
  split
  · ring
  · rw [add_zero]

theorem getElem?_slices (h : k < n) : ((List.range n).map (priceList impl))[k]? = some (priceList impl k) := by
  rw [List.getElem?_map, List.getElem?_range h, Option.map_some]

theorem computeSlice_eq (i : ℕ) : TreeLattice.computeSlice impl ((List.range (i + 1)).map (priceList impl)) i =
    .ok ((List.range (i + 2)).map (priceList impl)) := by
  let fed (j : ℕ) : List K := table (impl.size (i + 1)) (fun k => ∑ j ∈ range j,
    pushes impl.size (weight impl) 0 (fun _ => 1) i j * weight impl i j k)
  have hfed : List.replicate (impl.size (i + 1)) 0 = fed 0 :=
    eq_table List.length_replicate (fun k hk => by
      rw [sum_range_zero, List.getD_eq_getElem?_getD, List.getElem?_replicate, if_pos hk, Option.getD_some])
  have hloop : loop (impl.size i) (fun next j => do
      let statePrice ← fetch (priceList impl i) j
      TreeLattice.feed impl i j statePrice next) (fed 0) = .ok (priceList impl (i + 1)) := by
    rw [show priceList impl (i + 1) = fed (impl.size i) by rw [priceList, pushes, Nat.zero_add]; rfl]
    refine loop_eq fed (fun j hj => ?_)
    rw [priceList, fetch_table hj]
    refine (feed_eq hj).trans (congrArg _ (table_congr (fun k _ => ?_)))
    rw [sum_range_succ]
  have hlen : ((List.range (i + 1)).map (priceList impl)).length = i + 1 := by rw [List.length_map, List.length_range]
  rw [TreeLattice.computeSlice, List.getElem?_append_left (by omega), getElem?_slices (Nat.lt_succ_self i),
    List.getElem?_append_right (by omega), hlen, Nat.sub_self, List.getElem?_cons_zero, hfed]
  dsimp only
  rw [hloop]
  change Except.ok _ = _
  rw [List.set_append_right _ _ (by omega), hlen, Nat.sub_self, List.set_cons_zero, List.range_succ (n := i + 1),
    List.map_append, List.map_singleton]

/-! ## The cache -/

section

variable [LinearOrder K] {L L' fresh : TreeLattice K} {grid : TimeGrid K} {p : List K}

theorem new_cached (h : TreeLattice.new impl grid = .ok fresh) :
    fresh.implementation = impl ∧ fresh.timeGrid = grid ∧ Cached fresh := by
  rw [TreeLattice.new] at h
  split at h
  · cases h
    refine ⟨rfl, rfl, ?_⟩
    change [[1]] = [priceList impl 0]
    rw [priceList, impl.size_zero]
    rfl
  · cases h

theorem computeStatePrices_eq (hc : Cached L) (hi : L.statePricesLimit ≤ i) : ∃ L', L.computeStatePrices i = .ok L' ∧
    L'.implementation = L.implementation ∧ L'.timeGrid = L.timeGrid ∧ Cached L' ∧ i ≤ L'.statePricesLimit := by
  let grown (k : ℕ) := (List.range (L.statePricesLimit + k + 1)).map (priceList L.implementation)
  have hloop : loop (i - L.statePricesLimit) (fun statePrices k =>
      TreeLattice.computeSlice L.implementation statePrices (L.statePricesLimit + k)) L.statePrices =
      .ok (grown (i - L.statePricesLimit)) := by
    rw [show L.statePrices = grown 0 from hc]
    exact loop_eq grown (fun k _ => computeSlice_eq (L.statePricesLimit + k))
  rw [TreeLattice.computeStatePrices, hloop]
  refine ⟨_, rfl, rfl, rfl, ?_, le_rfl⟩
  change grown _ = _
  exact congrArg (fun n => (List.range (n + 1)).map (priceList L.implementation)) (Nat.add_sub_cancel' hi)

/-- **A slice is the same whatever the cache held**, and the cache keeps holding what it should. -/
theorem getStatePrices_eq (hc : Cached L) (i : ℕ) : ∃ L', L.getStatePrices i = .ok (priceList L.implementation i, L') ∧
    L'.implementation = L.implementation ∧ L'.timeGrid = L.timeGrid ∧ Cached L' := by
  have hgrown : ∃ L', (if L.statePricesLimit < i then L.computeStatePrices i else .ok L) = .ok L' ∧
      L'.implementation = L.implementation ∧ L'.timeGrid = L.timeGrid ∧ Cached L' ∧ i ≤ L'.statePricesLimit := by
    by_cases h : L.statePricesLimit < i
    · rw [if_pos h]
      exact computeStatePrices_eq hc h.le
    · rw [if_neg h]
      exact ⟨L, rfl, rfl, rfl, hc, not_lt.mp h⟩
  obtain ⟨L', hL, himpl, hgrid, hc', hi⟩ := hgrown
  refine ⟨L', ?_, himpl, hgrid, hc'⟩
  rw [TreeLattice.getStatePrices, hL]
  change (match L'.statePrices[i]? with
    | some slice => Except.ok (slice, L')
    | none       => .error LatticeError.outOfRange) = _
  rw [show L'.statePrices = _ from hc', getElem?_slices (Nat.lt_succ_of_le hi), himpl]

inductive LatticeQuery (K : Type) where
  | statePrices (i : ℕ)
  | presentValue (asset : DiscretizedAsset K)

/-- The lattice after a query, `none` after a panic.  A query that is refused leaves it as it was. -/
def TreeLattice.query (lattice : TreeLattice K) : LatticeQuery K → Option (TreeLattice K)
  | .statePrices i      => (lattice.getStatePrices i).toOption.map Prod.snd
  | .presentValue asset => match lattice.presentValue asset with
    | .ok (_, lattice)    => some lattice
    | .error .outOfRange  => none
    | .error _            => some lattice

theorem presentValue_eq (hc : Cached L) (asset : DiscretizedAsset K) (hi : L.timeGrid.index asset.time = .ok i) :
    ∃ L', L.presentValue asset = (dot asset.values (priceList L.implementation i)).map (fun value => (value, L')) ∧
      L'.implementation = L.implementation ∧ L'.timeGrid = L.timeGrid ∧ Cached L' := by
  obtain ⟨L', hL, h⟩ := getStatePrices_eq hc i
  refine ⟨L', ?_, h⟩
  rw [TreeLattice.presentValue, hi]
  change (L.getStatePrices i).bind _ = _
  rw [hL]
  change (dot _ _).bind _ = _
  cases dot asset.values (priceList L.implementation i) <;> rfl

theorem query_cached {q : LatticeQuery K} (hc : Cached L) (h : L.query q = some L') :
    L'.implementation = L.implementation ∧ L'.timeGrid = L.timeGrid ∧ Cached L' := by
  cases q with
  | statePrices i =>
    obtain ⟨M, hM, hkept⟩ := getStatePrices_eq hc i
    rw [TreeLattice.query, hM] at h
    cases h
    exact hkept
  | presentValue asset =>
    cases hi : L.timeGrid.index asset.time with
    | ok i =>
      obtain ⟨M, hM, hkept⟩ := presentValue_eq hc _ hi
      rw [TreeLattice.query, hM, dot] at h
      by_cases hlen : asset.values.length = (priceList L.implementation i).length
      · rw [if_pos hlen] at h
        cases h
        exact hkept
      · rw [if_neg hlen] at h
        cases h
    | error e =>
      have hrefused : L.presentValue asset = .error e := by
        rw [TreeLattice.presentValue, hi]
        rfl
      rw [TreeLattice.query, hrefused] at h
      cases e <;> cases h <;> exact ⟨rfl, rfl, hc⟩

theorem run_cached {qs : List (LatticeQuery K)} (hnew : TreeLattice.new impl grid = .ok fresh)
    (h : run TreeLattice.query fresh qs = some L) : L.implementation = impl ∧ L.timeGrid = grid ∧ Cached L := by
  refine run_invariant (fun L => L.implementation = impl ∧ L.timeGrid = grid ∧ Cached L) ?_ qs fresh L
    (new_cached hnew) h
  rintro L q L' ⟨himpl, hgrid, hc⟩ hq
  obtain ⟨himpl', hgrid', hc'⟩ := query_cached hc hq
  exact ⟨himpl'.trans himpl, hgrid'.trans hgrid, hc'⟩

end

/-! ## Rolling back -/

theorem rolledBack_eq (g : ℕ → K) (hj : j < impl.size i) :
    TreeLattice.rolledBack impl i (table (impl.size (i + 1)) g) j = .ok (pull impl.size (weight impl) i g j) := by
  let gathered (b : ℕ) : K := ∑ b ∈ range b, impl.probability i j b * g (impl.descendant i j b)
  have hloop : loop impl.branches (fun value branch => do
      let x ← fetch (table (impl.size (i + 1)) g) (impl.descendant i j branch)
      .ok (value + impl.probability i j branch * x)) 0 = .ok (gathered impl.branches) := by
    refine loop_eq gathered (fun b hb => ?_)
    rw [fetch_table (impl.descendant_lt i j b hj hb)]
    exact congrArg Except.ok (sum_range_succ (fun b => impl.probability i j b * g (impl.descendant i j b)) b).symm
  -- the node scatters to its branches what it gathers from them
  have hpull : pull impl.size (weight impl) i g j = gathered impl.branches * impl.discount i j := by
    simp only [pull, weight, gathered, sum_mul]
    rw [sum_comm]
    refine sum_congr rfl (fun b hb => ?_)
    simp only [ite_mul, zero_mul]
    rw [sum_ite_eq, if_pos (mem_range.mpr (impl.descendant_lt i j b hj (mem_range.mp hb)))]
    ring
  rw [TreeLattice.rolledBack, hloop, hpull]
  rfl

/-- **A step back pulls the values back.** -/
theorem stepback_eq (g h : ℕ → K) :
    TreeLattice.stepback impl i (table (impl.size (i + 1)) g) (table (impl.size i) h) =
      .ok (table (impl.size i) (pull impl.size (weight impl) i g)) := by
  let filled (j : ℕ) : List K :=
    table (impl.size i) (fun k => if k < j then pull impl.size (weight impl) i g k else h k)
  have hfilled : filled (impl.size i) = table (impl.size i) (pull impl.size (weight impl) i g) :=
    table_congr (fun k hk => if_pos hk)
  rw [TreeLattice.stepback, ← hfilled]
  refine loop_eq filled (fun j hj => ?_)
  rw [rolledBack_eq g hj]
  refine (update_table hj).trans (congrArg _ (table_congr (fun k _ => ?_)))
  by_cases hk : j = k
  · rw [if_pos hk, if_pos (by omega), hk]
  · rw [if_neg hk]
    by_cases hlt : k < j
    · rw [if_pos hlt, if_pos (by omega)]
    · rw [if_neg hlt, if_neg (by omega)]

section

variable [LinearOrder K] [IsStrictOrderedRing K] {L fresh : TreeLattice K} {grid : TimeGrid K} {y : K} {values : List K}

/-- A rollback without adjustments pulls the values back through the slices between. -/
theorem rollback_eq (hij : i < j) (hx : L.timeGrid.times[i]? = some x) (hy : L.timeGrid.times[j]? = some y) :
    L.rollback .ok ⟨y, table (L.implementation.size j) g⟩ x =
      .ok ⟨x, table (L.implementation.size i) (pulls L.implementation.size (weight L.implementation) i (j - i) g)⟩ := by
  obtain ⟨hi, hxi⟩ := List.getElem?_eq_some_iff.mp hx
  obtain ⟨hj, hyj⟩ := List.getElem?_eq_some_iff.mp hy
  have hlt : x < y := by
    rw [← hxi, ← hyj]
    exact List.pairwise_iff_getElem.mp L.timeGrid.increasing i j hi hj hij
  let rolled (k : ℕ) : DiscretizedAsset K := ⟨L.timeGrid.times.getD (j - k) 0, table (L.implementation.size (j - k))
    (pulls L.implementation.size (weight L.implementation) (j - k) k g)⟩
  have hstart : (⟨y, table (L.implementation.size j) g⟩ : DiscretizedAsset K) = rolled 0 := by
    dsimp only [rolled]
    rw [Nat.sub_zero, List.getD_eq_getElem?_getD, hy]
    rfl
  have hloop : loop (j - i) (fun asset k => do
      let newValues ← TreeLattice.stepback L.implementation (j - 1 - k) asset.values
        (List.replicate (L.implementation.size (j - 1 - k)) 0)
      let time ← fetch L.timeGrid.times (j - 1 - k)
      let asset : DiscretizedAsset K := ⟨time, newValues⟩
      if j - 1 - k ≠ i then .ok asset else .ok asset) (rolled 0) = .ok (rolled (j - i)) := by
    refine loop_eq rolled (fun k hk => ?_)
    obtain ⟨m, rfl⟩ : ∃ m, j = m + 1 + k := ⟨j - 1 - k, by omega⟩
    have hm : m + 1 + k - 1 - k = m := by omega
    have hnew : List.replicate (L.implementation.size m) 0 = table (L.implementation.size m) (fun _ => (0 : K)) :=
      eq_table List.length_replicate (fun n hn => by
        rw [List.getD_eq_getElem?_getD, List.getElem?_replicate, if_pos hn, Option.getD_some])
    have hvalues : (rolled k).values = table (L.implementation.size (m + 1))
        (pulls L.implementation.size (weight L.implementation) (m + 1) k g) := by
      dsimp only [rolled]
      rw [Nat.add_sub_cancel]
    rw [hm, hvalues, hnew, stepback_eq]
    change (fetch L.timeGrid.times m).bind _ = _
    rw [fetch_of_lt (by omega)]
    change (if m ≠ i then Except.ok _ else .ok _) = _
    rw [ite_self]
    dsimp only [rolled]
    rw [show m + 1 + k - (k + 1) = m by omega, pulls_succ]
  rw [TreeLattice.rollback, TreeLattice.partialRollback]
  dsimp only
  rw [if_neg hlt.ne', if_pos hlt, index_eq hx, index_eq hy]
  change ((loop (j - i) _ _).bind Except.ok) = _
  rw [hstart, hloop]
  change Except.ok (rolled (j - i)) = _
  dsimp only [rolled]
  rw [Nat.sub_sub_self hij.le, List.getD_eq_getElem?_getD, hx, Option.getD_some]

/-- **State prices and rollback are dual.**  Whatever the lattice was asked before, the product of the state prices with
the values is the same before and after a rollback, and it is the present value; at the root it is the value.  A slice of
state prices is the one a fresh lattice gives. -/
theorem duality {qs : List (LatticeQuery K)} (hnew : TreeLattice.new impl grid = .ok fresh)
    (hrun : run TreeLattice.query fresh qs = some L) (hij : i < j) (hx : grid.times[i]? = some x)
    (hy : grid.times[j]? = some y) (hvalues : values.length = impl.size j) :
    (∃ rolled pricesFrom pricesTo value,
      L.rollback .ok ⟨y, values⟩ x = .ok ⟨x, rolled⟩ ∧
      (L.getStatePrices i).map Prod.fst = .ok pricesTo ∧ dot pricesTo rolled = .ok value ∧
      (L.getStatePrices j).map Prod.fst = .ok pricesFrom ∧ dot pricesFrom values = .ok value ∧
      (L.presentValue ⟨y, values⟩).map Prod.fst = .ok value ∧ (i = 0 → rolled = [value])) ∧
    ∀ n, ∃ slice, (L.getStatePrices n).map Prod.fst = .ok slice ∧ (fresh.getStatePrices n).map Prod.fst = .ok slice := by
  obtain ⟨rfl, rfl, hc⟩ := run_cached hnew hrun
  obtain ⟨himpl, hgrid, hfresh⟩ := new_cached hnew
  have hslice (n : ℕ) : (L.getStatePrices n).map Prod.fst = .ok (priceList L.implementation n) := by
    obtain ⟨L', hL, -⟩ := getStatePrices_eq hc n
    rw [hL]
    rfl
  refine ⟨?_, fun n => ⟨_, hslice n, ?_⟩⟩
  · let g (k : ℕ) : K := values.getD k 0
    have hg : values = table (L.implementation.size j) g := eq_table hvalues (fun _ _ => rfl)
    obtain ⟨d, rfl⟩ : ∃ d, j = i + d := ⟨j - i, by omega⟩
    have hdual := sum_pushes L.implementation.size (weight L.implementation) i
      (pushes L.implementation.size (weight L.implementation) 0 (fun _ => 1) i) d g
    have hprices : pushes L.implementation.size (weight L.implementation) 0 (fun _ => 1) (i + d) =
        pushes L.implementation.size (weight L.implementation) i
          (pushes L.implementation.size (weight L.implementation) 0 (fun _ => 1) i) d := by
      rw [pushes_add, Nat.zero_add]
    have hdot : dot (priceList L.implementation (i + d)) values =
        .ok (∑ k ∈ range (L.implementation.size i), pushes L.implementation.size (weight L.implementation) 0 (fun _ => 1)
          i k * pulls L.implementation.size (weight L.implementation) i d g k) := by
      rw [priceList, hg, dot_table, hprices, hdual]
    refine ⟨_, _, _, _, ?_, hslice i, dot_table _ _ _, hslice (i + d), hdot, ?_, fun h => ?_⟩
    · rw [hg, rollback_eq hij hx hy, Nat.add_sub_cancel_left]
    · obtain ⟨L', hL, -⟩ := presentValue_eq hc ⟨y, values⟩ (index_eq hy)
      rw [hL, dot_comm, hdot]
      rfl
    · rw [h, L.implementation.size_zero, sum_range_one]
      change [_] = [_]
      rw [pushes, one_mul]
  · obtain ⟨L', hL, -⟩ := getStatePrices_eq hfresh n
    rw [hL, himpl]
    rfl

end

/-- A recombining tree of two branches, whose discount depends on the node. -/
def binomial : TreeLatticeImpl ℚ where
  branches := 2
  size i := i + 1
  descendant _ index branch := index + branch
  probability _ _ branch := if branch = 0 then 1 / 4 else 3 / 4
  discount _ index := 1 / (index + 2)
  size_zero := rfl
  descendant_lt _ _ _ hi hb := by omega

def halfYears : TimeGrid ℚ := ⟨[0, 1 / 2, 1], by decide +kernel⟩

theorem duality_binomial : ∃ fresh L : TreeLattice ℚ, ∃ rolled pricesFrom pricesTo value,
    run TreeLattice.query fresh [.statePrices 1, .presentValue ⟨1 / 2, [1, 2]⟩] = some L ∧
    L.rollback .ok ⟨1, [3, 1, 4]⟩ 0 = .ok ⟨0, rolled⟩ ∧
    (L.getStatePrices 0).map Prod.fst = .ok pricesTo ∧ dot pricesTo rolled = .ok value ∧
    (L.getStatePrices 2).map Prod.fst = .ok pricesFrom ∧ dot pricesFrom [3, 1, 4] = .ok value ∧ rolled = [value] := by
  obtain ⟨fresh, hnew⟩ : ∃ fresh, TreeLattice.new binomial halfYears = .ok fresh := ⟨_, rfl⟩
  obtain ⟨L, hrun⟩ : ∃ L, run TreeLattice.query fresh [.statePrices 1, .presentValue ⟨1 / 2, [1, 2]⟩] = some L := by
    cases hnew
    exact Option.isSome_iff_exists.mp (by decide +kernel)
  obtain ⟨⟨rolled, pricesFrom, pricesTo, value, hroll, hto, hdot, hfrom, hdot', -, hroot⟩, -⟩ :=
    duality hnew hrun (show 0 < 2 by decide) rfl rfl (show [3, 1, 4].length = binomial.size 2 from rfl)
  exact ⟨fresh, L, rolled, pricesFrom, pricesTo, value, hrun, hroll, hto, hdot, hfrom, hdot', hroot rfl⟩

end Itofin
