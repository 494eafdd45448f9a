import Itofin.Lib.Extended
import Itofin.Lib.Loop
import Itofin.Lib.Radix
import Mathlib.Algebra.BigOperators.Group.List.Lemmas
import Mathlib.Algebra.Order.BigOperators.GroupWithZero.List
import Mathlib.Data.List.Range
import Mathlib.Data.List.Nodup
/-!
# TripleBandLinearOp — a tridiagonal operator along one direction of a grid

`FdmLinearOpLayout`, `FdmLinearOpIterator` and `TripleBandLinearOp` of `methods/finitedifferences/operators`.  The
numbers are any type with the operations used.  The order in which `solve_splitting` visits the grid walks along the
direction first: it is the index of the grid with that direction exchanged for the first (`reverseIndex_position`), so
the whole grid is one chain of rows, and the neighbours of a point are the rows beside its own.
-/
namespace Itofin

/-! ## The layout -/

structure FdmLinearOpLayout where
  size    : ℕ
  dim     : List ℕ
  spacing : List ℕ

structure FdmLinearOpIterator where
  index       : ℕ
  dim         : List ℕ
  coordinates : List ℕ

namespace FdmLinearOpIterator

def new (dim : List ℕ) : FdmLinearOpIterator := ⟨0, dim, List.replicate dim.length 0⟩

/-- The index goes on; the coordinates carry. -/
def advance (p : FdmLinearOpIterator) : FdmLinearOpIterator :=
  { p with index := p.index + 1, coordinates := Radix.next p.coordinates p.dim }

/-- So many positions, from one on. -/
def walk : ℕ → FdmLinearOpIterator → List FdmLinearOpIterator
  | 0, _     => []
  | n + 1, p => p :: walk n p.advance

end FdmLinearOpIterator

namespace FdmLinearOpLayout

def new (dim : List ℕ) : FdmLinearOpLayout :=
  let (spacing, stride) := dim.foldl (fun (spacing, stride) extent => (spacing ++ [stride], stride * extent)) ([], 1)
  ⟨stride, dim, spacing⟩

/-- Every position, while the index is below the size. -/
def iter (layout : FdmLinearOpLayout) : List FdmLinearOpIterator :=
  FdmLinearOpIterator.walk layout.size (.new layout.dim)

def reflect (layout : FdmLinearOpLayout) (p : FdmLinearOpIterator) (direction : ℕ) (offset : ℤ) : ℕ :=
  let extent : ℤ := layout.dim.getD direction 0
  let coordinate : ℤ := p.coordinates.getD direction 0 + offset
  (if coordinate < 0 then -coordinate else if extent ≤ coordinate then 2 * (extent - 1) - coordinate
    else coordinate).toNat

def neighbourhood (layout : FdmLinearOpLayout) (p : FdmLinearOpIterator) (direction : ℕ) (offset : ℤ) : ℕ :=
  p.index - p.coordinates.getD direction 0 * layout.spacing.getD direction 0 +
    layout.reflect p direction offset * layout.spacing.getD direction 0

end FdmLinearOpLayout

/-! ## The operator -/

/-- The index maps and the bands; of the mesher only the layout is read. -/
structure TripleBandLinearOp (R : Type) where
  i0           : List ℕ
  i2           : List ℕ
  reverseIndex : List ℕ
  lower        : List R
  diag         : List R
  upper        : List R

namespace TripleBandLinearOp

section

variable {R : Type} [Zero R]

/-- A loop over the positions that writes a value at a key for each. -/
def fill {α : Type} (layout : FdmLinearOpLayout) (key : FdmLinearOpIterator → ℕ) (value : FdmLinearOpIterator → α)
    (l : List α) : List α :=
  layout.iter.foldl (fun l p => l.set (key p) (value p)) l

/-- The loop of the source fills the three maps together. -/
def new (direction : ℕ) (layout : FdmLinearOpLayout) : TripleBandLinearOp R :=
  let newDim := Radix.swapHead layout.dim direction
  let newSpacing := Radix.swapHead (FdmLinearOpLayout.new newDim).spacing direction
  let zeros := List.replicate layout.size 0
  let bands := List.replicate layout.size (0 : R)
  { i0 := fill layout FdmLinearOpIterator.index (fun p => layout.neighbourhood p direction (-1)) zeros
    i2 := fill layout FdmLinearOpIterator.index (fun p => layout.neighbourhood p direction 1) zeros
    reverseIndex := fill layout (fun p => Radix.dot p.coordinates newSpacing) FdmLinearOpIterator.index zeros
    lower := bands
    diag := bands
    upper := bands }

/-- The bands are read off a function of the position. -/
def withBands (direction : ℕ) (layout : FdmLinearOpLayout) (bands : FdmLinearOpIterator → R × R × R) :
    TripleBandLinearOp R :=
  let op := new direction layout
  { op with
    lower := fill layout FdmLinearOpIterator.index (fun p => (bands p).1) op.lower
    diag := fill layout FdmLinearOpIterator.index (fun p => (bands p).2.1) op.diag
    upper := fill layout FdmLinearOpIterator.index (fun p => (bands p).2.2) op.upper }

def size (op : TripleBandLinearOp R) : ℕ := op.diag.length

/-- The entry of a band, or of a vector, at row `j` of the chain. -/
def row (op : TripleBandLinearOp R) (band : List R) (j : ℕ) : R := band.getD (op.reverseIndex.getD j 0) 0

variable [One R] [Add R] [Sub R] [Mul R] [Div R]

def apply (op : TripleBandLinearOp R) (r : List R) : List R :=
  (List.range op.size).map fun i => r.getD (op.i0.getD i 0) 0 * op.lower.getD i 0 + r.getD i 0 * op.diag.getD i 0 +
    r.getD (op.i2.getD i 0) 0 * op.upper.getD i 0

/-- The sweep up so far. -/
structure Sweep (R : Type) where
  bet      : R
  previous : ℕ
  tmp      : List R
  result   : List R

variable [DecidableEq R] (op : TripleBandLinearOp R) (r : List R) (a b : R)

/-- A turn of the loop up. -/
def sweepUp (j : ℕ) (s : Sweep R) : Except String (Sweep R) :=
  let current := op.reverseIndex.getD j 0
  let tmp := s.tmp.set j (a * op.upper.getD s.previous 0 * s.bet)
  let bet := b + a * (op.diag.getD current 0 - tmp.getD j 0 * op.lower.getD current 0)
  if bet = 0 then .error "division by zero"
  else
    let bet := 1 / bet
    .ok ⟨bet, current, tmp,
      s.result.set current ((r.getD current 0 - a * op.lower.getD current 0 * s.result.getD s.previous 0) * bet)⟩

/-- A turn of the loop down. -/
def sweepDown (tmp : List R) (j : ℕ) (result : List R) : List R :=
  let k := op.reverseIndex.getD j 0
  result.set k (result.getD k 0 - tmp.getD (j + 1) 0 * result.getD (op.reverseIndex.getD (j + 1) 0) 0)

/-- The turns from row `j` down to row 1. -/
def sweepsDown (tmp : List R) : ℕ → List R → List R
  | 0, result     => result
  | j + 1, result => sweepsDown tmp j (op.sweepDown tmp (j + 1) result)

def solveSplitting : Except String (List R) :=
  if r.length ≠ op.size then .error "inconsistent size of rhs"
  else
    let previous := op.reverseIndex.getD 0 0
    let bet := 1 / (a * op.diag.getD previous 0 + b)
    if bet = 0 then .error "division by zero"
    else do
      let zeros := List.replicate op.size 0
      let s ← Loop.loop (op.size - 1) (fun s k => op.sweepUp r a b (k + 1) s)
        ⟨bet, previous, zeros, zeros.set previous (r.getD previous 0 * bet)⟩
      let result := op.sweepsDown s.tmp (op.size - 2) s.result
      .ok (if 1 < op.size then op.sweepDown s.tmp 0 result else result)

end

end TripleBandLinearOp

/-! ## The positions -/

/-- A grid with points, two of them at least along the direction. -/
structure Along (dim : List ℕ) (direction : ℕ) : Prop where
  positive : ∀ d ∈ dim, 0 < d
  inside   : direction < dim.length
  two      : 2 ≤ dim.getD direction 0

/-- A position of the grid, its index that of its coordinates. -/
structure FdmLinearOpIterator.At (dim : List ℕ) (p : FdmLinearOpIterator) : Prop where
  extents : p.dim = dim
  digits  : Radix.Digits p.coordinates dim
  value   : Radix.value p.coordinates dim = p.index

namespace FdmLinearOpLayout

open FdmLinearOpIterator (walk)

theorem new_foldl : ∀ (dim spacing : List ℕ) (stride : ℕ),
    dim.foldl (fun (p : List ℕ × ℕ) extent => (p.1 ++ [p.2], p.2 * extent)) (spacing, stride) =
      (spacing ++ Radix.strides stride dim, stride * dim.prod)
  | [], spacing, stride       => by simp [Radix.strides]
  | d :: dim, spacing, stride => by
    rw [List.foldl_cons, new_foldl dim]
    simp [Radix.strides, mul_assoc]

theorem new_eq (dim : List ℕ) : new dim = ⟨dim.prod, dim, Radix.strides 1 dim⟩ := by
  have := new_foldl dim [] 1
  rw [List.nil_append, one_mul] at this
  simp only [new]
  rw [this]

variable {dim : List ℕ}

theorem advance_at {p : FdmLinearOpIterator} (h : p.At dim) (hlast : p.index + 1 < dim.prod) : p.advance.At dim where
  extents := h.extents
  digits  := by
    rw [FdmLinearOpIterator.advance, h.extents]
    exact Radix.next_digits h.digits
  value   := by
    rw [FdmLinearOpIterator.advance, h.extents]
    exact (Radix.value_next h.digits (h.value ▸ hlast)).trans (congrArg (· + 1) h.value)

theorem walk_spec : ∀ (n : ℕ) (p : FdmLinearOpIterator), p.At dim → p.index + n ≤ dim.prod →
    (walk n p).map FdmLinearOpIterator.index = List.range' p.index n ∧ ∀ q ∈ walk n p, q.At dim
  | 0, _, _, _     => ⟨rfl, nofun⟩
  | n + 1, p, h, hn => by
    rcases Nat.eq_zero_or_pos n with rfl | hpos
    · exact ⟨rfl, fun q hq => List.mem_singleton.1 hq ▸ h⟩
    · obtain ⟨hindex, hat⟩ := walk_spec n p.advance (advance_at h (by omega)) (by
        change p.index + 1 + n ≤ dim.prod
        omega)
      refine ⟨?_, fun q hq => ?_⟩
      · rw [walk, List.map_cons, hindex, List.range'_succ]
        rfl
      · rcases List.mem_cons.1 hq with rfl | hq
        · exact h
        · exact hat q hq

theorem begin_at (h : ∀ d ∈ dim, 0 < d) : (FdmLinearOpIterator.new dim).At dim := by
  have hdigits : Radix.Digits (List.replicate dim.length 0) dim ∧ Radix.value (List.replicate dim.length 0) dim = 0 := by
    induction dim with
    | nil           => exact ⟨.nil, rfl⟩
    | cons d dim ih =>
      obtain ⟨hdigits, hvalue⟩ := ih (fun e he => h e (List.mem_cons_of_mem d he))
      refine ⟨.cons (h d List.mem_cons_self) hdigits, ?_⟩
      simp [List.replicate_succ, Radix.value, hvalue]
  exact ⟨rfl, hdigits.1, hdigits.2⟩

/-- **The positions** are those of the indices, in order. -/
theorem iter_spec (h : ∀ d ∈ dim, 0 < d) :
    (new dim).iter.map FdmLinearOpIterator.index = List.range dim.prod ∧ ∀ p ∈ (new dim).iter, p.At dim := by
  rw [new_eq, iter, List.range_eq_range']
  exact walk_spec dim.prod _ (begin_at h) (le_of_eq (Nat.zero_add _))

theorem exists_position (h : ∀ d ∈ dim, 0 < d) {i : ℕ} (hi : i < dim.prod) : ∃ p ∈ (new dim).iter, p.index = i := by
  have : i ∈ (new dim).iter.map FdmLinearOpIterator.index := by
    rw [(iter_spec h).1]
    exact List.mem_range.2 hi
  exact List.mem_map.1 this

theorem index_lt (h : ∀ d ∈ dim, 0 < d) {p : FdmLinearOpIterator} (hp : p ∈ (new dim).iter) : p.index < dim.prod := by
  have hat := (iter_spec h).2 p hp
  exact hat.value ▸ Radix.value_lt hat.digits

/-- The place of a position in the chain. -/
def place (dim : List ℕ) (direction : ℕ) (p : FdmLinearOpIterator) : ℕ :=
  Radix.value (Radix.swapHead p.coordinates direction) (Radix.swapHead dim direction)

variable {direction : ℕ} {p q : FdmLinearOpIterator}

theorem dot_newSpacing (hp : p.At dim) (hd : direction < dim.length) :
    Radix.dot p.coordinates (Radix.swapHead (new (Radix.swapHead dim direction)).spacing direction) =
      place dim direction p := by
  have hlen := hp.digits.length_eq
  rw [new_eq, ← Radix.dot_swapHead (by simp [hlen]) direction, Radix.swapHead_swapHead _ (by simpa using hd),
    Radix.dot_strides _ (by simp [hlen]), one_mul, place]

variable (direction) in
theorem place_lt (hp : p.At dim) : place dim direction p < dim.prod := by
  rw [← Radix.prod_swapHead dim direction]
  exact Radix.value_lt (Radix.swapHead_digits hp.digits direction)

/-- **Different positions have different places.** -/
theorem place_inj (hp : p.At dim) (hq : q.At dim) (hd : direction < dim.length)
    (h : place dim direction p = place dim direction q) : p.index = q.index := by
  have hswap := Radix.value_inj (Radix.swapHead_digits hp.digits direction) (Radix.swapHead_digits hq.digits direction) h
  have := congrArg (fun l => Radix.swapHead l direction) hswap
  rw [Radix.swapHead_swapHead _ (hp.digits.length_eq ▸ hd), Radix.swapHead_swapHead _ (hq.digits.length_eq ▸ hd)] at this
  rw [← hp.value, ← hq.value, this]

/-- The index counts the coordinate along the direction in strides. -/
theorem index_set (hp : p.At dim) (hd : direction < dim.length) (c : ℕ) :
    Radix.value (p.coordinates.set direction c) dim + p.coordinates.getD direction 0 * (new dim).spacing.getD direction 0 =
      p.index + c * (new dim).spacing.getD direction 0 := by
  have hlen := hp.digits.length_eq
  have hs : direction < (Radix.strides 1 dim).length := by simpa using hd
  have hset := Radix.dot_set (hlen ▸ hd) hs c ((Radix.strides 1 dim).getD direction 0)
  rw [List.getD_eq_getElem _ _ hs, List.set_getElem_self, Radix.dot_strides _ hlen,
    Radix.dot_strides _ (by simpa using hlen), one_mul, one_mul, hp.value] at hset
  rw [new_eq, List.getD_eq_getElem _ _ hs]
  exact hset

theorem place_set (hg : Along dim direction) (hp : p.At dim) (c : ℕ) :
    Radix.value (Radix.swapHead (p.coordinates.set direction c) direction) (Radix.swapHead dim direction) +
      p.coordinates.getD direction 0 = place dim direction p + c := by
  have hcs : direction < p.coordinates.length := hp.digits.length_eq ▸ hg.inside
  have hhead := Radix.swapHead_head p.coordinates hcs
  have hne : Radix.swapHead p.coordinates direction ≠ [] := by
    intro h
    rw [h, List.getElem?_eq_getElem hcs] at hhead
    exact nomatch hhead
  have hget : (Radix.swapHead p.coordinates direction).getD 0 0 = p.coordinates.getD direction 0 := by
    rw [List.getD_eq_getElem?_getD, ← List.head?_eq_getElem?, hhead, List.getD_eq_getElem?_getD]
  rw [Radix.swapHead_set _ hcs, ← hget]
  exact Radix.value_set_zero (Radix.swapHead_digits hp.digits direction) hne c

/-- **The position beside, at another coordinate along the direction.** -/
theorem exists_beside (hg : Along dim direction) (hp : p ∈ (new dim).iter) {offset : ℤ} {c : ℕ}
    (hreflect : (new dim).reflect p direction offset = c) (hc : c < dim.getD direction 0) :
    ∃ q ∈ (new dim).iter, (new dim).neighbourhood p direction offset = q.index ∧
      place dim direction q + p.coordinates.getD direction 0 = place dim direction p + c := by
  have hat := (iter_spec hg.positive).2 p hp
  have hindex := index_set hat hg.inside c
  have hzero := index_set hat hg.inside 0
  have hdigits : Radix.Digits (p.coordinates.set direction c) dim := by
    have := Radix.forall₂_set hat.digits hc direction
    rwa [List.getD_eq_getElem _ _ hg.inside, List.set_getElem_self] at this
  obtain ⟨q, hq, hqi⟩ := exists_position hg.positive (Radix.value_lt hdigits)
  have hqat := (iter_spec hg.positive).2 q hq
  have hcoordinates : q.coordinates = p.coordinates.set direction c :=
    Radix.value_inj hqat.digits hdigits (hqat.value.trans hqi)
  refine ⟨q, hq, ?_, ?_⟩
  · rw [neighbourhood, hreflect, hqi]
    omega
  · rw [← place_set hg hat c, place, hcoordinates]

theorem reflect_down (hp : 0 < p.coordinates.getD direction 0) (h : p.coordinates.getD direction 0 < dim.getD direction 0) :
    (new dim).reflect p direction (-1) = p.coordinates.getD direction 0 - 1 := by
  rw [new_eq, reflect]
  dsimp only
  split
  · omega
  · split <;> omega

theorem reflect_up (h : p.coordinates.getD direction 0 + 1 < dim.getD direction 0) :
    (new dim).reflect p direction 1 = p.coordinates.getD direction 0 + 1 := by
  rw [new_eq, reflect]
  dsimp only
  split
  · omega
  · split <;> omega

theorem coordinate_lt (hg : Along dim direction) (hp : p.At dim) :
    p.coordinates.getD direction 0 < dim.getD direction 0 := by
  have hcs : direction < p.coordinates.length := hp.digits.length_eq ▸ hg.inside
  rw [List.getD_eq_getElem _ _ hcs, List.getD_eq_getElem _ _ hg.inside]
  exact hp.digits.get hcs hg.inside

end FdmLinearOpLayout

/-! ## The index maps -/

namespace TripleBandLinearOp

open FdmLinearOpLayout (place)

variable {R : Type} [Zero R] {dim : List ℕ} {direction : ℕ} {p : FdmLinearOpIterator}

theorem positions_nodup (h : ∀ d ∈ dim, 0 < d) :
    ((FdmLinearOpLayout.new dim).iter.map FdmLinearOpIterator.index).Nodup := by
  rw [(FdmLinearOpLayout.iter_spec h).1]
  exact List.nodup_range

theorem places_nodup (hg : Along dim direction) :
    ((FdmLinearOpLayout.new dim).iter.map (place dim direction)).Nodup := by
  have hiter := FdmLinearOpLayout.iter_spec hg.positive
  refine List.Nodup.map_on (fun p hp q hq h => ?_) (List.Nodup.of_map _ (positions_nodup hg.positive))
  refine List.inj_on_of_nodup_map (positions_nodup hg.positive) hp hq ?_
  exact FdmLinearOpLayout.place_inj (hiter.2 p hp) (hiter.2 q hq) hg.inside h

theorem fill_index {α : Type} (h : ∀ d ∈ dim, 0 < d) (value : FdmLinearOpIterator → α) (d : α)
    (hp : p ∈ (FdmLinearOpLayout.new dim).iter) : (fill (FdmLinearOpLayout.new dim) FdmLinearOpIterator.index value
      (List.replicate (FdmLinearOpLayout.new dim).size d)).getD p.index d = value p := by
  refine (Loop.foldl_set FdmLinearOpIterator.index value d _ _ (positions_nodup h) fun q hq => ?_).1 p hp
  rw [List.length_replicate, FdmLinearOpLayout.new_eq]
  exact FdmLinearOpLayout.index_lt h hq

theorem fill_length {α : Type} (h : ∀ d ∈ dim, 0 < d) (value : FdmLinearOpIterator → α) (d : α) :
    (fill (FdmLinearOpLayout.new dim) FdmLinearOpIterator.index value
      (List.replicate (FdmLinearOpLayout.new dim).size d)).length = dim.prod := by
  refine (Loop.foldl_set FdmLinearOpIterator.index value d _ _ (positions_nodup h) fun q hq => ?_).2.2.trans ?_
  · rw [List.length_replicate, FdmLinearOpLayout.new_eq]
    exact FdmLinearOpLayout.index_lt h hq
  · rw [List.length_replicate, FdmLinearOpLayout.new_eq]

/-- **The chain visits the positions in the order of their places.** -/
theorem reverseIndex_position (hg : Along dim direction) (hp : p ∈ (FdmLinearOpLayout.new dim).iter) :
    (new direction (FdmLinearOpLayout.new dim) : TripleBandLinearOp R).reverseIndex.getD (place dim direction p) 0 =
      p.index := by
  have hiter := FdmLinearOpLayout.iter_spec hg.positive
  have hkey : ∀ q ∈ (FdmLinearOpLayout.new dim).iter, Radix.dot q.coordinates (Radix.swapHead
      (FdmLinearOpLayout.new (Radix.swapHead (FdmLinearOpLayout.new dim).dim direction)).spacing direction) =
      place dim direction q := by
    intro q hq
    have hdim : (FdmLinearOpLayout.new dim).dim = dim := by rw [FdmLinearOpLayout.new_eq]
    rw [hdim]
    exact FdmLinearOpLayout.dot_newSpacing (hiter.2 q hq) hg.inside
  rw [← hkey p hp]
  refine (Loop.foldl_set _ FdmLinearOpIterator.index 0 _ _ ?_ ?_).1 p hp
  · rw [List.map_congr_left hkey]
    exact places_nodup hg
  · intro q hq
    rw [hkey q hq, List.length_replicate, FdmLinearOpLayout.new_eq]
    exact FdmLinearOpLayout.place_lt direction (hiter.2 q hq)

theorem exists_place (hg : Along dim direction) {j : ℕ} (hj : j < dim.prod) :
    ∃ p ∈ (FdmLinearOpLayout.new dim).iter, place dim direction p = j := by
  have hiter := FdmLinearOpLayout.iter_spec hg.positive
  have hsub : (FdmLinearOpLayout.new dim).iter.map (place dim direction) ⊆ List.range dim.prod := by
    intro k hk
    obtain ⟨p, hp, rfl⟩ := List.mem_map.1 hk
    exact List.mem_range.2 (FdmLinearOpLayout.place_lt direction (hiter.2 p hp))
  have hlen : (List.range dim.prod).length ≤ ((FdmLinearOpLayout.new dim).iter.map (place dim direction)).length := by
    rw [← hiter.1, List.length_map, List.length_map]
  have hperm := (List.subperm_of_subset (places_nodup hg) hsub).perm_of_length_le hlen
  exact List.mem_map.1 (hperm.symm.subset (List.mem_range.2 hj))

/-! ## The sweeps -/

section

variable {R : Type} [Zero R] [One R] [Add R] [Sub R] [Mul R] [Div R] [DecidableEq R] (op : TripleBandLinearOp R)
  (r : List R) (a b : R)

/-- Two rows at least, each with a point of its own. -/
structure Chained : Prop where
  two   : 2 ≤ op.size
  range : ∀ {j : ℕ}, j < op.size → op.reverseIndex.getD j 0 < op.size
  inj   : ∀ {i j : ℕ}, i < op.size → j < op.size → op.reverseIndex.getD i 0 = op.reverseIndex.getD j 0 → i = j

/-- The inverse of the pivot of row `j`. -/
def inverse (j : ℕ) : R := Tridiagonal.inverse a b (op.row op.lower) (op.row op.diag) (op.row op.upper) j

def factor (j : ℕ) : R := Tridiagonal.factor a b (op.row op.lower) (op.row op.diag) (op.row op.upper) j

def pivot (j : ℕ) : R := Tridiagonal.pivot a b (op.row op.lower) (op.row op.diag) (op.row op.upper) j

def forward (j : ℕ) : R :=
  Tridiagonal.forward a b (op.row op.lower) (op.row op.diag) (op.row op.upper) (op.row r) j

def solution (j : ℕ) : R :=
  Tridiagonal.solution a b (op.row op.lower) (op.row op.diag) (op.row op.upper) (op.row r) (op.size - 1) j

/-- Rows up to `j` are swept. -/
structure SweptUp (j : ℕ) (s : Sweep R) : Prop where
  bet      : s.bet = op.inverse a b j
  previous : s.previous = op.reverseIndex.getD j 0
  tmp      : ∀ k < j, s.tmp.getD (k + 1) 0 = op.factor a b k
  result   : ∀ k ≤ j, s.result.getD (op.reverseIndex.getD k 0) 0 = op.forward r a b k
  sizes    : s.tmp.length = op.size ∧ s.result.length = op.size

/-- Rows from `j` on are solved, those before are swept up. -/
structure SweptDown (j : ℕ) (result : List R) : Prop where
  below : ∀ k < j, result.getD (op.reverseIndex.getD k 0) 0 = op.forward r a b k
  above : ∀ k, j ≤ k → k < op.size → result.getD (op.reverseIndex.getD k 0) 0 = op.solution r a b k
  size  : result.length = op.size

variable {op r a b}

theorem getD_set_self {α : Type} {l : List α} {i : ℕ} (h : i < l.length) (x d : α) : (l.set i x).getD i d = x := by
  simp [h]

theorem getD_set_ne {α : Type} (l : List α) {i j : ℕ} (h : i ≠ j) (x d : α) : (l.set i x).getD j d = l.getD j d := by
  simp [List.getD_eq_getElem?_getD, List.getElem?_set_ne h]

omit [Zero R] [One R] [Add R] [Sub R] [Mul R] [Div R] [DecidableEq R] in
theorem Chained.ne (h : op.Chained) {i j : ℕ} (hi : i < op.size) (hj : j < op.size) (hne : i ≠ j) :
    op.reverseIndex.getD i 0 ≠ op.reverseIndex.getD j 0 := fun he => hne (h.inj hi hj he)

/-- **A turn up** fails where the pivot is zero, and sweeps a row otherwise. -/
theorem sweepUp_cases (h : op.Chained) {j : ℕ} (hj : j + 1 < op.size) {s : Sweep R} (hs : op.SweptUp r a b j s) :
    (op.pivot a b j = 0 ∧ op.sweepUp r a b (j + 1) s = .error "division by zero") ∨
      (op.pivot a b j ≠ 0 ∧ ∃ s', op.sweepUp r a b (j + 1) s = .ok s' ∧ op.SweptUp r a b (j + 1) s') := by
  have htmp : (s.tmp.set (j + 1) (a * op.upper.getD s.previous 0 * s.bet)).getD (j + 1) 0 = op.factor a b j := by
    rw [getD_set_self (hs.sizes.1 ▸ hj), hs.bet, hs.previous]
    rfl
  have hpivot : b + a * (op.row op.diag (j + 1) - op.factor a b j * op.row op.lower (j + 1)) = op.pivot a b j := rfl
  simp only [sweepUp, htmp]
  by_cases hzero : op.pivot a b j = 0
  · exact .inl ⟨hzero, if_pos hzero⟩
  · refine .inr ⟨hzero, _, if_neg hzero, ?_, rfl, fun k hk => ?_, fun k hk => ?_, ?_, ?_⟩
    · rfl
    · rcases Nat.lt_succ_iff_lt_or_eq.1 hk with hk | rfl
      · rw [getD_set_ne _ (by omega)]
        exact hs.tmp k hk
      · exact htmp
    · rcases Nat.le_succ_iff.1 hk with hk | rfl
      · rw [getD_set_ne _ (h.ne hj (by omega) (by omega))]
        exact hs.result k hk
      · rw [getD_set_self (hs.sizes.2 ▸ h.range hj), hs.previous, hs.result j le_rfl]
        rfl
    · rw [List.length_set, hs.sizes.1]
    · rw [List.length_set, hs.sizes.2]

omit [DecidableEq R] in
/-- **A turn down** solves a row. -/
theorem sweepDown_spec (h : op.Chained) {j : ℕ} (hj : j + 1 < op.size) {tmp result : List R}
    (htmp : tmp.getD (j + 1) 0 = op.factor a b j) (hs : op.SweptDown r a b (j + 1) result) :
    op.SweptDown r a b j (op.sweepDown tmp j result) := by
  refine ⟨fun k hk => ?_, fun k hjk hk => ?_, ?_⟩
  · rw [sweepDown, getD_set_ne _ (h.ne (by omega) (by omega) (by omega))]
    exact hs.below k (by omega)
  · rcases Nat.eq_or_lt_of_le hjk with rfl | hlt
    · rw [sweepDown, getD_set_self (hs.size ▸ h.range hk), hs.below j (Nat.lt_succ_self j), hs.above (j + 1) le_rfl hj,
        htmp]
      exact (Tridiagonal.solution_step a b _ _ _ _ (by omega)).symm
    · rw [sweepDown, getD_set_ne _ (h.ne (by omega) hk (by omega))]
      exact hs.above k hlt hk
  · rw [sweepDown, List.length_set, hs.size]

omit [DecidableEq R] in
theorem sweepsDown_spec (h : op.Chained) {tmp : List R}
    (htmp : ∀ k < op.size - 1, tmp.getD (k + 1) 0 = op.factor a b k) : ∀ {j : ℕ} {result : List R}, j + 1 < op.size →
      op.SweptDown r a b (j + 1) result → op.SweptDown r a b 1 (op.sweepsDown tmp j result)
  | 0, _, _, hs      => hs
  | j + 1, _, hj, hs => by
    rw [sweepsDown]
    exact sweepsDown_spec h htmp (by omega) (sweepDown_spec h hj (htmp (j + 1) (by omega)) hs)

/-- **What `solve_splitting` returns**: an error where the inverse of the first pivot or a later pivot is zero, and the
solution of the recurrences otherwise. -/
theorem solveSplitting_cases (h : op.Chained) (hr : r.length = op.size) :
    ((op.inverse a b 0 = 0 ∨ ∃ k, k < op.size - 1 ∧ op.pivot a b k = 0) ∧
        op.solveSplitting r a b = .error "division by zero") ∨
      ((op.inverse a b 0 ≠ 0 ∧ ∀ k, k < op.size - 1 → op.pivot a b k ≠ 0) ∧
        ∃ x, op.solveSplitting r a b = .ok x ∧ op.SweptDown r a b 0 x) := by
  have htwo := h.two
  rw [solveSplitting, if_neg (not_not.2 hr)]
  by_cases hbet : op.inverse a b 0 = 0
  · exact .inl ⟨.inl hbet, if_pos hbet⟩
  · have hbegin : op.SweptUp r a b 0 ⟨op.inverse a b 0, op.reverseIndex.getD 0 0, List.replicate op.size 0,
        (List.replicate op.size 0).set (op.reverseIndex.getD 0 0)
          (r.getD (op.reverseIndex.getD 0 0) 0 * op.inverse a b 0)⟩ := by
      refine ⟨rfl, rfl, nofun, fun k hk => ?_, List.length_replicate, ?_⟩
      · rw [Nat.le_zero.1 hk, getD_set_self ((List.length_replicate (n := op.size)).symm ▸ h.range (by omega))]
        rfl
      · rw [List.length_set, List.length_replicate]
    have hrun := Loop.loop_cases (op.SweptUp r a b) (fun k => op.pivot a b k = 0) "division by zero" (op.size - 1)
      hbegin (fun k hk s hs => sweepUp_cases h (by omega) hs)
    have hif : ∀ {α : Type} (x y : α), (if 1 / (a * op.diag.getD (op.reverseIndex.getD 0 0) 0 + b) = 0 then x else y) = y :=
      fun _ _ => if_neg hbet
    rw [hif]
    rcases hrun with ⟨hex, hrun⟩ | ⟨hne, s, hrun, hs⟩
    · exact .inl ⟨.inr hex, congrArg (Except.bind · _) hrun⟩
    · refine .inr ⟨⟨hbet, hne⟩, _, congrArg (Except.bind · _) hrun, ?_⟩
      have htop : op.SweptDown r a b (op.size - 2 + 1) s.result := by
        refine ⟨fun k hk => hs.result k (by omega), fun k hkn hk => ?_, hs.sizes.2⟩
        have : k = op.size - 1 := by omega
        rw [hs.result k (by omega), this]
        exact (Tridiagonal.solution_last a b _ _ _ _ _).symm
      rw [if_pos (by omega)]
      exact sweepDown_spec h (by omega) (hs.tmp 0 (by omega)) (sweepsDown_spec h hs.tmp (by omega) htop)

end

/-! ## The operator over a grid -/

section

variable {R : Type} [Zero R] {dim : List ℕ} {direction : ℕ} {bands : FdmLinearOpIterator → R × R × R}
  {p : FdmLinearOpIterator}

/-- The operator over a grid. -/
def onGrid (dim : List ℕ) (direction : ℕ) (bands : FdmLinearOpIterator → R × R × R) : TripleBandLinearOp R :=
  withBands direction (FdmLinearOpLayout.new dim) bands

variable (direction bands) in
theorem onGrid_size (h : ∀ d ∈ dim, 0 < d) : (onGrid dim direction bands).size = dim.prod := fill_length h _ 0

theorem two_le_prod (hg : Along dim direction) : 2 ≤ dim.prod := by
  have hmem : dim.getD direction 0 ∈ dim := by
    rw [List.getD_eq_getElem _ _ hg.inside]
    exact List.getElem_mem hg.inside
  exact hg.two.trans (Nat.le_of_dvd (List.prod_pos hg.positive) (List.dvd_prod hmem))

variable (bands) in
/-- **The grid is one chain.** -/
theorem onGrid_chained (hg : Along dim direction) : (onGrid dim direction bands).Chained := by
  have hplace : ∀ {j}, j < dim.prod → ∃ p ∈ (FdmLinearOpLayout.new dim).iter, place dim direction p = j ∧
      (onGrid dim direction bands).reverseIndex.getD j 0 = p.index := by
    intro j hj
    obtain ⟨p, hp, rfl⟩ := exists_place hg hj
    exact ⟨p, hp, rfl, reverseIndex_position (R := R) hg hp⟩
  have hsize := onGrid_size direction bands hg.positive
  refine ⟨hsize ▸ two_le_prod hg, fun {j} hj => ?_, fun {i j} hi hj h => ?_⟩
  · rw [hsize] at hj ⊢
    obtain ⟨p, hp, -, hindex⟩ := hplace hj
    exact hindex ▸ FdmLinearOpLayout.index_lt hg.positive hp
  · rw [hsize] at hi hj
    obtain ⟨p, hp, rfl, hpi⟩ := hplace hi
    obtain ⟨q, hq, rfl, hqi⟩ := hplace hj
    exact congrArg _ (List.inj_on_of_nodup_map (positions_nodup hg.positive) hp hq (hpi.symm.trans (h.trans hqi)))

variable (direction bands) in
theorem onGrid_bands (h : ∀ d ∈ dim, 0 < d) (hp : p ∈ (FdmLinearOpLayout.new dim).iter) :
    (onGrid dim direction bands).lower.getD p.index 0 = (bands p).1 ∧
      (onGrid dim direction bands).diag.getD p.index 0 = (bands p).2.1 ∧
      (onGrid dim direction bands).upper.getD p.index 0 = (bands p).2.2 :=
  ⟨fill_index h _ 0 hp, fill_index h _ 0 hp, fill_index h _ 0 hp⟩

variable (direction bands) in
theorem onGrid_neighbours (h : ∀ d ∈ dim, 0 < d) (hp : p ∈ (FdmLinearOpLayout.new dim).iter) :
    (onGrid dim direction bands).i0.getD p.index 0 = (FdmLinearOpLayout.new dim).neighbourhood p direction (-1) ∧
      (onGrid dim direction bands).i2.getD p.index 0 = (FdmLinearOpLayout.new dim).neighbourhood p direction 1 :=
  ⟨fill_index h _ 0 hp, fill_index h _ 0 hp⟩

variable (bands) in
theorem onGrid_row (hg : Along dim direction) (hp : p ∈ (FdmLinearOpLayout.new dim).iter) (band : List R) :
    (onGrid dim direction bands).row band (place dim direction p) = band.getD p.index 0 :=
  congrArg (band.getD · 0) (reverseIndex_position (R := R) hg hp)

end

/-! ## Exact arithmetic -/

open Extended (finite)
open Tridiagonal (lift rowPivot)

variable {K : Type} [Field K] [DecidableEq K]

/-- Bands of numbers. -/
def exact (bands : FdmLinearOpIterator → K × K × K) (p : FdmLinearOpIterator) : Extended K × Extended K × Extended K :=
  (finite (bands p).1, finite (bands p).2.1, finite (bands p).2.2)

/-- The pivot of row `j`, with `b` added to `a` times the operator. -/
def eliminationPivot (op : TripleBandLinearOp K) (a b : K) (j : ℕ) : K :=
  rowPivot a b (op.row op.lower) (op.row op.diag) (op.row op.upper) j

/-- The pivot `j` rows after row 2, in an elimination that begins there. -/
def restartPivot (op : TripleBandLinearOp K) (a b : K) (j : ℕ) : K :=
  rowPivot a b (fun j => op.row op.lower (j + 2)) (fun j => op.row op.diag (j + 2)) (fun j => op.row op.upper (j + 2)) j

/-- `a * apply(x) + b * x = r` -/
def Solution (op : TripleBandLinearOp (Extended K)) (r : List (Extended K)) (a b : Extended K)
    (x : List (Extended K)) : Prop :=
  ∀ i < op.size, a * (op.apply x).getD i 0 + b * x.getD i 0 = r.getD i 0

/-- The solve returns exactly when no elimination pivot is zero, and then a solution. -/
def Solves (dim : List ℕ) (direction : ℕ) (bands : FdmLinearOpIterator → K × K × K) (r : List K) (a b : K) : Prop :=
  let op := onGrid dim direction (exact bands)
  let solved := op.solveSplitting (r.map finite) (finite a) (finite b)
  ((∃ x, solved = .ok x) ↔ ∀ j < dim.prod, (onGrid dim direction bands).eliminationPivot a b j ≠ 0) ∧
    ∀ x, solved = .ok x → op.Solution (r.map finite) (finite a) (finite b) x

variable {dim : List ℕ} {direction : ℕ} {bands : FdmLinearOpIterator → K × K × K} {r : List K} {a b : K}

omit [DecidableEq K] in
theorem getD_map_finite (l : List K) (i : ℕ) : (l.map finite).getD i 0 = finite (l.getD i 0) := by
  simp only [List.getD_eq_getElem?_getD, List.getElem?_map]
  cases l[i]? <;> rfl

omit [Field K] [DecidableEq K] in
theorem fill_finite {layout : FdmLinearOpLayout} (value : FdmLinearOpIterator → K) (l : List K) :
    fill layout FdmLinearOpIterator.index (fun p => finite (value p)) (l.map finite) =
      (fill layout FdmLinearOpIterator.index value l).map finite := by
  rw [fill, fill]
  induction layout.iter generalizing l with
  | nil             => rfl
  | cons p iter ih  =>
    rw [List.foldl_cons, List.foldl_cons, ← ih, List.map_set]

omit [DecidableEq K] in
theorem row_finite (value : FdmLinearOpIterator → K) :
    (onGrid dim direction (exact bands)).row (fill (FdmLinearOpLayout.new dim) FdmLinearOpIterator.index
        (fun p => finite (value p)) (List.replicate (FdmLinearOpLayout.new dim).size 0)) =
      lift ((onGrid dim direction bands).row (fill (FdmLinearOpLayout.new dim) FdmLinearOpIterator.index value
        (List.replicate (FdmLinearOpLayout.new dim).size 0))) := by
  have hzeros : List.replicate (FdmLinearOpLayout.new dim).size (0 : Extended K) =
      (List.replicate (FdmLinearOpLayout.new dim).size 0).map finite := by
    rw [List.map_replicate]
    rfl
  funext j
  rw [hzeros, fill_finite]
  exact getD_map_finite _ _

omit [DecidableEq K] in
theorem lower_finite : (onGrid dim direction (exact bands)).row (onGrid dim direction (exact bands)).lower =
    lift ((onGrid dim direction bands).row (onGrid dim direction bands).lower) := row_finite fun p => (bands p).1

omit [DecidableEq K] in
theorem diag_finite : (onGrid dim direction (exact bands)).row (onGrid dim direction (exact bands)).diag =
    lift ((onGrid dim direction bands).row (onGrid dim direction bands).diag) := row_finite fun p => (bands p).2.1

omit [DecidableEq K] in
theorem upper_finite : (onGrid dim direction (exact bands)).row (onGrid dim direction (exact bands)).upper =
    lift ((onGrid dim direction bands).row (onGrid dim direction bands).upper) := row_finite fun p => (bands p).2.2

omit [DecidableEq K] in
theorem rhs_finite : (onGrid dim direction (exact bands)).row (r.map finite) = lift ((onGrid dim direction bands).row r) := by
  funext j
  exact getD_map_finite _ _

variable {p : FdmLinearOpIterator}

theorem exists_below (hg : Along dim direction) (hp : p ∈ (FdmLinearOpLayout.new dim).iter)
    (hc : 0 < p.coordinates.getD direction 0) : ∃ q ∈ (FdmLinearOpLayout.new dim).iter,
      (FdmLinearOpLayout.new dim).neighbourhood p direction (-1) = q.index ∧ place dim direction q + 1 = place dim direction p := by
  have hlt := FdmLinearOpLayout.coordinate_lt hg ((FdmLinearOpLayout.iter_spec hg.positive).2 p hp)
  obtain ⟨q, hq, hindex, hplace⟩ := FdmLinearOpLayout.exists_beside hg hp (FdmLinearOpLayout.reflect_down hc hlt) (by omega)
  exact ⟨q, hq, hindex, by omega⟩

theorem exists_above (hg : Along dim direction) (hp : p ∈ (FdmLinearOpLayout.new dim).iter)
    (hc : p.coordinates.getD direction 0 + 1 < dim.getD direction 0) : ∃ q ∈ (FdmLinearOpLayout.new dim).iter,
      (FdmLinearOpLayout.new dim).neighbourhood p direction 1 = q.index ∧ place dim direction q = place dim direction p + 1 := by
  obtain ⟨q, hq, hindex, hplace⟩ := FdmLinearOpLayout.exists_beside hg hp (FdmLinearOpLayout.reflect_up hc) hc
  exact ⟨q, hq, hindex, by omega⟩

/-- The lower band vanishes at the first coordinate along the direction, the upper band at the last. -/
structure Confined (dim : List ℕ) (direction : ℕ) (bands : FdmLinearOpIterator → K × K × K) : Prop where
  first : ∀ p ∈ (FdmLinearOpLayout.new dim).iter, p.coordinates.getD direction 0 = 0 → (bands p).1 = 0
  last  : ∀ p ∈ (FdmLinearOpLayout.new dim).iter, p.coordinates.getD direction 0 + 1 = dim.getD direction 0 →
    (bands p).2.2 = 0

/-- The sweeps compute with numbers of the field as long as no pivot is zero. -/
theorem solution_finite (h : ∀ d ∈ dim, 0 < d) (hne : ∀ j < dim.prod, (onGrid dim direction bands).eliminationPivot a b j ≠ 0)
    (j : ℕ) : (onGrid dim direction (exact bands)).solution (r.map finite) (finite a) (finite b) j =
      finite ((onGrid dim direction bands).solution r a b j) := by
  have hpos : 0 < dim.prod := List.prod_pos h
  rw [solution, lower_finite, diag_finite, upper_finite, rhs_finite, onGrid_size direction _ h, solution,
    onGrid_size direction _ h]
  exact Tridiagonal.solution_lift (fun k hk => hne k (by omega)) j

theorem getD_apply {R : Type} [Zero R] [Add R] [Mul R] (op : TripleBandLinearOp R) (x : List R) {i : ℕ} (hi : i < op.size) :
    (op.apply x).getD i 0 = x.getD (op.i0.getD i 0) 0 * op.lower.getD i 0 + x.getD i 0 * op.diag.getD i 0 +
      x.getD (op.i2.getD i 0) 0 * op.upper.getD i 0 := by
  simp [apply, List.getD_eq_getElem?_getD, List.getElem?_range hi]

omit [DecidableEq K] in
theorem solution_system (hg : Along dim direction) (hc : Confined dim direction bands)
    (hne : ∀ j < dim.prod, (onGrid dim direction bands).eliminationPivot a b j ≠ 0)
    (hp : p ∈ (FdmLinearOpLayout.new dim).iter) {low high : K}
    (hlow : ∀ q ∈ (FdmLinearOpLayout.new dim).iter, (FdmLinearOpLayout.new dim).neighbourhood p direction (-1) = q.index →
      low = (onGrid dim direction bands).solution r a b (place dim direction q))
    (hhigh : ∀ q ∈ (FdmLinearOpLayout.new dim).iter, (FdmLinearOpLayout.new dim).neighbourhood p direction 1 = q.index →
      high = (onGrid dim direction bands).solution r a b (place dim direction q)) :
    a * (low * (bands p).1 + (onGrid dim direction bands).solution r a b (place dim direction p) * (bands p).2.1 +
      high * (bands p).2.2) + b * (onGrid dim direction bands).solution r a b (place dim direction p) = r.getD p.index 0 := by
  have hiter := FdmLinearOpLayout.iter_spec hg.positive
  have hsize := onGrid_size direction bands hg.positive
  have hplace := FdmLinearOpLayout.place_lt direction (hiter.2 p hp)
  obtain ⟨hl, hd, hu⟩ := onGrid_bands direction bands hg.positive hp
  have hrow := onGrid_row bands hg hp
  rw [← hl, ← hd, ← hu, ← hrow, ← hrow, ← hrow, ← hrow]
  refine Tridiagonal.solution_spec (fun j hj => hne j (by omega)) (by omega) (fun hband => ?_) (fun hband => ?_)
  · rw [hrow, hl] at hband
    obtain ⟨q, hq, hindex, hbefore⟩ := exists_below hg hp (Nat.pos_of_ne_zero fun h => hband (hc.first p hp h))
    rw [hlow q hq hindex, ← hbefore]
    exact ⟨by omega, rfl⟩
  · rw [hrow, hu] at hband
    have hlt := FdmLinearOpLayout.coordinate_lt hg (hiter.2 p hp)
    obtain ⟨q, hq, hindex, hafter⟩ := exists_above hg hp (Nat.lt_of_le_of_ne hlt fun h => hband (hc.last p hp h))
    have := FdmLinearOpLayout.place_lt direction (hiter.2 q hq)
    rw [hhigh q hq hindex, hafter]
    exact ⟨by omega, rfl⟩

theorem getD_index (hg : Along dim direction)
    (hne : ∀ j < dim.prod, (onGrid dim direction bands).eliminationPivot a b j ≠ 0) {x : List (Extended K)}
    (hx : (onGrid dim direction (exact bands)).SweptDown (r.map finite) (finite a) (finite b) 0 x)
    (hp : p ∈ (FdmLinearOpLayout.new dim).iter) :
    x.getD p.index 0 = finite ((onGrid dim direction bands).solution r a b (place dim direction p)) := by
  have hplace := FdmLinearOpLayout.place_lt direction ((FdmLinearOpLayout.iter_spec hg.positive).2 p hp)
  have hindex : (onGrid dim direction (exact bands)).reverseIndex.getD (place dim direction p) 0 = p.index :=
    reverseIndex_position (R := K) hg hp
  rw [← hindex, hx.above _ (Nat.zero_le _) (by rwa [onGrid_size direction _ hg.positive]), solution_finite hg.positive hne]

/-- **The solved rows solve the system.** -/
theorem solution_of_swept (hg : Along dim direction) (hc : Confined dim direction bands)
    (hne : ∀ j < dim.prod, (onGrid dim direction bands).eliminationPivot a b j ≠ 0) {x : List (Extended K)}
    (hx : (onGrid dim direction (exact bands)).SweptDown (r.map finite) (finite a) (finite b) 0 x) :
    (onGrid dim direction (exact bands)).Solution (r.map finite) (finite a) (finite b) x := by
  have hat : ∀ {q}, q ∈ (FdmLinearOpLayout.new dim).iter → x.getD q.index 0 =
      finite ((onGrid dim direction bands).solution r a b (place dim direction q)) := fun hq => getD_index hg hne hx hq
  have hsize := onGrid_size direction (exact bands) hg.positive
  have hfinite : ∀ i, ∃ y, x.getD i 0 = finite y := by
    intro i
    by_cases hi : i < dim.prod
    · obtain ⟨q, hq, rfl⟩ := FdmLinearOpLayout.exists_position hg.positive hi
      exact ⟨_, hat hq⟩
    · exact ⟨0, List.getD_eq_default _ _ (by rw [hx.size, hsize]; omega)⟩
  intro i hi
  rw [hsize] at hi
  obtain ⟨p, hp, rfl⟩ := FdmLinearOpLayout.exists_position hg.positive hi
  obtain ⟨hlower, hdiag, hupper⟩ := onGrid_bands direction (exact bands) hg.positive hp
  obtain ⟨hi0, hi2⟩ := onGrid_neighbours direction (exact bands) hg.positive hp
  obtain ⟨low, hlow⟩ := hfinite ((FdmLinearOpLayout.new dim).neighbourhood p direction (-1))
  obtain ⟨high, hhigh⟩ := hfinite ((FdmLinearOpLayout.new dim).neighbourhood p direction 1)
  have hsystem := solution_system (r := r) hg hc hne hp
    (fun q hq h => Extended.finite.inj (hlow.symm.trans (h ▸ hat hq)))
    (fun q hq h => Extended.finite.inj (hhigh.symm.trans (h ▸ hat hq)))
  rw [getD_apply _ _ (by rwa [hsize]), hi0, hi2, hlow, hhigh, hlower, hdiag, hupper, hat hp, getD_map_finite]
  exact congrArg finite hsystem

/-- The first pivot is inverted before it is tested, and no inverse of a number is zero. -/
theorem inverse_ne_zero : (onGrid dim direction (exact bands)).inverse (finite a) (finite b) 0 ≠ 0 := by
  rw [inverse, lower_finite, diag_finite, upper_finite]
  by_cases h0 : (onGrid dim direction bands).eliminationPivot a b 0 = 0
  · exact Tridiagonal.inverse_infinite h0 ▸ nofun
  · rw [Tridiagonal.inverse_lift (fun k hk => Nat.le_zero.1 hk ▸ h0), Tridiagonal.inverse_eq]
    exact fun h => one_div_ne_zero h0 (Extended.finite.inj h)

/-- **The solve keeps the claim to its pivots exactly when** the first pivot is not zero, or row 1 divides by the infinity it
leaves and a pivot of the elimination from row 2 on is zero. -/
theorem solves_iff (hg : Along dim direction) (hc : Confined dim direction bands) (hr : r.length = dim.prod) :
    Solves dim direction bands r a b ↔ (onGrid dim direction bands).eliminationPivot a b 0 ≠ 0 ∨
      (a * (onGrid dim direction bands).row (onGrid dim direction bands).upper 0 ≠ 0 ∧
        (onGrid dim direction bands).row (onGrid dim direction bands).lower 1 ≠ 0 ∧
        ∃ k, k + 2 < dim.prod ∧ (onGrid dim direction bands).restartPivot a b k = 0) := by
  have hsize := onGrid_size direction (exact bands) hg.positive
  have hpos : 2 ≤ dim.prod := two_le_prod hg
  have hcases := solveSplitting_cases (r := r.map finite) (a := finite a) (b := finite b) (onGrid_chained (exact bands) hg)
    (by rw [List.length_map, hr, hsize])
  have hpivot : ∀ k, (onGrid dim direction (exact bands)).pivot (finite a) (finite b) k = Tridiagonal.pivot (finite a) (finite b)
      (lift ((onGrid dim direction bands).row (onGrid dim direction bands).lower))
      (lift ((onGrid dim direction bands).row (onGrid dim direction bands).diag))
      (lift ((onGrid dim direction bands).row (onGrid dim direction bands).upper)) k := by
    intro k
    rw [pivot, lower_finite, diag_finite, upper_finite]
  simp only [hpivot, hsize] at hcases
  by_cases h0 : (onGrid dim direction bands).eliminationPivot a b 0 = 0
  · -- a first pivot of zero: the claim holds when the solve fails after all
    have hrestart := Tridiagonal.exists_pivot_restart (n := dim.prod - 1) h0
    rw [or_iff_right (not_not.2 h0)]
    rcases hcases with ⟨hfails | hfails, hrun⟩ | ⟨⟨-, hne⟩, x, hrun, -⟩
    · exact absurd hfails inverse_ne_zero
    · obtain ⟨hU, hL, k, hk, hzero⟩ := hrestart.1 hfails
      refine iff_of_true ⟨iff_of_false ?_ ?_, ?_⟩ ⟨hU, hL, k, by omega, hzero⟩
      · rintro ⟨x, hx⟩
        exact nomatch hrun.symm.trans hx
      · exact fun h => h 0 (by omega) h0
      · exact fun x hx => nomatch hrun.symm.trans hx
    · refine iff_of_false (fun h => h.1.1 ⟨x, hrun⟩ 0 (by omega) h0) ?_
      rintro ⟨hU, hL, k, hk, hzero⟩
      obtain ⟨i, hi, h⟩ := hrestart.2 ⟨hU, hL, k, by omega, hzero⟩
      exact hne i hi h
  · have hlift := Tridiagonal.exists_pivot_lift (n := dim.prod - 1) h0
    refine iff_of_true ?_ (.inl h0)
    rcases hcases with ⟨hfails | hfails, hrun⟩ | ⟨⟨-, hne⟩, x, hrun, hx⟩
    · exact absurd hfails inverse_ne_zero
    · obtain ⟨k, hk, hzero⟩ := hlift.1 hfails
      refine ⟨iff_of_false ?_ ?_, ?_⟩
      · rintro ⟨x, hx⟩
        exact nomatch hrun.symm.trans hx
      · exact fun h => h (k + 1) (by omega) hzero
      · exact fun x hx => nomatch hrun.symm.trans hx
    · have hpivots : ∀ j < dim.prod, (onGrid dim direction bands).eliminationPivot a b j ≠ 0 := by
        intro j hj h
        cases j with
        | zero   => exact h0 h
        | succ j =>
          obtain ⟨i, hi, hzero⟩ := hlift.2 ⟨j, by omega, h⟩
          exact hne i hi hzero
      refine ⟨iff_of_true ⟨x, hrun⟩ hpivots, fun y hy => ?_⟩
      exact Except.ok.inj (hrun.symm.trans hy) ▸ solution_of_swept hg hc hpivots hx

/-- The bands of a line of two points, each with the other's neighbour. -/
def line (p : FdmLinearOpIterator) : ℚ × ℚ × ℚ := if p.index = 0 then (0, -1, 1) else (1, -1, 0)

theorem along_line : Along [2] 0 := ⟨by decide, by decide, by decide⟩

theorem confined_line : Confined [2] 0 line := ⟨by decide +kernel, by decide +kernel⟩

theorem solves_iff_line : Solves [2] 0 line [1, 2] 1 3 :=
  (solves_iff along_line confined_line rfl).2 (.inl (by decide +kernel))

/-- The first pivot is `1 * -1 + 1`, which the solve inverts to infinity; the system has the solution `[2, 1]`. -/
theorem not_solves_line : ¬ Solves [2] 0 line [1, 2] 1 1 := by
  have hrun : (onGrid [2] 0 (exact line)).solveSplitting ([1, 2].map finite) (finite 1) (finite 1) = .ok [.nan, .nan] := by
    decide +kernel
  exact fun h => h.1.1 ⟨_, hrun⟩ 0 (by decide) (by decide +kernel)

/-! ## Generators -/

section

variable {F : Type} [Field F] [LinearOrder F] [IsStrictOrderedRing F] {bands : FdmLinearOpIterator → F × F × F} {r : List F}
  {dt low high : F}

/-- The bands move values along the direction at rates, and decay them between the bounds. -/
structure Generates (dim : List ℕ) (direction : ℕ) (bands : FdmLinearOpIterator → F × F × F) (low high : F) : Prop
    extends Confined dim direction bands where
  rates : ∀ p ∈ (FdmLinearOpLayout.new dim).iter, Tridiagonal.Rates low high (bands p).1 (bands p).2.1 (bands p).2.2

omit [IsStrictOrderedRing F] in
theorem Generates.generator (h : Generates dim direction bands low high) (hg : Along dim direction) :
    Tridiagonal.Generator low high ((onGrid dim direction bands).row (onGrid dim direction bands).lower)
      ((onGrid dim direction bands).row (onGrid dim direction bands).diag)
      ((onGrid dim direction bands).row (onGrid dim direction bands).upper) (dim.prod - 1) := by
  have htwo := two_le_prod hg
  have hiter := (FdmLinearOpLayout.iter_spec hg.positive).2
  refine ⟨fun j hj => ?_, ?_, ?_⟩
  · obtain ⟨p, hp, rfl⟩ := exists_place hg (show j < dim.prod by omega)
    obtain ⟨hlower, hdiag, hupper⟩ := onGrid_bands direction bands hg.positive hp
    rw [onGrid_row bands hg hp, onGrid_row bands hg hp, onGrid_row bands hg hp, hlower, hdiag, hupper]
    exact h.rates p hp
  · obtain ⟨p, hp, hplace⟩ := exists_place hg (show 0 < dim.prod by omega)
    rw [← hplace, onGrid_row bands hg hp, (onGrid_bands direction bands hg.positive hp).1]
    apply h.first p hp
    by_contra hne
    obtain ⟨q, -, -, hq⟩ := exists_below hg hp (Nat.pos_of_ne_zero hne)
    omega
  · obtain ⟨p, hp, hplace⟩ := exists_place hg (show dim.prod - 1 < dim.prod by omega)
    rw [← hplace, onGrid_row bands hg hp, (onGrid_bands direction bands hg.positive hp).2.2]
    apply h.last p hp
    by_contra hne
    obtain ⟨q, hq, -, hplace'⟩ := exists_above hg hp
      (Nat.lt_of_le_of_ne (FdmLinearOpLayout.coordinate_lt hg (hiter p hp)) hne)
    have := FdmLinearOpLayout.place_lt direction (hiter q hq)
    omega

/-- **An implicit step of a generator never fails, and keeps its bounds.** -/
theorem solveSplitting_bounded (hg : Along dim direction) (h : Generates dim direction bands low high) (hdt : 0 ≤ dt)
    (hr : r.length = dim.prod) (hwithin : ∀ i < dim.prod, low ≤ r.getD i 0 ∧ r.getD i 0 ≤ high) :
    ∃ x, (onGrid dim direction bands).solveSplitting r (-dt) 1 = .ok x ∧ x.length = dim.prod ∧
      ∀ i < dim.prod, low ≤ x.getD i 0 ∧ x.getD i 0 ≤ high := by
  have hsize := onGrid_size direction bands hg.positive
  have hrows := h.generator hg
  have hpivot := fun j (hj : j ≤ dim.prod - 1) => (show 0 < 1 + dt * _ from
    add_pos_of_pos_of_nonneg one_pos (mul_nonneg hdt (hrows.rates j hj).upper)).trans_le (hrows.le_rowPivot hdt hj)
  rcases solveSplitting_cases (a := -dt) (b := 1) (onGrid_chained bands hg) (hr.trans hsize.symm) with
    ⟨hzero | ⟨k, hk, hzero⟩, -⟩ | ⟨-, x, hx, hswept⟩
  · rw [inverse, Tridiagonal.inverse_eq] at hzero
    exact absurd hzero (one_div_ne_zero (hpivot 0 (Nat.zero_le _)).ne')
  · exact absurd hzero (hpivot (k + 1) (by omega)).ne'
  · refine ⟨x, hx, hswept.size.trans hsize, fun i hi => ?_⟩
    obtain ⟨p, hp, rfl⟩ := FdmLinearOpLayout.exists_position hg.positive hi
    have hplace := FdmLinearOpLayout.place_lt direction ((FdmLinearOpLayout.iter_spec hg.positive).2 p hp)
    have hindex : (onGrid dim direction bands).reverseIndex.getD (place dim direction p) 0 = p.index :=
      reverseIndex_position (R := F) hg hp
    rw [← hindex, hswept.above _ (Nat.zero_le _) (hsize ▸ hplace), solution, hsize]
    refine hrows.within hdt (fun j hj => Tridiagonal.solution_row (fun j hj => (hpivot j hj).ne') hrows.first hrows.last hj)
      (fun j hj => ?_) (Nat.le_sub_one_of_lt hplace)
    obtain ⟨q, hq, rfl⟩ := exists_place hg (show j < dim.prod by omega)
    rw [onGrid_row bands hg hq]
    exact hwithin _ (FdmLinearOpLayout.index_lt hg.positive hq)

theorem solveSplitting_bounded_line : ∃ x, (onGrid [2] 0 line).solveSplitting [1, 3] (-2) 1 = .ok x ∧ x.length = 2 ∧
    ∀ i < 2, 1 ≤ x.getD i 0 ∧ x.getD i 0 ≤ 3 :=
  solveSplitting_bounded along_line ⟨confined_line, fun p _ => by
    unfold line
    split <;> constructor <;> norm_num⟩ (by norm_num) rfl (by decide +kernel)

end

end TripleBandLinearOp

end Itofin
