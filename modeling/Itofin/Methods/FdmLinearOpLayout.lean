import Itofin.Methods.TripleBandLinearOp
import Mathlib.Data.Set.Function
/-!
# FdmLinearOpLayout — the neighbours of a position

The rest of `FdmLinearOpLayout` of `methods/finitedifferences/operators/fdmlinearoplayout.rs`: indices of coordinates, and the
positions beside one.  A coordinate stepped past an end is reflected, which is the mirror of the line (`reflect_eq_mirror`)
as long as the offset is below the extent.
-/
namespace Itofin
namespace FdmLinearOpLayout

/-- For as many coordinates as there are dimensions, which the source asserts. -/
def index (layout : FdmLinearOpLayout) (coordinates : List ℕ) : ℕ := Radix.dot coordinates layout.spacing

def iterNeighbourhood (layout : FdmLinearOpLayout) (p : FdmLinearOpIterator) (direction : ℕ) (offset : ℤ) :
    FdmLinearOpIterator :=
  let coordinates := p.coordinates.set direction (layout.reflect p direction offset)
  ⟨layout.index coordinates, layout.dim, coordinates⟩

def neighbourhood2 (layout : FdmLinearOpLayout) (p : FdmLinearOpIterator) (direction1 : ℕ) (offset1 : ℤ)
    (direction2 : ℕ) (offset2 : ℤ) : ℕ :=
  let base := p.index - p.coordinates.getD direction1 0 * layout.spacing.getD direction1 0 -
    p.coordinates.getD direction2 0 * layout.spacing.getD direction2 0
  base + layout.reflect p direction1 offset1 * layout.spacing.getD direction1 0 +
    layout.reflect p direction2 offset2 * layout.spacing.getD direction2 0

/-- **The mirror of a line at both ends of an interval**: where a walk in a straight line is, that turns round at `0` and at
the last point. -/
def mirror (extent : ℕ) (x : ℤ) : ℤ :=
  let period : ℤ := 2 * (extent - 1)
  min (x % period) (period - x % period)

/-- An offset of a direction of the grid that is smaller than the extent. -/
structure Small (dim : List ℕ) (direction : ℕ) (offset : ℤ) : Prop where
  inside : direction < dim.length
  size   : |offset| < dim.getD direction 0

variable {dim : List ℕ} {p : FdmLinearOpIterator} {direction : ℕ} {offset : ℤ}

/-! ## Indices -/

theorem index_eq {cs : List ℕ} (h : cs.length = dim.length) : (new dim).index cs = Radix.value cs dim := by
  rw [index, new_eq, Radix.dot_strides _ h, one_mul]

/-- **The index is a bijection** from the coordinates of the grid to the numbers below its size. -/
theorem index_bijOn (h : ∀ d ∈ dim, 0 < d) :
    Set.BijOn (new dim).index {cs | Radix.Digits cs dim} (Set.Iio (new dim).size) := by
  refine ⟨fun cs hcs => ?_, fun cs hcs cs' hcs' heq => ?_, fun i hi => ?_⟩
  · rw [Set.mem_Iio, index_eq hcs.length_eq, new_eq]
    exact Radix.value_lt hcs
  · rw [index_eq hcs.length_eq, index_eq hcs'.length_eq] at heq
    exact Radix.value_inj hcs hcs' heq
  · rw [Set.mem_Iio, new_eq] at hi
    obtain ⟨p, hp, rfl⟩ := exists_position h hi
    have hat := (iter_spec h).2 p hp
    exact ⟨p.coordinates, hat.digits, by rw [index_eq hat.digits.length_eq, hat.value]⟩

/-! ## Reflections -/

theorem coordinate_lt_extent (hp : p.At dim) (h : direction < dim.length) :
    p.coordinates.getD direction 0 < dim.getD direction 0 := by
  have hc : direction < p.coordinates.length := hp.digits.length_eq ▸ h
  rw [List.getD_eq_getElem _ _ hc, List.getD_eq_getElem _ _ h]
  exact List.Forall₂.get hp.digits hc h

/-- **A reflected coordinate is that of the mirror.** -/
theorem reflect_eq_mirror (hp : p.At dim) (h : Small dim direction offset) :
    ((new dim).reflect p direction offset : ℤ) =
      mirror (dim.getD direction 0) (p.coordinates.getD direction 0 + offset) := by
  have hlt := coordinate_lt_extent hp h.inside
  obtain ⟨hlow, hhigh⟩ := abs_lt.1 h.size
  have hdim : (new dim).dim = dim := by rw [new_eq]
  rw [reflect, hdim, mirror]
  generalize (dim.getD direction 0 : ℕ) = d at *
  generalize (p.coordinates.getD direction 0 : ℕ) = c at *
  obtain ⟨x, hx⟩ : ∃ x : ℤ, x = c + offset := ⟨_, rfl⟩
  rw [← hx]
  split
  · have hmod : x % (2 * (d - 1)) = x + 2 * (d - 1) := by
      rw [← Int.add_emod_right, Int.emod_eq_of_lt (by omega) (by omega)]
    rw [hmod]
    omega
  · split
    · rcases eq_or_ne x (2 * (d - 1)) with heq | hne
      · rw [heq, Int.emod_self]
        omega
      · rw [Int.emod_eq_of_lt (by omega) (by omega)]
        omega
    · rcases Nat.lt_or_ge 1 d with hd | hd
      · rw [Int.emod_eq_of_lt (by omega) (by omega)]
        omega
      · obtain rfl : x = 0 := by omega
        rw [Int.zero_emod]
        omega

theorem reflect_lt (hp : p.At dim) (h : Small dim direction offset) :
    (new dim).reflect p direction offset < dim.getD direction 0 := by
  have hlt := coordinate_lt_extent hp h.inside
  obtain ⟨hlow, hhigh⟩ := abs_lt.1 h.size
  have hdim : (new dim).dim = dim := by rw [new_eq]
  rw [reflect, hdim]
  split
  · omega
  · split <;> omega

/-! ## Neighbours -/

/-- The position with another coordinate along a direction. -/
def moved (dim : List ℕ) (p : FdmLinearOpIterator) (direction c : ℕ) : FdmLinearOpIterator :=
  ⟨Radix.value (p.coordinates.set direction c) dim, dim, p.coordinates.set direction c⟩

theorem moved_at (hp : p.At dim) {c : ℕ} (hd : direction < dim.length) (hc : c < dim.getD direction 0) :
    (moved dim p direction c).At dim where
  extents := rfl
  digits  := by
    have := Radix.forall₂_set hp.digits hc direction
    rwa [List.getD_eq_getElem _ _ hd, List.set_getElem_self] at this
  value   := rfl

/-- The index of the position with another coordinate; the subtraction is one of natural numbers. -/
theorem moved_index (hp : p.At dim) (hd : direction < dim.length) (c : ℕ) :
    p.coordinates.getD direction 0 * (new dim).spacing.getD direction 0 ≤ p.index ∧
      (moved dim p direction c).index = p.index - p.coordinates.getD direction 0 * (new dim).spacing.getD direction 0 +
        c * (new dim).spacing.getD direction 0 := by
  have hzero := index_set hp hd 0
  have hindex := index_set hp hd c
  constructor
  · omega
  · change Radix.value (p.coordinates.set direction c) dim = _
    omega

/-- **A neighbour is the position with the reflected coordinate**, by its index or as a position. -/
theorem neighbourhood_eq (hp : p.At dim) (hd : direction < dim.length) (offset : ℤ) :
    (new dim).neighbourhood p direction offset = (moved dim p direction ((new dim).reflect p direction offset)).index ∧
      (new dim).iterNeighbourhood p direction offset = moved dim p direction ((new dim).reflect p direction offset) := by
  refine ⟨(moved_index hp hd _).2.symm, ?_⟩
  have hlength : (p.coordinates.set direction ((new dim).reflect p direction offset)).length = dim.length := by
    rw [List.length_set, hp.digits.length_eq]
  have hdim : (new dim).dim = dim := by rw [new_eq]
  rw [iterNeighbourhood, index_eq hlength, hdim, moved]

theorem coordinate_moved {direction' : ℕ} (hne : direction ≠ direction') (c : ℕ) :
    (moved dim p direction c).coordinates.getD direction' 0 = p.coordinates.getD direction' 0 := by
  rw [moved, List.getD_eq_getElem?_getD, List.getElem?_set_ne hne, List.getD_eq_getElem?_getD]

theorem reflect_moved {direction' : ℕ} (hne : direction ≠ direction') (c : ℕ) (offset : ℤ) :
    (new dim).reflect (moved dim p direction c) direction' offset = (new dim).reflect p direction' offset := by
  rw [reflect, reflect, coordinate_moved hne]

/-- **Two offsets at once are two steps**, along different directions; the subtractions are of natural numbers. -/
theorem neighbourhood2_eq (hp : p.At dim) {direction1 direction2 : ℕ} {offset1 offset2 : ℤ}
    (h1 : Small dim direction1 offset1) (h2 : Small dim direction2 offset2) (hne : direction1 ≠ direction2) :
    p.coordinates.getD direction1 0 * (new dim).spacing.getD direction1 0 +
        p.coordinates.getD direction2 0 * (new dim).spacing.getD direction2 0 ≤ p.index ∧
      (new dim).neighbourhood2 p direction1 offset1 direction2 offset2 =
        (new dim).neighbourhood ((new dim).iterNeighbourhood p direction1 offset1) direction2 offset2 := by
  have hzero := moved_at hp (c := 0) h1.inside (Nat.zero_lt_of_lt (coordinate_lt_extent hp h1.inside))
  have hstep := moved_at hp h1.inside (reflect_lt hp h1)
  obtain ⟨hle1, hindex0⟩ := moved_index hp h1.inside 0
  obtain ⟨hle2, -⟩ := moved_index hzero h2.inside 0
  obtain ⟨-, hindex1⟩ := moved_index hp h1.inside ((new dim).reflect p direction1 offset1)
  obtain ⟨-, hindex2⟩ := moved_index hstep h2.inside ((new dim).reflect p direction2 offset2)
  rw [coordinate_moved hne] at hle2 hindex2
  rw [(neighbourhood_eq hp h1.inside offset1).2, (neighbourhood_eq hstep h2.inside offset2).1, reflect_moved hne, hindex2,
    hindex1, neighbourhood2]
  constructor
  · omega
  · omega

/-! ## The layout -/

/-- **The layout of a grid**: the index is a bijection; the iterator visits every point once, in the order of the indices;
the neighbours agree and are those of the mirror; and two offsets along different directions are two steps, in either
order. -/
theorem layout_spec (h : ∀ d ∈ dim, 0 < d) :
    Set.BijOn (new dim).index {cs | Radix.Digits cs dim} (Set.Iio (new dim).size) ∧
    (new dim).iter.map FdmLinearOpIterator.index = List.range (new dim).size ∧
    (∀ p ∈ (new dim).iter, Radix.Digits p.coordinates dim ∧ (new dim).index p.coordinates = p.index) ∧
    ∀ p : FdmLinearOpIterator, p.At dim →
      (∀ direction offset, Small dim direction offset →
        (new dim).neighbourhood p direction offset < (new dim).size ∧
        ((new dim).iterNeighbourhood p direction offset).At dim ∧
        ((new dim).iterNeighbourhood p direction offset).index = (new dim).neighbourhood p direction offset ∧
        ∃ c : ℕ, (c : ℤ) = mirror (dim.getD direction 0) (p.coordinates.getD direction 0 + offset) ∧
          ((new dim).iterNeighbourhood p direction offset).coordinates = p.coordinates.set direction c) ∧
      ∀ direction1 offset1 direction2 offset2, Small dim direction1 offset1 → Small dim direction2 offset2 →
        direction1 ≠ direction2 →
        (new dim).neighbourhood2 p direction1 offset1 direction2 offset2 =
          (new dim).neighbourhood ((new dim).iterNeighbourhood p direction1 offset1) direction2 offset2 ∧
        (new dim).neighbourhood2 p direction1 offset1 direction2 offset2 =
          (new dim).neighbourhood ((new dim).iterNeighbourhood p direction2 offset2) direction1 offset1 := by
  have hsize : (new dim).size = dim.prod := by rw [new_eq]
  refine ⟨index_bijOn h, by rw [(iter_spec h).1, hsize], fun p hp => ?_, fun p hp => ⟨fun direction offset hsmall => ?_, ?_⟩⟩
  · have hat := (iter_spec h).2 p hp
    exact ⟨hat.digits, by rw [index_eq hat.digits.length_eq, hat.value]⟩
  · have hat := moved_at hp hsmall.inside (reflect_lt hp hsmall)
    obtain ⟨hneighbour, hiter⟩ := neighbourhood_eq hp hsmall.inside offset
    rw [hiter, hneighbour, hsize]
    exact ⟨Radix.value_lt hat.digits, hat, rfl, _, reflect_eq_mirror hp hsmall, rfl⟩
  · intro direction1 offset1 direction2 offset2 h1 h2 hne
    refine ⟨(neighbourhood2_eq hp h1 h2 hne).2, ?_⟩
    rw [← (neighbourhood2_eq hp h2 h1 hne.symm).2, neighbourhood2, neighbourhood2, Nat.sub_right_comm]
    omega

theorem layout_spec_box : (new [5, 7, 8]).neighbourhood2 (.new [5, 7, 8]) 1 3 2 (-1) =
    (new [5, 7, 8]).neighbourhood ((new [5, 7, 8]).iterNeighbourhood (.new [5, 7, 8]) 1 3) 2 (-1) :=
  (((layout_spec (by decide)).2.2.2 _ (begin_at (by decide))).2 1 3 2 (-1) ⟨by decide, by decide⟩ ⟨by decide, by decide⟩
    (by decide)).1

/-- **Two offsets along one direction are not two steps**: from the origin of a line both are reflected. -/
theorem neighbourhood2_twice : (FdmLinearOpIterator.new [3]).At [3] ∧ Small [3] 0 (-1) ∧
    (new [3]).neighbourhood2 (.new [3]) 0 (-1) 0 (-1) ≠
      (new [3]).neighbourhood ((new [3]).iterNeighbourhood (.new [3]) 0 (-1)) 0 (-1) :=
  ⟨begin_at (by decide), ⟨by decide, by decide⟩, by decide⟩

end FdmLinearOpLayout
end Itofin
