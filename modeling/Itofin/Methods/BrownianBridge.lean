import Mathlib.Analysis.Real.Sqrt
import Mathlib.Data.List.GetD
import Itofin.Lib.Gaps
import Itofin.Lib.Loop
import Itofin.Lib.Wiener
import Itofin.Math.TimeGrid
/-!
# BrownianBridge — Wiener paths from Gaussian variates

`BrownianBridge` of `methods/montecarlo/brownianbridge.rs`, in exact arithmetic, with the square root as a parameter.  The
first variate gives the end of the path, each of the others a point in the middle of a gap, between its neighbours.

`Filling.Inv` is what the construction keeps: the points placed so far are a sweep of the range, and every one was placed
between neighbours (`Built`).  By induction over the points, the path that `transform` builds has the covariance
`min(t_i, t_j)` (`construct_spec`), whatever was in the output before.
-/
namespace Itofin

open Loop Gaps Wiener

inductive BridgeError where
  /-- "brownian bridge requires at least one step" -/
  | noSteps
  /-- "incompatible sequence size" -/
  | sequenceSize
  /-- "incompatible output sequence size" -/
  | outputSize
  /-- An index out of range. -/
  | outOfRange
deriving DecidableEq

/-- The entries of the arrays of a bridge for one variate. -/
structure BridgeNode (K : Type) where
  bridgeIndex : ℕ
  leftIndex : ℕ
  rightIndex : ℕ
  leftWeight : K
  rightWeight : K
  stdDev : K

structure BrownianBridge (K : Type) where
  size : ℕ
  t : List K
  sqrtdt : List K
  nodes : List (BridgeNode K)

namespace BrownianBridge

variable {α K : Type}

/-- `array[i]` -/
def read (array : List α) (i : ℕ) : Except BridgeError α :=
  match array[i]? with
  | some a => .ok a
  | none   => .error .outOfRange

/-- `array[i] = a` -/
def write (array : List α) (i : ℕ) (a : α) : Except BridgeError (List α) :=
  if i < array.length then .ok (array.set i a) else .error .outOfRange

/-- `while p(map[j]) { j += 1; }`, over what is left of `map` from `j` on. -/
def scan (p : ℕ → Bool) : List ℕ → ℕ → Except BridgeError ℕ
  | [], _        => .error .outOfRange
  | v :: rest, j => if p v then scan p rest (j + 1) else .ok j

/-- What the loop of the construction carries; the arrays of the bridge have been written up to here. -/
structure Filling (K : Type) where
  map : List ℕ
  nodes : List (BridgeNode K)
  j : ℕ

variable [Field K] (sqrt : K → K)

/-- The point `l` between the one before `j`, or the start, and `k`. -/
def node (t : List K) (l j k : ℕ) : Except BridgeError (BridgeNode K) := do
  let tk ← read t k
  let tl ← read t l
  if j ≠ 0 then do
    let tj ← read t (j - 1)
    pure ⟨l, j, k, (tk - tl) / (tk - tj), (tl - tj) / (tk - tj), sqrt ((tl - tj) * (tk - tl) / (tk - tj))⟩
  else
    pure ⟨l, j, k, (tk - tl) / tk, tl / tk, sqrt (tl * (tk - tl) / tk)⟩

/-- The turn of the variate `n + 1`. -/
def fill (t : List K) (size : ℕ) (s : Filling K) (n : ℕ) : Except BridgeError (Filling K) := do
  let j ← scan (· != 0) (s.map.drop s.j) s.j
  let k ← scan (· == 0) (s.map.drop j) j
  let l := j + (k - 1 - j) / 2
  let map ← write s.map l (n + 1)
  let node ← node sqrt t l j k
  pure ⟨map, s.nodes ++ [node], if size ≤ k + 1 then 0 else k + 1⟩

def initializeBridge (t : List K) (size : ℕ) : Except BridgeError (List (BridgeNode K)) := do
  let map ← write (List.replicate size 0) (size - 1) 1
  let last ← read t (size - 1)
  let s ← loop (size - 1) (fill sqrt t size) ⟨map, [⟨size - 1, 0, 0, 0, 0, sqrt last⟩], 0⟩
  pure s.nodes

/-- `sqrt(t[i] - t[i - 1])` -/
def sqrtSteps : List K → List K
  | []      => []
  | t₀ :: t => sqrt t₀ :: List.zipWith (fun a b => sqrt (b - a)) (t₀ :: t) t

def fromTimes (times : List K) : Except BridgeError (BrownianBridge K) :=
  if times = [] then .error .noSteps
  else do
    let nodes ← initializeBridge sqrt times times.length
    pure ⟨times.length, times, sqrtSteps sqrt times, nodes⟩

def fromSteps (steps : ℕ) : Except BridgeError (BrownianBridge K) :=
  fromTimes sqrt ((List.range' 1 steps).map fun i => (i : K))

def fromTimeGrid (timeGrid : Math.TimeGrid K) : Except BridgeError (BrownianBridge K) := fromTimes sqrt timeGrid.times.tail

variable (self : BrownianBridge K)

/-- The turn of the variate `n + 1`. -/
def construct (input : List K) (output : List K) (n : ℕ) : Except BridgeError (List K) := do
  let variate ← read input (n + 1)
  let node ← read self.nodes (n + 1)
  let right ← read output node.rightIndex
  if node.leftIndex ≠ 0 then do
    let left ← read output (node.leftIndex - 1)
    write output node.bridgeIndex (node.leftWeight * left + node.rightWeight * right + node.stdDev * variate)
  else
    write output node.bridgeIndex (node.rightWeight * right + node.stdDev * variate)

/-- The turn of `i = size - 1 - n`. -/
def vary (output : List K) (n : ℕ) : Except BridgeError (List K) := do
  let i := self.size - 1 - n
  let level ← read output i
  let before ← read output (i - 1)
  let step ← read self.sqrtdt i
  write output i ((level - before) / step)

def transform (input output : List K) : Except BridgeError (List K) :=
  if input.length ≠ self.size then .error .sequenceSize
  else if output.length ≠ self.size then .error .outputSize
  else do
    let global ← read self.nodes 0
    let variate ← read input 0
    let output ← write output (self.size - 1) (global.stdDev * variate)
    let output ← loop (self.size - 1) (self.construct input) output
    let output ← loop (self.size - 1) self.vary output
    let level ← read output 0
    let step ← read self.sqrtdt 0
    write output 0 (level / step)

/-- The levels of the path with the given normalized variations, from a level at a time. -/
def levels : K → K → List K → List K → List K
  | t₀, level, t :: times, y :: variations =>
    (level + y * sqrt (t - t₀)) :: levels t (level + y * sqrt (t - t₀)) times variations
  | _, _, _, _ => []

/-! ## Arrays by their entries -/

/-- The array has `n` entries, those of `v`. -/
structure Holds (n : ℕ) (v : ℕ → α) (array : List α) : Prop where
  length : array.length = n
  get    : ∀ p < n, array[p]? = some (v p)

section Arrays

variable {n i : ℕ} {v v' : ℕ → α} {array : List α} {a : α}

theorem read_of_getElem? (h : array[i]? = some a) : read array i = .ok a := by
  unfold read
  rw [h]

theorem Holds.read (h : Holds n v array) (hi : i < n) : read array i = .ok (v i) := read_of_getElem? (h.get i hi)

theorem Holds.congr (h : Holds n v array) (hv : ∀ p < n, v p = v' p) : Holds n v' array where
  length := h.length
  get p hp := by rw [h.get p hp, hv p hp]

theorem Holds.write (h : Holds n v array) (hi : i < n) (a : α) :
    ∃ array', write array i a = .ok array' ∧ Holds n (Function.update v i a) array' := by
  refine ⟨array.set i a, if_pos (h.length ▸ hi), by rw [List.length_set, h.length], fun p hp => ?_⟩
  rcases eq_or_ne i p with rfl | hne
  · rw [List.getElem?_set_self (h.length ▸ hi), Function.update_self]
  · rw [List.getElem?_set_ne hne, h.get p hp, Function.update_of_ne hne.symm]

theorem Holds.eq_ofFn (h : Holds n v array) : array = List.ofFn fun p : Fin n => v p := by
  apply List.ext_getElem?
  intro p
  rw [List.getElem?_ofFn]
  split
  · rename_i hp
    exact h.get p hp
  · rename_i hp
    exact List.getElem?_eq_none (by rw [h.length]; omega)

theorem holds_getD (array : List α) (d : α) : Holds array.length (fun p => array.getD p d) array where
  length := rfl
  get p hp := by rw [List.getD_eq_getElem _ _ hp, List.getElem?_eq_getElem hp]

theorem holds_ofFn (x : Fin n → α) (d : α) : Holds n (fun p => if h : p < n then x ⟨p, h⟩ else d) (List.ofFn x) where
  length := List.length_ofFn
  get p hp := by rw [List.getElem?_ofFn, dif_pos hp, dif_pos hp]

end Arrays

/-! ## The construction -/

/-- The position holds a variate. -/
def Filled (map : List ℕ) (p : ℕ) : Prop := ∃ v, map[p]? = some v ∧ v ≠ 0

/-- The nodes of the path, counted from the start of the path, which is `0`. -/
def Placed (nodes : List (BridgeNode K)) : Set ℕ := {p | p = 0 ∨ ∃ node ∈ nodes, p = node.bridgeIndex + 1}

/-- The time of a node of the path, `0` at the start. -/
def clock (times : List K) (p : ℕ) : K := (0 :: times).getD p 0

/-- A node lies between two others, with none of the rest between these, and is drawn as the bridge over them. -/
structure Bridges (τ : ℕ → K) (placed : Set ℕ) (node : BridgeNode K) : Prop where
  left   : node.leftIndex ∈ placed
  right  : node.rightIndex + 1 ∈ placed
  le     : node.leftIndex ≤ node.bridgeIndex
  lt     : node.bridgeIndex < node.rightIndex
  empty  : ∀ p ∈ placed, p ≤ node.leftIndex ∨ node.rightIndex + 1 ≤ p
  leftWeight  : node.leftWeight =
    (τ (node.rightIndex + 1) - τ (node.bridgeIndex + 1)) / (τ (node.rightIndex + 1) - τ node.leftIndex)
  rightWeight : node.rightWeight =
    (τ (node.bridgeIndex + 1) - τ node.leftIndex) / (τ (node.rightIndex + 1) - τ node.leftIndex)
  stdDev      : node.stdDev = sqrt ((τ (node.bridgeIndex + 1) - τ node.leftIndex) *
    (τ (node.rightIndex + 1) - τ (node.bridgeIndex + 1)) / (τ (node.rightIndex + 1) - τ node.leftIndex))

/-- The end of the path, and then every node as a bridge over nodes before it. -/
inductive Built (τ : ℕ → K) (m : ℕ) : List (BridgeNode K) → Prop
  | first : Built τ m [⟨m, 0, 0, 0, 0, sqrt (τ (m + 1))⟩]
  | next {nodes : List (BridgeNode K)} {node : BridgeNode K} : Built τ m nodes → Bridges sqrt τ (Placed nodes) node →
      Built τ m (nodes ++ [node])

structure Filling.Inv (τ : ℕ → K) (m n : ℕ) (s : Filling K) : Prop where
  length : s.map.length = m + 1
  count  : s.nodes.length = n + 1
  placed : ∀ p, Filled s.map p ↔ p ∈ s.nodes.map BridgeNode.bridgeIndex
  nodup  : (s.nodes.map BridgeNode.bridgeIndex).Nodup
  sweep  : ∃ g, Sweep m (Filled s.map) s.j g
  built  : Built sqrt τ m s.nodes

section Construction

variable {map : List ℕ} {m n j g : ℕ} {times : List K} {sqrt}

theorem filled_set {l v : ℕ} (hl : l < map.length) (hv : v ≠ 0) (p : ℕ) :
    Filled (map.set l v) p ↔ Filled map p ∨ p = l := by
  unfold Filled
  rcases eq_or_ne l p with rfl | hne
  · rw [List.getElem?_set_self hl]
    exact ⟨fun _ => .inr rfl, fun _ => ⟨v, rfl, hv⟩⟩
  · rw [List.getElem?_set_ne hne]
    exact ⟨.inl, fun h => h.resolve_right hne.symm⟩

theorem Filled.lt {p : ℕ} (h : Filled map p) : p < map.length := by
  obtain ⟨v, hv, _⟩ := h
  exact (List.getElem?_eq_some_iff.1 hv).1

/-- A scan stops at the first entry that does not meet its condition, if there is one. -/
theorem scan_ok (p : ℕ → Bool) : ∀ (l : List ℕ) (j : ℕ), (∃ v ∈ l, p v = false) →
    ∃ r, scan p l j = .ok (j + r) ∧ (∃ v, l[r]? = some v ∧ p v = false) ∧ ∀ s < r, ∃ v, l[s]? = some v ∧ p v = true
  | [], _, h        => by obtain ⟨v, hv, _⟩ := h; cases hv
  | v :: rest, j, h => by
    unfold scan
    cases hp : p v with
    | false => exact ⟨0, rfl, ⟨v, rfl, hp⟩, fun s hs => by omega⟩
    | true  =>
      have hrest : ∃ v ∈ rest, p v = false := by
        obtain ⟨u, hu, hpu⟩ := h
        rcases List.mem_cons.1 hu with rfl | hu
        · rw [hp] at hpu
          cases hpu
        · exact ⟨u, hu, hpu⟩
      obtain ⟨r, hr, hstop, hbefore⟩ := scan_ok p rest (j + 1) hrest
      refine ⟨r + 1, ?_, hstop, fun s hs => ?_⟩
      · rw [if_pos rfl, hr]
        congr 1
        omega
      · cases s with
        | zero   => exact ⟨v, rfl, hp⟩
        | succ s => exact hbefore s (by omega)

/-- The same in a map, from `j` on, when some entry `q` stops the scan. -/
theorem scan_drop {p : ℕ → Bool} {q u : ℕ} (hjq : j ≤ q) (hq : map[q]? = some u) (hu : p u = false) :
    ∃ i, scan p (map.drop j) j = .ok i ∧ j ≤ i ∧ (∃ v, map[i]? = some v ∧ p v = false) ∧
      ∀ s, j ≤ s → s < i → ∃ v, map[s]? = some v ∧ p v = true := by
  have hmem : u ∈ map.drop j := by
    apply List.mem_of_getElem? (i := q - j)
    rw [List.getElem?_drop, Nat.add_sub_cancel' hjq, hq]
  obtain ⟨r, hr, ⟨v, hv, hpv⟩, hbefore⟩ := scan_ok p (map.drop j) j ⟨u, hmem, hu⟩
  refine ⟨j + r, hr, Nat.le_add_right j r, ⟨v, by rw [← hv, List.getElem?_drop], hpv⟩, fun s hjs hs => ?_⟩
  obtain ⟨v, hv, hpv⟩ := hbefore (s - j) (by omega)
  exact ⟨v, by rw [← hv, List.getElem?_drop, Nat.add_sub_cancel' hjs], hpv⟩

/-- **The two scans of a turn find the next gap**, as long as there is one. -/
theorem scans (hlen : map.length = m + 1) (h : Sweep m (Filled map) j g) (hg : 0 < g) :
    ∃ i k, scan (· != 0) (map.drop j) j = .ok i ∧ scan (· == 0) (map.drop i) i = .ok k ∧ Finds (Filled map) j i k ∧ k ≤ m := by
  have hahead := h.ahead
  have hget : ∀ p, p ≤ m → map[p]? = some (map.getD p 0) := fun p hp => (holds_getD map 0).get p (by omega)
  have hempty : map.getD (m - 1) 0 = 0 := by
    by_contra hne
    exact h.tail (m - 1) (by omega) (by omega) ⟨_, hget (m - 1) (by omega), hne⟩
  obtain ⟨i, hi, hji, ⟨v, hv, hv0⟩, hskip⟩ := scan_drop (p := (· != 0)) (j := j) (q := m - 1) (by omega)
    (hget (m - 1) (by omega)) (by simpa using hempty)
  have him : i ≤ m := by have := (List.getElem?_eq_some_iff.1 hv).1; omega
  obtain ⟨u, hu, hu0⟩ := h.pinned
  obtain ⟨k, hk, hik, ⟨v', hv', hv0'⟩, hskip'⟩ := scan_drop (p := (· == 0)) him hu (by simpa using hu0)
  have hkm : k ≤ m := by have := (List.getElem?_eq_some_iff.1 hv').1; omega
  refine ⟨i, k, hi, hk, ⟨hji, fun p hjp hpi => ?_, ?_, hik, ⟨v', hv', by simpa using hv0'⟩, fun p hip hpk => ?_⟩, hkm⟩
  · obtain ⟨x, hx, hx0⟩ := hskip p hjp hpi
    exact ⟨x, hx, by simpa using hx0⟩
  · rintro ⟨x, hx, hx0⟩
    rw [hv] at hx
    cases hx
    exact hx0 (by simpa using hv0)
  · rintro ⟨x, hx, hx0⟩
    obtain ⟨y, hy, hy0⟩ := hskip' p hip hpk
    rw [hx] at hy
    cases hy
    exact hx0 (by simpa using hy0)

theorem read_times {p : ℕ} (hp : p < times.length) : read times p = .ok (clock times (p + 1)) := (holds_getD times 0).read hp

omit [Field K] in
theorem placed_append (nodes : List (BridgeNode K)) (node : BridgeNode K) :
    Placed (nodes ++ [node]) = insert (node.bridgeIndex + 1) (Placed nodes) := by
  ext p
  simp only [Placed, List.mem_append, List.mem_singleton, Set.mem_insert_iff, Set.mem_ofPred_eq]
  constructor
  · rintro (rfl | ⟨node', hin | rfl, rfl⟩)
    · exact .inr (.inl rfl)
    · exact .inr (.inr ⟨node', hin, rfl⟩)
    · exact .inl rfl
  · rintro (rfl | rfl | ⟨node', hin, rfl⟩)
    · exact .inr ⟨node, .inr rfl, rfl⟩
    · exact .inl rfl
    · exact .inr ⟨node', .inl hin, rfl⟩

theorem node_ok (sqrt : K → K) {nodes : List (BridgeNode K)} {i k l : ℕ}
    (hplaced : ∀ p, Filled map p ↔ p ∈ nodes.map BridgeNode.bridgeIndex) (hgap : Gap (Filled map) i k) (hil : i ≤ l)
    (hlk : l < k) (hk : k < times.length) :
    ∃ x, node sqrt times l i k = .ok x ∧ x.bridgeIndex = l ∧ Bridges sqrt (clock times) (Placed nodes) x := by
  have hin : ∀ p, Filled map p → p + 1 ∈ Placed nodes := by
    intro p hp
    obtain ⟨node, hnode, rfl⟩ := List.mem_map.1 ((hplaced p).1 hp)
    exact .inr ⟨node, hnode, rfl⟩
  have hempty : ∀ p ∈ Placed nodes, p ≤ i ∨ k + 1 ≤ p := by
    rintro p (rfl | ⟨node, hnode, rfl⟩)
    · exact .inl (Nat.zero_le i)
    · have hp := (hplaced _).2 (List.mem_map_of_mem hnode)
      have := hgap.empty node.bridgeIndex
      by_contra hout
      exact hgap.empty node.bridgeIndex (by omega) (by omega) hp
  unfold node
  rw [read_times hk, bind_ok, read_times (hlk.trans hk), bind_ok]
  rcases i.eq_zero_or_pos with rfl | hi
  · have hzero : clock times 0 = 0 := rfl
    refine ⟨_, if_neg (by simp), rfl, .inl rfl, hin k hgap.right, hil, hlk, hempty, ?_, ?_, ?_⟩ <;> simp [hzero]
  · have hleft := hgap.left (i - 1) (by omega)
    rw [if_pos (by omega), read_times (by omega), Nat.sub_add_cancel hi]
    refine ⟨_, rfl, rfl, ?_, hin k hgap.right, hil, hlk, hempty, rfl, rfl, rfl⟩
    simpa [Nat.sub_add_cancel hi] using hin (i - 1) hleft

variable {s : Filling K}

theorem Filling.Inv.init (sqrt : K → K) (τ : ℕ → K) (m : ℕ) :
    Filling.Inv sqrt τ m 0 ⟨(List.replicate (m + 1) 0).set m 1, [⟨m, 0, 0, 0, 0, sqrt (τ (m + 1))⟩], 0⟩ where
  length := by rw [List.length_set, List.length_replicate]
  count := rfl
  placed p := by
    rw [filled_set (by rw [List.length_replicate]; omega) one_ne_zero]
    have hnone : ¬ Filled (List.replicate (m + 1) 0) p := by
      rintro ⟨v, hv, hv0⟩
      exact hv0 (List.eq_of_mem_replicate (List.mem_of_getElem? hv))
    simp [hnone]
  nodup := List.nodup_singleton m
  sweep := by
    refine ⟨m, ?_⟩
    have hfilled : Filled ((List.replicate (m + 1) 0).set m 1) = (· = m) := by
      funext p
      apply propext
      rw [filled_set (by rw [List.length_replicate]; omega) one_ne_zero]
      apply or_iff_right
      rintro ⟨v, hv, hv0⟩
      exact hv0 (List.eq_of_mem_replicate (List.mem_of_getElem? hv))
    rw [hfilled]
    exact Sweep.init m
  built := .first

theorem Filling.Inv.gap_pos {τ : ℕ → K} (h : Filling.Inv sqrt τ m n s) (hn : n < m) {g : ℕ}
    (hsweep : Sweep m (Filled s.map) s.j g) : 0 < g := by
  rcases g.eq_zero_or_pos with rfl | hg
  · have hsub : List.range (m + 1) ⊆ s.nodes.map BridgeNode.bridgeIndex := by
      intro p hp
      exact (h.placed p).1 (hsweep.full (Nat.lt_succ_iff.1 (List.mem_range.1 hp)))
    have hcard := (List.subperm_of_subset List.nodup_range hsub).length_le
    rw [List.length_range, List.length_map, h.count] at hcard
    omega
  · exact hg

/-- **One turn of the construction** stays in the range of the indices. -/
theorem fill_ok (hsize : times.length = m + 1) (h : Filling.Inv sqrt (clock times) m n s) (hn : n < m) :
    ∃ s', fill sqrt times times.length s n = .ok s' ∧ Filling.Inv sqrt (clock times) m (n + 1) s' := by
  obtain ⟨g, hsweep⟩ := h.sweep
  obtain ⟨i, k, hi, hk, hfinds, hkm⟩ := scans h.length hsweep (h.gap_pos hn hsweep)
  have hgap := hsweep.gap hfinds
  have hlt := hgap.lt
  have hl : i + (k - 1 - i) / 2 < s.map.length := by rw [h.length]; omega
  obtain ⟨x, hx, hindex, hbridges⟩ := node_ok sqrt h.placed hgap (Nat.le_add_right i ((k - 1 - i) / 2))
    (by omega) (by omega : k < times.length)
  obtain ⟨g', hnext⟩ := hsweep.next hfinds hkm
  have hfilled : Filled (s.map.set (i + (k - 1 - i) / 2) (n + 1)) = fun p => Filled s.map p ∨ p = i + (k - 1 - i) / 2 :=
    funext fun p => propext (filled_set hl (Nat.succ_ne_zero n) p)
  refine ⟨⟨s.map.set (i + (k - 1 - i) / 2) (n + 1), s.nodes ++ [x], if times.length ≤ k + 1 then 0 else k + 1⟩, ?_, ?_⟩
  · unfold fill
    rw [hi, bind_ok, hk, bind_ok]
    dsimp only
    rw [write, if_pos hl, bind_ok, hx]
    rfl
  · refine ⟨by rw [List.length_set, h.length], by rw [List.length_append, h.count]; rfl, fun p => ?_, ?_, ⟨g', ?_⟩,
      h.built.next hbridges⟩
    · rw [filled_set hl (Nat.succ_ne_zero n), h.placed p, List.map_append, List.mem_append, List.map_singleton,
        List.mem_singleton, hindex]
    · rw [List.map_append, List.map_singleton, hindex]
      refine List.nodup_append.2 ⟨h.nodup, List.nodup_singleton _, ?_⟩
      rintro a ha b hb rfl
      rw [List.mem_singleton] at hb
      exact hgap.empty a (by omega) (by omega) ((h.placed a).2 ha)
    · dsimp only
      rw [hfilled, hsize]
      exact hnext

/-- **The construction**: the points are a permutation of the steps, each a bridge over points before it. -/
theorem initializeBridge_ok (sqrt : K → K) (hsize : times.length = m + 1) :
    ∃ nodes, initializeBridge sqrt times times.length = .ok nodes ∧ nodes.length = m + 1 ∧
      (nodes.map BridgeNode.bridgeIndex).Perm (List.range (m + 1)) ∧ Built sqrt (clock times) m nodes := by
  obtain ⟨s, hs, h⟩ := loop_ok (Filling.Inv sqrt (clock times) m) m (Filling.Inv.init sqrt (clock times) m)
    (fun n hn s hs => fill_ok hsize hs hn)
  refine ⟨s.nodes, ?_, h.count, ?_, h.built⟩
  · unfold initializeBridge
    rw [write, if_pos (by rw [List.length_replicate]; omega), bind_ok, read_times (by omega), bind_ok]
    simp only [hsize, Nat.add_sub_cancel] at hs ⊢
    rw [hs]
    rfl
  · have hsub : s.nodes.map BridgeNode.bridgeIndex ⊆ List.range (m + 1) := by
      intro p hp
      rw [List.mem_range, ← h.length]
      exact ((h.placed p).2 hp).lt
    refine (List.subperm_of_subset h.nodup hsub).perm_of_length_le ?_
    rw [List.length_range, List.length_map, h.count]

example : (initializeBridge id [(1 : ℚ), 2, 3, 4, 5] 5).map (·.map BridgeNode.bridgeIndex) = .ok [4, 1, 0, 2, 3] := by
  decide +kernel

end Construction

/-! ## The path -/

section Path

open Matrix

variable {n m : ℕ} {sqrt : K → K} {τ : ℕ → K} {nodes : List (BridgeNode K)} {self : BrownianBridge K}

/-- The `i`-th of `n` variates. -/
def variate (K : Type) [Field K] (n i : ℕ) : Fin n → K := fun p => if p.val = i then 1 else 0

theorem variate_dot {i : ℕ} (hi : i < n) (x : Fin n → K) : variate K n i ⬝ᵥ x = x ⟨i, hi⟩ := by
  rw [dotProduct, Finset.sum_eq_single ⟨i, hi⟩]
  · simp [variate]
  · intro p _ hp
    have : p.val ≠ i := fun he => hp (Fin.ext he)
    simp [variate, this]
  · simp

theorem variate_orthogonal {i k : ℕ} (hik : i ≠ k) : variate K n i ⬝ᵥ variate K n k = 0 := by
  refine Finset.sum_eq_zero fun p _ => ?_
  by_cases hi : p.val = i
  · simp [variate, hi, hik]
  · simp [variate, hi]

/-- The covariance of two points is the inner product of their coefficients. -/
def covariance (K : Type) [Field K] (n : ℕ) : LinearMap.BilinForm K (Fin n → K) :=
  LinearMap.mk₂ K (fun v w => v ⬝ᵥ w) add_dotProduct smul_dotProduct dotProduct_add (fun c v w => dotProduct_smul c v w)

theorem covariance_apply (v w : Fin n → K) : covariance K n v w = v ⬝ᵥ w := rfl

theorem covariance_comm (v w : Fin n → K) : covariance K n v w = covariance K n w v := dotProduct_comm v w

theorem Built.length_pos (h : Built sqrt τ m nodes) : 0 < nodes.length := by
  cases h with
  | first    => exact Nat.one_pos
  | next _ _ => rw [List.length_append]; exact Nat.succ_pos _

theorem Built.head (h : Built sqrt τ m nodes) : nodes[0]? = some ⟨m, 0, 0, 0, 0, sqrt (τ (m + 1))⟩ := by
  induction h with
  | first            => rfl
  | next hbuilt _ ih =>
    rw [List.getElem?_append_left hbuilt.length_pos]
    exact ih

omit [Field K] in
theorem placed_le {p : ℕ} (hbound : ∀ node ∈ nodes, node.bridgeIndex < n) (hp : p ∈ Placed nodes) : p ≤ n := by
  obtain rfl | ⟨node, hnode, rfl⟩ := hp
  · exact Nat.zero_le n
  · exact hbound node hnode

variable [LinearOrder K] [IsStrictOrderedRing K]

/-- The points of a path by their coefficients: the covariance is that of a Wiener process, and the variates of the nodes to
come are independent of them. -/
structure Coefficients (sqrt : K → K) (τ : ℕ → K) (n : ℕ) (nodes : List (BridgeNode K)) (w : ℕ → Fin n → K) : Prop where
  start : w 0 = 0
  pinned : n ∈ Placed nodes
  last  : w n = sqrt (τ n) • variate K n 0
  path  : Wiener.Path (covariance K n) τ (Placed nodes) w
  fresh : ∀ p ∈ Placed nodes, ∀ i, nodes.length ≤ i → covariance K n (w p) (variate K n i) = 0

omit [IsStrictOrderedRing K] in
theorem Coefficients.first (hsqrt : ∀ x, 0 ≤ x → sqrt x * sqrt x = x) (hτ : StrictMonoOn τ (Set.Iic (m + 1))) (hτ0 : τ 0 = 0) :
    Coefficients sqrt τ (m + 1) [⟨m, 0, 0, 0, 0, sqrt (τ (m + 1))⟩]
      (Function.update 0 (m + 1) (sqrt (τ (m + 1)) • variate K (m + 1) 0)) where
  start := Function.update_of_ne (Nat.succ_ne_zero m).symm _ _
  pinned := .inr ⟨_, List.mem_singleton_self _, rfl⟩
  last := Function.update_self _ _ _
  path := by
    have hpos : 0 < τ (m + 1) := hτ0 ▸ hτ (Nat.zero_le _) (Set.mem_Iic.2 le_rfl) (Nat.succ_pos m)
    have hplaced : Placed [(⟨m, 0, 0, 0, 0, sqrt (τ (m + 1))⟩ : BridgeNode K)] = insert (m + 1) {0} := by
      ext p
      simp only [Placed, List.mem_singleton, Set.mem_ofPred_eq, exists_eq_left, Set.mem_insert_iff, Set.mem_singleton_iff]
      exact or_comm
    have hzero : Wiener.Path (covariance K (m + 1)) τ {0} (0 : ℕ → Fin (m + 1) → K) := by
      rintro p rfl q rfl
      rw [Pi.zero_apply, map_zero, hτ0, min_self]
    rw [hplaced]
    refine hzero.insert covariance_comm (Nat.succ_ne_zero m) (fun q hq => ?_) ?_
    · obtain rfl : q = 0 := hq
      rw [Pi.zero_apply, map_zero, hτ0, min_eq_right hpos.le]
    · rw [map_smul, map_smul, LinearMap.smul_apply, covariance_apply, variate_dot (Nat.succ_pos m)]
      simp [variate, hsqrt _ hpos.le]
  fresh := by
    rintro p (rfl | ⟨node, hnode, rfl⟩) i hi
    · rw [Function.update_of_ne (Nat.succ_ne_zero m).symm, Pi.zero_apply, map_zero, LinearMap.zero_apply]
    · obtain rfl := List.mem_singleton.1 hnode
      have hne : (0 : ℕ) ≠ i := by rintro rfl; cases hi
      rw [Function.update_self, map_smul, LinearMap.smul_apply, covariance_apply, variate_orthogonal hne, smul_zero]

/-- The coefficients with the point of one more node. -/
def bridged (w : ℕ → Fin n → K) (node : BridgeNode K) (i : ℕ) : ℕ → Fin n → K :=
  Function.update w (node.bridgeIndex + 1)
    (node.leftWeight • w node.leftIndex + node.rightWeight • w (node.rightIndex + 1) + node.stdDev • variate K n i)

theorem Coefficients.next (hsqrt : ∀ x, 0 ≤ x → sqrt x * sqrt x = x) (hτ : StrictMonoOn τ (Set.Iic n)) {node : BridgeNode K}
    (hnode : Bridges sqrt τ (Placed nodes) node) (hbound : ∀ x ∈ nodes, x.bridgeIndex < n) (hlen : nodes.length < n)
    {w : ℕ → Fin n → K} (h : Coefficients sqrt τ n nodes w) :
    Coefficients sqrt τ n (nodes ++ [node]) (bridged w node nodes.length) := by
  have hright : node.rightIndex + 1 ≤ n := placed_le hbound hnode.right
  have hlt := hnode.lt
  have hle := hnode.le
  have hout : node.bridgeIndex + 1 ∉ Placed nodes := by
    intro hin
    have := hnode.empty _ hin
    omega
  have hal : τ node.leftIndex < τ (node.bridgeIndex + 1) := by
    refine hτ ?_ ?_ (by omega) <;> simp only [Set.mem_Iic] <;> omega
  have hlb : τ (node.bridgeIndex + 1) < τ (node.rightIndex + 1) := by
    refine hτ ?_ ?_ (by omega) <;> simp only [Set.mem_Iic] <;> omega
  refine ⟨?_, ?_, ?_, ?_, fun p hp i hi => ?_⟩
  · rw [bridged, Function.update_of_ne (Nat.succ_ne_zero _).symm, h.start]
  · rw [placed_append]
    exact .inr h.pinned
  · rw [bridged, Function.update_of_ne (fun he : n = node.bridgeIndex + 1 => hout (he ▸ h.pinned)), h.last]
  · rw [placed_append, bridged, hnode.leftWeight, hnode.rightWeight]
    refine h.path.bridge covariance_comm hnode.left hnode.right hout hal hlb (fun q hq => ?_) (fun q hq => h.fresh q hq _ le_rfl)
      ?_ ?_
    · rcases hnode.empty q hq with hqa | hbq
      · exact .inl (hτ.monotoneOn (placed_le hbound hq) (placed_le hbound hnode.left) hqa)
      · exact .inr (hτ.monotoneOn hright (placed_le hbound hq) hbq)
    · rw [covariance_apply, variate_dot hlen]
      simp [variate]
    · rw [hnode.stdDev]
      refine hsqrt _ (div_nonneg (mul_nonneg ?_ ?_) ?_)
      · exact sub_nonneg.2 hal.le
      · exact sub_nonneg.2 hlb.le
      · exact sub_nonneg.2 (hal.trans hlb).le
  · rw [List.length_append, List.length_singleton] at hi
    have hfresh : ∀ q ∈ Placed nodes, covariance K n (w q) (variate K n i) = 0 := fun q hq => h.fresh q hq i (by omega)
    rw [placed_append] at hp
    rcases hp with rfl | hp
    · rw [bridged, Function.update_self, map_add, map_add, map_smul, map_smul, map_smul, LinearMap.add_apply,
        LinearMap.add_apply, LinearMap.smul_apply, LinearMap.smul_apply, LinearMap.smul_apply, hfresh _ hnode.left,
        hfresh _ hnode.right, covariance_apply, variate_orthogonal (by omega)]
      simp
    · rw [bridged, Function.update_of_ne (fun he : p = node.bridgeIndex + 1 => hout (he ▸ hp)), hfresh p hp]

/-- The output holds the points placed so far, for the variates `x`. -/
def Draws (nodes : List (BridgeNode K)) (w : ℕ → Fin n → K) (x : Fin n → K) (v : ℕ → K) : Prop :=
  ∀ p, p + 1 ∈ Placed nodes → v p = w (p + 1) ⬝ᵥ x

omit [IsStrictOrderedRing K] in
/-- **One turn of the transformation** places the point of its node. -/
theorem construct_ok {node : BridgeNode K} (hget : self.nodes[nodes.length]? = some node) (hlen : nodes.length < n)
    (hpos : 0 < nodes.length) (hnode : Bridges sqrt τ (Placed nodes) node) (hbound : ∀ x ∈ nodes, x.bridgeIndex < n)
    {w : ℕ → Fin n → K} (h : Coefficients sqrt τ n nodes w) {x : Fin n → K} {v : ℕ → K} {output : List K}
    (hout : Holds n v output) (hdraws : Draws nodes w x v) :
    ∃ v' output', self.construct (List.ofFn x) output (nodes.length - 1) = .ok output' ∧ Holds n v' output' ∧
      Draws (nodes ++ [node]) (bridged w node nodes.length) x v' := by
  have hright : node.rightIndex < n := placed_le hbound hnode.right
  have hlt := hnode.lt
  have hle := hnode.le
  have hdot : bridged w node nodes.length (node.bridgeIndex + 1) ⬝ᵥ x =
      node.leftWeight * (w node.leftIndex ⬝ᵥ x) + node.rightWeight * v node.rightIndex + node.stdDev * x ⟨_, hlen⟩ := by
    rw [bridged, Function.update_self, add_dotProduct, add_dotProduct, smul_dotProduct, smul_dotProduct, smul_dotProduct,
      variate_dot hlen, hdraws _ hnode.right]
    rfl
  obtain ⟨output', hwrite, hout'⟩ := hout.write (by omega : node.bridgeIndex < n)
    (bridged w node nodes.length (node.bridgeIndex + 1) ⬝ᵥ x)
  refine ⟨_, output', ?_, hout', fun p hp => ?_⟩
  · have hread : read (List.ofFn x) nodes.length = .ok (x ⟨_, hlen⟩) :=
      read_of_getElem? (by rw [List.getElem?_ofFn, dif_pos hlen])
    unfold construct
    rw [Nat.sub_add_cancel hpos, hread, bind_ok, read_of_getElem? hget, bind_ok, hout.read hright, bind_ok]
    split
    · rename_i hleft
      have hprev : v (node.leftIndex - 1) = w node.leftIndex ⬝ᵥ x := by
        have := hdraws (node.leftIndex - 1)
        rw [Nat.sub_add_cancel (Nat.one_le_iff_ne_zero.2 hleft)] at this
        exact this hnode.left
      rw [hout.read (by omega), bind_ok, hprev, ← hdot]
      exact hwrite
    · rename_i hleft
      rw [hdot, not_not.1 hleft, h.start, zero_dotProduct, mul_zero, zero_add] at hwrite
      exact hwrite
  · rw [placed_append] at hp
    rcases hp with hp | hp
    · obtain rfl : p = node.bridgeIndex := Nat.succ.inj hp
      rw [Function.update_self]
    · have hne : p + 1 ≠ node.bridgeIndex + 1 := by
        intro he
        have := hnode.empty _ (he ▸ hp)
        omega
      rw [Function.update_of_ne (fun he => hne (congrArg Nat.succ he)), bridged, Function.update_of_ne hne, hdraws p hp]

/-- **The points of the path**: they depend on the variates by coefficients that make a Wiener process. -/
theorem construct_spec (hsqrt : ∀ x, 0 ≤ x → sqrt x * sqrt x = x) (hτ : StrictMonoOn τ (Set.Iic (m + 1))) (hτ0 : τ 0 = 0)
    (hbound : ∀ node ∈ self.nodes, node.bridgeIndex < m + 1) (hcount : self.nodes.length ≤ m + 1)
    (hbuilt : Built sqrt τ m nodes) : nodes <+: self.nodes →
    ∃ w, Coefficients sqrt τ (m + 1) nodes w ∧ ∀ (x : Fin (m + 1) → K) (v : ℕ → K) (output : List K), Holds (m + 1) v output →
      v m = sqrt (τ (m + 1)) * x 0 →
      ∃ v' output', loop (nodes.length - 1) (self.construct (List.ofFn x)) output = .ok output' ∧ Holds (m + 1) v' output' ∧
        Draws nodes w x v' := by
  induction hbuilt with
  | first =>
    intro _
    refine ⟨_, Coefficients.first hsqrt hτ hτ0, fun x v output hout hlast => ⟨v, output, rfl, hout, ?_⟩⟩
    rintro p (hp | ⟨node, hnode, hp⟩)
    · omega
    · obtain rfl := List.mem_singleton.1 hnode
      obtain rfl : p = m := Nat.succ.inj hp
      rw [Function.update_self, smul_dotProduct, variate_dot (Nat.succ_pos p), hlast]
      rfl
  | @next nodes node hbuilt hnode ih =>
    intro hprefix
    have hprefix' : nodes <+: self.nodes := (List.prefix_append nodes [node]).trans hprefix
    obtain ⟨w, hw, hrun⟩ := ih hprefix'
    have hlen : nodes.length < m + 1 := by
      have := hprefix.length_le
      rw [List.length_append, List.length_singleton] at this
      omega
    have hget : self.nodes[nodes.length]? = some node := by
      obtain ⟨rest, hrest⟩ := hprefix
      rw [← hrest]
      simp
    have hpos := hbuilt.length_pos
    have hbefore : ∀ x ∈ nodes, x.bridgeIndex < m + 1 := fun x hx => hbound x (hprefix'.subset hx)
    refine ⟨_, hw.next hsqrt hτ hnode hbefore hlen, fun x v output hout hlast => ?_⟩
    obtain ⟨v', output', hloop, hout', hdraws⟩ := hrun x v output hout hlast
    obtain ⟨v'', output'', hturn, hout'', hdraws'⟩ := construct_ok hget hlen hpos hnode hbefore hw hout' hdraws
    refine ⟨v'', output'', ?_, hout'', hdraws'⟩
    rw [List.length_append, List.length_singleton, Nat.add_sub_cancel]
    conv_lhs => rw [← Nat.sub_add_cancel hpos]
    rw [loop_succ, hloop]
    exact hturn

omit [LinearOrder K] [IsStrictOrderedRing K] in
/-- The last loop takes the differences from the end on, so each is of the levels as they were. -/
theorem vary_ok (hsize : self.size = m + 1) {s v : ℕ → K} (hsteps : Holds (m + 1) s self.sqrtdt) {output : List K}
    (hout : Holds (m + 1) v output) :
    ∃ output', loop m self.vary output = .ok output' ∧
      Holds (m + 1) (fun p => if 0 < p then (v p - v (p - 1)) / s p else v p) output' := by
  let inv (k : ℕ) (l : List K) : Prop := Holds (m + 1) (fun p => if m - k < p then (v p - v (p - 1)) / s p else v p) l
  have hstart : inv 0 output := hout.congr fun p hp => (if_neg (by omega)).symm
  have hturn : ∀ k, k < m → ∀ l, inv k l → ∃ l', self.vary l k = .ok l' ∧ inv (k + 1) l' := by
    intro k hk l hl
    have hi : self.size - 1 - k = m - k := by omega
    obtain ⟨l', hwrite, hl'⟩ := hl.write (by omega : m - k < m + 1) ((v (m - k) - v (m - k - 1)) / s (m - k))
    refine ⟨l', ?_, hl'.congr fun p _ => ?_⟩
    · unfold vary
      dsimp only
      rw [hi, hl.read (by omega), bind_ok, hl.read (by omega), bind_ok, hsteps.read (by omega), bind_ok, if_neg (by omega),
        if_neg (by omega)]
      exact hwrite
    · rcases eq_or_ne p (m - k) with rfl | hne
      · rw [Function.update_self, if_pos (by omega)]
      · rw [Function.update_of_ne hne]
        exact if_congr (by omega) rfl rfl
  obtain ⟨output', hloop, hend⟩ := loop_ok inv m hstart hturn
  refine ⟨output', hloop, hend.congr fun p _ => ?_⟩
  rw [Nat.sub_self]

/-! ## The variations -/

/-- The coefficients of a normalized variation. -/
def variation (sqrt : K → K) (τ : ℕ → K) (w : ℕ → Fin n → K) (p : ℕ) : Fin n → K :=
  (sqrt (τ (p + 1) - τ p))⁻¹ • (w (p + 1) - w p)

omit [LinearOrder K] [IsStrictOrderedRing K] in
/-- **What a transformation writes**, whatever was in the output before. -/
theorem transform_ok {first : BridgeNode K} (hsize : self.size = m + 1)
    (hsteps : Holds (m + 1) (fun p => sqrt (τ (p + 1) - τ p)) self.sqrtdt) (hfirst : self.nodes[0]? = some first)
    {w : ℕ → Fin (m + 1) → K} (hstart : w 0 = 0) (x output : Fin (m + 1) → K)
    (hrun : ∀ (v : ℕ → K) (output : List K), Holds (m + 1) v output → v m = first.stdDev * x 0 →
      ∃ v' output', loop m (self.construct (List.ofFn x)) output = .ok output' ∧ Holds (m + 1) v' output' ∧
        ∀ p < m + 1, v' p = w (p + 1) ⬝ᵥ x) :
    self.transform (List.ofFn x) (List.ofFn output) = .ok (List.ofFn fun p : Fin (m + 1) => variation sqrt τ w p ⬝ᵥ x) := by
  obtain ⟨start, hwrite, hout⟩ := (holds_ofFn output 0).write (Nat.lt_succ_self m) (first.stdDev * x 0)
  obtain ⟨v, levels, hloop, hlevels, hv⟩ := hrun _ start hout (Function.update_self _ _ _)
  obtain ⟨varied, hvary, hvaried⟩ := vary_ok hsize hsteps hlevels
  obtain ⟨last, hlast, hend⟩ := hvaried.write (Nat.succ_pos m) (v 0 / sqrt (τ 1 - τ 0))
  have hread : read (List.ofFn x) 0 = .ok (x 0) := read_of_getElem? (by rw [List.getElem?_ofFn, dif_pos (Nat.succ_pos m)]; rfl)
  unfold transform
  rw [if_neg (by rw [List.length_ofFn, hsize]; simp), if_neg (by rw [List.length_ofFn, hsize]; simp),
    read_of_getElem? hfirst, bind_ok, hread, bind_ok]
  simp only [hsize, Nat.add_sub_cancel]
  rw [hwrite, bind_ok, hloop, bind_ok, hvary, bind_ok, hvaried.read (Nat.succ_pos m), bind_ok,
    hsteps.read (Nat.succ_pos m), bind_ok, if_neg (lt_irrefl 0), hlast, hend.eq_ofFn]
  congr 2
  funext p
  have hdot : variation sqrt τ w p ⬝ᵥ x = (w (p + 1) ⬝ᵥ x - w p ⬝ᵥ x) / sqrt (τ (p + 1) - τ p) := by
    rw [variation, smul_dotProduct, sub_dotProduct, smul_eq_mul, div_eq_inv_mul]
  rw [hdot]
  rcases p with ⟨_ | p, hp⟩
  · rw [Function.update_self, hv 0 hp, hstart, zero_dotProduct, sub_zero]
  · rw [Function.update_of_ne (Nat.succ_ne_zero p), if_pos (Nat.succ_pos p), hv _ hp, show p.succ - 1 = p from rfl,
      hv p (by omega)]

omit [LinearOrder K] [IsStrictOrderedRing K] in
theorem sqrtSteps_holds (sqrt : K → K) (times : List K) :
    Holds times.length (fun p => sqrt (clock times (p + 1) - clock times p)) (sqrtSteps sqrt times) := by
  cases times with
  | nil       => exact ⟨rfl, fun p hp => by cases hp⟩
  | cons t₀ t =>
    refine ⟨by simp [sqrtSteps], fun p hp => ?_⟩
    cases p with
    | zero   => simp [sqrtSteps, clock]
    | succ p =>
      have hp' : p < t.length := Nat.lt_of_succ_lt_succ hp
      rw [sqrtSteps, List.getElem?_cons_succ, List.getElem?_zipWith, (holds_getD (t₀ :: t) 0).get p (by omega),
        (holds_getD t 0).get p hp']
      rfl

omit [Field K] [LinearOrder K] [IsStrictOrderedRing K] in
theorem Holds.uncons {v : ℕ → K} {array : List K} (h : Holds (n + 1) v array) :
    ∃ rest, array = v 0 :: rest ∧ Holds n (fun p => v (p + 1)) rest := by
  obtain ⟨a, rest, rfl⟩ := List.exists_cons_of_length_eq_add_one h.length
  have hzero := h.get 0 (Nat.succ_pos n)
  rw [List.getElem?_cons_zero] at hzero
  obtain rfl := Option.some.inj hzero
  exact ⟨rest, rfl, Nat.succ.inj h.length, fun p hp => h.get (p + 1) (Nat.succ_lt_succ hp)⟩

omit [LinearOrder K] [IsStrictOrderedRing K] in
theorem levels_holds (sqrt : K → K) : ∀ (n : ℕ) (times variations : List K) (τ u y : ℕ → K),
    Holds n (fun p => τ (p + 1)) times → Holds n y variations →
    (∀ p < n, u (p + 1) = u p + y p * sqrt (τ (p + 1) - τ p)) →
    Holds n (fun p => u (p + 1)) (levels sqrt (τ 0) (u 0) times variations)
  | 0, times, variations, τ, u, y, htimes, _, _       => by
    obtain rfl := List.eq_nil_of_length_eq_zero htimes.length
    exact ⟨rfl, fun p hp => by cases hp⟩
  | n + 1, times, variations, τ, u, y, htimes, hy, hu => by
    obtain ⟨times, rfl, hrestTimes⟩ := htimes.uncons
    obtain ⟨variations, rfl, hrestY⟩ := hy.uncons
    have hrest := levels_holds sqrt n times variations (fun p => τ (p + 1)) (fun p => u (p + 1)) (fun p => y (p + 1))
      hrestTimes hrestY (fun p hp => hu (p + 1) (Nat.succ_lt_succ hp))
    rw [levels, ← hu 0 (Nat.succ_pos n)]
    refine ⟨by rw [List.length_cons, hrest.length], fun p hp => ?_⟩
    cases p with
    | zero   => rfl
    | succ p => exact hrest.get p (Nat.lt_of_succ_lt_succ hp)

omit [IsStrictOrderedRing K] in
theorem clock_strictMono {times : List K} (hpos : ∀ t ∈ times, 0 < t) (hinc : times.Pairwise (· < ·)) :
    StrictMonoOn (clock times) (Set.Iic times.length) := by
  have hsorted : (0 :: times).Pairwise (· < ·) := List.pairwise_cons.2 ⟨hpos, hinc⟩
  intro p hp q hq hpq
  have hq' : q < (0 :: times).length := Nat.lt_succ_of_le hq
  rw [clock, clock, List.getD_eq_getElem _ _ (hpq.trans hq'), List.getD_eq_getElem _ _ hq']
  exact List.pairwise_iff_getElem.1 hsorted p q _ _ hpq

omit [Field K] [LinearOrder K] [IsStrictOrderedRing K] in
theorem placed_eq (hperm : (nodes.map BridgeNode.bridgeIndex).Perm (List.range n)) : Placed nodes = Set.Iic n := by
  have hmem : ∀ p, (∃ node ∈ nodes, p = node.bridgeIndex + 1) ↔ 0 < p ∧ p ≤ n := by
    intro p
    constructor
    · rintro ⟨node, hnode, rfl⟩
      have := List.mem_range.1 (hperm.subset (List.mem_map_of_mem hnode))
      omega
    · rintro ⟨hp, hpn⟩
      obtain ⟨node, hnode, he⟩ := List.mem_map.1 (hperm.symm.subset (List.mem_range.2 (by omega : p - 1 < n)))
      exact ⟨node, hnode, by omega⟩
  ext p
  rw [Placed, Set.mem_ofPred_eq, hmem, Set.mem_Iic]
  omega

/-- **The transformation of a Brownian bridge is orthogonal**, and the path it makes is a Wiener process that ends with the
first variate; its points are a permutation of the steps. -/
theorem transform_orthogonal (hsqrt : ∀ x, 0 ≤ x → sqrt x * sqrt x = x) (times : List K) (hne : times ≠ [])
    (hpos : ∀ t ∈ times, 0 < t) (hinc : times.Pairwise (· < ·)) :
    ∃ bridge, fromTimes sqrt times = .ok bridge ∧
      (bridge.nodes.map BridgeNode.bridgeIndex).Perm (List.range times.length) ∧
      ∃ A L : Matrix (Fin times.length) (Fin times.length) K, A * Aᵀ = 1 ∧ Aᵀ * A = 1 ∧
        (∀ x output : Fin times.length → K, bridge.transform (List.ofFn x) (List.ofFn output) = .ok (List.ofFn (A *ᵥ x)) ∧
          levels sqrt 0 0 times (List.ofFn (A *ᵥ x)) = List.ofFn (L *ᵥ x)) ∧
        (∀ i j, (L * Lᵀ) i j = min times[i] times[j]) ∧
        ∀ x i j, i.val + 1 = times.length → j.val = 0 → (L *ᵥ x) i = sqrt times[i] * x j := by
  obtain ⟨t₀, rest, rfl⟩ := List.exists_cons_of_ne_nil hne
  let times := t₀ :: rest
  let τ := clock times
  have hsize : times.length = rest.length + 1 := rfl
  have hτ : StrictMonoOn τ (Set.Iic (rest.length + 1)) := clock_strictMono hpos hinc
  obtain ⟨nodes, hnodes, hcount, hperm, hbuilt⟩ := initializeBridge_ok sqrt hsize
  let bridge : BrownianBridge K := ⟨times.length, times, sqrtSteps sqrt times, nodes⟩
  have hplaced : Placed nodes = Set.Iic (rest.length + 1) := placed_eq hperm
  have hbound : ∀ node ∈ bridge.nodes, node.bridgeIndex < rest.length + 1 := fun node hnode =>
    List.mem_range.1 (hperm.subset (List.mem_map_of_mem hnode))
  have hprefix : nodes <+: bridge.nodes := List.prefix_refl nodes
  obtain ⟨w, hw, hrun⟩ := construct_spec hsqrt hτ rfl hbound hcount.le hbuilt hprefix
  have hfirst := hbuilt.head
  have hpath : Wiener.Path (covariance K (rest.length + 1)) τ (Set.Iic (rest.length + 1)) w := hplaced ▸ hw.path
  have hroot : ∀ p < rest.length + 1, sqrt (τ (p + 1) - τ p) * sqrt (τ (p + 1) - τ p) = τ (p + 1) - τ p := fun p hp =>
    hsqrt _ (sub_nonneg.2 (hτ hp.le hp (Nat.lt_succ_self p)).le)
  have hroot0 : ∀ p < rest.length + 1, sqrt (τ (p + 1) - τ p) ≠ 0 := by
    intro p hp h0
    have hlt := sub_pos.2 (hτ hp.le hp (Nat.lt_succ_self p))
    rw [← hroot p hp, h0, mul_zero] at hlt
    exact hlt.false
  let A : Matrix (Fin (rest.length + 1)) (Fin (rest.length + 1)) K := Matrix.of fun p => variation sqrt τ w p
  let L : Matrix (Fin (rest.length + 1)) (Fin (rest.length + 1)) K := Matrix.of fun p => w (p + 1)
  have hrows : A * Aᵀ = 1 ∧ Aᵀ * A = 1 := by
    refine orthogonal_of_rows fun p q => ?_
    have := hpath.normalized hτ hroot p.isLt q.isLt
    rw [covariance_apply] at this
    exact this.trans (if_congr Fin.ext_iff.symm rfl rfl)
  refine ⟨bridge, ?_, hperm, A, L, hrows.1, hrows.2, fun x output => ⟨?_, ?_⟩, fun i j => ?_, ?_⟩
  · unfold fromTimes
    rw [if_neg hne, hnodes]
    rfl
  · refine transform_ok (τ := τ) hsize (sqrtSteps_holds sqrt times) hfirst hw.start x output fun v output hout hlast => ?_
    obtain ⟨v', output', hloop, hout', hdraws⟩ := hrun x v output hout hlast
    rw [hcount] at hloop
    exact ⟨v', output', hloop, hout', fun p hp => hdraws p (hplaced ▸ hp)⟩
  · have hlevels := levels_holds sqrt (rest.length + 1) times (List.ofFn (A *ᵥ x)) τ (fun p => w p ⬝ᵥ x)
      (fun p => variation sqrt τ w p ⬝ᵥ x) (holds_getD times 0) ?_ ?_
    · rw [hw.start, zero_dotProduct] at hlevels
      exact hlevels.eq_ofFn
    · exact ⟨List.length_ofFn, fun p hp => by rw [List.getElem?_ofFn, dif_pos hp]; rfl⟩
    · intro p hp
      rw [variation, smul_dotProduct, sub_dotProduct, smul_eq_mul]
      have := hroot0 p hp
      field_simp
      ring
  · have hclock : ∀ p : Fin (rest.length + 1), τ (p + 1) = times[p] := fun p =>
      List.getD_eq_getElem _ _ (Nat.succ_lt_succ p.isLt)
    have := hpath (i + 1) i.isLt (j + 1) j.isLt
    rw [hclock, hclock] at this
    exact this
  · intro x i j hi hj
    have hi' : i.val + 1 = rest.length + 1 := hi
    have hclock : τ (i + 1) = times[i] := List.getD_eq_getElem _ _ (Nat.succ_lt_succ i.isLt)
    have hlast : w (i + 1) = sqrt (τ (i + 1)) • variate K (rest.length + 1) 0 := by rw [hi']; exact hw.last
    change w (i + 1) ⬝ᵥ x = _
    rw [hlast, smul_dotProduct, variate_dot (Nat.succ_pos _), hclock]
    congr 2
    exact Fin.ext hj.symm

/-- Three steps of unequal lengths. -/
theorem transform_orthogonal_three : ∃ bridge, fromTimes Real.sqrt [1, 3, 4] = .ok bridge ∧
    (bridge.nodes.map BridgeNode.bridgeIndex).Perm [0, 1, 2] ∧ ∃ A : Matrix (Fin 3) (Fin 3) ℝ, A * Aᵀ = 1 ∧
      ∀ x output : Fin 3 → ℝ, bridge.transform (List.ofFn x) (List.ofFn output) = .ok (List.ofFn (A *ᵥ x)) := by
  obtain ⟨bridge, hnew, hperm, A, L, hA, _, htransform, _⟩ := transform_orthogonal (fun x hx => Real.mul_self_sqrt hx)
    [1, 3, 4] (by simp) (by simp) (by simp; norm_num)
  exact ⟨bridge, hnew, hperm, A, hA, fun x output => (htransform x output).1⟩

end Path

end BrownianBridge

end Itofin
