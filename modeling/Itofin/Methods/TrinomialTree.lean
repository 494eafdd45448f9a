import Mathlib.Algebra.Order.Floor.Ring
import Mathlib.Data.List.GetD
import Mathlib.Analysis.Real.Sqrt
import Itofin.Lib.Loop
import Itofin.Lib.ThreePoint
import Itofin.Math.TimeGrid
/-!
# TrinomialTree — a recombining tree for a process

`TrinomialTree` and `Branching` of `methods/lattices/trinomialtree.rs`, in exact arithmetic, with the square root as a
parameter.  Slice by slice the nodes are the multiples of a spacing around the initial value; each leads to the node next to
its expectation and the two beside it.

A node that was linked matches the mean and the variance it was linked for (`link_yields`), and a slice holds all the nodes
its links lead to (`branch_yields`).  `Built` says so of every slice of a tree, and `new_yields` is the induction over the
slices.
-/
namespace Itofin

open Loop ThreePoint Finset

/-- What a tree asks a process; a query fails with an error in `ε`. -/
structure StochasticProcess1D (K ε : Type) where
  x0 : Except ε K
  expectation (t x dt : K) : Except ε K
  variance (t x dt : K) : Except ε K

inductive TreeError (K ε : Type) where
  /-- "null time steps for trinomial tree" -/
  | nullTimeSteps
  /-- "negative probability in trinomial tree (unfloored regime) at step {i}, node {j}: p1={p1}, p2={p2}, p3={p3} (v={v},
  dx={dx_next}, e={e})" -/
  | negativeProbability (i : ℕ) (j : ℤ) (p1 p2 p3 v dx e : K)
  | process (e : ε)
  /-- An index out of range. -/
  | outOfRange

/-- The middle descendant of a node, and the weights of the three. -/
structure Link (K : Type) where
  k : ℤ
  weights : Weights K

/-- The links of a slice, and the range of the nodes they lead to. -/
structure Branching (K : Type) where
  links : List (Link K)
  kMin : ℤ
  jMin : ℤ
  kMax : ℤ
  jMax : ℤ

structure TrinomialTree (K : Type) where
  branchings : List (Branching K)
  x0 : K
  dx : List K
  timeGrid : Math.TimeGrid K
  columns : ℕ

/-- A step of the grid, with the variance of the process over it. -/
structure TreeStep (K : Type) where
  t : K
  dt : K
  v2 : K

variable {K ε : Type} [Field K]

instance : Inhabited (Link K) := ⟨0, ⟨0, 0, 0⟩⟩

namespace Branching

/-- The extremes of no links are never read. -/
def new : Branching K := ⟨[], 0, 0, 0, 0⟩

/-- `j_max - j_min + 1` -/
def size (self : Branching K) : ℕ := (self.jMax - self.jMin + 1).toNat

/-- `k[index] - j_min - 1 + branch` -/
def descendant (self : Branching K) (index branch : ℕ) : ℕ :=
  ((self.links.getD index default).k - self.jMin - 1 + branch).toNat

def probability (self : Branching K) (index branch : ℕ) : K := (self.links.getD index default).weights.get branch

def add (self : Branching K) (link : Link K) : Branching K :=
  let kMin := if self.links = [] then link.k else min self.kMin link.k
  let kMax := if self.links = [] then link.k else max self.kMax link.k
  ⟨self.links ++ [link], kMin, kMin - 1, kMax, kMax + 1⟩

end Branching

/-- `K_FLOOR_THRESHOLD` -/
def kFloorThreshold : K := 1 / 100

variable [LinearOrder K]

/-- The spacing of every slice, and whether the floor widened the one after a step. -/
def dxSchedule (sqrt : K → K) (dts v2s : List K) : List K × List Bool :=
  let dtMax := dts.foldl max 0
  let dxFloor := sqrt ((3 : ℕ) * v2s.foldl max 0)
  let next (dt v2 : K) : K × Bool :=
    let dxNatural := sqrt v2 * sqrt (3 : ℕ)
    let dxNext := if dt < kFloorThreshold * dtMax then max dxNatural dxFloor else dxNatural
    (dxNext, dxNatural < dxNext)
  let schedule := List.zipWith next dts v2s
  (0 :: schedule.map Prod.fst, schedule.map Prod.snd)

/-- `while x0 + (temp - 1) as Real * dx <= 0.0 { temp += 1; }` -/
def bumped (x0 dx : K) : ℕ → ℤ → ℤ
  | 0, temp         => temp
  | turns + 1, temp => if x0 + ((temp - 1 : ℤ) : K) * dx ≤ 0 then bumped x0 dx turns (temp + 1) else temp

namespace TrinomialTree

variable [FloorRing K] (sqrt : K → K) (process : StochasticProcess1D K ε)

/-- `array[i]` -/
def read (array : List K) (i : ℕ) : Except (TreeError K ε) K :=
  match array[i]? with
  | some x => .ok x
  | none   => .error .outOfRange

def step (timeGrid : Math.TimeGrid K) (i : ℕ) : Except (TreeError K ε) (TreeStep K) := do
  let dt ← read timeGrid.dt i
  let t ← read timeGrid.times i
  let v2 ← (process.variance t 0 dt).mapError .process
  .ok ⟨t, dt, v2⟩

/-- The middle descendant of a node with mean `m`, bumped up to stay positive; the bumping ends within its turns. -/
def middle (isPositive : Bool) (x0 dxNext m : K) : ℤ :=
  let temp := ⌊(m - x0) / dxNext + 1 / (2 : ℕ)⌋
  if isPositive = true then bumped x0 dxNext (⌊-x0 / dxNext⌋ + 2 - temp).toNat temp else temp

/-- The link of the node `j` of slice `i`, from spacing `dx` to spacing `dxNext`. -/
def link (isPositive : Bool) (x0 : K) (i : ℕ) (step : TreeStep K) (dx dxNext : K) (dxIsFloored : Bool) (j : ℤ) :
    Except (TreeError K ε) (Link K) := do
  let v := sqrt step.v2
  let x := x0 + (j : K) * dx
  let m ← (process.expectation step.t x step.dt).mapError .process
  let temp := middle isPositive x0 dxNext m
  let tempBumped := temp ≠ ⌊(m - x0) / dxNext + 1 / (2 : ℕ)⌋
  let e := m - (x0 + (temp : K) * dxNext)
  let w := if dxIsFloored = true then Weights.general dxNext e step.v2 else Weights.natural (sqrt (3 : ℕ)) v step.v2 e
  if dxIsFloored = false ∧ ¬ tempBumped ∧ ¬ (0 ≤ w.p1 ∧ 0 ≤ w.p2 ∧ 0 ≤ w.p3) then
    .error (.negativeProbability i j w.p1 w.p2 w.p3 v dxNext e)
  else .ok ⟨temp, w⟩

/-- The branching of slice `i`, whose nodes are `jMin..=jMax`. -/
def branch (isPositive : Bool) (x0 : K) (i : ℕ) (step : TreeStep K) (dx dxNext : K) (dxIsFloored : Bool) (jMin jMax : ℤ) :
    Except (TreeError K ε) (Branching K) :=
  loop (jMax - jMin + 1).toNat (fun branching offset => do
    let link ← link sqrt process isPositive x0 i step dx dxNext dxIsFloored (jMin + offset)
    .ok (branching.add link)) .new

def new (timeGrid : Math.TimeGrid K) (isPositive : Bool) : Except (TreeError K ε) (TrinomialTree K) := do
  let x0 ← process.x0.mapError .process
  let columns := timeGrid.times.length
  let nTimeSteps := columns - 1
  if nTimeSteps = 0 then .error .nullTimeSteps
  else do
    let steps ← loop nTimeSteps (fun steps i => do
      let step ← step process timeGrid i
      .ok (steps ++ [step])) []
    let (dx, floored) := dxSchedule sqrt (steps.map TreeStep.dt) (steps.map TreeStep.v2)
    let (branchings, _) ← loop nTimeSteps (fun (branchings, jMin, jMax) i => do
      let branching ← branch sqrt process isPositive x0 i (steps.getD i ⟨0, 0, 0⟩) (dx.getD i 0) (dx.getD (i + 1) 0)
        (floored.getD i false) jMin jMax
      .ok (branchings ++ [branching], branching.jMin, branching.jMax)) ([], (0 : ℤ), (0 : ℤ))
    .ok ⟨branchings, x0, dx, timeGrid, columns⟩

end TrinomialTree

namespace TrinomialTree

variable (tree : TrinomialTree K)

/-- `branchings[i]` -/
def branching (i : ℕ) : Branching K := tree.branchings.getD i .new

def size (i : ℕ) : ℕ := if i = 0 then 1 else (tree.branching (i - 1)).size

def underlying (i index : ℕ) : K :=
  if i = 0 then tree.x0 else tree.x0 + ((tree.branching (i - 1)).jMin + index : K) * tree.dx.getD i 0

def descendant (i index branch : ℕ) : ℕ := (tree.branching i).descendant index branch

def probability (i index branch : ℕ) : K := (tree.branching i).probability index branch

end TrinomialTree

/-! ## The links of a node -/

/-- The errors that a process and a grid give rise to: those of the queries, of a grid without steps and of one without
the times it is asked for. -/
structure Raised (process : StochasticProcess1D K ε) (timeGrid : Math.TimeGrid K) (R : TreeError K ε → Prop) : Prop where
  x0          : ∀ e, process.x0 = .error e → R (.process e)
  expectation : ∀ t x dt e, process.expectation t x dt = .error e → R (.process e)
  variance    : ∀ t x dt e, process.variance t x dt = .error e → R (.process e)
  steps       : timeGrid.times.length - 1 = 0 → R .nullTimeSteps
  grid        : ∀ i, i < timeGrid.times.length - 1 → timeGrid.times[i]? = none ∨ timeGrid.dt[i]? = none → R .outOfRange

/-- The square root of exact arithmetic. -/
def IsSqrt (sqrt : K → K) : Prop := ∀ x, 0 ≤ x → 0 ≤ sqrt x ∧ sqrt x * sqrt x = x

/-- **What a link is for**: its weights match the mean of the process at `x` and the variance of the step. -/
structure Linked (process : StochasticProcess1D K ε) (isPositive : Bool) (x0 : K) (step : TreeStep K) (x dxNext : K)
    (link : Link K) : Prop where
  matches' : ∃ m, process.expectation step.t x step.dt = .ok m ∧
    link.weights.Match dxNext (m - (x0 + link.k * dxNext)) step.v2
  positive : isPositive = true → 0 < x0 + (link.k - 1) * dxNext

variable [IsStrictOrderedRing K] {sqrt : K → K} {process : StochasticProcess1D K ε} {isPositive : Bool}
  {x0 x dx dxNext : K} {step : TreeStep K} {timeGrid : Math.TimeGrid K} {R : TreeError K ε → Prop}

omit [IsStrictOrderedRing K] in
theorem IsSqrt.pos (h : IsSqrt sqrt) (hx : 0 < x) : 0 < sqrt x := by
  obtain ⟨hnonneg, hsq⟩ := h x hx.le
  refine hnonneg.lt_of_ne (fun h0 => ?_)
  rw [← h0, mul_zero] at hsq
  exact hx.ne hsq

/-- Enough turns bump a node up to where the point below it is positive. -/
theorem bumped_pos [FloorRing K] (hdx : 0 < dx) : ∀ (turns : ℕ) (temp : ℤ), ⌊-x0 / dx⌋ + 2 ≤ temp + turns →
    0 < x0 + ((bumped x0 dx turns temp : K) - 1) * dx
  | 0, temp, h         => by
    have hlt : -x0 / dx < (temp : K) - 1 := by
      have := Int.lt_floor_add_one (-x0 / dx)
      have hle : ((⌊-x0 / dx⌋ + 2 : ℤ) : K) ≤ (temp : K) := Int.cast_le.mpr (by simpa using h)
      push_cast at hle
      linarith
    rw [div_lt_iff₀ hdx] at hlt
    rw [bumped]
    linarith
  | turns + 1, temp, h => by
    rw [bumped]
    split
    · exact bumped_pos hdx turns (temp + 1) (by push_cast at h; omega)
    · rename_i hpos
      push_cast at hpos
      exact not_le.mp hpos

theorem middle_pos [FloorRing K] (hdx : 0 < dxNext) (x0 m : K) :
    0 < x0 + ((TrinomialTree.middle true x0 dxNext m : K) - 1) * dxNext := by
  apply bumped_pos hdx _ _
  omega

theorem abs_sub_nearest_le [FloorRing K] (hdx : 0 < dx) (x0 m : K) :
    |m - (x0 + (⌊(m - x0) / dx + 1 / 2⌋ : K) * dx)| ≤ dx / 2 := by
  have hle := Int.floor_le ((m - x0) / dx + 1 / 2)
  have hlt := Int.lt_floor_add_one ((m - x0) / dx + 1 / 2)
  generalize (⌊(m - x0) / dx + 1 / 2⌋ : K) = temp at *
  have hle : temp * dx ≤ ((m - x0) / dx + 1 / 2) * dx := mul_le_mul_of_nonneg_right hle hdx.le
  have hlt : ((m - x0) / dx + 1 / 2) * dx ≤ (temp + 1) * dx := mul_le_mul_of_nonneg_right hlt.le hdx.le
  rw [add_mul, div_mul_cancel₀ _ hdx.ne'] at hle hlt
  rw [abs_le]
  constructor <;> linarith

/-- **A node that is linked matches the mean and the variance, and its weights are not found negative.** -/
theorem link_yields [FloorRing K] (hR : Raised process timeGrid R) (hsqrt : IsSqrt sqrt) (hv2 : 0 < step.v2) (i : ℕ) {floored : Bool}
    (hdx : sqrt step.v2 * sqrt 3 ≤ dxNext) (hfloored : floored = decide (sqrt step.v2 * sqrt 3 < dxNext)) (j : ℤ) :
    Yields (TrinomialTree.link sqrt process isPositive x0 i step dx dxNext floored j)
      (Linked process isPositive x0 step (x0 + j * dx) dxNext) R := by
  have hv := hsqrt.pos hv2
  have h3 := hsqrt.pos (x := 3) (by norm_num)
  have hvv := (hsqrt step.v2 hv2.le).2
  have h33 := (hsqrt 3 (by norm_num)).2
  have hpos : 0 < dxNext := (mul_pos hv h3).trans_le hdx
  unfold TrinomialTree.link
  dsimp only
  cases hm : process.expectation step.t (x0 + j * dx) step.dt with
  | error e => exact hR.expectation _ _ _ e hm
  | ok m    =>
    set temp := TrinomialTree.middle isPositive x0 dxNext m with htemp
    have hpositive : isPositive = true → 0 < x0 + ((temp : K) - 1) * dxNext := by
      rintro rfl
      exact middle_pos hpos x0 m
    cases floored with
    | true  =>
      exact ⟨⟨m, hm, Weights.general_match hpos.ne' _ _⟩, hpositive⟩
    | false =>
      -- the floor has not widened the spacing, so it is the natural one
      have hnatural : dxNext = sqrt step.v2 * sqrt 3 :=
        le_antisymm (not_lt.mp (of_decide_eq_false hfloored.symm)) hdx
      have hmatch := Weights.natural_match hvv hv.ne' h33 (m - (x0 + temp * dxNext))
      rw [← hnatural] at hmatch
      let w := Weights.natural (sqrt 3) (sqrt step.v2) step.v2 (m - (x0 + temp * dxNext))
      change Yields (if false = false ∧ ¬ temp ≠ ⌊(m - x0) / dxNext + 1 / 2⌋ ∧ ¬ (0 ≤ w.p1 ∧ 0 ≤ w.p2 ∧ 0 ≤ w.p3) then
        .error (TreeError.negativeProbability i j w.p1 w.p2 w.p3 (sqrt step.v2) dxNext (m - (x0 + temp * dxNext)))
          else .ok (⟨temp, w⟩ : Link K)) _ R
      split
      · rename_i h
        refine absurd (Weights.natural_nonneg hvv hv h33 ?_) h.2.2
        rw [← hnatural, not_not.mp h.2.1]
        exact abs_sub_nearest_le hpos x0 m
      · exact ⟨⟨m, hm, hmatch⟩, hpositive⟩

/-! ## A slice -/

/-- **A branching spans the nodes its links lead to.** -/
structure Spans (b : Branching K) : Prop where
  jMin     : b.jMin = b.kMin - 1
  jMax     : b.jMax = b.kMax + 1
  between  : ∀ link ∈ b.links, b.kMin ≤ link.k ∧ link.k ≤ b.kMax
  attained : ∃ link ∈ b.links, link.k = b.kMin

omit [Field K] [LinearOrder K] [IsStrictOrderedRing K] in
theorem Branching.add_spans {b : Branching K} (h : b.links ≠ [] → Spans b) (link : Link K) : Spans (b.add link) := by
  by_cases hnil : b.links = []
  · refine ⟨rfl, rfl, fun l hl => ?_, link, List.mem_append_right _ (List.mem_singleton_self link), ?_⟩
    · rw [Branching.add, hnil, List.nil_append, List.mem_singleton] at hl
      subst hl
      simp [Branching.add, hnil]
    · simp [Branching.add, hnil]
  have hspans := h hnil
  have hmin : (b.add link).kMin = min b.kMin link.k := by simp [Branching.add, hnil]
  have hmax : (b.add link).kMax = max b.kMax link.k := by simp [Branching.add, hnil]
  refine ⟨rfl, rfl, fun l hl => ?_, ?_⟩
  · rw [hmin, hmax]
    rcases List.mem_append.mp hl with hl | hl
    · have := hspans.between l hl
      omega
    · cases List.mem_singleton.mp hl
      omega
  · rw [hmin]
    rcases le_total b.kMin link.k with hle | hle
    · obtain ⟨l, hl, hk⟩ := hspans.attained
      exact ⟨l, List.mem_append_left _ hl, by omega⟩
    · exact ⟨link, List.mem_append_right _ (List.mem_singleton_self link), by omega⟩

/-- **A slice that was built**: every node is linked, and the links span the next slice. -/
structure Sliced (process : StochasticProcess1D K ε) (isPositive : Bool) (x0 : K) (step : TreeStep K) (dx dxNext : K)
    (jMin : ℤ) (size : ℕ) (b : Branching K) : Prop where
  length : b.links.length = size
  linked : ∀ (index : ℕ) (link : Link K), b.links[index]? = some link →
    Linked process isPositive x0 step (x0 + (jMin + index) * dx) dxNext link
  spans  : b.links ≠ [] → Spans b

theorem branch_yields [FloorRing K] (hR : Raised process timeGrid R) (hsqrt : IsSqrt sqrt) (hv2 : 0 < step.v2) (i : ℕ) {floored : Bool}
    (hdx : sqrt step.v2 * sqrt 3 ≤ dxNext) (hfloored : floored = decide (sqrt step.v2 * sqrt 3 < dxNext)) (jMin jMax : ℤ) :
    Yields (TrinomialTree.branch sqrt process isPositive x0 i step dx dxNext floored jMin jMax)
      (Sliced process isPositive x0 step dx dxNext jMin (jMax - jMin + 1).toNat) R := by
  refine Yields.loop (Sliced process isPositive x0 step dx dxNext jMin) _ ⟨rfl, nofun, fun h => absurd rfl h⟩
    (fun k hk b hb => ?_)
  refine Yields.bind (link_yields hR hsqrt hv2 i hdx hfloored (jMin + k)) (fun link hlink => ?_)
  refine ⟨?_, fun index l hl => ?_, fun _ => Branching.add_spans hb.spans link⟩
  · rw [Branching.add, List.length_append, hb.length, List.length_singleton]
  · rcases of_getElem?_push hl with hl | ⟨hindex, rfl⟩
    · exact hb.linked index l hl
    · rw [hindex, hb.length]
      push_cast at hlink
      exact hlink

/-! ## The spacing -/

omit [IsStrictOrderedRing K] in
theorem dxSchedule_zero (sqrt : K → K) (dts v2s : List K) : (dxSchedule sqrt dts v2s).1.getD 0 0 = 0 := rfl

omit [IsStrictOrderedRing K] in
/-- The spacing is at least the natural one, and the flag says whether it is more. -/
theorem dxSchedule_spec (sqrt : K → K) {steps : List (TreeStep K)} {i : ℕ} {step : TreeStep K} (h : steps[i]? = some step) :
    sqrt step.v2 * sqrt 3 ≤ (dxSchedule sqrt (steps.map TreeStep.dt) (steps.map TreeStep.v2)).1.getD (i + 1) 0 ∧
      (dxSchedule sqrt (steps.map TreeStep.dt) (steps.map TreeStep.v2)).2.getD i false =
        decide (sqrt step.v2 * sqrt 3 <
          (dxSchedule sqrt (steps.map TreeStep.dt) (steps.map TreeStep.v2)).1.getD (i + 1) 0) := by
  unfold dxSchedule
  dsimp only
  rw [List.getD_eq_getElem?_getD, List.getElem?_cons_succ, List.getD_eq_getElem?_getD]
  simp only [List.getElem?_map, List.getElem?_zipWith, h, Option.map_some, Option.getD_some, Nat.cast_ofNat, and_true]
  split
  · exact le_max_left _ _
  · exact le_rfl

/-! ## The tree -/

/-- The step of the grid, and its variance at the state zero. -/
def IsStep (process : StochasticProcess1D K ε) (timeGrid : Math.TimeGrid K) (i : ℕ) (step : TreeStep K) : Prop :=
  timeGrid.times[i]? = some step.t ∧ timeGrid.dt[i]? = some step.dt ∧ process.variance step.t 0 step.dt = .ok step.v2

/-- The first node of a slice, by its multiple. -/
def TrinomialTree.lowest (tree : TrinomialTree K) (i : ℕ) : ℤ := if i = 0 then 0 else (tree.branching (i - 1)).jMin

/-- **A tree that was built.** -/
structure Built (sqrt : K → K) (process : StochasticProcess1D K ε) (timeGrid : Math.TimeGrid K) (isPositive : Bool)
    (tree : TrinomialTree K) : Prop where
  x0      : process.x0 = .ok tree.x0
  columns : tree.columns = timeGrid.times.length
  dx      : tree.dx.getD 0 0 = 0
  slices  : ∀ i, i + 1 < tree.columns → ∃ step, IsStep process timeGrid i step ∧
    sqrt step.v2 * sqrt 3 ≤ tree.dx.getD (i + 1) 0 ∧
    Sliced process isPositive tree.x0 step (tree.dx.getD i 0) (tree.dx.getD (i + 1) 0) (tree.lowest i) (tree.size i)
      (tree.branching i)

omit [LinearOrder K] [IsStrictOrderedRing K] in
theorem step_yields (hR : Raised process timeGrid R) {i : ℕ} (hi : i < timeGrid.times.length - 1) :
    Yields (TrinomialTree.step process timeGrid i) (IsStep process timeGrid i) R := by
  unfold TrinomialTree.step TrinomialTree.read
  cases hdt : timeGrid.dt[i]? with
  | none    => exact hR.grid i hi (.inr hdt)
  | some dt =>
    cases ht : timeGrid.times[i]? with
    | none   => exact hR.grid i hi (.inl ht)
    | some t =>
      change Yields ((process.variance t 0 dt).mapError TreeError.process >>= fun v2 => .ok (⟨t, dt, v2⟩ : TreeStep K)) _ _
      cases hv : process.variance t 0 dt with
      | error e => exact hR.variance _ _ _ e hv
      | ok v2   => exact ⟨ht, hdt, hv⟩

/-- The branchings of the first slices. -/
structure Grown (sqrt : K → K) (process : StochasticProcess1D K ε) (timeGrid : Math.TimeGrid K) (isPositive : Bool)
    (tree : TrinomialTree K) (n : ℕ) : Prop where
  length : tree.branchings.length = n
  slices : ∀ i, i < n → ∃ step, IsStep process timeGrid i step ∧ sqrt step.v2 * sqrt 3 ≤ tree.dx.getD (i + 1) 0 ∧
    Sliced process isPositive tree.x0 step (tree.dx.getD i 0) (tree.dx.getD (i + 1) 0) (tree.lowest i) (tree.size i)
      (tree.branching i)

/-- The tree with one more branching. -/
def TrinomialTree.push (tree : TrinomialTree K) (b : Branching K) : TrinomialTree K :=
  { tree with branchings := tree.branchings ++ [b] }

section Push

omit [Field K] [LinearOrder K] [IsStrictOrderedRing K]
variable {tree : TrinomialTree K} {b : Branching K} {i n : ℕ}

theorem push_branching (h : i < tree.branchings.length) : (tree.push b).branching i = tree.branching i := by
  rw [TrinomialTree.branching, TrinomialTree.push, List.getD_append _ _ _ _ h, TrinomialTree.branching]

theorem push_branching_last (h : tree.branchings.length = n) : (tree.push b).branching n = b := by
  rw [TrinomialTree.branching, TrinomialTree.push, List.getD_append_right _ _ _ _ h.le, h, Nat.sub_self]
  rfl

theorem push_lowest (h : i ≤ tree.branchings.length) : (tree.push b).lowest i = tree.lowest i := by
  rcases Nat.eq_zero_or_pos i with rfl | hi
  · rfl
  · rw [TrinomialTree.lowest, TrinomialTree.lowest, push_branching (by omega)]

theorem push_size (h : i ≤ tree.branchings.length) : (tree.push b).size i = tree.size i := by
  rcases Nat.eq_zero_or_pos i with rfl | hi
  · rfl
  · rw [TrinomialTree.size, TrinomialTree.size, push_branching (by omega)]

theorem push_lowest_last (h : tree.branchings.length = n) : (tree.push b).lowest (n + 1) = b.jMin := by
  rw [TrinomialTree.lowest, if_neg (Nat.succ_ne_zero n), Nat.add_sub_cancel, push_branching_last h]

theorem push_size_last (h : tree.branchings.length = n) : (tree.push b).size (n + 1) = (b.jMax - b.jMin + 1).toNat := by
  rw [TrinomialTree.size, if_neg (Nat.succ_ne_zero n), Nat.add_sub_cancel, push_branching_last h, Branching.size]

end Push

omit [IsStrictOrderedRing K] in
theorem Grown.push {tree : TrinomialTree K} {n : ℕ}
    (h : Grown sqrt process timeGrid isPositive tree n) {b : Branching K} (hstep : IsStep process timeGrid n step)
    (hdx : sqrt step.v2 * sqrt 3 ≤ tree.dx.getD (n + 1) 0)
    (hb : Sliced process isPositive tree.x0 step (tree.dx.getD n 0) (tree.dx.getD (n + 1) 0) (tree.lowest n)
      (tree.size n) b) : Grown sqrt process timeGrid isPositive (tree.push b) (n + 1) where
  length := by rw [TrinomialTree.push, List.length_append, h.length, List.length_singleton]
  slices := by
    intro i hi
    have hlen := h.length
    rw [push_lowest (by omega), push_size (by omega)]
    rcases Nat.lt_succ_iff_lt_or_eq.mp hi with hi | rfl
    · rw [push_branching (by omega)]
      exact h.slices i hi
    · rw [push_branching_last hlen]
      exact ⟨step, hstep, hdx, hb⟩

/-- **A tree that is built is built right**, and only the process and the grid can keep it from being built. -/
theorem new_yields [FloorRing K] (isPositive : Bool) (hR : Raised process timeGrid R) (hsqrt : IsSqrt sqrt)
    (hpos : ∀ i step, IsStep process timeGrid i step → 0 < step.v2) :
    Yields (TrinomialTree.new sqrt process timeGrid isPositive) (Built sqrt process timeGrid isPositive) R := by
  unfold TrinomialTree.new
  cases hx0 : process.x0 with
  | error e => exact hR.x0 e hx0
  | ok x0   =>
    refine Yields.bind (Q := (· = x0)) rfl ?_
    rintro x0 rfl
    dsimp only
    split
    · rename_i hsteps
      exact hR.steps hsteps
    refine Yields.bind (Q := fun steps : List (TreeStep K) => steps.length = timeGrid.times.length - 1 ∧
      ∀ (i : ℕ) (step : TreeStep K), steps[i]? = some step → IsStep process timeGrid i step) ?_ (fun steps hall => ?_)
    · refine Yields.loop (fun n (steps : List (TreeStep K)) => steps.length = n ∧
        ∀ (i : ℕ) (step : TreeStep K), steps[i]? = some step → IsStep process timeGrid i step) _ ⟨rfl, nofun⟩
        (fun n hn steps hinv => ?_)
      refine Yields.bind (step_yields hR hn) (fun step hstep => ?_)
      refine ⟨?_, fun i s hs => ?_⟩
      · rw [List.length_append, hinv.1, List.length_singleton]
      · rcases of_getElem?_push hs with hs | ⟨rfl, rfl⟩
        · exact hinv.2 i s hs
        · rwa [hinv.1]
    obtain ⟨hlen, hall⟩ := hall
    have hspec (i : ℕ) (step : TreeStep K) (h : steps[i]? = some step) := dxSchedule_spec sqrt h
    have hzero := dxSchedule_zero sqrt (steps.map TreeStep.dt) (steps.map TreeStep.v2)
    generalize dxSchedule sqrt (steps.map TreeStep.dt) (steps.map TreeStep.v2) = schedule at hspec hzero ⊢
    obtain ⟨dx, floored⟩ := schedule
    dsimp only at hspec hzero ⊢
    refine Yields.bind (Yields.loop (fun n (s : List (Branching K) × ℤ × ℤ) =>
      let tree : TrinomialTree K := ⟨s.1, x0, dx, timeGrid, timeGrid.times.length⟩
      Grown sqrt process timeGrid isPositive tree n ∧ s.2.1 = tree.lowest n ∧ (s.2.2 - s.2.1 + 1).toNat = tree.size n)
        _ ⟨⟨rfl, fun i hi => absurd hi (Nat.not_lt_zero i)⟩, rfl, rfl⟩ (fun n hn s hinv => ?_)) ?_
    · obtain ⟨hgrown, hlowest, hsize⟩ := hinv
      obtain ⟨step, hstep⟩ : ∃ step, steps[n]? = some step := ⟨_, List.getElem?_eq_getElem (hlen ▸ hn)⟩
      have hget : steps.getD n ⟨0, 0, 0⟩ = step := by rw [List.getD_eq_getElem?_getD, hstep, Option.getD_some]
      obtain ⟨hdx, hfloored⟩ := hspec n step hstep
      rw [hget]
      refine Yields.bind (branch_yields hR hsqrt (hpos n step (hall n step hstep)) n hdx hfloored s.2.1 s.2.2)
        (fun b hb => ?_)
      rw [hsize, hlowest] at hb
      exact ⟨hgrown.push (hall n step hstep) hdx hb, (push_lowest_last hgrown.length).symm,
        (push_size_last hgrown.length).symm⟩
    · rintro ⟨branchings, jMin, jMax⟩ ⟨hgrown, -, -⟩
      exact ⟨hx0, rfl, hzero, fun i hi => hgrown.slices i (Nat.lt_sub_of_add_lt hi)⟩

/-! ## The nodes of a tree -/

variable {tree : TrinomialTree K} {i index : ℕ}

/-- The link of a node. -/
def TrinomialTree.linkOf (tree : TrinomialTree K) (i index : ℕ) : Link K := (tree.branching i).links.getD index default

omit [IsStrictOrderedRing K] in
theorem Built.underlying_eq (h : Built sqrt process timeGrid isPositive tree) (i index : ℕ) :
    tree.underlying i index = tree.x0 + (tree.lowest i + index) * tree.dx.getD i 0 := by
  unfold TrinomialTree.underlying TrinomialTree.lowest
  split
  · rename_i hi
    rw [hi, h.dx, mul_zero, add_zero]
  · rfl

omit [IsStrictOrderedRing K] in
/-- **What a node of a tree that was built is**: its link matches the process there, and lies within the next slice. -/
theorem Built.node (h : Built sqrt process timeGrid isPositive tree) (hi : i + 1 < tree.columns)
    (hindex : index < tree.size i) : ∃ step, IsStep process timeGrid i step ∧
      sqrt step.v2 * sqrt 3 ≤ tree.dx.getD (i + 1) 0 ∧
      Linked process isPositive tree.x0 step (tree.underlying i index) (tree.dx.getD (i + 1) 0) (tree.linkOf i index) ∧
      tree.lowest (i + 1) + 1 ≤ (tree.linkOf i index).k ∧
      (tree.linkOf i index).k - tree.lowest (i + 1) + 2 ≤ tree.size (i + 1) := by
  obtain ⟨step, hstep, hdx, hslice⟩ := h.slices i hi
  have hlt : index < (tree.branching i).links.length := hslice.length ▸ hindex
  have hget : (tree.branching i).links[index]? = some (tree.linkOf i index) := by
    rw [TrinomialTree.linkOf, List.getD_eq_getElem?_getD, List.getElem?_eq_getElem hlt, Option.getD_some]
  have hmem : tree.linkOf i index ∈ (tree.branching i).links := List.mem_of_getElem? hget
  have hspans := hslice.spans (List.ne_nil_of_mem hmem)
  have hbetween := hspans.between _ hmem
  have hlinked := hslice.linked index _ hget
  rw [← h.underlying_eq] at hlinked
  have hjMin := hspans.jMin
  have hjMax := hspans.jMax
  refine ⟨step, hstep, hdx, hlinked, ?_, ?_⟩
  · rw [TrinomialTree.lowest, if_neg (Nat.succ_ne_zero i), Nat.add_sub_cancel]
    omega
  · rw [TrinomialTree.lowest, TrinomialTree.size, if_neg (Nat.succ_ne_zero i), if_neg (Nat.succ_ne_zero i),
      Nat.add_sub_cancel, Branching.size]
    omega

omit [LinearOrder K] [IsStrictOrderedRing K] in
theorem TrinomialTree.descendant_eq (tree : TrinomialTree K) (i index branch : ℕ) :
    tree.descendant i index branch = ((tree.linkOf i index).k - tree.lowest (i + 1) - 1 + branch).toNat := by
  rw [TrinomialTree.lowest, if_neg (Nat.succ_ne_zero i), Nat.add_sub_cancel]
  rfl

omit [IsStrictOrderedRing K] in
theorem Built.descendant_lt (h : Built sqrt process timeGrid isPositive tree) (hi : i + 1 < tree.columns)
    (hindex : index < tree.size i) {branch : ℕ} (hbranch : branch < 3) :
    tree.descendant i index branch < tree.size (i + 1) := by
  obtain ⟨-, -, -, -, hlow, hhigh⟩ := h.node hi hindex
  rw [tree.descendant_eq]
  omega

omit [IsStrictOrderedRing K] in
theorem Built.descendant_underlying (h : Built sqrt process timeGrid isPositive tree) (hi : i + 1 < tree.columns)
    (hindex : index < tree.size i) (branch : ℕ) :
    tree.underlying (i + 1) (tree.descendant i index branch) =
      tree.x0 + (tree.linkOf i index).k * tree.dx.getD (i + 1) 0 + ((branch : K) - 1) * tree.dx.getD (i + 1) 0 := by
  obtain ⟨-, -, -, -, hlow, hhigh⟩ := h.node hi hindex
  have hcast : ((tree.descendant i index branch : ℕ) : K) =
      (tree.linkOf i index).k - tree.lowest (i + 1) - 1 + branch := by
    have hint : ((tree.descendant i index branch : ℕ) : ℤ) =
        (tree.linkOf i index).k - tree.lowest (i + 1) - 1 + branch := by
      rw [tree.descendant_eq, Int.toNat_of_nonneg (by omega)]
    have := congrArg (Int.cast (R := K)) hint
    push_cast at this
    exact this
  rw [h.underlying_eq, hcast]
  ring

/-- **The weights of a node reproduce the mean of the process there and its variance over the step.** -/
structure Reproduces (process : StochasticProcess1D K ε) (timeGrid : Math.TimeGrid K) (tree : TrinomialTree K) (i index : ℕ) :
    Prop where
  descendants : ∀ branch, branch < 3 → tree.descendant i index branch < tree.size (i + 1)
  total : ∑ branch ∈ range 3, tree.probability i index branch = 1
  moments : ∃ step m, IsStep process timeGrid i step ∧
    process.expectation step.t (tree.underlying i index) step.dt = .ok m ∧
    ∑ branch ∈ range 3, tree.probability i index branch * tree.underlying (i + 1) (tree.descendant i index branch) = m ∧
    ∑ branch ∈ range 3,
      tree.probability i index branch * (tree.underlying (i + 1) (tree.descendant i index branch) - m) ^ 2 = step.v2

omit [IsStrictOrderedRing K] in
theorem Built.reproduces (h : Built sqrt process timeGrid isPositive tree) (hi : i + 1 < tree.columns)
    (hindex : index < tree.size i) : Reproduces process timeGrid tree i index := by
  obtain ⟨step, hstep, -, hlinked, -⟩ := h.node hi hindex
  obtain ⟨m, hm, hmatch⟩ := hlinked.matches'
  have hx := fun branch (_ : branch < 3) => h.descendant_underlying hi hindex branch
  have hmean := hmatch.mean hx
  have hvariance := hmatch.variance hx
  rw [add_sub_cancel] at hmean hvariance
  exact ⟨fun branch hbranch => h.descendant_lt hi hindex hbranch, hmatch.sum, step, m, hstep, hm, hmean, hvariance⟩

omit [IsStrictOrderedRing K] in
theorem Built.size_pos (h : Built sqrt process timeGrid isPositive tree) : ∀ i, i < tree.columns → 0 < tree.size i
  | 0, _      => Nat.one_pos
  | i + 1, hi => by
    obtain ⟨-, -, -, -, hlow, hhigh⟩ := h.node hi (h.size_pos i (by omega))
    omega

/-- With the positivity flag every node after the root is positive. -/
theorem Built.positive (h : Built sqrt process timeGrid true tree) (hsqrt : IsSqrt sqrt)
    (hpos : ∀ i step, IsStep process timeGrid i step → 0 < step.v2) (hi : i + 1 < tree.columns) (index : ℕ) :
    0 < tree.underlying (i + 1) index := by
  obtain ⟨step, hstep, hdx, hslice⟩ := h.slices i hi
  have hdx : 0 < tree.dx.getD (i + 1) 0 :=
    (mul_pos (hsqrt.pos (hpos i step hstep)) (hsqrt.pos three_pos)).trans_le hdx
  have hne : (tree.branching i).links ≠ [] := by
    apply List.ne_nil_of_length_pos
    rw [hslice.length]
    exact h.size_pos i (by omega)
  have hspans := hslice.spans hne
  -- the link that attains the least middle node leads to the lowest node, and was bumped up for it
  obtain ⟨link, hmem, hk⟩ := hspans.attained
  obtain ⟨index', hget⟩ := List.getElem?_of_mem hmem
  have hlowest : link.k = tree.lowest (i + 1) + 1 := by
    rw [TrinomialTree.lowest, if_neg (Nat.succ_ne_zero i), Nat.add_sub_cancel, hspans.jMin]
    omega
  have hpositive := (hslice.linked index' link hget).positive rfl
  rw [hlowest] at hpositive
  push_cast at hpositive
  rw [add_sub_cancel_right] at hpositive
  have hindex : (0 : K) ≤ index * tree.dx.getD (i + 1) 0 := mul_nonneg (Nat.cast_nonneg _) hdx.le
  rw [h.underlying_eq]
  linarith

theorem new_ok [FloorRing K] (isPositive : Bool) (hR : Raised process timeGrid (fun _ => False)) (hsqrt : IsSqrt sqrt)
    (hpos : ∀ i step, IsStep process timeGrid i step → 0 < step.v2) :
    ∃ tree, TrinomialTree.new sqrt process timeGrid isPositive = .ok tree ∧
      Built sqrt process timeGrid isPositive tree := by
  have hbuilt := new_yields isPositive hR hsqrt hpos
  cases hnew : TrinomialTree.new sqrt process timeGrid isPositive with
  | error e =>
    rw [hnew] at hbuilt
    exact hbuilt.elim
  | ok tree =>
    rw [hnew] at hbuilt
    exact ⟨tree, rfl, hbuilt⟩

theorem built_of_new [FloorRing K] (hsqrt : IsSqrt sqrt) (hpos : ∀ i step, IsStep process timeGrid i step → 0 < step.v2)
    (h : TrinomialTree.new sqrt process timeGrid isPositive = .ok tree) :
    Built sqrt process timeGrid isPositive tree := by
  have hR : Raised process timeGrid (fun _ => True) :=
    ⟨fun _ _ => trivial, fun _ _ _ _ _ => trivial, fun _ _ _ _ _ => trivial, fun _ => trivial, fun _ _ _ => trivial⟩
  have hbuilt := new_yields isPositive hR hsqrt hpos
  rwa [h] at hbuilt

/-- **Trees that are built.**  A negative probability is never found; and in a tree that is built every node leads into the
next slice with weights that sum to one and reproduce the mean of the process at the node and its variance over the step,
which the tree reads at the state zero, and with the positivity flag every node after the root is positive. -/
theorem tree_reproduces [FloorRing K] (hsqrt : IsSqrt sqrt) (process : StochasticProcess1D K ε)
    (timeGrid : Math.TimeGrid K) (isPositive : Bool) (hpos : ∀ i step, IsStep process timeGrid i step → 0 < step.v2) :
    (∀ i j p1 p2 p3 v dx e, TrinomialTree.new sqrt process timeGrid isPositive ≠
      .error (.negativeProbability i j p1 p2 p3 v dx e)) ∧
    ∀ tree, TrinomialTree.new sqrt process timeGrid isPositive = .ok tree →
      (∀ i index, i + 1 < tree.columns → index < tree.size i → Reproduces process timeGrid tree i index) ∧
      (isPositive = true → ∀ i index, 0 < i → i < tree.columns → index < tree.size i → 0 < tree.underlying i index) := by
  constructor
  · intro i j p1 p2 p3 v dx e h
    have hR : Raised process timeGrid (· ≠ TreeError.negativeProbability i j p1 p2 p3 v dx e) :=
      ⟨fun _ _ => nofun, fun _ _ _ _ _ => nofun, fun _ _ _ _ _ => nofun, fun _ => nofun, fun _ _ _ => nofun⟩
    have hyields := new_yields isPositive hR hsqrt hpos
    rw [h] at hyields
    exact hyields rfl
  · intro tree h
    have hbuilt := built_of_new hsqrt hpos h
    refine ⟨fun i index hi hindex => hbuilt.reproduces hi hindex, ?_⟩
    rintro rfl i index hi hlt -
    obtain ⟨i, rfl⟩ := Nat.exists_eq_succ_of_ne_zero hi.ne'
    exact hbuilt.positive hsqrt hpos hlt index

section Instance

theorem isSqrt_real : IsSqrt Real.sqrt := fun x hx => ⟨Real.sqrt_nonneg x, Real.mul_self_sqrt hx⟩

/-- A process from 1 without drift, of the variance `variance` over a step. -/
def driftless (variance : ℝ → ℝ) : StochasticProcess1D ℝ Empty := ⟨.ok 1, fun _ x _ => .ok x, fun _ x _ => .ok (variance x)⟩

/-- One step. -/
def oneStep : Math.TimeGrid ℝ := ⟨[0, 1], [1], [1]⟩

theorem driftless_raised (variance : ℝ → ℝ) : Raised (driftless variance) oneStep (fun _ => False) where
  x0          := nofun
  expectation := nofun
  variance    := nofun
  steps       := fun h => absurd h (by decide)
  grid        := fun i hi h => by
    cases Nat.lt_one_iff.mp hi
    rcases h with h | h <;> cases h

theorem driftless_pos {variance : ℝ → ℝ} (h : 0 < variance 0) (i : ℕ) (step : TreeStep ℝ)
    (hstep : IsStep (driftless variance) oneStep i step) : 0 < step.v2 :=
  Except.ok.inj hstep.2.2 ▸ h

theorem tree_reproduces_one : ∃ tree, TrinomialTree.new Real.sqrt (driftless fun _ => 1) oneStep true = .ok tree ∧
    (∀ i index, i + 1 < tree.columns → index < tree.size i → Reproduces (driftless fun _ => 1) oneStep tree i index) ∧
    (true = true → ∀ i index, 0 < i → i < tree.columns → index < tree.size i → 0 < tree.underlying i index) := by
  obtain ⟨tree, h, -⟩ := new_ok true (driftless_raised fun _ => 1) isSqrt_real (driftless_pos one_pos)
  exact ⟨tree, h, (tree_reproduces isSqrt_real (driftless fun _ => 1) oneStep true (driftless_pos one_pos)).2 tree h⟩

/-- A process whose variance depends on the state: at the root the tree does not have its variance there. -/
theorem variance_at_state : ∃ tree, TrinomialTree.new Real.sqrt (driftless fun x => 1 + x ^ 2) oneStep false = .ok tree ∧
    0 < tree.size 0 ∧ (driftless fun x => 1 + x ^ 2).variance 0 (tree.underlying 0 0) 1 = .ok 2 ∧
    (driftless fun x => 1 + x ^ 2).expectation 0 (tree.underlying 0 0) 1 = .ok 1 ∧
    ∑ branch ∈ range 3,
      tree.probability 0 0 branch * (tree.underlying 1 (tree.descendant 0 0 branch) - 1) ^ 2 = 1 := by
  obtain ⟨tree, h, hbuilt⟩ := new_ok false (driftless_raised fun x => 1 + x ^ 2) isSqrt_real
    (driftless_pos (by norm_num))
  have hx0 : tree.underlying 0 0 = 1 := (Except.ok.inj hbuilt.x0).symm
  have hcolumns : 0 + 1 < tree.columns := hbuilt.columns ▸ Nat.one_lt_two
  have hroot : 0 < tree.size 0 := Nat.one_pos
  obtain ⟨step, m, hstep, hm, -, hvariance⟩ := (hbuilt.reproduces hcolumns hroot).moments
  have hm : m = 1 := (Except.ok.inj hm).symm.trans hx0
  have hv : step.v2 = 1 := (Except.ok.inj hstep.2.2).symm.trans (by norm_num)
  rw [hm, hv] at hvariance
  refine ⟨tree, h, hroot, ?_, ?_, hvariance⟩
  · rw [hx0]
    exact congrArg Except.ok (by norm_num : (1 : ℝ) + 1 ^ 2 = 2)
  · rw [hx0]
    rfl

end Instance

end Itofin
