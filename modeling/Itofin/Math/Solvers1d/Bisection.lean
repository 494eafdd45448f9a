import Itofin.Math.Solvers1d.Refine
/-!
# Bisection and false position

`Bisection` and `FalsePosition` of `math/solvers1d`: the one halves its bracket, the other steps to where the secant is
zero.
-/
namespace Itofin

open Effect

namespace Solvers1D

variable {K : Type} [Field K] [LinearOrder K]

/-! ## Bisection -/

namespace Bisection

structure State (K : Type) where
  root : K
  /-- From `root` to the other end, where the function is positive. -/
  dx : K
  evaluationNumber : ℕ

/-- "Orient the search so that f > 0 lies at root + dx." -/
def start (st : Solver1DState K) : State K :=
  if st.fxMin < 0 then ⟨st.xMin, st.xMax - st.xMin, st.evaluationNumber⟩
  else ⟨st.xMax, st.xMin - st.xMax, st.evaluationNumber⟩

def turn (f : K → Option K) (xAccuracy : K) (s : State K) : Refinement K (K ⊕ State K) := do
  working s.root (s.root + s.dx)
  let dx := s.dx / ((2 : ℕ) : K)
  let xMid := s.root + dx
  let fMid ← checkedValue f xMid
  let root := if fMid ≤ 0 then xMid else s.root
  if |dx| < xAccuracy ∨ Math.close fMid 0 then do
    let _ ← checkedValue f root
    pure (.inl root)
  else pure (.inr ⟨root, dx, s.evaluationNumber + 1⟩)

def solveImpl (config : SolverConfig K) (f : K → Option K) (xAccuracy : K) (st : Solver1DState K) : Refinement K K :=
  refineLoop config State.evaluationNumber (turn f xAccuracy) (start st)

/-- **The turn that goes wrong**: the middle of the pair is close to zero but positive, so the turn returns the low end, which
is not near any point of another sign. -/
def Stale (f : K → Option K) (lo hi xAccuracy : K) (pair : K × K) : Prop :=
  let dx := (pair.2 - pair.1) / ((2 : ℕ) : K)
  (∃ v, f (pair.1 + dx) = some v ∧ 0 < v ∧ Math.close v 0 = true) ∧ xAccuracy ≤ |dx| ∧
    ∀ y ∈ Set.Icc lo hi, ∀ w, f y = some w → |pair.1 - y| ≤ xAccuracy → w < 0

/-- What holds at every turn: the low end, and the other one. -/
structure Inv (f : K → Option K) (lo hi : K) (s : State K) : Prop where
  root_mem : s.root ∈ Set.Icc lo hi
  other_mem : s.root + s.dx ∈ Set.Icc lo hi
  low : ∃ u, f s.root = some u ∧ u < 0 ∧ ¬ Math.close u 0 = true
  high : ∃ w, f (s.root + s.dx) = some w ∧ 0 < w

variable {config : SolverConfig K} {f : K → Option K} {xAccuracy lo hi v : K} {s : State K} {st : Solver1DState K}

theorem start_inv [IsStrictOrderedRing K] (h : Ready f st) : Inv f st.xMin st.xMax (start st) := by
  have hlt := h.lt
  unfold start
  split_ifs with hneg
  · have hpos := h.max_pos hneg
    refine ⟨⟨le_rfl, hlt.le⟩, ?_, ⟨_, h.min_eq, hneg, h.min_ne⟩, ?_⟩
    · rw [add_sub_cancel]
      exact ⟨hlt.le, le_rfl⟩
    · rw [add_sub_cancel]
      exact ⟨_, h.max_eq, hpos⟩
  · refine ⟨⟨hlt.le, le_rfl⟩, ?_, ⟨_, h.max_eq, h.max_neg hneg, h.max_ne⟩, ?_⟩
    · rw [add_sub_cancel]
      exact ⟨le_rfl, hlt.le⟩
    · rw [add_sub_cancel]
      exact ⟨_, h.min_eq, h.min_pos hneg⟩

variable [IsStrictOrderedRing K]

theorem half_mem {a b : K} (ha : a ∈ Set.Icc lo hi) (hb : a + b ∈ Set.Icc lo hi) : a + b / ((2 : ℕ) : K) ∈ Set.Icc lo hi := by
  obtain ⟨ha, ha'⟩ := ha
  obtain ⟨hb, hb'⟩ := hb
  rw [Nat.cast_ofNat]
  constructor <;> linarith

theorem Inv.step (h : Inv f lo hi s) (hv : f (s.root + s.dx / ((2 : ℕ) : K)) = some v) (hne : ¬ Math.close v 0 = true)
    (n : ℕ) : Inv f lo hi ⟨if v ≤ 0 then s.root + s.dx / ((2 : ℕ) : K) else s.root, s.dx / ((2 : ℕ) : K), n⟩ := by
  have hmid := half_mem h.root_mem h.other_mem
  have hother : s.root + s.dx / ((2 : ℕ) : K) + s.dx / ((2 : ℕ) : K) = s.root + s.dx := by
    rw [Nat.cast_ofNat]
    ring
  split_ifs with hle
  · refine ⟨hmid, ?_, ⟨v, hv, lt_of_le_of_ne hle (Solver1D.ne_zero_of_not_close hne), hne⟩, ?_⟩
    · rw [hother]
      exact h.other_mem
    · rw [hother]
      exact h.high
  · exact ⟨h.root_mem, hmid, h.low, v, hv, not_le.1 hle⟩

/-- **What a turn returns is accurate unless the turn went wrong.** -/
theorem Inv.accurate_iff (h : Inv f lo hi s) (hv : f (s.root + s.dx / ((2 : ℕ) : K)) = some v)
    (hstop : |s.dx / ((2 : ℕ) : K)| < xAccuracy ∨ Math.close v 0 = true) :
    Accurate f lo hi xAccuracy (if v ≤ 0 then s.root + s.dx / ((2 : ℕ) : K) else s.root) ↔
      ¬ Stale f lo hi xAccuracy (s.root, s.root + s.dx) := by
  have hmid := half_mem h.root_mem h.other_mem
  obtain ⟨u, hu, hneg, hclose⟩ := h.low
  obtain ⟨w, hw, hpos⟩ := h.high
  simp only [Stale, add_sub_cancel_left]
  by_cases hle : v ≤ 0
  · -- the middle is the new low end
    rw [if_pos hle]
    refine iff_of_true ⟨v, hv, ?_⟩ ?_
    · rcases hstop with hlt | hz
      · refine .inr ⟨_, h.other_mem, w, hw, mul_nonpos_of_nonpos_of_nonneg hle hpos.le, ?_⟩
        have hdist : s.root + s.dx / ((2 : ℕ) : K) - (s.root + s.dx) = -(s.dx / ((2 : ℕ) : K)) := by
          rw [Nat.cast_ofNat]
          ring
        rw [hdist, abs_neg]
        exact hlt.le
      · exact .inl hz
    · rintro ⟨⟨v', hv', hpos', -⟩, -⟩
      rw [hv] at hv'
      obtain rfl := Option.some.inj hv'
      exact absurd hle (not_le.2 hpos')
  rw [if_neg hle]
  have hv₀ : 0 < v := not_le.1 hle
  by_cases hlt : |s.dx / ((2 : ℕ) : K)| < xAccuracy
  · -- the middle is near enough
    refine iff_of_true ⟨u, hu, .inr ⟨_, hmid, v, hv, mul_nonpos_of_nonpos_of_nonneg hneg.le hv₀.le, ?_⟩⟩ ?_
    · rw [sub_add_cancel_left, abs_neg]
      exact hlt.le
    · rintro ⟨-, hge, -⟩
      exact absurd hlt (not_lt.2 hge)
  · have hz := hstop.resolve_left hlt
    constructor
    · rintro ⟨u', hu', hacc⟩ ⟨-, -, hnone⟩
      rw [hu] at hu'
      obtain rfl := Option.some.inj hu'
      rcases hacc with hz' | ⟨y, hy, w', hw', hsign, hdist⟩
      · exact hclose hz'
      · exact absurd hsign (not_le.2 (mul_pos_of_neg_of_neg hneg (hnone y hy w' hw' hdist)))
    · intro hnot
      have hsome : ¬ ∀ y ∈ Set.Icc lo hi, ∀ w, f y = some w → |s.root - y| ≤ xAccuracy → w < 0 :=
        fun hnone => hnot ⟨⟨v, hv, hv₀, hz⟩, not_lt.1 hlt, hnone⟩
      push Not at hsome
      obtain ⟨y, hy, w', hw', hdist, hw₀⟩ := hsome
      exact ⟨u, hu, .inr ⟨y, hy, w', hw', mul_nonpos_of_nonpos_of_nonneg hneg.le hw₀, hdist⟩⟩

/-- The trace of turns that did not go wrong. -/
def Clean (f : K → Option K) (lo hi xAccuracy : K) (tr : Trace K) : Prop :=
  Within f lo hi tr ∧ ∀ p ∈ tr.pairs, ¬ Stale f lo hi xAccuracy p

/-- In a turn, whether all is well depends on its own pair. -/
def Turning (f : K → Option K) (lo hi xAccuracy : K) (s : State K) (tr : Trace K) : Prop :=
  Within f lo hi tr ∧
    ((∀ p ∈ tr.pairs, ¬ Stale f lo hi xAccuracy p) ↔ ¬ Stale f lo hi xAccuracy (s.root, s.root + s.dx))

/-- What a run returns. -/
def Returns (f : K → Option K) (lo hi xAccuracy x : K) (tr : Trace K) : Prop :=
  Within f lo hi tr ∧ x ∈ Set.Icc lo hi ∧
    (Accurate f lo hi xAccuracy x ↔ ∀ p ∈ tr.pairs, ¬ Stale f lo hi xAccuracy p)

theorem turn_spec (h : Inv f lo hi s) : Triple (Clean f lo hi xAccuracy) (turn f xAccuracy s)
    (Turned (Returns f lo hi xAccuracy) fun s' tr =>
      (Clean f lo hi xAccuracy tr ∧ Inv f lo hi s') ∧ s.evaluationNumber < s'.evaluationNumber)
    (fun e tr => Clean f lo hi xAccuracy tr ∧ Sound e) := by
  obtain ⟨u, hu, hneg, hclose⟩ := h.low
  obtain ⟨w, hw, hpos⟩ := h.high
  have hmid := half_mem h.root_mem h.other_mem
  have hopposite : Opposite f s.root (s.root + s.dx) := ⟨u, w, hu, hw, mul_nonpos_of_nonpos_of_nonneg hneg.le hpos.le⟩
  refine Triple.bind (Triple.modify (Q := Turning f lo hi xAccuracy s) fun tr ht => ?_) (fun _ => ?_)
  · refine ⟨ht.1.work hopposite, fun hall => hall _ (List.mem_append_right _ (List.mem_singleton_self _)), fun hcur p hp => ?_⟩
    rcases List.mem_append.1 hp with hp | hp
    · exact ht.2 p hp
    · exact List.mem_singleton.1 hp ▸ hcur
  have hvalue : Triple (Turning f lo hi xAccuracy s) (checkedValue f (s.root + s.dx / ((2 : ℕ) : K)))
      (fun v tr => Turning f lo hi xAccuracy s tr ∧ f (s.root + s.dx / ((2 : ℕ) : K)) = some v)
      (fun e tr => Clean f lo hi xAccuracy tr ∧ Sound e) := by
    refine (checkedValue_spec f fun tr ht => ⟨ht.1.evaluate hmid, ht.2⟩).onError fun e tr he => ?_
    obtain ⟨ht, rfl, hnone⟩ := he
    refine ⟨⟨ht.1, ht.2.2 ?_⟩, nofun, nofun, nofun⟩
    rintro ⟨⟨v, hv, -⟩, -⟩
    rw [add_sub_cancel_left, hnone] at hv
    cases hv
  refine Triple.bind hvalue (fun v => Triple.of_fact fun hv => ?_)
  refine Triple.ite (fun hstop => ?_) (fun hgo => ?_)
  · have haccurate := h.accurate_iff hv hstop
    have hroot : (if v ≤ 0 then s.root + s.dx / ((2 : ℕ) : K) else s.root) ∈ Set.Icc lo hi := by
      split_ifs
      · exact hmid
      · exact h.root_mem
    have hlast : Triple (Turning f lo hi xAccuracy s)
        (checkedValue f (if v ≤ 0 then s.root + s.dx / ((2 : ℕ) : K) else s.root))
        (fun _ tr => Turning f lo hi xAccuracy s tr) (fun e tr => Clean f lo hi xAccuracy tr ∧ Sound e) := by
      have hsome : f (if v ≤ 0 then s.root + s.dx / ((2 : ℕ) : K) else s.root) ≠ none := by
        split_ifs
        · rw [hv]
          exact nofun
        · rw [hu]
          exact nofun
      refine ((checkedValue_spec f fun tr ht => ⟨ht.1.evaluate hroot, ht.2⟩).weaken (fun tr ht => ht)
        fun _ _ ht => ht.1).onError fun e tr he => absurd he.2.2 hsome
    refine Triple.bind hlast (fun _ => Triple.pure _ fun tr ht => ⟨ht.1, hroot, ?_⟩)
    exact haccurate.trans ht.2.symm
  · rw [not_or] at hgo
    refine Triple.pure _ fun tr ht => ⟨⟨⟨ht.1, ht.2.2 ?_⟩, h.step hv hgo.2 _⟩, Nat.lt_succ_self _⟩
    rintro ⟨⟨v', hv', -, hz⟩, -⟩
    rw [add_sub_cancel_left, hv] at hv'
    obtain rfl := Option.some.inj hv'
    exact hgo.2 hz

/-- **Bisection**: the run is as it should be, and its result accurate unless a turn went wrong. -/
theorem solveImpl_spec (h : Ready f st) : Triple (· = ⟨[], []⟩) (solveImpl config f xAccuracy st)
    (Returns f st.xMin st.xMax xAccuracy) (fun e tr => Clean f st.xMin st.xMax xAccuracy tr ∧ Sound e) := by
  refine (refineLoop_spec (fun s tr => Clean f st.xMin st.xMax xAccuracy tr ∧ Inv f st.xMin st.xMax s)
    (fun s _ => Triple.of_fact fun hs => turn_spec hs) (fun s tr _ ht => ⟨ht.1, nofun, nofun, nofun⟩) (start st)).weaken
      (fun tr ht => ?_) (fun _ _ hq => hq)
  rw [ht]
  exact ⟨⟨⟨nofun, nofun⟩, nofun⟩, start_inv h⟩

end Bisection

/-! ## False position -/

namespace FalsePosition

structure State (K : Type) where
  /-- The low side, where f < 0, and the high side. -/
  xl : K
  fl : K
  xh : K
  fh : K
  evaluationNumber : ℕ

def start (st : Solver1DState K) : State K :=
  if st.fxMin < 0 then ⟨st.xMin, st.fxMin, st.xMax, st.fxMax, st.evaluationNumber⟩
  else ⟨st.xMax, st.fxMax, st.xMin, st.fxMin, st.evaluationNumber⟩

def turn (f : K → Option K) (xAccuracy : K) (s : State K) : Refinement K (K ⊕ State K) := do
  working s.xl s.xh
  let step ← divide ((s.xh - s.xl) * s.fl) (s.fl - s.fh)
  let root := s.xl + step
  let froot ← checkedValue f root
  let del := if froot < 0 then s.xl - root else s.xh - root
  let s' : State K :=
    if froot < 0 then { s with xl := root, fl := froot, evaluationNumber := s.evaluationNumber + 1 }
    else { s with xh := root, fh := froot, evaluationNumber := s.evaluationNumber + 1 }
  if |del| < xAccuracy ∨ Math.close froot 0 then pure (.inl root) else pure (.inr s')

def solveImpl (config : SolverConfig K) (f : K → Option K) (xAccuracy : K) (st : Solver1DState K) : Refinement K K :=
  refineLoop config State.evaluationNumber (turn f xAccuracy) (start st)

structure Inv (f : K → Option K) (lo hi : K) (s : State K) : Prop where
  low_mem : s.xl ∈ Set.Icc lo hi
  high_mem : s.xh ∈ Set.Icc lo hi
  low : f s.xl = some s.fl ∧ s.fl < 0
  high : f s.xh = some s.fh ∧ 0 < s.fh

variable {config : SolverConfig K} {f : K → Option K} {xAccuracy lo hi : K} {s : State K} {st : Solver1DState K}
  [IsStrictOrderedRing K]

theorem start_inv (h : Ready f st) : Inv f st.xMin st.xMax (start st) := by
  have hlt := h.lt
  unfold start
  split_ifs with hneg
  · exact ⟨⟨le_rfl, hlt.le⟩, ⟨hlt.le, le_rfl⟩, ⟨h.min_eq, hneg⟩, h.max_eq, h.max_pos hneg⟩
  · exact ⟨⟨hlt.le, le_rfl⟩, ⟨le_rfl, hlt.le⟩, ⟨h.max_eq, h.max_neg hneg⟩, h.min_eq, h.min_pos hneg⟩

theorem turn_spec (h : Inv f lo hi s) : Triple (Within f lo hi) (turn f xAccuracy s) (Turned (Kept f lo hi) fun s' tr =>
    (Within f lo hi tr ∧ Inv f lo hi s') ∧ s.evaluationNumber < s'.evaluationNumber) (Failed f lo hi) := by
  have hneg := h.low.2
  have hpos := h.high.2
  have hden : s.fl - s.fh < 0 := by linarith
  have hroot : s.xl + (s.xh - s.xl) * s.fl / (s.fl - s.fh) ∈ Set.Icc lo hi := by
    rw [mul_div_assoc]
    refine share_mem h.low_mem h.high_mem (div_nonneg_of_nonpos hneg.le hden.le) ?_
    rw [div_le_one_of_neg hden]
    linarith
  refine Triple.bind (working_within ⟨_, _, h.low.1, h.high.1, mul_nonpos_of_nonpos_of_nonneg hneg.le hpos.le⟩) (fun _ => ?_)
  refine Triple.bind (divide_spec _ hden.ne) (fun step => Triple.of_fact ?_)
  rintro rfl
  refine Triple.bind (checkedValue_within f hroot) (fun froot => Triple.of_fact fun hf => ?_)
  refine Triple.ite (fun _ => Triple.pure _ fun tr ht => ⟨ht, hroot⟩) (fun hgo => Triple.pure _ fun tr ht => ?_)
  rw [not_or] at hgo
  split_ifs with hlt
  · exact ⟨⟨ht, hroot, h.high_mem, ⟨hf, hlt⟩, h.high⟩, Nat.lt_succ_self _⟩
  · have hgt : 0 < froot := lt_of_le_of_ne (not_lt.1 hlt) (Solver1D.ne_zero_of_not_close hgo.2).symm
    exact ⟨⟨ht, h.low_mem, hroot, h.low, hf, hgt⟩, Nat.lt_succ_self _⟩

theorem solveImpl_spec (h : Ready f st) : Triple (Within f st.xMin st.xMax) (solveImpl config f xAccuracy st)
    (Kept f st.xMin st.xMax) (Failed f st.xMin st.xMax) :=
  refineLoop_within (Inv f st.xMin st.xMax) (fun _ _ hs => turn_spec hs) (start_inv h)

end FalsePosition

end Solvers1D
end Itofin
