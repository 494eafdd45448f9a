import Itofin.Math.Solvers1d.Refine
/-!
# Safe Newton steps

`math/solvers1d/newtonsafe.rs` and `finitedifferencenewtonsafe.rs`: a Newton step where it stays in the bracket and shrinks
it fast enough, and a bisection where not.  The one is given the derivative, and the other takes the slope to the point
before, so two points that are the same would be a division by zero.
-/
namespace Itofin

open Effect

namespace Solvers1D

variable {K : Type} [Field K] [LinearOrder K]

/-- "Orient so f(xl) < 0." -/
def orient (st : Solver1DState K) : K × K := if st.fxMin < 0 then (st.xMin, st.xMax) else (st.xMax, st.xMin)

/-- "Bisect if the Newton step would leave [xl, xh] or is not shrinking the bracket fast enough". -/
def bisects (xl xh root froot dfroot dxold : K) : Bool :=
  0 < ((root - xh) * dfroot - froot) * ((root - xl) * dfroot - froot) ∨ |dxold * dfroot| < |((2 : ℕ) : K) * froot|

/-- The bisected bracket and half its width, or the Newton step and its length. -/
def newtonStep (xl xh root froot dfroot dxold : K) : Refinement K (K × K) :=
  if bisects xl xh root froot dfroot dxold then
    let dx := ((2 : ℕ) : K)⁻¹ * (xh - xl)
    pure (xl + dx, dx)
  else do
    let dx ← divide froot dfroot
    pure (root - dx, dx)

/-- A point not outside of two others. -/
def Between (a b x : K) : Prop := (x - a) * (x - b) ≤ 0

variable {config : SolverConfig K} {f f' : K → Option K} {a b x xAccuracy lo hi v root froot dfroot dxold : K}
  {st : Solver1DState K} {P : Trace K → Prop} {R : Failure K → Trace K → Prop}

theorem between_left (a b : K) : Between a b a := by rw [Between, sub_self, zero_mul]

theorem between_right (a b : K) : Between a b b := by rw [Between, sub_self, mul_zero]

/-- What a step is: half the bracket, or a Newton step that stays in it. -/
theorem newtonStep_spec (hd : ¬ bisects a b root froot dfroot dxold = true → dfroot ≠ 0) :
    Triple P (newtonStep a b root froot dfroot dxold) (fun r tr => P tr ∧
      ((bisects a b root froot dfroot dxold = true ∧ r.1 = a + ((2 : ℕ) : K)⁻¹ * (b - a)) ∨
        (¬ bisects a b root froot dfroot dxold = true ∧ r.1 = root - froot / dfroot ∧ r.2 = froot / dfroot))) R := by
  refine Triple.ite (fun hb => Triple.pure _ fun _ ht => ⟨ht, .inl ⟨hb, rfl⟩⟩) (fun hb => ?_)
  refine Triple.bind (divide_spec _ (hd hb)) (fun dx => Triple.of_fact ?_)
  rintro rfl
  exact Triple.pure _ fun _ ht => ⟨ht, .inr ⟨hb, rfl, rfl⟩⟩

/-- The two ends of a bracket in which `xl` is the low one. -/
structure Oriented (f : K → Option K) (lo hi xl xh : K) : Prop where
  low_mem : xl ∈ Set.Icc lo hi
  high_mem : xh ∈ Set.Icc lo hi
  low : ∃ u, f xl = some u ∧ u < 0
  high : ∃ w, f xh = some w ∧ 0 ≤ w

theorem orient_oriented [IsStrictOrderedRing K] (h : Ready f st) :
    Oriented f st.xMin st.xMax (orient st).1 (orient st).2 := by
  have hlt := h.lt
  unfold orient
  split_ifs with hneg
  · exact ⟨⟨le_rfl, hlt.le⟩, ⟨hlt.le, le_rfl⟩, ⟨_, h.min_eq, hneg⟩, _, h.max_eq, (h.max_pos hneg).le⟩
  · exact ⟨⟨hlt.le, le_rfl⟩, ⟨le_rfl, hlt.le⟩, ⟨_, h.max_eq, h.max_neg hneg⟩, _, h.min_eq, (h.min_pos hneg).le⟩

theorem Oriented.opposite [IsStrictOrderedRing K] (h : Oriented f lo hi a b) : Opposite f a b := by
  obtain ⟨u, hu, hneg⟩ := h.low
  obtain ⟨w, hw, hpos⟩ := h.high
  exact ⟨u, w, hu, hw, mul_nonpos_of_nonpos_of_nonneg hneg.le hpos⟩

theorem Oriented.ne (h : Oriented f lo hi a b) : a ≠ b := by
  rintro rfl
  obtain ⟨u, hu, hneg⟩ := h.low
  obtain ⟨w, hw, hpos⟩ := h.high
  obtain rfl := Option.some.inj (hu.symm.trans hw)
  exact absurd hneg (not_lt.2 hpos)

/-- "Keep the new point as the matching bracket end." -/
theorem Oriented.replace (h : Oriented f lo hi a b) (hx : x ∈ Set.Icc lo hi) (hv : f x = some v) :
    Oriented f lo hi (if v < 0 then x else a) (if v < 0 then b else x) := by
  split_ifs with hneg
  · exact ⟨hx, h.high_mem, ⟨v, hv, hneg⟩, h.high⟩
  · exact ⟨h.low_mem, hx, h.low, v, hv, not_lt.1 hneg⟩

variable [IsStrictOrderedRing K]

theorem Between.mem (h : Between a b x) (ha : a ∈ Set.Icc lo hi) (hb : b ∈ Set.Icc lo hi) : x ∈ Set.Icc lo hi := by
  obtain ⟨ha₀, ha₁⟩ := ha
  obtain ⟨hb₀, hb₁⟩ := hb
  constructor
  · refine le_of_not_gt fun hx => absurd h (not_le.2 ?_)
    exact mul_pos_of_neg_of_neg (by linarith) (by linarith)
  · refine le_of_not_gt fun hx => absurd h (not_le.2 ?_)
    exact mul_pos (by linarith) (by linarith)

theorem between_half (a b : K) : Between a b (a + ((2 : ℕ) : K)⁻¹ * (b - a)) := by
  have hform : (a + ((2 : ℕ) : K)⁻¹ * (b - a) - a) * (a + ((2 : ℕ) : K)⁻¹ * (b - a) - b) = -((b - a) ^ 2 / 4) := by
    rw [Nat.cast_ofNat]
    ring
  rw [Between, hform]
  exact neg_nonpos.2 (by positivity)

/-- **A Newton step that the test lets pass stays in the bracket.** -/
theorem between_newton (h : ¬ bisects a b root froot dfroot dxold = true) (hd : dfroot ≠ 0) :
    Between a b (root - froot / dfroot) := by
  rw [bisects, decide_eq_true_iff, not_or, not_lt] at h
  have hform : ((root - b) * dfroot - froot) * ((root - a) * dfroot - froot) =
      dfroot ^ 2 * ((root - froot / dfroot - a) * (root - froot / dfroot - b)) := by
    field_simp
    ring
  refine le_of_not_gt fun hpos => absurd h.1 (not_le.2 ?_)
  rw [hform]
  exact mul_pos (by positivity) hpos

theorem slope_ne_zero (h : ¬ bisects a b root froot dfroot dxold = true) (hne : froot ≠ 0) : dfroot ≠ 0 := by
  rw [bisects, decide_eq_true_iff, not_or, not_lt] at h
  rintro rfl
  have hle := h.2
  rw [not_lt, mul_zero, abs_zero] at hle
  have hzero := abs_nonpos_iff.1 hle
  exact (mul_ne_zero (Nat.cast_ne_zero.2 two_ne_zero) hne) hzero

/-! ## With a derivative -/

namespace NewtonSafe

structure State (K : Type) where
  xl : K
  xh : K
  root : K
  dx : K
  dxold : K
  froot : K
  dfroot : K
  evaluationNumber : ℕ

def turn (f f' : K → Option K) (xAccuracy : K) (s : State K) : Refinement K (K ⊕ State K) := do
  working s.xl s.xh
  let (root, dx) ← newtonStep s.xl s.xh s.root s.froot s.dfroot s.dxold
  if |dx| < xAccuracy then do
    let _ ← checkedValue f root
    pure (.inl root)
  else do
    let froot ← checkedValue f root
    if Math.close froot 0 then pure (.inl root)
    else do
      let dfroot ← checkedDerivative f' root
      pure (.inr
        { xl := if froot < 0 then root else s.xl, xh := if froot < 0 then s.xh else root, root := root, dx := dx,
          dxold := s.dx, froot := froot, dfroot := dfroot, evaluationNumber := s.evaluationNumber + 1 })

/-- `refine` -/
def solveImpl (config : SolverConfig K) (f f' : K → Option K) (xAccuracy : K) (st : Solver1DState K) :
    Refinement K K := do
  let froot ← checkedValue f st.root
  if Math.close froot 0 then pure st.root
  else do
    let dfroot ← checkedDerivative f' st.root
    let dx := st.xMax - st.xMin
    refineLoop config State.evaluationNumber (turn f f' xAccuracy)
      ⟨(orient st).1, (orient st).2, st.root, dx, dx, froot, dfroot, st.evaluationNumber + 1⟩

variable {s : State K}

theorem turn_spec (h : Oriented f lo hi s.xl s.xh ∧ s.froot ≠ 0) : Triple (Within f lo hi) (turn f f' xAccuracy s)
    (Turned (Kept f lo hi) fun s' tr => (Within f lo hi tr ∧ Oriented f lo hi s'.xl s'.xh ∧ s'.froot ≠ 0) ∧
      s.evaluationNumber < s'.evaluationNumber) (Failed f lo hi) := by
  obtain ⟨h, hne⟩ := h
  refine Triple.bind (working_within h.opposite) (fun _ => ?_)
  refine Triple.bind (newtonStep_spec fun hb => slope_ne_zero hb hne) (fun r => Triple.of_fact fun hr => ?_)
  have hroot : r.1 ∈ Set.Icc lo hi := by
    rcases hr with ⟨-, hr⟩ | ⟨hb, hr, -⟩
    · exact hr ▸ (between_half s.xl s.xh).mem h.low_mem h.high_mem
    · exact hr ▸ (between_newton hb (slope_ne_zero hb hne)).mem h.low_mem h.high_mem
  refine Triple.ite (fun _ => ?_) (fun _ => ?_)
  · exact Triple.bind (checkedValue_within f hroot) (fun _ => Triple.pure _ fun _ ht => ⟨ht.1, hroot⟩)
  refine Triple.bind (checkedValue_within f hroot) (fun froot => Triple.of_fact fun hf => ?_)
  refine Triple.ite (fun _ => Triple.pure _ fun _ ht => ⟨ht, hroot⟩) (fun hclose => ?_)
  refine Triple.bind (checkedDerivative_within f f' hroot) (fun dfroot => Triple.pure _ fun _ ht => ?_)
  exact ⟨⟨ht, h.replace hroot hf, Solver1D.ne_zero_of_not_close hclose⟩, Nat.lt_succ_self _⟩

theorem solveImpl_spec (h : Ready f st) : Triple (Within f st.xMin st.xMax) (solveImpl config f f' xAccuracy st)
    (Kept f st.xMin st.xMax) (Failed f st.xMin st.xMax) := by
  have hroot : st.root ∈ Set.Icc st.xMin st.xMax := ⟨h.guess.1.le, h.guess.2.le⟩
  refine Triple.bind (checkedValue_within f hroot) (fun froot => Triple.of_fact fun _ => ?_)
  refine Triple.ite (fun _ => Triple.pure _ fun _ ht => ⟨ht, hroot⟩) (fun hclose => ?_)
  refine Triple.bind (checkedDerivative_within f f' hroot) (fun dfroot => ?_)
  exact refineLoop_within (fun s => Oriented f st.xMin st.xMax s.xl s.xh ∧ s.froot ≠ 0) (fun _ _ hs => turn_spec hs)
    ⟨orient_oriented h, Solver1D.ne_zero_of_not_close hclose⟩

end NewtonSafe

/-! ## With a finite difference -/

namespace FiniteDifferenceNewtonSafe

structure State (K : Type) where
  xl : K
  xh : K
  root : K
  dx : K
  froot : K
  dfroot : K
  evaluationNumber : ℕ

/-- The point and the value from which the slope to the new root is taken. -/
def previous (f : K → Option K) (s : State K) (root : K) : Refinement K (K × K) :=
  if bisects s.xl s.xh s.root s.froot s.dfroot s.dx ∧ Math.closeN root s.root 2500 then do
    let frootold ← checkedValue f s.xh
    pure (s.xh, frootold)
  else pure (s.root, s.froot)

/-- "First-order finite-difference derivative, taken from the closer end." -/
def slope (st : Solver1DState K) (froot : K) : Refinement K K :=
  if st.xMax - st.root < st.root - st.xMin then divide (st.fxMax - froot) (st.xMax - st.root)
  else divide (st.fxMin - froot) (st.xMin - st.root)

def turn (f : K → Option K) (xAccuracy : K) (s : State K) : Refinement K (K ⊕ State K) := do
  working s.xl s.xh
  let (root, dx) ← newtonStep s.xl s.xh s.root s.froot s.dfroot s.dx
  let (rootold, frootold) ← previous f s root
  if |dx| < xAccuracy then pure (.inl root)
  else do
    let froot ← checkedValue f root
    let dfroot ← divide (frootold - froot) (rootold - root)
    pure (.inr
      { xl := if froot < 0 then root else s.xl, xh := if froot < 0 then s.xh else root, root := root, dx := dx,
        froot := froot, dfroot := dfroot, evaluationNumber := s.evaluationNumber + 1 })

def solveImpl (config : SolverConfig K) (f : K → Option K) (xAccuracy : K) (st : Solver1DState K) : Refinement K K := do
  let froot ← checkedValue f st.root
  let dfroot ← slope st froot
  refineLoop config State.evaluationNumber (turn f xAccuracy)
    ⟨(orient st).1, (orient st).2, st.root, st.xMax - st.xMin, froot, dfroot, st.evaluationNumber + 1⟩

/-- What holds at every turn.  Where the root is exact there is a slope, so the next step has no length; where the high end
is exact it is the root. -/
structure Inv (f : K → Option K) (lo hi : K) (s : State K) : Prop where
  ends : Oriented f lo hi s.xl s.xh
  between : Between s.xl s.xh s.root
  slope : s.froot = 0 → s.dfroot ≠ 0
  exact_high : f s.xh = some 0 → s.froot = 0

variable {s : State K}

theorem Inv.not_bisects (h : Inv f lo hi s) (hz : s.froot = 0) :
    ¬ bisects s.xl s.xh s.root s.froot s.dfroot s.dx = true := by
  rw [bisects, decide_eq_true_iff, hz, not_or, not_lt, not_lt]
  constructor
  · have hform : ((s.root - s.xh) * s.dfroot - 0) * ((s.root - s.xl) * s.dfroot - 0) =
        s.dfroot ^ 2 * ((s.root - s.xl) * (s.root - s.xh)) := by ring
    rw [hform]
    exact mul_nonpos_of_nonneg_of_nonpos (sq_nonneg _) h.between
  · rw [mul_zero, abs_zero]
    exact abs_nonneg _

theorem Inv.slope_ne (h : Inv f lo hi s) (hb : ¬ bisects s.xl s.xh s.root s.froot s.dfroot s.dx = true) :
    s.dfroot ≠ 0 := by
  by_cases hz : s.froot = 0
  · exact h.slope hz
  · exact slope_ne_zero hb hz

/-- Where a run goes on, the slope is taken from another point, whose value is not zero. -/
theorem previous_spec (h : Inv f lo hi s) (hne : s.froot ≠ 0) {root : K}
    (hstep : (bisects s.xl s.xh s.root s.froot s.dfroot s.dx = true ∧ root = s.xl + ((2 : ℕ) : K)⁻¹ * (s.xh - s.xl)) ∨
      (¬ bisects s.xl s.xh s.root s.froot s.dfroot s.dx = true ∧ root = s.root - s.froot / s.dfroot)) :
    Triple (Within f lo hi) (previous f s root) (fun r tr => Within f lo hi tr ∧ r.1 ≠ root ∧ r.2 ≠ 0)
      (Failed f lo hi) := by
  refine Triple.ite (fun hb => ?_) (fun hb => Triple.pure _ fun _ ht => ⟨ht, ?_, hne⟩)
  · refine Triple.bind (checkedValue_within f h.ends.high_mem) (fun w => Triple.of_fact fun hw =>
      Triple.pure _ fun _ ht => ⟨ht, ?_, fun hz => hne (h.exact_high (hz ▸ hw))⟩)
    obtain ⟨-, rfl⟩ := hstep.resolve_right fun hn => hn.1 hb.1
    intro heq
    apply h.ends.ne
    rw [Nat.cast_ofNat] at heq
    linarith
  · rcases hstep with ⟨hb', -⟩ | ⟨hb', rfl⟩
    · rintro rfl
      exact hb ⟨hb', if_pos rfl⟩
    · intro heq
      exact div_ne_zero hne (h.slope_ne hb') (by linarith)

theorem turn_spec (hacc : 0 < xAccuracy) (h : Inv f lo hi s) : Triple (Within f lo hi) (turn f xAccuracy s)
    (Turned (Kept f lo hi) fun s' tr => (Within f lo hi tr ∧ Inv f lo hi s') ∧ s.evaluationNumber < s'.evaluationNumber)
    (Failed f lo hi) := by
  refine Triple.bind (working_within h.ends.opposite) (fun _ => ?_)
  refine Triple.bind (newtonStep_spec h.slope_ne) (fun r => Triple.of_fact fun hr => ?_)
  have hbetween : Between s.xl s.xh r.1 := by
    rcases hr with ⟨-, hr⟩ | ⟨hb, hr, -⟩
    · exact hr ▸ between_half s.xl s.xh
    · exact hr ▸ between_newton hb (h.slope_ne hb)
  have hroot := hbetween.mem h.ends.low_mem h.ends.high_mem
  by_cases hz : s.froot = 0
  · -- an exact root, where the step has no length
    have hb := h.not_bisects hz
    obtain ⟨-, -, hdx⟩ := hr.resolve_left fun hn => hb hn.1
    have hstop : |r.2| < xAccuracy := by rwa [hdx, hz, zero_div, abs_zero]
    have hprevious : previous f s r.1 = pure (s.root, s.froot) := if_neg fun hn => hb hn.1
    refine Triple.bind (Q := fun _ => Within f lo hi) ?_ (fun q => ?_)
    · rw [hprevious]
      exact Triple.pure _ fun _ ht => ht
    · exact Triple.ite (fun _ => Triple.pure _ fun _ ht => ⟨ht, hroot⟩) (fun hgo => absurd hstop hgo)
  refine Triple.bind (previous_spec h hz (hr.imp_right fun hn => ⟨hn.1, hn.2.1⟩)) (fun q => Triple.of_fact fun hq => ?_)
  refine Triple.ite (fun _ => Triple.pure _ fun _ ht => ⟨ht, hroot⟩) (fun _ => ?_)
  refine Triple.bind (checkedValue_within f hroot) (fun froot => Triple.of_fact fun hf => ?_)
  refine Triple.bind (divide_spec _ (sub_ne_zero.2 hq.1)) (fun dfroot => Triple.of_fact ?_)
  rintro rfl
  refine Triple.pure _ fun _ ht => ⟨⟨ht, h.ends.replace hroot hf, ?_, fun hzero => ?_, fun hexact => ?_⟩,
    Nat.lt_succ_self _⟩
  · dsimp only
    split_ifs
    · exact between_left _ _
    · exact between_right _ _
  · dsimp only at hzero ⊢
    rw [hzero, sub_zero]
    exact div_ne_zero hq.2 (sub_ne_zero.2 hq.1)
  · dsimp only at hexact ⊢
    split_ifs at hexact
    · exact absurd (h.exact_high hexact) hz
    · exact Option.some.inj (hf.symm.trans hexact)

omit [IsStrictOrderedRing K] in
theorem slope_spec (h : Ready f st) (froot : K) : Triple P (slope st froot)
    (fun dfroot tr => P tr ∧ (froot = 0 → dfroot ≠ 0)) R := by
  have hmax := sub_ne_zero.2 h.guess.2.ne'
  have hmin := sub_ne_zero.2 h.guess.1.ne
  refine Triple.ite (fun _ => ?_) (fun _ => ?_)
  · refine (divide_spec _ hmax).weaken (fun _ ht => ht) ?_
    rintro _ _ ⟨ht, rfl⟩
    refine ⟨ht, fun hz => div_ne_zero ?_ hmax⟩
    rw [hz, sub_zero]
    exact Solver1D.ne_zero_of_not_close h.max_ne
  · refine (divide_spec _ hmin).weaken (fun _ ht => ht) ?_
    rintro _ _ ⟨ht, rfl⟩
    refine ⟨ht, fun hz => div_ne_zero ?_ hmin⟩
    rw [hz, sub_zero]
    exact Solver1D.ne_zero_of_not_close h.min_ne

theorem between_orient (h : Ready f st) : Between (orient st).1 (orient st).2 st.root := by
  have h₁ := sub_pos.2 h.guess.1
  have h₂ := sub_neg.2 h.guess.2
  unfold orient
  split_ifs
  · exact (mul_neg_of_pos_of_neg h₁ h₂).le
  · exact (mul_neg_of_neg_of_pos h₂ h₁).le

omit [IsStrictOrderedRing K] in
theorem orient_high_ne (h : Ready f st) : f (orient st).2 ≠ some 0 := by
  unfold orient
  split_ifs
  · rw [h.max_eq]
    exact fun hz => Solver1D.ne_zero_of_not_close h.max_ne (Option.some.inj hz)
  · rw [h.min_eq]
    exact fun hz => Solver1D.ne_zero_of_not_close h.min_ne (Option.some.inj hz)

theorem solveImpl_spec (hacc : 0 < xAccuracy) (h : Ready f st) : Triple (Within f st.xMin st.xMax)
    (solveImpl config f xAccuracy st) (Kept f st.xMin st.xMax) (Failed f st.xMin st.xMax) := by
  have hroot : st.root ∈ Set.Icc st.xMin st.xMax := ⟨h.guess.1.le, h.guess.2.le⟩
  refine Triple.bind (checkedValue_within f hroot) (fun froot => Triple.of_fact fun _ => ?_)
  refine Triple.bind (slope_spec h froot) (fun dfroot => Triple.of_fact fun hslope => ?_)
  exact refineLoop_within (Inv f st.xMin st.xMax) (fun _ _ hs => turn_spec hacc hs)
    ⟨orient_oriented h, between_orient h, hslope, fun hz => absurd hz (orient_high_ne h)⟩

end FiniteDifferenceNewtonSafe

end Solvers1D
end Itofin
