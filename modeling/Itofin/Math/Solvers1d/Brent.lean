import Itofin.Math.Solvers1d.Refine
/-!
# Brent

`math/solvers1d/brent.rs`: inverse quadratic steps, with bisection where they do not converge.  The root and `x_max` are the
working pair, once the ends are renamed and swapped; `x_min` is the root before.
-/
namespace Itofin

open Effect

namespace Solvers1D

namespace Brent

structure State (K : Type) extends Solver1DState K where
  froot : K
  d : K
  e : K

variable {K : Type} [Field K] [LinearOrder K]

/-- "Start with root_ (the guess) on one side of the bracket and both x_min and x_max on the other." -/
def enter (st : Solver1DState K) (froot : K) : State K :=
  let st := { st with evaluationNumber := st.evaluationNumber + 1 }
  let st := if froot * st.fxMin < 0 then { st with xMax := st.xMin, fxMax := st.fxMin }
    else { st with xMin := st.xMax, fxMin := st.fxMax }
  ⟨st, froot, st.root - st.xMax, st.root - st.xMax⟩

/-- "rename x_min, root, x_max and adjust bounds" -/
def rename (s : State K) : State K :=
  if (0 < s.froot ∧ 0 < s.fxMax) ∨ (s.froot < 0 ∧ s.fxMax < 0) then
    { s with xMax := s.xMin, fxMax := s.fxMin, d := s.root - s.xMin, e := s.root - s.xMin }
  else s

/-- The end with the smaller value becomes the root. -/
def swap (s : State K) : State K :=
  if |s.fxMax| < |s.froot| then
    { s with xMin := s.root, root := s.xMax, xMax := s.root, fxMin := s.froot, froot := s.fxMax, fxMax := s.froot }
  else s

/-- `|a|` with the sign of `b` (NR's `SIGN`). -/
def sign (a b : K) : K := if 0 ≤ b then |a| else -|a|

def xAcc1 (xAccuracy : K) (s : State K) : K :=
  ((2 : ℕ) : K) * Math.epsilon * |s.root| + ((2 : ℕ) : K)⁻¹ * xAccuracy

def xMid (s : State K) : K := (s.xMax - s.root) / ((2 : ℕ) : K)

/-- Numerator and denominator of the interpolation. -/
def quotient (s : State K) : Refinement K (K × K) := do
  let t ← divide s.froot s.fxMin
  if Math.close s.xMin s.xMax then pure (((2 : ℕ) : K) * xMid s * t, 1 - t)
  else do
    let qq ← divide s.fxMin s.fxMax
    let r ← divide s.froot s.fxMax
    pure (t * (((2 : ℕ) : K) * xMid s * qq * (qq - r) - (s.root - s.xMin) * (r - 1)), (qq - 1) * (r - 1) * (t - 1))

/-- "attempt inverse quadratic interpolation": the next `d` and `e`. -/
def interpolate (xAccuracy : K) (s : State K) : Refinement K (K × K) := do
  let (p, q) ← quotient s
  let q := if 0 < p then -q else q
  let p := |p|
  let min1 := ((3 : ℕ) : K) * xMid s * q - |xAcc1 xAccuracy s * q|
  let min2 := |s.e * q|
  if ((2 : ℕ) : K) * p < min min1 min2 then do
    let d ← divide p q
    pure (d, s.d)
  else pure (xMid s, xMid s)

/-- The next `d` and `e`, by interpolation where the bounds have decreased fast enough. -/
def choose (xAccuracy : K) (s : State K) : Refinement K (K × K) :=
  if xAcc1 xAccuracy s ≤ |s.e| ∧ |s.froot| < |s.fxMin| then interpolate xAccuracy s else pure (xMid s, xMid s)

/-- What follows the renaming and the swap. -/
def advance (f : K → Option K) (xAccuracy : K) (s : State K) : Refinement K (K ⊕ State K) := do
  working s.root s.xMax
  if |xMid s| ≤ xAcc1 xAccuracy s ∨ Math.close s.froot 0 then do
    let _ ← checkedValue f s.root
    pure (.inl s.root)
  else do
    let (d, e) ← choose xAccuracy s
    let root := s.root + if xAcc1 xAccuracy s < |d| then d else sign (xAcc1 xAccuracy s) (xMid s)
    let froot ← checkedValue f root
    pure (.inr { s with
      xMin := s.root, fxMin := s.froot, root := root, froot := froot, d := d, e := e,
      evaluationNumber := s.evaluationNumber + 1 })

def turn (f : K → Option K) (xAccuracy : K) (s : State K) : Refinement K (K ⊕ State K) :=
  advance f xAccuracy (swap (rename s))

def solveImpl (config : SolverConfig K) (f : K → Option K) (xAccuracy : K) (st : Solver1DState K) : Refinement K K := do
  let froot ← checkedValue f st.root
  refineLoop config (fun s => s.evaluationNumber) (turn f xAccuracy) (enter st froot)

/-- The allowance of a result: the accuracy, and a rounding of the root. -/
def allowance (xAccuracy x : K) : K := xAccuracy + ((4 : ℕ) : K) * Math.epsilon * |x|

/-! ## What holds at every turn -/

/-- The three points with their values, two of which are never zero. -/
structure Points (f : K → Option K) (lo hi : K) (s : State K) : Prop where
  root_mem : s.root ∈ Set.Icc lo hi
  min_mem : s.xMin ∈ Set.Icc lo hi
  max_mem : s.xMax ∈ Set.Icc lo hi
  root_eq : f s.root = some s.froot
  min_eq : f s.xMin = some s.fxMin
  max_eq : f s.xMax = some s.fxMax
  min_ne : s.fxMin ≠ 0
  max_ne : s.fxMax ≠ 0

/-- Between turns: where the root has the sign of `x_max`, the other end has another. -/
def Bracketing (s : State K) : Prop := 0 < s.froot * s.fxMax → s.froot * s.fxMin < 0

variable {config : SolverConfig K} {f : K → Option K} {xAccuracy lo hi v : K} {s : State K} {st : Solver1DState K}

theorem evaluationNumber_swap_rename (s : State K) : (swap (rename s)).evaluationNumber = s.evaluationNumber := by
  unfold swap rename
  split_ifs <;> rfl

theorem enter_points (h : Ready f st) (hv : f st.root = some v) : Points f st.xMin st.xMax (enter st v) := by
  have hroot : st.root ∈ Set.Icc st.xMin st.xMax := ⟨h.guess.1.le, h.guess.2.le⟩
  have hmin : st.xMin ∈ Set.Icc st.xMin st.xMax := ⟨le_rfl, h.lt.le⟩
  have hmax : st.xMax ∈ Set.Icc st.xMin st.xMax := ⟨h.lt.le, le_rfl⟩
  have hmin₀ := Solver1D.ne_zero_of_not_close h.min_ne
  have hmax₀ := Solver1D.ne_zero_of_not_close h.max_ne
  unfold enter
  dsimp only
  split_ifs
  · exact ⟨hroot, hmin, hmin, hv, h.min_eq, h.min_eq, hmin₀, hmin₀⟩
  · exact ⟨hroot, hmax, hmax, hv, h.max_eq, h.max_eq, hmax₀, hmax₀⟩

theorem Points.rename (h : Points f lo hi s) : Points f lo hi (rename s) := by
  unfold Brent.rename
  split_ifs
  · exact ⟨h.root_mem, h.min_mem, h.min_mem, h.root_eq, h.min_eq, h.min_eq, h.min_ne, h.min_ne⟩
  · exact h

theorem swap_sign (h : s.froot * s.fxMax ≤ 0) : (swap s).froot * (swap s).fxMax ≤ 0 := by
  unfold Brent.swap
  split_ifs
  · exact (mul_comm _ _).trans_le h
  · exact h

theorem quotient_spec (h : Points f lo hi s) : Triple (Within f lo hi) (quotient s) (fun _ => Within f lo hi)
    (Failed f lo hi) := by
  refine Triple.bind (divide_spec _ h.min_ne) (fun t => Triple.of_fact fun _ => ?_)
  refine Triple.ite (fun _ => Triple.pure _ fun _ ht => ht) (fun _ => ?_)
  refine Triple.bind (divide_spec _ h.max_ne) (fun qq => Triple.of_fact fun _ => ?_)
  exact Triple.bind (divide_spec _ h.max_ne) (fun r => Triple.of_fact fun _ => Triple.pure _ fun _ ht => ht)

variable [IsStrictOrderedRing K]

theorem enter_bracketing (h : Ready f st) (v : K) : Bracketing (enter st v) := by
  unfold enter Bracketing
  dsimp only
  split_ifs with hneg
  · exact fun hpos => absurd hpos (not_lt.2 hneg.le)
  · intro hpos
    -- of the sign of one end, so not of the other
    rcases mul_neg_iff.1 h.sign with ⟨h₁, h₂⟩ | ⟨h₁, h₂⟩
    · have hv : v < 0 := neg_of_mul_pos_left hpos h₂.le
      exact absurd (mul_neg_of_neg_of_pos hv h₁) hneg
    · have hv : 0 < v := pos_of_mul_pos_left hpos h₂.le
      exact absurd (mul_neg_of_pos_of_neg hv h₁) hneg

theorem Bracketing.rename (h : Bracketing s) : (rename s).froot * (rename s).fxMax ≤ 0 := by
  unfold Brent.rename
  split_ifs with hsame
  · refine (h ?_).le
    rcases hsame with ⟨h₁, h₂⟩ | ⟨h₁, h₂⟩
    · exact mul_pos h₁ h₂
    · exact mul_pos_of_neg_of_neg h₁ h₂
  · refine le_of_not_gt fun hpos => hsame ?_
    exact pos_and_pos_or_neg_and_neg_of_mul_pos hpos

theorem Points.swap (h : Points f lo hi s) : Points f lo hi (swap s) := by
  unfold Brent.swap
  split_ifs with hlt
  · have hne : s.froot ≠ 0 := abs_pos.1 ((abs_nonneg _).trans_lt hlt)
    exact ⟨h.max_mem, h.root_mem, h.root_mem, h.max_eq, h.root_eq, h.root_eq, hne, hne⟩
  · exact h

/-! ## The step -/

/-- A step from the root towards `x_max`, not beyond it. -/
def Ahead (s : State K) (d : K) : Prop := ∃ t, 0 ≤ t ∧ t ≤ 1 ∧ d = (s.xMax - s.root) * t

theorem ahead_xMid (s : State K) : Ahead s (xMid s) :=
  ⟨2⁻¹, by norm_num, by norm_num, by rw [xMid, Nat.cast_ofNat, div_eq_mul_inv]⟩

theorem xAcc1_nonneg (hacc : 0 < xAccuracy) (s : State K) : 0 ≤ xAcc1 xAccuracy s := by
  have := Math.epsilon_pos (K := K)
  unfold xAcc1
  positivity

/-- An accepted interpolation goes at most three quarters of the way. -/
theorem ahead_of_accepted {p q m : K} (hp : 0 ≤ p) (h : ((2 : ℕ) : K) * p < ((3 : ℕ) : K) * xMid s * q - |m * q|) :
    q ≠ 0 ∧ Ahead s (p / q) := by
  rw [Nat.cast_ofNat, Nat.cast_ofNat] at h
  have hq : q ≠ 0 := by
    rintro rfl
    rw [mul_zero, mul_zero, abs_zero, sub_zero] at h
    linarith
  have hprod : 0 < xMid s * q := by nlinarith [abs_nonneg (m * q)]
  have hmid : xMid s ≠ 0 := left_ne_zero_of_mul hprod.ne'
  refine ⟨hq, p / (2 * (xMid s * q)), by positivity, ?_, ?_⟩
  · rw [div_le_one (by linarith)]
    nlinarith [abs_nonneg (m * q)]
  · have hwidth : s.xMax - s.root = 2 * xMid s := by
      rw [xMid, Nat.cast_ofNat]
      ring
    rw [hwidth]
    field_simp

theorem interpolate_spec (h : Points f lo hi s) : Triple (Within f lo hi) (interpolate xAccuracy s)
    (fun r tr => Within f lo hi tr ∧ Ahead s r.1) (Failed f lo hi) := by
  refine Triple.bind (quotient_spec h) (fun r => ?_)
  refine Triple.ite (fun hlt => ?_) (fun _ => Triple.pure _ fun _ ht => ⟨ht, ahead_xMid s⟩)
  obtain ⟨hq, hahead⟩ := ahead_of_accepted (abs_nonneg _) (hlt.trans_le (min_le_left _ _))
  refine Triple.bind (divide_spec _ hq) (fun d => Triple.of_fact ?_)
  rintro rfl
  exact Triple.pure _ fun _ ht => ⟨ht, hahead⟩

theorem choose_spec (h : Points f lo hi s) : Triple (Within f lo hi) (choose xAccuracy s)
    (fun r tr => Within f lo hi tr ∧ Ahead s r.1) (Failed f lo hi) :=
  Triple.ite (fun _ => interpolate_spec h) (fun _ => Triple.pure _ fun _ ht => ⟨ht, ahead_xMid s⟩)

/-- A step at least as long as the tolerance, towards `x_max`. -/
theorem ahead_sign {m : K} (hm : 0 ≤ m) (hle : m ≤ |xMid s|) : Ahead s (sign m (xMid s)) := by
  have hwidth : s.xMax - s.root = 2 * xMid s := by
    rw [xMid, Nat.cast_ofNat]
    ring
  have habs := abs_nonneg (xMid s)
  refine ⟨m / (2 * |xMid s|), by positivity, div_le_one_of_le₀ (by linarith) (by positivity), ?_⟩
  rw [hwidth]
  by_cases hz : xMid s = 0
  · rw [hz, abs_zero] at hle ⊢
    obtain rfl := le_antisymm hle hm
    simp [sign]
  have hne : |xMid s| ≠ 0 := abs_ne_zero.2 hz
  unfold sign
  rw [abs_of_nonneg hm]
  split_ifs with hsign
  · rw [abs_of_nonneg hsign]
    field_simp
  · rw [abs_of_neg (not_le.1 hsign)]
    field_simp

/-- What a run returns. -/
def Returns (f : K → Option K) (lo hi xAccuracy x : K) (tr : Trace K) : Prop :=
  Kept f lo hi x tr ∧ Accurate f lo hi (allowance xAccuracy x) x

theorem accurate (h : Points f lo hi s) (hsign : s.froot * s.fxMax ≤ 0)
    (hstop : |xMid s| ≤ xAcc1 xAccuracy s ∨ Math.close s.froot 0 = true) :
    Accurate f lo hi (allowance xAccuracy s.root) s.root := by
  refine ⟨_, h.root_eq, hstop.symm.imp_right fun hle => ⟨_, h.max_mem, _, h.max_eq, hsign, ?_⟩⟩
  have hdist : |s.root - s.xMax| = 2 * |xMid s| := by
    rw [xMid, Nat.cast_ofNat, abs_div, abs_two, abs_sub_comm]
    ring
  rw [hdist, allowance]
  rw [xAcc1, Nat.cast_ofNat] at hle
  rw [Nat.cast_ofNat]
  linarith

/-- **A turn keeps the points and the change of sign.** -/
theorem advance_triple (hacc : 0 < xAccuracy) (h : Points f lo hi s) (hsign : s.froot * s.fxMax ≤ 0) :
    Triple (Within f lo hi) (advance f xAccuracy s) (Turned (Returns f lo hi xAccuracy) fun s' tr =>
      (Within f lo hi tr ∧ Points f lo hi s' ∧ Bracketing s') ∧ s.evaluationNumber < s'.evaluationNumber)
      (Failed f lo hi) := by
  refine Triple.bind (working_within ⟨_, _, h.root_eq, h.max_eq, hsign⟩) (fun _ => ?_)
  refine Triple.ite (fun hstop => ?_) (fun hgo => ?_)
  · exact Triple.bind (checkedValue_within f h.root_mem) (fun _ => Triple.pure _ fun _ ht =>
      ⟨⟨ht.1, h.root_mem⟩, accurate h hsign hstop⟩)
  rw [not_or, not_le] at hgo
  have hne : s.froot ≠ 0 := Solver1D.ne_zero_of_not_close hgo.2
  have hlt : s.froot * s.fxMax < 0 := lt_of_le_of_ne hsign (mul_ne_zero hne h.max_ne)
  refine Triple.bind (choose_spec h) (fun r => Triple.of_fact fun hahead => ?_)
  have hmove : Ahead s (if xAcc1 xAccuracy s < |r.1| then r.1 else sign (xAcc1 xAccuracy s) (xMid s)) := by
    split_ifs
    · exact hahead
    · exact ahead_sign (xAcc1_nonneg hacc s) hgo.1.le
  obtain ⟨t, ht₀, ht₁, hmove⟩ := hmove
  have hroot := share_mem h.root_mem h.max_mem ht₀ ht₁
  rw [← hmove] at hroot
  refine Triple.bind (checkedValue_within f hroot) (fun froot => Triple.of_fact fun hfroot => Triple.pure _ fun _ ht => ?_)
  refine ⟨⟨ht, ⟨hroot, h.root_mem, h.max_mem, hfroot, h.root_eq, h.max_eq, hne, h.max_ne⟩, fun hpos => ?_⟩,
    Nat.lt_succ_self _⟩
  -- of the sign of `x_max`, so not of the root before
  rcases mul_neg_iff.1 hlt with ⟨h₁, h₂⟩ | ⟨h₁, h₂⟩
  · exact mul_neg_of_neg_of_pos (neg_of_mul_pos_left hpos h₂.le) h₁
  · exact mul_neg_of_pos_of_neg (pos_of_mul_pos_left hpos h₂.le) h₁

theorem turn_spec (hacc : 0 < xAccuracy) (h : Points f lo hi s ∧ Bracketing s) : Triple (Within f lo hi)
    (turn f xAccuracy s) (Turned (Returns f lo hi xAccuracy) fun s' tr =>
      (Within f lo hi tr ∧ Points f lo hi s' ∧ Bracketing s') ∧ s.evaluationNumber < s'.evaluationNumber)
      (Failed f lo hi) := by
  have hturn := advance_triple hacc h.1.rename.swap (swap_sign h.2.rename)
  rwa [evaluationNumber_swap_rename] at hturn

theorem solveImpl_spec (hacc : 0 < xAccuracy) (h : Ready f st) : Triple (Within f st.xMin st.xMax)
    (solveImpl config f xAccuracy st) (Returns f st.xMin st.xMax xAccuracy) (Failed f st.xMin st.xMax) := by
  have hroot : st.root ∈ Set.Icc st.xMin st.xMax := ⟨h.guess.1.le, h.guess.2.le⟩
  refine Triple.bind (checkedValue_within f hroot) (fun froot => Triple.of_fact fun hfroot => ?_)
  exact refineLoop_within (fun s => Points f st.xMin st.xMax s ∧ Bracketing s) (fun _ _ hs => turn_spec hacc hs)
    ⟨enter_points h hfroot, enter_bracketing h froot⟩

end Brent

end Solvers1D
end Itofin
