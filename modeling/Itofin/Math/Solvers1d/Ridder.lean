import Itofin.Math.Solvers1d.Refine
/-!
# Ridder

`math/solvers1d/ridder.rs`: a step to the root of the exponential through the middle and the ends of the bracket.  The root
starts as a number that no step is expected to hit (`realMin`), so the first comparison is with that number.
-/
namespace Itofin

open Effect

namespace Solvers1D

namespace Ridder

variable {K : Type} [Field K]

/-- `Real::MIN` -/
def realMin : K := -(((2 ^ 53 - 1) * 2 ^ 971 : ℕ) : K)

def start (st : Solver1DState K) : Solver1DState K := { st with root := realMin }

def middle (st : Solver1DState K) : K := ((2 : ℕ) : K)⁻¹ * (st.xMin + st.xMax)

variable [LinearOrder K]

/-- `sign_differs` -/
def signDiffers (a b : K) : Bool := (0 ≤ b ∧ a < 0) ∨ (b < 0 ∧ 0 < a)

def direction (st : Solver1DState K) : K := if st.fxMax ≤ st.fxMin then 1 else -1

/-- "Keep the root bracketed for the next iteration." -/
def rebracket (st : Solver1DState K) (xMid fxMid froot : K) : Option (Solver1DState K) :=
  if signDiffers fxMid froot then some { st with xMin := xMid, fxMin := fxMid, xMax := st.root, fxMax := froot }
  else if signDiffers st.fxMin froot then some { st with xMax := st.root, fxMax := froot }
  else if signDiffers st.fxMax froot then some { st with xMin := st.root, fxMin := froot }
  else none

def turn (sqrt : K → K) (f : K → Option K) (xAccuracy : K) (st : Solver1DState K) :
    Refinement K (K ⊕ Solver1DState K) := do
  working st.xMin st.xMax
  let xMid := middle st
  let fxMid ← checkedValue f xMid
  let s := sqrt (fxMid * fxMid - st.fxMin * st.fxMax)
  if Math.close s 0 then do
    let _ ← checkedValue f st.root
    pure (.inl st.root)
  else do
    let t ← divide (direction st * fxMid) s
    let nextRoot := xMid + (xMid - st.xMin) * t
    if |nextRoot - st.root| ≤ xAccuracy then do
      let _ ← checkedValue f st.root
      pure (.inl st.root)
    else do
      let froot ← checkedValue f nextRoot
      if Math.close froot 0 then pure (.inl nextRoot)
      else
        match rebracket { st with root := nextRoot, evaluationNumber := st.evaluationNumber + 2 } xMid fxMid froot with
        | none    => Prog.fail .unreachable
        | some st =>
          if |st.xMax - st.xMin| ≤ xAccuracy then do
            let _ ← checkedValue f st.root
            pure (.inl st.root)
          else pure (.inr st)

def solveImpl (sqrt : K → K) (config : SolverConfig K) (f : K → Option K) (xAcc : K) (st : Solver1DState K) :
    Refinement K K :=
  refineLoop config Solver1DState.evaluationNumber (turn sqrt f (xAcc / ((100 : ℕ) : K))) (start st)

/-- Where a turn would step to from a value at the middle. -/
def estimate (sqrt : K → K) (st : Solver1DState K) (fxMid : K) : K :=
  middle st + (middle st - st.xMin) * (direction st * fxMid / sqrt (fxMid * fxMid - st.fxMin * st.fxMax))

/-- The turn returns the root that it started with. -/
def Stops (sqrt : K → K) (f : K → Option K) (xAccuracy : K) (st : Solver1DState K) : Prop :=
  ∃ v, f (middle st) = some v ∧
    (Math.close (sqrt (v * v - st.fxMin * st.fxMax)) 0 = true ∨ |estimate sqrt st v - st.root| ≤ xAccuracy)

/-- **The run that goes wrong**: the first estimate is as near to `realMin` as the accuracy, so `realMin` is the root. -/
def Misled (sqrt : K → K) (config : SolverConfig K) (f : K → Option K) (xAcc : K) (st : Solver1DState K) : Prop :=
  st.evaluationNumber ≤ config.maxEvaluations ∧
    ∃ v, f (middle st) = some v ∧ |estimate sqrt st v - realMin| ≤ xAcc / ((100 : ℕ) : K)

/-- What holds at every turn: the working pair, and a root that a turn may return. -/
structure Inv (sqrt : K → K) (f : K → Option K) (xAccuracy lo hi : K) (st : Solver1DState K) : Prop where
  min_mem : st.xMin ∈ Set.Icc lo hi
  max_mem : st.xMax ∈ Set.Icc lo hi
  min_eq : f st.xMin = some st.fxMin
  max_eq : f st.xMax = some st.fxMax
  sign : st.fxMin * st.fxMax < 0
  root_mem : Stops sqrt f xAccuracy st → st.root ∈ Set.Icc lo hi

variable [IsStrictOrderedRing K] {sqrt : K → K} {config : SolverConfig K} {f : K → Option K} {xAcc xAccuracy lo hi v w : K}
  {st st' : Solver1DState K}

theorem neg_of_signDiffers (h : signDiffers v w = true) (hw : w ≠ 0) : v * w < 0 := by
  rcases of_decide_eq_true h with ⟨hw₀, hv⟩ | ⟨hw₀, hv⟩
  · exact mul_neg_of_neg_of_pos hv (lt_of_le_of_ne hw₀ hw.symm)
  · exact mul_neg_of_pos_of_neg hv hw₀

theorem signDiffers_or (hv : v * w < 0) (z : K) : signDiffers v z = true ∨ signDiffers w z = true := by
  rcases mul_neg_iff.1 hv with ⟨h₁, h₂⟩ | ⟨h₁, h₂⟩
  · rcases lt_or_ge z 0 with hz | hz
    · exact .inl (decide_eq_true (.inr ⟨hz, h₁⟩))
    · exact .inr (decide_eq_true (.inl ⟨hz, h₂⟩))
  · rcases lt_or_ge z 0 with hz | hz
    · exact .inr (decide_eq_true (.inr ⟨hz, h₂⟩))
    · exact .inl (decide_eq_true (.inl ⟨hz, h₁⟩))

theorem rebracket_spec {xMid : K} (hmid : f xMid = some v) (hroot : f st.root = some w) (hmin : f st.xMin = some st.fxMin)
    (hmax : f st.xMax = some st.fxMax) (hsign : st.fxMin * st.fxMax < 0) (hw : w ≠ 0)
    (hxMid : xMid ∈ Set.Icc lo hi) (hxRoot : st.root ∈ Set.Icc lo hi) (hxMin : st.xMin ∈ Set.Icc lo hi)
    (hxMax : st.xMax ∈ Set.Icc lo hi) : ∃ st', rebracket st xMid v w = some st' ∧ st'.root = st.root ∧
      st'.evaluationNumber = st.evaluationNumber ∧ Inv sqrt f xAccuracy lo hi st' := by
  unfold rebracket
  by_cases h₁ : signDiffers v w = true
  · exact ⟨_, if_pos h₁, rfl, rfl, hxMid, hxRoot, hmid, hroot, neg_of_signDiffers h₁ hw, fun _ => hxRoot⟩
  rw [if_neg h₁]
  by_cases h₂ : signDiffers st.fxMin w = true
  · exact ⟨_, if_pos h₂, rfl, rfl, hxMin, hxRoot, hmin, hroot, neg_of_signDiffers h₂ hw, fun _ => hxRoot⟩
  rw [if_neg h₂]
  have h₃ := (signDiffers_or hsign w).resolve_left h₂
  refine ⟨_, if_pos h₃, rfl, rfl, hxRoot, hxMax, hroot, hmax, ?_, fun _ => hxRoot⟩
  rw [mul_comm]
  exact neg_of_signDiffers h₃ hw

theorem Inv.middle_mem (h : Inv sqrt f xAccuracy lo hi st) : middle st ∈ Set.Icc lo hi := by
  obtain ⟨h₁, h₁'⟩ := h.min_mem
  obtain ⟨h₂, h₂'⟩ := h.max_mem
  unfold middle
  rw [Nat.cast_ofNat]
  constructor <;> linarith

theorem abs_direction (st : Solver1DState K) : |direction st| = 1 := by
  unfold direction
  split_ifs
  · exact abs_one
  · rw [abs_neg, abs_one]

section Root

variable (hsqrt : ∀ x, 0 < x → 0 < sqrt x ∧ sqrt x * sqrt x = x)
include hsqrt

/-- **The estimate stays in the bracket**: the root of the sum exceeds the value at the middle. -/
theorem Inv.estimate_mem (h : Inv sqrt f xAccuracy lo hi st) (v : K) : estimate sqrt st v ∈ Set.Icc lo hi := by
  have hsum : 0 < v * v - st.fxMin * st.fxMax := by nlinarith [h.sign, mul_self_nonneg v]
  obtain ⟨hpos, hsq⟩ := hsqrt _ hsum
  have hlt : |v| < sqrt (v * v - st.fxMin * st.fxMax) := by
    refine abs_lt_of_sq_lt_sq ?_ hpos.le
    rw [sq, sq, hsq]
    linarith [h.sign]
  have habs : |direction st * v / sqrt (v * v - st.fxMin * st.fxMax)| ≤ 1 := by
    rw [abs_div, abs_mul, abs_direction, one_mul, abs_of_pos hpos, div_le_one hpos]
    exact hlt.le
  obtain ⟨hge, hle⟩ := abs_le.1 habs
  have hshare := share_mem h.min_mem h.max_mem (t := (1 + direction st * v / sqrt (v * v - st.fxMin * st.fxMax)) / 2)
    (by linarith) (by linarith)
  have hform : estimate sqrt st v = st.xMin +
      (st.xMax - st.xMin) * ((1 + direction st * v / sqrt (v * v - st.fxMin * st.fxMax)) / 2) := by
    unfold estimate middle
    rw [Nat.cast_ofNat]
    ring
  rw [hform]
  exact hshare

theorem turn_spec (h : Inv sqrt f xAccuracy lo hi st) : Triple (Within f lo hi) (turn sqrt f xAccuracy st)
    (Turned (Kept f lo hi) fun st' tr => (Within f lo hi tr ∧ Inv sqrt f xAccuracy lo hi st') ∧
      st.evaluationNumber < st'.evaluationNumber) (Failed f lo hi) := by
  refine Triple.bind (working_within ⟨_, _, h.min_eq, h.max_eq, h.sign.le⟩) (fun _ => ?_)
  refine Triple.bind (checkedValue_within f h.middle_mem) (fun fxMid => Triple.of_fact fun hmid => ?_)
  refine Triple.ite (fun hclose => ?_) (fun hclose => ?_)
  · have hroot := h.root_mem ⟨fxMid, hmid, .inl hclose⟩
    exact Triple.bind (checkedValue_within f hroot) (fun _ => Triple.pure _ fun tr ht => ⟨ht.1, hroot⟩)
  refine Triple.bind (divide_spec _ (Solver1D.ne_zero_of_not_close hclose)) (fun t => Triple.of_fact ?_)
  rintro rfl
  have hnext := h.estimate_mem hsqrt fxMid
  refine Triple.ite (fun hnear => ?_) (fun _ => ?_)
  · have hroot := h.root_mem ⟨fxMid, hmid, .inr hnear⟩
    exact Triple.bind (checkedValue_within f hroot) (fun _ => Triple.pure _ fun tr ht => ⟨ht.1, hroot⟩)
  refine Triple.bind (checkedValue_within f hnext) (fun froot => Triple.of_fact fun hfroot => ?_)
  refine Triple.ite (fun _ => Triple.pure _ fun tr ht => ⟨ht, hnext⟩) (fun hne => ?_)
  obtain ⟨st', hst', hroot', hcount, hinv⟩ : ∃ st',
      rebracket { st with root := estimate sqrt st fxMid, evaluationNumber := st.evaluationNumber + 2 } (middle st) fxMid
        froot = some st' ∧ st'.root = estimate sqrt st fxMid ∧ st'.evaluationNumber = st.evaluationNumber + 2 ∧
        Inv sqrt f xAccuracy lo hi st' :=
    rebracket_spec hmid hfroot h.min_eq h.max_eq h.sign (Solver1D.ne_zero_of_not_close hne) h.middle_mem hnext h.min_mem
      h.max_mem
  unfold estimate at hst'
  rw [hst']
  have hin : st'.root ∈ Set.Icc lo hi := by rwa [hroot']
  refine Triple.ite (fun _ => ?_) (fun _ => Triple.pure _ fun tr ht => ⟨⟨ht, hinv⟩, ?_⟩)
  · exact Triple.bind (checkedValue_within f hin) (fun _ => Triple.pure _ fun tr ht => ⟨ht.1, hin⟩)
  · rw [hcount]
    exact Nat.lt_add_of_pos_right two_pos

/-- The ends are too far from zero for the first turn to stop at its square root. -/
theorem not_close_start (h : Ready f st) (v : K) : ¬ Math.close (sqrt (v * v - st.fxMin * st.fxMax)) 0 = true := by
  have hmin := h.min_ne
  have hmax := h.max_ne
  rw [close_zero_iff, not_lt] at hmin hmax ⊢
  have hpos : (0 : K) < ((42 : ℕ) : K) * Math.epsilon * (((42 : ℕ) : K) * Math.epsilon) := by
    have := Math.epsilon_pos (K := K)
    positivity
  obtain ⟨hs, hsq⟩ := hsqrt (v * v - st.fxMin * st.fxMax) (by nlinarith [h.sign, mul_self_nonneg v])
  have hprod : -(st.fxMin * st.fxMax) = |st.fxMin| * |st.fxMax| := by rw [← abs_mul, abs_of_neg h.sign]
  rw [abs_of_pos hs]
  refine abs_le_of_sq_le_sq' ?_ hs.le |>.2
  calc _ = ((42 : ℕ) : K) * Math.epsilon * (((42 : ℕ) : K) * Math.epsilon) *
        (((42 : ℕ) : K) * Math.epsilon * (((42 : ℕ) : K) * Math.epsilon)) := sq _
    _ ≤ |st.fxMin| * |st.fxMax| := mul_le_mul hmin hmax hpos.le (abs_nonneg _)
    _ ≤ v * v - st.fxMin * st.fxMax := by linarith [mul_self_nonneg v]
    _ = _ := by rw [sq, hsq]

theorem start_inv (h : Ready f st) (hcount : st.evaluationNumber ≤ config.maxEvaluations)
    (hled : Misled sqrt config f xAcc st → realMin ∈ Set.Icc st.xMin st.xMax) :
    Inv sqrt f (xAcc / ((100 : ℕ) : K)) st.xMin st.xMax (start st) where
  min_mem := ⟨le_rfl, h.lt.le⟩
  max_mem := ⟨h.lt.le, le_rfl⟩
  min_eq := h.min_eq
  max_eq := h.max_eq
  sign := h.sign
  root_mem := by
    rintro ⟨v, hv, hclose | hnear⟩
    · exact absurd hclose (not_close_start hsqrt h v)
    · exact hled ⟨hcount, v, hv, hnear⟩

theorem solveImpl_spec (h : Ready f st) (hled : Misled sqrt config f xAcc st → realMin ∈ Set.Icc st.xMin st.xMax) :
    Triple (Within f st.xMin st.xMax) (solveImpl sqrt config f xAcc st) (Kept f st.xMin st.xMax)
      (Failed f st.xMin st.xMax) := by
  refine refineLoop_within (fun s => s.evaluationNumber ≤ config.maxEvaluations →
    Inv sqrt f (xAcc / ((100 : ℕ) : K)) st.xMin st.xMax s) (fun s hle hs => ?_) (fun hle => start_inv hsqrt h hle hled)
  refine (turn_spec hsqrt (hs hle)).weaken (fun _ ht => ht) fun r tr hr => ?_
  cases r with
  | inl x   => exact hr
  | inr st' => exact ⟨⟨hr.1.1, fun _ => hr.1.2⟩, hr.2⟩

/-- A run that is misled evaluates at `realMin`. -/
theorem misled_evaluates (h : Ready f st) (hled : Misled sqrt config f xAcc st) :
    Triple (fun _ => True) (solveImpl sqrt config f xAcc st) (fun _ tr => realMin ∈ tr.evaluated)
      (fun _ tr => realMin ∈ tr.evaluated) := by
  obtain ⟨hcount, v, hv, hnear⟩ := hled
  have hlast : ∀ tr : Trace K, True → realMin ∈ (tr.evaluate (realMin : K)).evaluated := fun tr _ =>
    List.mem_append_right _ (List.mem_singleton_self _)
  refine (refineLoop_spec (fun s _ => s = start st) (fun s _ => ?_) (fun s tr hlt hs => ?_) (start st)).weaken
    (fun _ _ => rfl) (fun _ _ hq => hq)
  · refine (Triple.of_fact (P := fun _ => True) fun (hs : s = start st) => ?_).weaken (fun _ hs => ⟨trivial, hs⟩)
      (fun _ _ hq => hq)
    subst hs
    have hstop := not_close_start hsqrt h v
    refine Triple.bind (Triple.modify (Q := fun _ => True) fun _ _ => trivial) (fun _ => ?_)
    have hmid : Triple (fun _ => True) (checkedValue f (middle (start st))) (fun w _ => True ∧ w = v)
        (fun _ tr => realMin ∈ tr.evaluated) := by
      refine ((checkedValue_spec (Q := fun _ => True) f fun _ _ => trivial).weaken (fun _ _ => trivial)
        fun w _ hw => ⟨trivial, Option.some.inj (hw.2.symm.trans hv)⟩).onError fun e tr he => ?_
      exact absurd (he.2.2.symm.trans hv) nofun
    refine Triple.bind hmid (fun w => Triple.of_fact ?_)
    rintro rfl
    refine Triple.ite (fun hclose => absurd hclose hstop) (fun _ => ?_)
    refine Triple.bind (divide_spec _ (Solver1D.ne_zero_of_not_close hstop)) (fun t => Triple.of_fact ?_)
    rintro rfl
    refine Triple.ite (fun _ => ?_) (fun hfar => absurd hnear hfar)
    refine Triple.bind (((checkedValue_spec f hlast).weaken (fun _ ht => ht) fun _ _ hq => hq.1).onError
      fun _ _ he => he.1) (fun _ => Triple.pure _ fun _ ht => ht)
  · rw [hs] at hlt
    exact absurd hcount (not_le.2 hlt)

end Root

end Ridder

end Solvers1D
end Itofin
