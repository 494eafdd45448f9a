import Itofin.Math.Interpolations.ConvexMonotone
/-!
# ConvexMonotoneGrow — growing an interpolation node by node

`local_interpolate` builds over a prefix of the data from what the step before hands on: a number of sections and the
forward on which the last of them ends.  That is the forward of an inner node, which depends on the two intervals beside
it only (`innerForward_take`), so what is handed on is what would be computed anew (`seam_inner`, `assemble_seed`): a step
differs from the interpolation of its prefix by its last section alone.
-/
namespace Itofin

theorem getD_take {α : Type} [Zero α] {l : List α} {m i : ℕ} (hi : i < m) : (l.take m).getD i 0 = l.getD i 0 := by
  simp [List.getD_eq_getElem?_getD, hi]

namespace ConvexMonotone

variable {K : Type} [Field K] [LinearOrder K] (self : ConvexMonotone K) (sqrt : K → K)

/-- The steps from the first `localisation + 1` nodes, each of one node more and with the interpolation before. -/
def grow (x y : List K) (localisation : ℕ) : ℕ → Except (ConvexMonotoneError K) (ConvexMonotoneInterpolation K)
  | 0     => self.localInterpolate sqrt (x.take (localisation + 1)) (y.take (localisation + 1)) localisation none x.length
  | k + 1 => (grow x y localisation k).bind fun prev =>
    self.localInterpolate sqrt (x.take (localisation + 1 + (k + 1))) (y.take (localisation + 1 + (k + 1))) localisation
      (some prev) x.length

variable {self} {sqrt} {x y : List K} {m i : ℕ}

/-! ## Prefixes -/

theorem Accepts.take (h : self.Accepts x y) (h₂ : 2 ≤ m) (hm : m ≤ x.length) : self.Accepts (x.take m) (y.take m) where
  lengths := by simp [h.lengths]
  monotonicity := h.monotonicity
  quadraticity := h.quadraticity
  enough := by simp [h₂, h.enough]
  increasing i hi := by
    have hlen : (x.take m).length = m := List.length_take_of_le hm
    rw [hlen] at hi
    rw [getD_take (by omega), getD_take (by omega)]
    exact h.increasing i (by omega)

theorem innerForward_take (h : self.Accepts x y) (h' : self.Accepts (x.take m) (y.take m)) (hi : i + 1 < m) :
    innerForward h'.nodes i = innerForward h.nodes i := by
  simp only [innerForward, Accepts.nodes, getD_take hi, getD_take (show i < m by omega), getD_take (show i - 1 < m by omega)]

/-! ## The seam -/

/-- What is carried over is the forward of an inner node. -/
def Inner (nodes : Nodes K 2) (preExisting : Option (ℕ × K)) : Prop :=
  ∀ seam ∈ preExisting, seam.1 + 1 < nodes.size ∧ seam.2 = innerForward nodes seam.1

theorem seededForward_inner {nodes : Nodes K 2} {preExisting : Option (ℕ × K)} (h : Inner nodes preExisting) :
    seededForward nodes preExisting = seededForward nodes none := by
  funext i
  cases preExisting with
  | none      => rfl
  | some seam =>
    obtain ⟨count, f⟩ := seam
    simp only [seededForward]
    split
    · rename_i heq
      rw [heq]
      exact (h _ rfl).2
    · rfl

theorem assemble_seed {nodes : Nodes K 2} {preExisting : Option (ℕ × K)} (h : Inner nodes preExisting)
    (constantLastPeriod : Bool) :
    self.assemble sqrt nodes constantLastPeriod preExisting = self.assemble sqrt nodes constantLastPeriod none := by
  have hforward : self.boundaryForward nodes preExisting = self.boundaryForward nodes none := by
    funext i
    simp only [boundaryForward, seededForward_inner h]
  have hinterval : self.interval nodes preExisting = self.interval nodes none := by
    funext i
    simp only [interval, hforward]
  simp only [assemble, buildSections, hinterval, hforward]

theorem boundaryForward_inner {nodes : Nodes K 2} (h₀ : i ≠ 0) (hlast : i ≠ nodes.size - 1) :
    self.boundaryForward nodes none i = innerForward nodes i := by
  rw [boundaryForward, if_neg h₀, if_neg hlast]
  rfl

/-- Before the last interval it does not matter whether the last section is constant. -/
theorem helper_before {nodes : Nodes K 2} {t : K} (allow : Bool) (ht : t < nodes.x (nodes.size - 2)) :
    ((self.assemble sqrt nodes true none).withExtrapolation allow).helper t =
      ((self.assemble sqrt nodes false none).withExtrapolation allow).helper t := by
  have henough := nodes.enough
  have hlast : ¬ nodes.x (nodes.size - 1) ≤ t :=
    not_le.2 (ht.trans_le (nodes.x_le (by omega) (by omega)))
  by_cases htwo : nodes.size = 2
  · simp [ConvexMonotoneInterpolation.helper, ConvexMonotoneInterpolation.withExtrapolation, assemble, buildSections, htwo]
  · have hlt := (self.assemble sqrt nodes true none).sectionIndex_lt (show 3 ≤ nodes.size by omega) ht
    have hne : partitionPoint (fun i => decide (nodes.x (i + 1) ≤ t)) (nodes.size - 2) ≠ nodes.size - 2 := hlt.ne
    simp [ConvexMonotoneInterpolation.helper, ConvexMonotoneInterpolation.withExtrapolation,
      ConvexMonotoneInterpolation.sectionIndex, assemble, buildSections, htwo, hlast, hne]

variable [IsStrictOrderedRing K]

theorem seam_inner (hq : 0 ≤ self.quadraticity ∧ self.quadraticity ≤ 1) (nodes : Nodes K 2) :
    ∀ seam ∈ existingSeam (self.assemble sqrt nodes true none),
      seam.1 + 2 = nodes.size ∧ 0 < seam.1 ∧ seam.2 = innerForward nodes seam.1 := by
  intro seam hseam
  have henough := nodes.enough
  by_cases htwo : nodes.size = 2
  · simp [existingSeam, assemble, buildSections, htwo] at hseam
  · obtain ⟨m, hm⟩ : ∃ m, nodes.size = m + 3 := ⟨nodes.size - 3, by omega⟩
    have hforward : (self.chooseSection sqrt (self.interval nodes none m)).fNext = innerForward nodes (m + 1) := by
      rw [fNext_chooseSection _ hq]
      exact boundaryForward_inner (Nat.succ_ne_zero m) (by omega)
    simp [existingSeam, assemble, buildSections, hm, hforward] at hseam
    obtain rfl := hseam
    exact ⟨hm.symm, Nat.succ_pos m, rfl⟩

/-- **A step is built like the interpolation of its prefix**, but for its last section until the last node. -/
theorem grow_ok (h : self.Accepts x y) {localisation : ℕ} (hl : 1 ≤ localisation) :
    ∀ (k : ℕ) (hk : localisation + 1 + k ≤ x.length), self.grow sqrt x y localisation k =
      .ok (self.assemble sqrt (h.take (m := localisation + 1 + k) (by omega) hk).nodes
        (decide (localisation + 1 + k ≠ x.length)) none)
  | 0, hk     => by
    have hlen : (x.take (localisation + 1)).length = localisation + 1 := List.length_take_of_le hk
    rw [grow, localInterpolate, if_pos hlen, newImpl_ok sqrt (h.take (m := localisation + 1) (by omega) hk) (by simp), hlen]
  | k + 1, hk => by
    have ih := grow_ok h hl k (by omega)
    have haccepts := h.take (m := localisation + 1 + k) (by omega) (by omega)
    have haccepts' := h.take (m := localisation + 1 + (k + 1)) (by omega) hk
    have hlen : (x.take (localisation + 1 + k)).length = localisation + 1 + k := List.length_take_of_le (by omega)
    have hlen' : (x.take (localisation + 1 + (k + 1))).length = localisation + 1 + (k + 1) := List.length_take_of_le hk
    have hconstant : decide (localisation + 1 + k ≠ x.length) = true := by simpa using by omega
    have hseam : ∀ seam ∈ existingSeam (self.assemble sqrt haccepts.nodes true none), _ :=
      seam_inner h.quadraticity haccepts.nodes
    have hinner : Inner haccepts'.nodes (existingSeam (self.assemble sqrt haccepts.nodes true none)) := by
      intro seam hmem
      obtain ⟨hsize, hpos, heq⟩ := hseam seam hmem
      have hsize' : seam.1 + 2 = localisation + 1 + k := hsize.trans hlen
      refine ⟨?_, ?_⟩
      · show seam.1 + 1 < (x.take (localisation + 1 + (k + 1))).length
        omega
      · rw [heq, innerForward_take h haccepts (by omega), innerForward_take h haccepts' (by omega)]
    have hgrow : self.grow sqrt x y localisation (k + 1) =
        self.localInterpolate sqrt (x.take (localisation + 1 + (k + 1))) (y.take (localisation + 1 + (k + 1)))
          localisation (some (self.assemble sqrt haccepts.nodes true none)) x.length := by
      rw [grow, ih, hconstant]
      rfl
    rw [hgrow, localInterpolate, if_neg (by omega), newImpl_ok sqrt haccepts' (fun seam hmem => (hinner seam hmem).1), assemble_seed hinner, hlen']

/-- **Growing node by node ends in the interpolation built at once**, and before the last node each step evaluates like
the interpolation of its prefix everywhere but on the last interval. -/
theorem grow_oneShot (self : ConvexMonotone K) (sqrt : K → K) (x y : List K) (localisation : ℕ)
    (full : ConvexMonotoneInterpolation K) (hl : 1 ≤ localisation) (hfull : self.interpolate sqrt x y = .ok full) (k : ℕ)
    (hk : localisation + 1 + k ≤ x.length) :
    ∃ f g, self.grow sqrt x y localisation k = .ok f ∧
      self.interpolate sqrt (x.take (localisation + 1 + k)) (y.take (localisation + 1 + k)) = .ok g ∧
      (localisation + 1 + k = x.length → ∀ allow t,
        (f.withExtrapolation allow).value t = (full.withExtrapolation allow).value t ∧
        (f.withExtrapolation allow).primitive t = (full.withExtrapolation allow).primitive t) ∧
      (∀ allow t, t < x.getD (localisation + k - 1) 0 →
        (f.withExtrapolation allow).value t = (g.withExtrapolation allow).value t ∧
        (f.withExtrapolation allow).primitive t = (g.withExtrapolation allow).primitive t) ∧
      (∀ t, x.getD (localisation + k) 0 < t → f.value t = g.value t ∧ f.primitive t = g.primitive t) := by
  have h := accepts_of_ok hfull
  have haccepts := h.take (m := localisation + 1 + k) (by omega) hk
  have hlen : (x.take (localisation + 1 + k)).length = localisation + 1 + k := List.length_take_of_le hk
  have hone := interpolate_ok sqrt haccepts
  refine ⟨_, _, grow_ok h hl k hk, hone, fun hend allow t => ?_, fun allow t ht => ?_, fun t ht => ?_⟩
  · have hx : x.take (localisation + 1 + k) = x := List.take_of_length_le hend.ge
    have hy : y.take (localisation + 1 + k) = y := List.take_of_length_le (h.lengths ▸ hend.ge)
    have hsame : self.interpolate sqrt (x.take (localisation + 1 + k)) (y.take (localisation + 1 + k)) =
        self.interpolate sqrt x y := by rw [hx, hy]
    have hlast : decide (localisation + 1 + k ≠ x.length) = false := by simpa using hend
    rw [hsame, hfull] at hone
    rw [hlast, Except.ok.inj hone]
    exact ⟨rfl, rfl⟩
  · cases decide (localisation + 1 + k ≠ x.length) with
    | false => exact ⟨rfl, rfl⟩
    | true  =>
      refine ConvexMonotoneInterpolation.evaluate_congr rfl rfl (helper_before allow ?_)
      show t < (x.take (localisation + 1 + k)).getD ((x.take (localisation + 1 + k)).length - 2) 0
      rw [hlen, show localisation + 1 + k - 2 = localisation + k - 1 by omega, getD_take (by omega)]
      exact ht
  · refine ConvexMonotoneInterpolation.evaluate_past rfl rfl rfl ?_
    show (x.take (localisation + 1 + k)).getD ((x.take (localisation + 1 + k)).length - 1) 0 < t
    rw [hlen, show localisation + 1 + k - 1 = localisation + k by omega, getD_take (by omega)]
    exact ht

theorem grow_oneShot_four : ∃ f full, (⟨3 / 10, 7 / 10, true⟩ : ConvexMonotone ℝ).grow Real.sqrt [0, 1, 2, 4] [1, 1, 2, 1] 1 2 =
    .ok f ∧ (⟨3 / 10, 7 / 10, true⟩ : ConvexMonotone ℝ).interpolate Real.sqrt [0, 1, 2, 4] [1, 1, 2, 1] = .ok full ∧
    ∀ t, (f.withExtrapolation true).value t = (full.withExtrapolation true).value t := by
  have haccepts : (⟨3 / 10, 7 / 10, true⟩ : ConvexMonotone ℝ).Accepts [0, 1, 2, 4] [1, 1, 2, 1] := by
    refine ⟨rfl, by norm_num, by norm_num, by decide, fun i hi => ?_⟩
    have hlt : i < 3 := hi
    interval_cases i <;> norm_num
  obtain ⟨f, g, hf, -, hend, -⟩ := grow_oneShot _ Real.sqrt _ _ 1 _ le_rfl (interpolate_ok Real.sqrt haccepts) 2 (by decide)
  exact ⟨f, _, hf, interpolate_ok Real.sqrt haccepts, fun t => (hend rfl true t).1⟩

end ConvexMonotone

end Itofin
