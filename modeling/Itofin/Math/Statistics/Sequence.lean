import Mathlib.Algebra.BigOperators.Ring.List
import Mathlib.Algebra.Order.BigOperators.Group.List
import Mathlib.Algebra.Order.Ring.Abs
import Itofin.Math.Statistics
/-!
# Sequence — vector samples and their mean

`SequenceStatistics` of `math/statistics/sequence.rs`: samples are rows of numbers with a weight.  Its arithmetic is a
parameter, which may round (`Arithmetic`); nothing is assumed of it where rows are added.

The mean of a column is taken about a sample of it, scaled, and with square roots of the weights.  In exact arithmetic that
is the sum of the weighted values over the sum of the weights (`mean_exact`).
-/
namespace Itofin

/-- What the code uses of `f64` besides the operations of numbers. -/
structure Arithmetic (F : Type) where
  abs      : F → F
  max      : F → F → F
  sqrt     : F → F
  lt       : F → F → Bool
  le       : F → F → Bool
  /-- `a.total_cmp(b) != Greater` -/
  totalLe  : F → F → Bool
  isZero   : F → Bool
  isFinite : F → Bool

structure SequenceStatistics (F : Type) where
  dimension : ℕ
  /-- In rows of the dimension. -/
  values    : List (List F)
  weights   : List F
  weightSum : F
deriving DecidableEq

/-- `validate_sequence_shape` of a measure that is a vector. -/
def validateSequenceShape {F : Type} (rows dimension : ℕ) : Except (Failure F) ℕ := do
  require (0 < dimension ∧ dimension ≤ 256) "sequence dimension must be in 1..=256"
  require (0 < rows ∧ rows ≤ 100000) "sequence rows must be in 1..=100000"
  require (rows * dimension ≤ 1000000) "sequence component limit exceeded"
  .ok dimension

namespace SequenceStatistics

structure Center (F : Type) where
  origin         : F
  scale          : F
  normalizedMean : F
  mean           : F

section

variable {F : Type} [Zero F] [One F] [Add F] [Sub F] [Mul F] [Div F] (N : Arithmetic F)

def new (dimension : ℕ) : Except (Failure F) (SequenceStatistics F) := do
  let _ ← validateSequenceShape 1 dimension
  .ok ⟨dimension, [], [], 0⟩

def samples (s : SequenceStatistics F) : ℕ := s.weights.length

def addWeighted (s : SequenceStatistics F) (sample : List F) (weight : F) :
    Except (Failure F) (SequenceStatistics F) := do
  require (sample.length = s.dimension) "sequence sample dimension mismatch"
  require (sample.all N.isFinite) "nonfinite sequence sample"
  require (N.isFinite weight ∧ N.le 0 weight) "invalid sequence weight"
  let total := s.weightSum + weight
  require (N.isFinite total) "sequence weight sum overflow"
  let _ ← validateSequenceShape (s.samples + 1) s.dimension
  .ok { s with values := s.values ++ [sample], weights := s.weights ++ [weight], weightSum := total }

def requireWeight (s : SequenceStatistics F) : Except (Failure F) Unit :=
  require (N.isFinite s.weightSum ∧ N.lt 0 s.weightSum) "sequence total weight must be positive"

def finite (value : F) : Except (Failure F) F := do
  require (N.isFinite value) "sequence statistic result is nonfinite"
  .ok value

def compensatedStep (acc : F × F) (value : F) : F × F :=
  let next := acc.1 + value
  (next, acc.2 + if N.le (N.abs value) (N.abs acc.1) then (acc.1 - next) + value else (value - next) + acc.1)

def compensatedSum (values : List F) : F :=
  let acc := values.foldl (compensatedStep N) (0, 0)
  acc.1 + acc.2

/-- `max_by(|(_, a), (_, b)| a.total_cmp(b)).map(|(index, _)| index)`, the last of the largest. -/
def heaviest (weights : List F) : Option ℕ :=
  (weights.zipIdx.foldl (fun best p => match best with
    | none   => some p
    | some q => if N.totalLe q.1 p.1 then some p else some q) none).map Prod.snd

/-- `.filter(|(_, weight)| **weight > 0.0)` -/
def weighted (column : List (F × F)) : List (F × F) := column.filter (fun p => N.lt 0 p.2)

def scaleStep (origin scale : F) (p : F × F) : F :=
  if N.lt 0 p.2 then N.max scale (N.abs (p.1 - origin)) else scale

def scaleAbout (origin : F) (column : List (F × F)) : F := column.foldl (scaleStep N origin) 0

/-- The terms `(value, root_weight)`. -/
def terms (origin scale rootTotal : F) (column : List (F × F)) : List (F × F) :=
  (weighted N column).map (fun p =>
    let rootWeight := N.sqrt p.2 / rootTotal
    (((p.1 - origin) / scale) * rootWeight, rootWeight))

/-- The mean of what is far from its origin. -/
def directMean (weightSum rootTotal : F) (column : List (F × F)) : F :=
  compensatedSum N ((weighted N column).map (fun p =>
    let ratio := p.2 / weightSum
    if N.lt 0 ratio then p.1 * ratio
    else
      let rootWeight := N.sqrt p.2 / rootTotal
      (p.1 * rootWeight) * rootWeight))

def centerAbout (weightSum : F) (column : List (F × F)) (origin scale : F) : Except (Failure F) (Center F) :=
  if N.isZero scale then .ok ⟨origin, scale, 0, origin⟩
  else do
    let rootTotal := N.sqrt weightSum
    let terms := terms N origin scale rootTotal column
    let normalizedMean := compensatedSum N (terms.map (fun t => t.1 * t.2))
    let offset := compensatedSum N (terms.map (fun t => (t.1 * scale) * t.2))
    let shiftedMean := origin + offset
    let mean :=
      if N.isFinite shiftedMean && N.le scale (1 / (1 + 1) * N.abs origin) then shiftedMean
      else directMean N weightSum rootTotal column
    let mean ← finite N mean
    .ok ⟨origin, scale, normalizedMean, mean⟩

def column (s : SequenceStatistics F) (i : ℕ) : List (F × F) :=
  (s.values.zip s.weights).map (fun p => (p.1.getD i 0, p.2))

def center (s : SequenceStatistics F) (i : ℕ) : Except (Failure F) (Center F) :=
  match heaviest N s.weights with
  | none       => .error (.message "sequence total weight must be positive")
  | some index =>
    let origin := (s.values.getD index []).getD i 0
    let scale := scaleAbout N origin (s.column i)
    if N.isFinite scale then centerAbout N s.weightSum (s.column i) origin scale
    else centerAbout N s.weightSum (s.column i) 0 (((weighted N (s.column i)).map (fun p => N.abs p.1)).foldl N.max 0)

def mean (s : SequenceStatistics F) : Except (Failure F) (List F) := do
  requireWeight N s
  (List.range s.dimension).mapM (fun i => do
    let center ← s.center N i
    .ok center.mean)

end

end SequenceStatistics

/-! ## In exact arithmetic -/

/-- Exact arithmetic, with a square root. -/
def Arithmetic.exact {K : Type} [Field K] [LinearOrder K] (sqrt : K → K) : Arithmetic K where
  abs x       := |x|
  max         := Max.max
  sqrt        := sqrt
  lt x y      := x < y
  le x y      := x ≤ y
  totalLe x y := x ≤ y
  isZero x    := x = 0
  isFinite _  := true

namespace SequenceStatistics

variable {K : Type} [Field K] [LinearOrder K] {sqrt : K → K} {column : List (K × K)} {weightSum origin scale : K}

theorem compensatedStep_exact (sqrt : K → K) (sum value : K) :
    compensatedStep (.exact sqrt) (sum, 0) value = (sum + value, 0) := by
  unfold compensatedStep
  dsimp only
  refine Prod.ext rfl ?_
  dsimp only
  split <;> ring

theorem compensatedSum_exact (sqrt : K → K) (values : List K) : compensatedSum (.exact sqrt) values = values.sum := by
  have hfold : ∀ (l : List K) (sum : K), l.foldl (compensatedStep (.exact sqrt)) (sum, 0) = (sum + l.sum, 0) := by
    intro l
    induction l with
    | nil => intro sum; rw [List.foldl_nil, List.sum_nil, add_zero]
    | cons a l ih => intro sum; rw [List.foldl_cons, compensatedStep_exact, ih, List.sum_cons, add_assoc]
  rw [compensatedSum, hfold]
  dsimp only
  rw [zero_add, add_zero]

theorem sum_weighted {f : K × K → K} (hw : ∀ p ∈ column, 0 ≤ p.2) (hf : ∀ p, p.2 = 0 → f p = 0) :
    ((weighted (.exact sqrt) column).map f).sum = (column.map f).sum := by
  induction column with
  | nil => rfl
  | cons p column ih =>
    have ih := ih (fun q hq => hw q (List.mem_cons_of_mem _ hq))
    rw [weighted] at ih ⊢
    rcases (hw p List.mem_cons_self).eq_or_lt with hp | hp
    · rw [List.filter_cons_of_neg (by simp [Arithmetic.exact, ← hp]), ih, List.map_cons, List.sum_cons, hf p hp.symm, zero_add]
    · rw [List.filter_cons_of_pos (by simp [Arithmetic.exact, hp]), List.map_cons, List.map_cons, List.sum_cons,
        List.sum_cons, ih]

theorem mem_weighted {p : K × K} : p ∈ weighted (.exact sqrt) column ↔ p ∈ column ∧ 0 < p.2 := by
  rw [weighted, List.mem_filter]
  exact and_congr_right' decide_eq_true_iff

theorem scaleStep_exact (sqrt : K → K) (origin scale : K) (p : K × K) :
    scaleStep (.exact sqrt) origin scale p = if 0 < p.2 then max scale |p.1 - origin| else scale :=
  if_congr decide_eq_true_iff rfl rfl

theorem le_scaleAbout (sqrt : K → K) (origin : K) : ∀ (column : List (K × K)) (a : K),
    a ≤ column.foldl (scaleStep (.exact sqrt) origin) a ∧
      ∀ p ∈ column, 0 < p.2 → |p.1 - origin| ≤ column.foldl (scaleStep (.exact sqrt) origin) a
  | [], _          => ⟨le_rfl, nofun⟩
  | p :: column, a => by
    rw [List.foldl_cons]
    obtain ⟨hle, hall⟩ := le_scaleAbout sqrt origin column (scaleStep (.exact sqrt) origin a p)
    rw [scaleStep_exact] at hle hall ⊢
    refine ⟨le_trans ?_ hle, fun q hq hpos => ?_⟩
    · split
      · exact le_max_left _ _
      · exact le_rfl
    · rcases List.mem_cons.mp hq with rfl | hq
      · refine le_trans ?_ hle
        rw [if_pos hpos]
        exact le_max_right _ _
      · exact hall q hq hpos

variable [IsStrictOrderedRing K]

/-- Where nothing is away from the origin, every value with a weight is the origin. -/
theorem eq_origin (hscale : scaleAbout (.exact sqrt) origin column = 0) : ∀ p ∈ column, 0 < p.2 → p.1 = origin := by
  intro p hp hpos
  have hle := (le_scaleAbout sqrt origin column 0).2 p hp hpos
  rw [scaleAbout] at hscale
  rw [hscale] at hle
  exact sub_eq_zero.mp (abs_nonpos_iff.mp hle)

omit [IsStrictOrderedRing K] in
/-- The square roots of the weights are of no consequence: their product is the share of the total. -/
theorem share_eq (hsqrt : ∀ x, 0 ≤ x → sqrt x * sqrt x = x) {w total : K} (hw : 0 ≤ w) (ht : 0 ≤ total) :
    sqrt w / sqrt total * (sqrt w / sqrt total) = w / total := by
  rw [div_mul_div_comm, hsqrt w hw, hsqrt total ht]

omit [IsStrictOrderedRing K] in
theorem sum_terms (hsqrt : ∀ x, 0 ≤ x → sqrt x * sqrt x = x) (hw : ∀ p ∈ column, 0 ≤ p.2) (ht : 0 ≤ weightSum)
    (hs : scale ≠ 0) :
    ((terms (.exact sqrt) origin scale (sqrt weightSum) column).map (fun t => (t.1 * scale) * t.2)).sum =
      (column.map (fun p => (p.1 - origin) * (p.2 / weightSum))).sum := by
  rw [terms, List.map_map, ← sum_weighted hw (f := fun p => (p.1 - origin) * (p.2 / weightSum))
    (fun p hp => by rw [hp, zero_div, mul_zero])]
  refine congrArg List.sum (List.map_congr_left (fun p hp => ?_))
  change ((p.1 - origin) / scale * (sqrt p.2 / sqrt weightSum) * scale) * (sqrt p.2 / sqrt weightSum) = _
  rw [← share_eq hsqrt (mem_weighted.mp hp).2.le ht]
  field_simp

theorem directMean_exact (hw : ∀ p ∈ column, 0 ≤ p.2) (ht : 0 < weightSum) (rootTotal : K) :
    directMean (.exact sqrt) weightSum rootTotal column = (column.map (fun p => p.1 * (p.2 / weightSum))).sum := by
  rw [directMean, compensatedSum_exact, ← sum_weighted hw (f := fun p => p.1 * (p.2 / weightSum))
    (fun p hp => by rw [hp, zero_div, mul_zero])]
  refine congrArg List.sum (List.map_congr_left (fun p hp => ?_))
  exact if_pos (decide_eq_true (div_pos (mem_weighted.mp hp).2 ht))

omit [LinearOrder K] [IsStrictOrderedRing K] in
theorem sum_share (column : List (K × K)) (weightSum : K) :
    (column.map (fun p => p.1 * (p.2 / weightSum))).sum = (column.map (fun p => p.1 * p.2)).sum / weightSum := by
  rw [div_eq_mul_inv, ← List.sum_map_mul_right]
  refine congrArg List.sum (List.map_congr_left (fun p _ => ?_))
  rw [div_eq_mul_inv, mul_assoc]

omit [IsStrictOrderedRing K] in
theorem sum_share_sub (ht : 0 < weightSum) (hsum : (column.map Prod.snd).sum = weightSum) :
    origin + (column.map (fun p => (p.1 - origin) * (p.2 / weightSum))).sum =
      (column.map (fun p => p.1 * p.2)).sum / weightSum := by
  have hone : (column.map (fun p => p.2 / weightSum)).sum = 1 := by
    simp only [div_eq_mul_inv]
    rw [List.sum_map_mul_right, hsum]
    exact mul_inv_cancel₀ ht.ne'
  have hadd : (column.map (fun p => p.1 * (p.2 / weightSum))).sum =
      (column.map (fun p => (p.1 - origin) * (p.2 / weightSum))).sum +
        (column.map (fun p => origin * (p.2 / weightSum))).sum := by
    rw [← List.sum_map_add]
    refine congrArg List.sum (List.map_congr_left (fun p _ => ?_))
    rw [← add_mul, sub_add_cancel]
  rw [← sum_share, hadd, List.sum_map_mul_left, hone, mul_one, add_comm]

/-- **The mean about an origin.** -/
theorem centerAbout_mean (hsqrt : ∀ x, 0 ≤ x → sqrt x * sqrt x = x) (hw : ∀ p ∈ column, 0 ≤ p.2) (hpos : 0 < weightSum)
    (hsum : (column.map Prod.snd).sum = weightSum) (hscale : scale = 0 → ∀ p ∈ column, 0 < p.2 → p.1 = origin) :
    ∃ c, centerAbout (.exact sqrt) weightSum column origin scale = .ok c ∧
      c.mean = (column.map (fun p => p.1 * p.2)).sum / weightSum := by
  by_cases hs : scale = 0
  · refine ⟨_, if_pos (decide_eq_true hs), (eq_div_iff hpos.ne').mpr ?_⟩
    have hpick : ∀ p ∈ column, p.1 * p.2 = origin * p.2 := fun p hp => by
      rcases (hw p hp).eq_or_lt with hz | hz
      · rw [← hz, mul_zero, mul_zero]
      · rw [hscale hs p hp hz]
    rw [List.map_congr_left hpick, List.sum_map_mul_left, hsum]
  · refine ⟨_, (if_neg (fun h => hs (of_decide_eq_true h))).trans rfl, ?_⟩
    dsimp only
    split
    · rw [compensatedSum_exact]
      exact (congrArg _ (sum_terms hsqrt hw hpos.le hs)).trans (sum_share_sub hpos hsum)
    · rw [directMean_exact hw hpos, sum_share]

omit [Field K] [LinearOrder K] [IsStrictOrderedRing K] in
theorem heaviest_isSome {F : Type} (N : Arithmetic F) {weights : List F} (h : weights ≠ []) :
    ∃ i, heaviest N weights = some i := by
  have hfold : ∀ (l : List (F × ℕ)) (q : F × ℕ), ∃ r, l.foldl (fun best p => match best with
      | none   => some p
      | some q => if N.totalLe q.1 p.1 then some p else some q) (some q) = some r := by
    intro l
    induction l with
    | nil => exact fun q => ⟨q, rfl⟩
    | cons p l ih =>
      intro q
      rw [List.foldl_cons]
      dsimp only
      split
      · exact ih p
      · exact ih q
  cases weights with
  | nil => exact absurd rfl h
  | cons w weights =>
    obtain ⟨r, hr⟩ := hfold (weights.zipIdx 1) (w, 0)
    exact ⟨r.2, congrArg (Option.map Prod.snd) hr⟩

/-- Rows with their weights, of which some weigh. -/
structure Weighed (s : SequenceStatistics K) : Prop where
  nonneg : ∀ w ∈ s.weights, 0 ≤ w
  rows   : s.values.length = s.weights.length
  total  : s.weights.sum = s.weightSum
  pos    : 0 < s.weightSum

variable {s : SequenceStatistics K}

theorem Weighed.center (hsqrt : ∀ x, 0 ≤ x → sqrt x * sqrt x = x) (h : Weighed s) (i : ℕ) :
    ∃ c, s.center (.exact sqrt) i = .ok c ∧ c.mean = ((s.column i).map (fun p => p.1 * p.2)).sum / s.weightSum := by
  have hsnd : (s.column i).map Prod.snd = s.weights := by
    rw [column, List.map_map]
    exact List.map_snd_zip h.rows.ge
  have hw : ∀ p ∈ s.column i, 0 ≤ p.2 := fun p hp => h.nonneg p.2 (hsnd ▸ List.mem_map_of_mem hp)
  have hne : s.weights ≠ [] := fun hnil => by
    have := h.pos
    rw [← h.total, hnil] at this
    exact lt_irrefl _ this
  obtain ⟨index, hindex⟩ := heaviest_isSome (.exact sqrt) hne
  rw [SequenceStatistics.center, hindex]
  exact centerAbout_mean hsqrt hw h.pos ((congrArg List.sum hsnd).trans h.total) eq_origin

/-- **The mean in exact arithmetic.** -/
theorem mean_exact (hsqrt : ∀ x, 0 ≤ x → sqrt x * sqrt x = x) (h : Weighed s) : s.mean (.exact sqrt) =
    .ok ((List.range s.dimension).map (fun i => ((s.column i).map (fun p => p.1 * p.2)).sum / s.weightSum)) := by
  have hall : ∀ l : List ℕ, l.mapM (fun i => do
      let center ← s.center (.exact sqrt) i
      .ok center.mean) =
        Except.ok (l.map (fun i => ((s.column i).map (fun p => p.1 * p.2)).sum / s.weightSum)) := by
    intro l
    induction l with
    | nil => rfl
    | cons i l ih =>
      obtain ⟨c, hc, hmean⟩ := h.center hsqrt i
      rw [List.mapM_cons, hc, ih, List.map_cons, ← hmean]
      rfl
  rw [mean, requireWeight, require_bind, if_pos ⟨rfl, decide_eq_true h.pos⟩]
  exact hall _

end SequenceStatistics

end Itofin
