import Itofin.Optimize.FiniteDifference
import Mathlib.Data.Matrix.Mul
import Mathlib.Data.List.Chain
import Mathlib.Algebra.Order.Ring.Abs
import Mathlib.Algebra.Order.Ring.Rat
import Mathlib.Data.Rat.BigOperators
import Mathlib.Tactic.FinCases
import Mathlib.Tactic.Linarith
import Mathlib.Tactic.NormNum
import Mathlib.Tactic.Positivity
/-!
# LineSearch — a step satisfying the strong Wolfe conditions

`line_search.rs`, in exact arithmetic.  Trial steps grow until they bracket a step that the conditions accept, and the zoom
shrinks the bracket.  A search remembers its trial steps and its brackets.

The low end of a bracket decreases the objective enough, its slope points into the bracket, and its value is not above that
of the high end unless the high end fails the sufficient decrease (`Bracketed`).
-/
namespace Itofin
namespace Optimize
namespace LineSearch

open Effect Matrix

section

variable (K : Type) (n : ℕ)

/-- The line search parameters. -/
structure Wolfe where
  c1      : K
  c2      : K
  alpha0  : K
  amax    : K
  maxiter : ℕ
  eps     : Option K

/-- The point the search starts from. -/
structure Start where
  x : Fin n → K
  f : K
  g : Fin n → K

/-- An accepted step and the objective state it reaches. -/
structure Step where
  alpha : K
  x     : Fin n → K
  f     : K
  g     : Fin n → K

/-- A search along a direction from a point. -/
structure Line where
  start  : Start K n
  p      : Fin n → K
  params : Wolfe K

/-- A trial whose slope was evaluated. -/
structure Known where
  alpha : K
  f     : K
  dphi  : K
deriving DecidableEq

/-- A trial whose slope may not have been evaluated. -/
structure Trial where
  alpha : K
  f     : K
  dphi  : Option K
deriving DecidableEq

end

def Known.toTrial {K : Type} (known : Known K) : Trial K := ⟨known.alpha, known.f, some known.dphi⟩

/-- Why the search found no step, as opposed to why the run stopped. -/
inductive LineSearchFailure where
  | notDescent
  | noStrongWolfeStep
deriving DecidableEq

/-- Everything the search can end with other than a step. -/
inductive LineSearchError (E : Type) where
  | halt (halt : Halt E)
  | failure (failure : LineSearchFailure)
deriving DecidableEq

/-- The counters, the trial steps so far, which the source only counts, and the brackets. -/
structure Search (S E K : Type) (n : ℕ) where
  counters : Counters S E K (Option K) n
  trials   : List K
  brackets : List (Known K × Trial K)

variable {S E K : Type} [Field K] [LinearOrder K] {n : ℕ}

/-! ## Interpolation -/

/-- The fraction of the bracket width an interpolated trial must keep from either endpoint. -/
def safeguard : K := 1 / (10 : ℕ)

/-- `f64::EPSILON` -/
def epsilon : K := 1 / (2 ^ 52 : ℕ)

/-- A quotient that is finite. -/
def divide (x y : K) : Option K := if y = 0 then none else some (x / y)

/-- The minimizer of the cubic through both endpoints, or of the quadratic when `hi` has no slope; `none` is that it is not
finite. -/
def candidate (sqrt : K → K) (lo : Known K) (hi : Trial K) : Option K :=
  let (a, b) := (lo.alpha, hi.alpha)
  match hi.dphi with
  | some db => do
    let d1 := lo.dphi + db - (← divide ((3 : ℕ) * (lo.f - hi.f)) (a - b))
    let radicand := d1 * d1 - lo.dphi * db
    if radicand < 0 then none
    else
      let d2 := (if b - a < 0 then -1 else 1) * sqrt radicand
      return b - (← divide ((b - a) * (db + d2 - d1)) (db - lo.dphi + (2 : ℕ) * d2))
  | none    => do
    let span := b - a
    return a - (← divide (lo.dphi * span * span) ((2 : ℕ) * (hi.f - lo.f - lo.dphi * span)))

/-- The candidate, inside the bracket by `safeguard`, else the middle. -/
def interpolate (sqrt : K → K) (lo : Known K) (hi : Trial K) : K :=
  let (a, b) := (lo.alpha, hi.alpha)
  let margin := safeguard * |b - a|
  let middle := 1 / (2 : ℕ) * (a + b)
  match candidate sqrt lo hi with
  | some c => if min a b + margin ≤ c ∧ c ≤ max a b - margin then c else middle
  | none   => middle

/-! ## The search -/

section

variable (sqrt : K → K) (relativeStep : FiniteDifference → K) (objective : Objective S E K (Option K) n)
  (budget : Common (Option K)) (scheme : FiniteDifference) (l : Line K n)

def Line.dphi0 : K := l.start.g ⬝ᵥ l.p

/-- `decreases` -/
def Line.Decreases (alpha f : K) : Prop := f ≤ l.start.f + l.params.c1 * alpha * l.dphi0

/-- `flat` -/
def Line.Flat (dphi : K) : Prop := |dphi| ≤ -l.params.c2 * l.dphi0

instance (alpha f : K) : Decidable (l.Decreases alpha f) := inferInstanceAs (Decidable (_ ≤ _))

instance (dphi : K) : Decidable (l.Flat dphi) := inferInstanceAs (Decidable (_ ≤ _))

/-- A program on the counters. -/
def onCounters {α : Type} (x : Prog (Counters S E K (Option K) n) (Halt E) α) : Prog (Search S E K n) (LineSearchError E) α :=
  (x.zoom Search.counters (fun counters s => { s with counters })).mapError .halt

/-- `value`: the point of a trial step and its value. -/
def value (alpha : K) : Prog (Search S E K n) (LineSearchError E) ((Fin n → K) × K) := do
  let s ← Prog.get
  Prog.require (s.trials.length < l.params.maxiter) (.failure .noStrongWolfeStep)
  Prog.modify (fun s => { s with trials := s.trials ++ [alpha] })
  let x := l.start.x + alpha • l.p
  let f ← onCounters (Counters.value objective budget x >>= finite)
  return (x, f)

/-- `slope`: the slope along the direction and the gradient. -/
def slope (x : Fin n → K) (f : K) : Prog (Search S E K n) (LineSearchError E) (K × (Fin n → K)) := do
  let g ← onCounters (gradientWithStep relativeStep objective budget scheme l.params.eps x f)
  return (g ⬝ᵥ l.p, g)

/-- A turn of `zoom`: a step, or the next bracket. -/
def zoomTurn (b : Known K × Trial K) : Prog (Search S E K n) (LineSearchError E) (Step K n ⊕ Known K × Trial K) := do
  Prog.modify (fun s => { s with brackets := s.brackets ++ [b] })
  let (lo, hi) := b
  let width := hi.alpha - lo.alpha
  Prog.require (¬ |width| ≤ epsilon * max |lo.alpha| |hi.alpha|) (.failure .noStrongWolfeStep)
  let alpha := interpolate sqrt lo hi
  let t ← value objective budget l alpha
  if ¬ l.Decreases alpha t.2 ∨ lo.f ≤ t.2 then return .inr (lo, ⟨alpha, t.2, none⟩)
  else
    let d ← slope relativeStep objective budget scheme l t.1 t.2
    if l.Flat d.1 then return .inl ⟨alpha, t.1, t.2, d.2⟩
    else return .inr (⟨alpha, t.2, d.1⟩, if 0 ≤ d.1 * width then lo.toTrial else hi)

/-- A turn of the bracketing: a step, or a bracket for the zoom, or the trial to go on from. -/
def bracketTurn (a : Known K × K) :
    Prog (Search S E K n) (LineSearchError E) ((Step K n ⊕ Known K × Trial K) ⊕ Known K × K) := do
  let (previous, alpha) := a
  let t ← value objective budget l alpha
  if ¬ l.Decreases alpha t.2 ∨ 0 < previous.alpha ∧ previous.f ≤ t.2 then
    return .inl (.inr (previous, ⟨alpha, t.2, none⟩))
  else
    let d ← slope relativeStep objective budget scheme l t.1 t.2
    if l.Flat d.1 then return .inl (.inl ⟨alpha, t.1, t.2, d.2⟩)
    else if 0 ≤ d.1 then return .inl (.inr (⟨alpha, t.2, d.1⟩, previous.toTrial))
    else do
      Prog.require (¬ l.params.amax ≤ alpha) (.failure .noStrongWolfeStep)
      return .inr (⟨alpha, t.2, d.1⟩, min ((2 : ℕ) * alpha) l.params.amax)

/-- `strong_wolfe`.  `none` is that the turns did not do. -/
def strongWolfe : Prog (Search S E K n) (LineSearchError E) (Option (Step K n)) := do
  Prog.require (¬ 0 ≤ l.dphi0) (.failure .notDescent)
  match ← Prog.loop (bracketTurn relativeStep objective budget scheme l) (l.params.maxiter + 1)
      (⟨0, l.start.f, l.dphi0⟩, min l.params.alpha0 l.params.amax) with
  | none            => return none
  | some (.inl step) => return some step
  | some (.inr b)    => Prog.loop (zoomTurn sqrt relativeStep objective budget scheme l) (l.params.maxiter + 1) b

end
section

variable [IsStrictOrderedRing K]

/-- **A trial keeps its distance from both ends.** -/
theorem interpolate_mem (sqrt : K → K) (lo : Known K) (hi : Trial K) :
    min lo.alpha hi.alpha + safeguard * |hi.alpha - lo.alpha| ≤ interpolate sqrt lo hi ∧
      interpolate sqrt lo hi ≤ max lo.alpha hi.alpha - safeguard * |hi.alpha - lo.alpha| := by
  have hmiddle : min lo.alpha hi.alpha + safeguard * |hi.alpha - lo.alpha| ≤ 1 / ((2 : ℕ) : K) * (lo.alpha + hi.alpha) ∧
      1 / ((2 : ℕ) : K) * (lo.alpha + hi.alpha) ≤ max lo.alpha hi.alpha - safeguard * |hi.alpha - lo.alpha| := by
    rw [safeguard]
    push_cast
    rcases le_total lo.alpha hi.alpha with hle | hle
    · rw [min_eq_left hle, max_eq_right hle, abs_of_nonneg (sub_nonneg.2 hle)]
      constructor <;> linarith
    · rw [min_eq_right hle, max_eq_left hle, abs_of_nonpos (sub_nonpos.2 hle)]
      constructor <;> linarith
  rw [interpolate]
  cases candidate sqrt lo hi with
  | none   => exact hmiddle
  | some c =>
    dsimp only
    split
    · rename_i hc
      exact hc
    · exact hmiddle

/-- **A trial shrinks the bracket to nine tenths**, whichever of its ends it replaces. -/
theorem interpolate_shrinks (sqrt : K → K) (lo : Known K) (hi : Trial K) :
    |interpolate sqrt lo hi - lo.alpha| ≤ 9 / 10 * |hi.alpha - lo.alpha| ∧
      |hi.alpha - interpolate sqrt lo hi| ≤ 9 / 10 * |hi.alpha - lo.alpha| := by
  obtain ⟨hlow, hhigh⟩ := interpolate_mem sqrt lo hi
  rw [safeguard] at hlow hhigh
  push_cast at hlow hhigh
  generalize interpolate sqrt lo hi = alpha at *
  rcases le_total lo.alpha hi.alpha with hle | hle
  · rw [min_eq_left hle, abs_of_nonneg (sub_nonneg.2 hle)] at hlow
    rw [max_eq_right hle, abs_of_nonneg (sub_nonneg.2 hle)] at hhigh
    rw [abs_of_nonneg (sub_nonneg.2 hle), abs_le, abs_le]
    refine ⟨⟨?_, ?_⟩, ?_, ?_⟩ <;> linarith
  · rw [min_eq_right hle, abs_of_nonpos (sub_nonpos.2 hle)] at hlow
    rw [max_eq_left hle, abs_of_nonpos (sub_nonpos.2 hle)] at hhigh
    rw [abs_of_nonpos (sub_nonpos.2 hle), abs_le, abs_le]
    refine ⟨⟨?_, ?_⟩, ?_, ?_⟩ <;> linarith

/-! ## Brackets -/

/-- **What holds of a bracket.** -/
structure Bracketed (l : Line K n) (lo : Known K) (hi : Trial K) : Prop where
  decreases : l.Decreases lo.alpha lo.f
  slope     : lo.dphi * (hi.alpha - lo.alpha) < 0
  value     : l.Decreases hi.alpha hi.f → lo.f ≤ hi.f
  low       : 0 ≤ lo.alpha ∧ lo.alpha ≤ l.params.amax
  high      : 0 ≤ hi.alpha ∧ hi.alpha ≤ l.params.amax

/-- A line along which a search starts: it descends, and the parameters are those of the strong Wolfe conditions. -/
structure Searched (l : Line K n) : Prop where
  descent : l.dphi0 < 0
  c1      : 0 < l.params.c1
  c2      : l.params.c1 < l.params.c2
  alpha0  : 0 < l.params.alpha0
  amax    : 0 < l.params.amax

variable {l : Line K n} {lo : Known K} {hi : Trial K} {alpha f dphi : K}

omit [IsStrictOrderedRing K] in
theorem Bracketed.ne (h : Bracketed l lo hi) : lo.alpha ≠ hi.alpha := by
  intro heq
  have hslope := h.slope
  rw [heq, sub_self, mul_zero] at hslope
  exact lt_irrefl _ hslope

theorem Bracketed.interpolate_range (h : Bracketed l lo hi) (sqrt : K → K) :
    0 < interpolate sqrt lo hi ∧ interpolate sqrt lo hi ≤ l.params.amax := by
  obtain ⟨hlow, hhigh⟩ := interpolate_mem sqrt lo hi
  have hwidth : (0 : K) < safeguard * |hi.alpha - lo.alpha| := by
    refine mul_pos ?_ (abs_pos.2 (sub_ne_zero.2 h.ne.symm))
    rw [safeguard]
    positivity
  have hmin : 0 ≤ min lo.alpha hi.alpha := le_min h.low.1 h.high.1
  have hmax : max lo.alpha hi.alpha ≤ l.params.amax := max_le h.low.2 h.high.2
  constructor <;> linarith

/-- The slope at a trial lies on the side of the bracket that the slope at its low end points to. -/
theorem Bracketed.towards (h : Bracketed l lo hi) (sqrt : K → K) :
    0 < (interpolate sqrt lo hi - lo.alpha) * (hi.alpha - lo.alpha) ∧
      0 < (hi.alpha - interpolate sqrt lo hi) * (hi.alpha - lo.alpha) := by
  obtain ⟨hlow, hhigh⟩ := interpolate_mem sqrt lo hi
  rw [safeguard] at hlow hhigh
  push_cast at hlow hhigh
  rcases lt_or_gt_of_ne h.ne with hlt | hlt
  · rw [min_eq_left hlt.le, abs_of_pos (sub_pos.2 hlt)] at hlow
    rw [max_eq_right hlt.le, abs_of_pos (sub_pos.2 hlt)] at hhigh
    constructor <;> apply mul_pos <;> linarith
  · rw [min_eq_right hlt.le, abs_of_neg (sub_neg.2 hlt)] at hlow
    rw [max_eq_left hlt.le, abs_of_neg (sub_neg.2 hlt)] at hhigh
    constructor <;> apply mul_pos_of_neg_of_neg <;> linarith

theorem neg_of_mul_pos {a b c : K} (h : a * b < 0) (hc : 0 < c * b) : a * c < 0 := by
  rcases lt_or_ge b 0 with hb | hb
  · have ha : 0 < a := pos_of_mul_neg_left h hb.le
    have hc : c < 0 := neg_of_mul_pos_left hc hb.le
    exact mul_neg_of_pos_of_neg ha hc
  · have ha : a < 0 := neg_of_mul_neg_left h hb
    have hc : 0 < c := pos_of_mul_pos_left hc hb
    exact mul_neg_of_neg_of_pos ha hc

/-- A trial that does not decrease the objective enough, or not below the low end, is the new high end. -/
theorem Bracketed.high_end (h : Bracketed l lo hi) (sqrt : K → K)
    (hf : ¬ l.Decreases (interpolate sqrt lo hi) f ∨ lo.f ≤ f) :
    Bracketed l lo ⟨interpolate sqrt lo hi, f, none⟩ where
  decreases := h.decreases
  slope     := neg_of_mul_pos h.slope (h.towards sqrt).1
  value hd  := hf.resolve_left (not_not.2 hd)
  low       := h.low
  high      := ⟨(h.interpolate_range sqrt).1.le, (h.interpolate_range sqrt).2⟩

omit [IsStrictOrderedRing K] in
theorem Searched.c2_pos (h : Searched l) : 0 < l.params.c2 := h.c1.trans h.c2

theorem Searched.slope_ne_zero (h : Searched l) (hflat : ¬ l.Flat dphi) : dphi ≠ 0 := by
  rintro rfl
  apply hflat
  rw [Line.Flat, abs_zero, neg_mul]
  exact neg_nonneg.2 (mul_nonpos_of_nonneg_of_nonpos h.c2_pos.le h.descent.le)

/-- A trial below the low end is the new low end, and the high end is the one its slope points to. -/
theorem Bracketed.low_end (h : Bracketed l lo hi) (hl : Searched l) (sqrt : K → K)
    (hd : l.Decreases (interpolate sqrt lo hi) f) (hf : f < lo.f) (hflat : ¬ l.Flat dphi) :
    Bracketed l ⟨interpolate sqrt lo hi, f, dphi⟩ (if 0 ≤ dphi * (hi.alpha - lo.alpha) then lo.toTrial else hi) := by
  obtain ⟨hfrom, hto⟩ := h.towards sqrt
  have hrange := h.interpolate_range sqrt
  split
  · rename_i hback
    have hpos : 0 < dphi * (hi.alpha - lo.alpha) := by
      refine lt_of_le_of_ne hback (Ne.symm (mul_ne_zero (hl.slope_ne_zero hflat) ?_))
      exact sub_ne_zero.2 h.ne.symm
    refine ⟨hd, ?_, fun _ => hf.le, ⟨hrange.1.le, hrange.2⟩, h.low⟩
    have hneg : -dphi * (hi.alpha - lo.alpha) < 0 := by linarith
    have := neg_of_mul_pos hneg hfrom
    change dphi * (lo.alpha - interpolate sqrt lo hi) < 0
    linarith
  · rename_i hgo
    exact ⟨hd, neg_of_mul_pos (not_le.1 hgo) hto, fun hd => hf.le.trans (h.value hd), ⟨hrange.1.le, hrange.2⟩, h.high⟩

end

/-! ## A direction that descends -/

section

variable {sqrt : K → K} {relativeStep : FiniteDifference → K} {objective : Objective S E K (Option K) n}
  {budget : Common (Option K)} {scheme : FiniteDifference} {l : Line K n}

omit [Field K] [LinearOrder K] in
theorem onCounters_raises {α : Type} (x : Prog (Counters S E K (Option K) n) (Halt E) α) :
    Raises (· ≠ .failure .notDescent) (onCounters x) := Raises.mapError _ fun _ => nofun

omit [LinearOrder K] in
theorem value_raises (alpha : K) : Raises (· ≠ .failure .notDescent) (value objective budget l alpha) :=
  Raises.get.bind fun _ => (Raises.require _ nofun).bind fun _ => (Raises.modify _).bind fun _ =>
    (onCounters_raises _).bind fun _ => Raises.pure _

theorem slope_raises (x : Fin n → K) (f : K) :
    Raises (· ≠ .failure .notDescent) (slope relativeStep objective budget scheme l x f) :=
  (onCounters_raises _).bind fun _ => Raises.pure _

theorem zoomTurn_raises (b : Known K × Trial K) :
    Raises (· ≠ .failure .notDescent) (zoomTurn sqrt relativeStep objective budget scheme l b) :=
  (Raises.modify _).bind fun _ => (Raises.require _ nofun).bind fun _ => (value_raises _).bind fun _ =>
    Raises.ite (Raises.pure _) ((slope_raises _ _).bind fun _ => Raises.ite (Raises.pure _) (Raises.pure _))

theorem bracketTurn_raises (a : Known K × K) :
    Raises (· ≠ .failure .notDescent) (bracketTurn relativeStep objective budget scheme l a) :=
  (value_raises _).bind fun _ => Raises.ite (Raises.pure _) ((slope_raises _ _).bind fun _ =>
    Raises.ite (Raises.pure _) (Raises.ite (Raises.pure _) ((Raises.require _ nofun).bind fun _ => Raises.pure _)))

/-- **A search along a direction that descends does not fail for the direction.** -/
theorem strongWolfe_raises (h : l.dphi0 < 0) :
    Raises (· ≠ .failure .notDescent) (strongWolfe sqrt relativeStep objective budget scheme l) := by
  rw [strongWolfe, Prog.require, if_pos (not_le.2 h)]
  refine Raises.bind (Raises.pure ()) (fun _ => (Raises.loop bracketTurn_raises _ _).bind (fun r => ?_))
  rcases r with _ | step | b
  · exact Raises.pure none
  · exact Raises.pure _
  · exact Raises.loop zoomTurn_raises _ _

end

/-! ## What evaluations keep -/

section

variable {sqrt : K → K} {relativeStep : FiniteDifference → K} {objective : Objective S E K (Option K) n}
  {budget : Common (Option K)} {scheme : FiniteDifference} {l : Line K n} {P : Counters S E K (Option K) n → Prop}

omit [Field K] [LinearOrder K] in
theorem onCounters_keeps {α : Type} {x : Prog (Counters S E K (Option K) n) (Halt E) α} (h : Keeps P x) :
    Keeps (fun s => P s.counters) (onCounters x) := fun s hs => h s.counters hs

omit [LinearOrder K] in
theorem value_keeps (h : Stable P fun _ => True) (alpha : K) : Keeps (fun s => P s.counters) (value objective budget l alpha) := by
  refine Keeps.get.bind fun _ => (Keeps.require _ _).bind fun _ => Keeps.bind (Keeps.modify ?_) fun _ => ?_
  · exact fun _ hs => hs
  · exact (onCounters_keeps (Keeps.of_triple ((h.value_triple trivial).bind finite_triple))).bind fun _ => Keeps.pure _

theorem slope_keeps (h : Stable P fun _ => True) (x : Fin n → K) (f : K) :
    Keeps (fun s => P s.counters) (slope relativeStep objective budget scheme l x f) :=
  (onCounters_keeps (Keeps.of_triple (h.gradient_triple (fun _ _ => trivial) f))).bind fun _ => Keeps.pure _

theorem zoomTurn_keeps (h : Stable P fun _ => True) (b : Known K × Trial K) :
    Keeps (fun s => P s.counters) (zoomTurn sqrt relativeStep objective budget scheme l b) := by
  refine Keeps.bind (Keeps.modify ?_) fun _ => (Keeps.require _ _).bind fun _ => (value_keeps h _).bind fun _ =>
    Keeps.ite (Keeps.pure _) ((slope_keeps h _ _).bind fun _ => Keeps.ite (Keeps.pure _) (Keeps.pure _))
  exact fun _ hs => hs

theorem bracketTurn_keeps (h : Stable P fun _ => True) (a : Known K × K) :
    Keeps (fun s => P s.counters) (bracketTurn relativeStep objective budget scheme l a) :=
  (value_keeps h _).bind fun _ => Keeps.ite (Keeps.pure _) ((slope_keeps h _ _).bind fun _ =>
    Keeps.ite (Keeps.pure _) (Keeps.ite (Keeps.pure _) ((Keeps.require _ _).bind fun _ => Keeps.pure _)))

/-- **A search keeps what every evaluation keeps.** -/
theorem strongWolfe_keeps (h : Stable P fun _ => True) :
    Keeps (fun s => P s.counters) (strongWolfe sqrt relativeStep objective budget scheme l) := by
  refine (Keeps.require _ _).bind (fun _ => (Keeps.loop (bracketTurn_keeps h) _ _).bind (fun r => ?_))
  rcases r with _ | step | b
  · exact Keeps.pure none
  · exact Keeps.pure _
  · exact Keeps.loop (zoomTurn_keeps h) _ _

end

/-! ## The run -/

section

/-- The next bracket is not wider than nine tenths of the one before. -/
def Shrunk (b b' : Known K × Trial K) : Prop := |b'.2.alpha - b'.1.alpha| ≤ 9 / 10 * |b.2.alpha - b.1.alpha|

/-- **What a search keeps**: its trial steps are in range and not too many, and its brackets shrink. -/
structure Sound (l : Line K n) (trials : List K) (brackets : List (Known K × Trial K)) : Prop where
  count     : trials.length ≤ l.params.maxiter
  range     : ∀ alpha ∈ trials, 0 < alpha ∧ alpha ≤ l.params.amax
  bracketed : ∀ b ∈ brackets, Bracketed l b.1 b.2
  shrinks   : brackets.IsChain Shrunk

/-- **A step satisfying the strong Wolfe conditions.** -/
structure Accepted (l : Line K n) (step : Step K n) : Prop where
  range     : 0 < step.alpha ∧ step.alpha ≤ l.params.amax
  point     : step.x = l.start.x + step.alpha • l.p
  decreases : l.Decreases step.alpha step.f
  flat      : l.Flat (step.g ⬝ᵥ l.p)

/-- A step that the search has found. -/
def Found (l : Line K n) (step : Step K n) (s : Search S E K n) : Prop :=
  Sound l s.trials s.brackets ∧ Accepted l step ∧ (step.x, .ok (some step.f)) ∈ s.counters.evaluations

/-- A search with so many trials and brackets behind it. -/
def At (trials : List K) (brackets : List (Known K × Trial K)) (C : Counters S E K (Option K) n → Prop) (s : Search S E K n) :
    Prop :=
  s.trials = trials ∧ s.brackets = brackets ∧ C s.counters

variable {l : Line K n} {alpha : K} {sqrt : K → K} {relativeStep : FiniteDifference → K} {objective : Objective S E K (Option K) n}
  {budget : Common (Option K)} {scheme : FiniteDifference} {trials : List K} {brackets : List (Known K × Trial K)}
  {b : Known K × Trial K}

theorem Sound.trial (h : Sound l trials brackets) (hcount : trials.length < l.params.maxiter)
    (ha : 0 < alpha ∧ alpha ≤ l.params.amax) : Sound l (trials ++ [alpha]) brackets where
  count     := by
    rw [List.length_append, List.length_singleton]
    exact hcount
  range a hmem := by
    rcases List.mem_append.1 hmem with hmem | hmem
    · exact h.range a hmem
    · rwa [List.mem_singleton.1 hmem]
  bracketed := h.bracketed
  shrinks   := h.shrinks

theorem Sound.bracket (h : Sound l trials brackets) (hb : Bracketed l b.1 b.2)
    (hlast : ∀ last ∈ brackets.getLast?, Shrunk last b) : Sound l trials (brackets ++ [b]) where
  count     := h.count
  range     := h.range
  bracketed b' hmem := by
    rcases List.mem_append.1 hmem with hmem | hmem
    · exact h.bracketed b' hmem
    · rwa [List.mem_singleton.1 hmem]
  shrinks   := by
    refine List.isChain_append.2 ⟨h.shrinks, List.isChain_singleton b, fun last hmem next hnext => ?_⟩
    obtain rfl : b = next := by simpa using hnext
    exact hlast last hmem

/-- A program on the counters leaves the trials and the brackets alone. -/
theorem onCounters_triple {α : Type} {C : Counters S E K (Option K) n → Prop} {C' : α → Counters S E K (Option K) n → Prop}
    {x : Prog (Counters S E K (Option K) n) (Halt E) α} (h : Triple C x C' (fun _ _ => True))
    (hsound : Sound l trials brackets) :
    Triple (At trials brackets C) (onCounters x) (fun a => At trials brackets (C' a))
      (fun _ s => Sound l s.trials s.brackets) := by
  intro s hs
  have := h s.counters hs.2.2
  rcases hx : x s.counters with ⟨e | a, c⟩ <;> rw [hx] at this <;> simp only [onCounters, Prog.mapError, Prog.zoom, hx]
  · change Sound l s.trials s.brackets
    rw [hs.1, hs.2.1]
    exact hsound
  · exact ⟨hs.1, hs.2.1, this⟩

omit [Field K] [LinearOrder K] in
theorem evaluated_triple (x : Fin n → K) :
    Triple (fun _ => True) (Counters.value objective budget x >>= finite) (fun f c => (x, .ok (some f)) ∈ c.evaluations)
      (fun _ _ => True) := by
  refine Triple.bind (Q := fun f c => (x, .ok f) ∈ c.evaluations)
    (Counters.value_triple _ (fun _ _ _ => trivial) (fun c f s _ _ => ?_) (fun _ _ _ _ _ => trivial)) (fun f => ?_)
  · exact List.mem_append_right _ (List.mem_singleton.2 rfl)
  · cases f with
    | none   => exact Triple.fail _ (fun _ _ => trivial)
    | some f => exact Triple.pure f (fun _ hs => hs)

theorem value_triple (hsound : Sound l trials brackets) (ha : 0 < alpha ∧ alpha ≤ l.params.amax) :
    Triple (At trials brackets (fun _ => True)) (value objective budget l alpha) (fun t s =>
        At (trials ++ [alpha]) brackets (fun c => (t.1, .ok (some t.2)) ∈ c.evaluations) s ∧
          t.1 = l.start.x + alpha • l.p ∧ Sound l (trials ++ [alpha]) brackets)
      (fun _ s => Sound l s.trials s.brackets) := by
  refine Triple.bind (Triple.get _) (fun s₀ => ?_)
  refine Triple.bind (Q := fun _ s => At trials brackets (fun _ => True) s ∧ trials.length < l.params.maxiter)
    ((Triple.require (fun _ s hs => ?_)).weaken (fun _ hs => hs) (fun _ s hs => ?_)) (fun _ => ?_)
  · obtain ⟨-, htrials, hbrackets, -⟩ := hs
    rw [htrials, hbrackets]
    exact hsound
  · obtain ⟨hcount, rfl, hs⟩ := hs
    exact ⟨hs, hs.1 ▸ hcount⟩
  · refine Triple.of_fact (fun hcount => ?_)
    have hnext := hsound.trial hcount ha
    refine Triple.bind (Q := fun _ => At (trials ++ [alpha]) brackets (fun _ => True)) (Triple.modify (fun s hs => ?_)) (fun _ => ?_)
    · exact ⟨congrArg (· ++ [alpha]) hs.1, hs.2.1, trivial⟩
    · exact Triple.bind (onCounters_triple (evaluated_triple _) hnext) (fun f => Triple.pure _ (fun s hs => ⟨hs, rfl, hnext⟩))

theorem slope_triple (hsound : Sound l trials brackets) (x : Fin n → K) (f : K) {e : Evaluation E K (Option K) n} :
    Triple (At trials brackets (fun c => e ∈ c.evaluations)) (slope relativeStep objective budget scheme l x f)
      (fun d s => At trials brackets (fun c => e ∈ c.evaluations) s ∧ d.1 = d.2 ⬝ᵥ l.p)
      (fun _ s => Sound l s.trials s.brackets) := by
  have hstable : Stable (fun c : Counters S E K (Option K) n => e ∈ c.evaluations) (fun _ => True) :=
    ⟨fun _ _ _ h => h, fun _ _ _ _ _ h => List.mem_append_left _ h⟩
  refine Triple.bind (onCounters_triple ((hstable.gradient_triple (fun _ _ => trivial) f).onError (fun _ _ _ => trivial)) hsound)
    (fun g => Triple.pure _ (fun s hs => ⟨hs, rfl⟩))

variable [IsStrictOrderedRing K]

/-- What a turn of the zoom leaves: a step, or a bracket that is not wider than nine tenths of the one before. -/
def ZoomTurned (l : Line K n) (trials : List K) (brackets : List (Known K × Trial K)) (b : Known K × Trial K) :
    Step K n ⊕ Known K × Trial K → Search S E K n → Prop
  | .inl step, s => Found l step s
  | .inr b', s   => Bracketed l b'.1 b'.2 ∧ Shrunk b b' ∧
    ∃ alpha, At (trials ++ [alpha]) (brackets ++ [b]) (fun _ => True) s ∧ Sound l (trials ++ [alpha]) (brackets ++ [b])

theorem zoomTurn_triple (hl : Searched l) (hb : Bracketed l b.1 b.2) (hsound : Sound l trials (brackets ++ [b])) :
    Triple (At trials brackets (fun _ => True)) (zoomTurn sqrt relativeStep objective budget scheme l b)
      (ZoomTurned l trials brackets b) (fun _ s => Sound l s.trials s.brackets) := by
  obtain ⟨lo, hi⟩ := b
  obtain ⟨hlow, hhigh⟩ := interpolate_shrinks sqrt lo hi
  refine Triple.bind (Q := fun _ => At trials (brackets ++ [(lo, hi)]) (fun _ => True)) (Triple.modify (fun s hs => ?_))
    (fun _ => ?_)
  · exact ⟨hs.1, congrArg (· ++ [(lo, hi)]) hs.2.1, trivial⟩
  refine Triple.bind (Q := fun _ => At trials (brackets ++ [(lo, hi)]) (fun _ => True))
    ((Triple.require (fun _ s hs => ?_)).weaken (fun _ hs => hs) (fun _ s hs => hs.2)) (fun _ => ?_)
  · rw [hs.1, hs.2.1]
    exact hsound
  refine Triple.bind (value_triple hsound (hb.interpolate_range sqrt)) (fun t => ?_)
  refine Triple.ite (fun hf => Triple.pure _ (fun s hs => ?_)) (fun hf => ?_)
  · exact ⟨hb.high_end sqrt hf, hlow, _, ⟨hs.1.1, hs.1.2.1, trivial⟩, hs.2.2⟩
  -- the trial decreases the objective, below the low end
  obtain ⟨hd, hlt⟩ := not_or.1 hf
  rintro s ⟨hs, hpoint, hnext⟩
  have hturn : Triple (At (trials ++ [interpolate sqrt lo hi]) (brackets ++ [(lo, hi)])
      (fun c => (t.1, .ok (some t.2)) ∈ c.evaluations))
      (slope relativeStep objective budget scheme l t.1 t.2 >>= fun d =>
        if l.Flat d.1 then return .inl ⟨interpolate sqrt lo hi, t.1, t.2, d.2⟩
        else return .inr (⟨interpolate sqrt lo hi, t.2, d.1⟩, if 0 ≤ d.1 * (hi.alpha - lo.alpha) then lo.toTrial else hi))
      (ZoomTurned l trials brackets (lo, hi)) (fun _ s => Sound l s.trials s.brackets) := by
    refine Triple.bind (slope_triple hnext t.1 t.2) (fun d => ?_)
    refine Triple.ite (fun hflat => Triple.pure _ (fun s hs => ?_)) (fun hflat => Triple.pure _ (fun s hs => ?_))
    · refine ⟨?_, ⟨hb.interpolate_range sqrt, hpoint, not_not.1 hd, hs.2 ▸ hflat⟩, hs.1.2.2⟩
      rw [hs.1.1, hs.1.2.1]
      exact hnext
    · refine ⟨hb.low_end hl sqrt (not_not.1 hd) (not_le.1 hlt) hflat, ?_, _, ⟨hs.1.1, hs.1.2.1, trivial⟩, hnext⟩
      rw [Shrunk]
      dsimp only
      split
      · rw [abs_sub_comm]
        exact hlow
      · exact hhigh
  exact hturn s hs

/-- **The zoom ends**, with a step if it does not fail. -/
theorem zoom_triple (hl : Searched l) (b : Known K × Trial K) :
    Triple (fun s : Search S E K n => Sound l s.trials s.brackets ∧ s.brackets = [] ∧ Bracketed l b.1 b.2)
      (Prog.loop (zoomTurn sqrt relativeStep objective budget scheme l) (l.params.maxiter + 1) b)
      (fun r s => ∃ step, r = some step ∧ Found l step s) (fun _ s => Sound l s.trials s.brackets) := by
  refine (Triple.loop (l.params.maxiter + 1) (fun k b s => Sound l s.trials s.brackets ∧ Bracketed l b.1 b.2 ∧
    (∀ last ∈ s.brackets.getLast?, Shrunk last b) ∧ k ≤ s.trials.length) (fun k b s h => ?_) (fun k b s h => ?_) _ 0 b
    (by omega)).weaken (fun s h => ?_) (fun _ _ h => h)
  · exact Nat.lt_succ_of_le (h.2.2.2.trans h.1.count)
  · obtain ⟨hsound, hb, hlast, hk⟩ := h
    have htriple : Triple (At s.trials s.brackets (fun _ => True)) (zoomTurn sqrt relativeStep objective budget scheme l b)
        (ZoomTurned l s.trials s.brackets b) (fun _ s => Sound l s.trials s.brackets) :=
      zoomTurn_triple hl hb (hsound.bracket hb hlast)
    have hturn := htriple s ⟨rfl, rfl, trivial⟩
    rcases hrun : zoomTurn sqrt relativeStep objective budget scheme l b s with ⟨e | r, s'⟩ <;> rw [hrun] at hturn
    · exact hturn
    · cases r with
      | inl step => exact hturn
      | inr b'   =>
        obtain ⟨hb', hshrunk, alpha, ⟨htrials, hbrackets, -⟩, hsound'⟩ := hturn
        refine ⟨by rw [htrials, hbrackets]; exact hsound', hb', fun last hmem => ?_, ?_⟩
        · rw [hbrackets, List.getLast?_append, List.getLast?_singleton, Option.some_or, Option.mem_some_iff] at hmem
          rwa [← hmem]
        · rw [htrials, List.length_append, List.length_singleton]
          exact Nat.succ_le_succ hk
  · obtain ⟨hsound, hempty, hb⟩ := h
    refine ⟨hsound, hb, fun last hmem => ?_, Nat.zero_le _⟩
    rw [hempty] at hmem
    exact absurd hmem (Option.not_mem_none last)

/-! ### The bracketing -/

/-- A trial step beyond one that descends. -/
structure Ahead (l : Line K n) (previous : Known K) (alpha : K) : Prop where
  decreases : l.Decreases previous.alpha previous.f
  dphi      : previous.dphi < 0
  nonneg    : 0 ≤ previous.alpha
  lt        : previous.alpha < alpha
  le        : alpha ≤ l.params.amax
  first     : previous.alpha = 0 → previous.f = l.start.f

variable {previous : Known K} {f dphi : K}

omit [IsStrictOrderedRing K] in
theorem Ahead.range (h : Ahead l previous alpha) : 0 < alpha ∧ alpha ≤ l.params.amax := ⟨h.nonneg.trans_lt h.lt, h.le⟩

/-- A trial that does not decrease the objective enough, or not below the one before, brackets a step. -/
theorem Ahead.bracketed_high (h : Ahead l previous alpha)
    (hf : ¬ l.Decreases alpha f ∨ 0 < previous.alpha ∧ previous.f ≤ f) : Bracketed l previous ⟨alpha, f, none⟩ where
  decreases := h.decreases
  slope     := mul_neg_of_neg_of_pos h.dphi (sub_pos.2 h.lt)
  value hd  := (hf.resolve_left (not_not.2 hd)).2
  low       := ⟨h.nonneg, (h.lt.trans_le h.le).le⟩
  high      := ⟨h.range.1.le, h.le⟩

/-- A trial whose slope ascends brackets a step with the one before. -/
theorem Ahead.bracketed_low (h : Ahead l previous alpha) (hl : Searched l) (hd : l.Decreases alpha f)
    (hf : ¬ (0 < previous.alpha ∧ previous.f ≤ f)) (hflat : ¬ l.Flat dphi) (hup : 0 ≤ dphi) :
    Bracketed l ⟨alpha, f, dphi⟩ previous.toTrial where
  decreases := hd
  slope     := mul_neg_of_pos_of_neg (lt_of_le_of_ne hup (hl.slope_ne_zero hflat).symm) (sub_neg.2 h.lt)
  value _   := by
    change f ≤ previous.f
    rcases h.nonneg.eq_or_lt with hzero | hpos
    · rw [h.first hzero.symm]
      have : l.params.c1 * alpha * l.dphi0 ≤ 0 :=
        mul_nonpos_of_nonneg_of_nonpos (mul_nonneg hl.c1.le h.range.1.le) hl.descent.le
      have hdecreases : f ≤ l.start.f + l.params.c1 * alpha * l.dphi0 := hd
      linarith
    · exact (not_le.1 (fun hle => hf ⟨hpos, hle⟩)).le
  low       := ⟨h.range.1.le, h.le⟩
  high      := ⟨h.nonneg, (h.lt.trans_le h.le).le⟩

theorem Ahead.next (h : Ahead l previous alpha) (hd : l.Decreases alpha f) (hdown : dphi < 0)
    (hlt : alpha < l.params.amax) : Ahead l ⟨alpha, f, dphi⟩ (min ((2 : ℕ) * alpha) l.params.amax) where
  decreases  := hd
  dphi       := hdown
  nonneg     := h.range.1.le
  lt         := by
    refine lt_min ?_ hlt
    have := h.range.1
    push_cast
    linarith
  le         := min_le_right _ _
  first hzero := absurd hzero h.range.1.ne'

/-- What a turn of the bracketing leaves: a step, or a bracket, or a longer trial step. -/
def BracketTurned (l : Line K n) (trials : List K) :
    (Step K n ⊕ Known K × Trial K) ⊕ Known K × K → Search S E K n → Prop
  | .inl (.inl step), s => Found l step s
  | .inl (.inr b), s    => Sound l s.trials s.brackets ∧ s.brackets = [] ∧ Bracketed l b.1 b.2
  | .inr a, s           => Ahead l a.1 a.2 ∧
    ∃ alpha, At (trials ++ [alpha]) [] (fun _ => True) s ∧ Sound l (trials ++ [alpha]) []

theorem bracketTurn_triple (hl : Searched l) (h : Ahead l previous alpha) (hsound : Sound l trials []) :
    Triple (At trials [] (fun _ => True)) (bracketTurn relativeStep objective budget scheme l (previous, alpha))
      (BracketTurned l trials) (fun _ s => Sound l s.trials s.brackets) := by
  refine Triple.bind (value_triple hsound h.range) (fun t => ?_)
  refine Triple.ite (fun hf => Triple.pure _ (fun s hs => ?_)) (fun hf => ?_)
  · refine ⟨?_, hs.1.2.1, h.bracketed_high hf⟩
    rw [hs.1.1, hs.1.2.1]
    exact hs.2.2
  obtain ⟨hd, hbelow⟩ := not_or.1 hf
  rintro s ⟨hs, hpoint, hnext⟩
  have hturn : Triple (At (trials ++ [alpha]) [] (fun c => (t.1, .ok (some t.2)) ∈ c.evaluations))
      (slope relativeStep objective budget scheme l t.1 t.2 >>= fun d =>
        if l.Flat d.1 then return .inl (.inl ⟨alpha, t.1, t.2, d.2⟩)
        else if 0 ≤ d.1 then return .inl (.inr (⟨alpha, t.2, d.1⟩, previous.toTrial))
        else do
          Prog.require (¬ l.params.amax ≤ alpha) (.failure .noStrongWolfeStep)
          return .inr (⟨alpha, t.2, d.1⟩, min ((2 : ℕ) * alpha) l.params.amax))
      (BracketTurned l trials) (fun _ s => Sound l s.trials s.brackets) := by
    refine Triple.bind (slope_triple hnext t.1 t.2) (fun d => ?_)
    refine Triple.ite (fun hflat => Triple.pure _ (fun s hs => ?_)) (fun hflat => Triple.ite (fun hup => ?_) (fun hdown => ?_))
    · refine ⟨?_, ⟨h.range, hpoint, not_not.1 hd, hs.2 ▸ hflat⟩, hs.1.2.2⟩
      rw [hs.1.1, hs.1.2.1]
      exact hnext
    · refine Triple.pure _ (fun s hs => ⟨?_, hs.1.2.1, h.bracketed_low hl (not_not.1 hd) hbelow hflat hup⟩)
      rw [hs.1.1, hs.1.2.1]
      exact hnext
    · refine Triple.bind (Triple.require (fun _ s hs => ?_)) (fun _ => Triple.pure _ (fun s hs => ?_))
      · rw [hs.1.1, hs.1.2.1]
        exact hnext
      · exact ⟨h.next (not_not.1 hd) (not_le.1 hdown) (not_le.1 hs.1), _, ⟨hs.2.1.1, hs.2.1.2.1, trivial⟩, hnext⟩
  exact hturn s hs

/-- **The bracketing ends**, with a step or a bracket if it does not fail. -/
theorem bracket_triple (hl : Searched l) (a : Known K × K) :
    Triple (fun s : Search S E K n => Sound l s.trials s.brackets ∧ s.brackets = [] ∧ Ahead l a.1 a.2)
      (Prog.loop (bracketTurn relativeStep objective budget scheme l) (l.params.maxiter + 1) a)
      (fun r s => ∃ t, r = some t ∧ match t with
        | .inl step => Found l step s
        | .inr b    => Sound l s.trials s.brackets ∧ s.brackets = [] ∧ Bracketed l b.1 b.2)
      (fun _ s => Sound l s.trials s.brackets) := by
  refine (Triple.loop (l.params.maxiter + 1) (fun k a s => Sound l s.trials s.brackets ∧ s.brackets = [] ∧ Ahead l a.1 a.2 ∧
    k ≤ s.trials.length) (fun k a s h => ?_) (fun k a s h => ?_) _ 0 a (by omega)).weaken (fun s h => ?_) (fun _ _ h => h)
  · exact Nat.lt_succ_of_le (h.2.2.2.trans h.1.count)
  · obtain ⟨hsound, hempty, ha, hk⟩ := h
    rw [hempty] at hsound
    have htriple : Triple (At s.trials [] (fun _ => True)) (bracketTurn relativeStep objective budget scheme l a)
        (BracketTurned l s.trials) (fun _ s => Sound l s.trials s.brackets) := bracketTurn_triple hl ha hsound
    have hturn := htriple s ⟨rfl, hempty, trivial⟩
    rcases hrun : bracketTurn relativeStep objective budget scheme l a s with ⟨e | r, s'⟩ <;> rw [hrun] at hturn
    · exact hturn
    · rcases r with (step | b) | a'
      · exact hturn
      · exact hturn
      · obtain ⟨ha', alpha, ⟨htrials, hbrackets, -⟩, hsound'⟩ := hturn
        refine ⟨by rw [htrials, hbrackets]; exact hsound', hbrackets, ha', ?_⟩
        rw [htrials, List.length_append, List.length_singleton]
        exact Nat.succ_le_succ hk
  · exact ⟨h.1, h.2.1, h.2.2, Nat.zero_le _⟩

omit [IsStrictOrderedRing K] in
theorem sound_nil : Sound l [] ([] : List (Known K × Trial K)) :=
  ⟨Nat.zero_le _, nofun, nofun, List.isChain_nil⟩

omit [IsStrictOrderedRing K] in
theorem Searched.ahead (hl : Searched l) : Ahead l ⟨0, l.start.f, l.dphi0⟩ (min l.params.alpha0 l.params.amax) where
  decreases := by
    rw [Line.Decreases, mul_zero, zero_mul, add_zero]
  dphi      := hl.descent
  nonneg    := le_rfl
  lt        := lt_min hl.alpha0 hl.amax
  le        := min_le_right _ _
  first _   := rfl

/-- **The search ends**, with a step satisfying the strong Wolfe conditions if it does not fail. -/
theorem strongWolfe_triple (hl : Searched l) :
    Triple (fun s : Search S E K n => s.trials = [] ∧ s.brackets = [])
      (strongWolfe sqrt relativeStep objective budget scheme l) (fun r s => ∃ step, r = some step ∧ Found l step s)
      (fun _ s => Sound l s.trials s.brackets) := by
  rw [strongWolfe, Prog.require, if_pos (not_le.2 hl.descent)]
  refine Triple.bind (Q := fun _ s => s.trials = [] ∧ s.brackets = []) (Triple.pure _ (fun _ hs => hs)) (fun _ => ?_)
  refine Triple.bind ((bracket_triple hl _).weaken (fun s hs => ?_) (fun _ _ h => h)) (fun r => ?_)
  · rw [hs.1, hs.2]
    exact ⟨sound_nil, rfl, hl.ahead⟩
  · rintro s ⟨t, rfl, ht⟩
    cases t with
    | inl step => exact ⟨step, rfl, ht⟩
    | inr b    => exact zoom_triple hl b s ht

/-- **The strong Wolfe line search**, for every objective, start and direction and for parameters in their ranges: it ends; a
step that it returns is in range, at its point, with its value, and satisfies the sufficient decrease and the curvature
condition; the trial steps are in range and no more than allowed; every bracket of the zoom has its low end where the objective
decreases enough, with the slope pointing into it and a value not above that of a high end where the objective decreases enough,
and is no wider than nine tenths of the one before; and a direction that does not descend costs nothing. -/
theorem strongWolfe_spec (sqrt : K → K) (relativeStep : FiniteDifference → K) (objective : Objective S E K (Option K) n)
    (budget : Common (Option K)) (scheme : FiniteDifference) (l : Line K n) (c : Counters S E K (Option K) n)
    (hc1 : 0 < l.params.c1) (hc2 : l.params.c1 < l.params.c2) (halpha0 : 0 < l.params.alpha0) (hamax : 0 < l.params.amax) :
    let r := strongWolfe sqrt relativeStep objective budget scheme l ⟨c, [], []⟩
    Sound l r.2.trials r.2.brackets ∧ r.1 ≠ .ok none ∧
      (∀ step, r.1 = .ok (some step) →
        Accepted l step ∧ (step.x, .ok (some step.f)) ∈ r.2.counters.evaluations) ∧
      (0 ≤ l.dphi0 → r = (.error (.failure .notDescent), ⟨c, [], []⟩)) := by
  intro r
  by_cases hdescent : 0 ≤ l.dphi0
  · have hrun : r = (.error (.failure .notDescent), ⟨c, [], []⟩) := by
      change strongWolfe sqrt relativeStep objective budget scheme l ⟨c, [], []⟩ = _
      rw [strongWolfe, Prog.require_neg (not_not.2 hdescent)]
      rfl
    rw [hrun]
    exact ⟨sound_nil, nofun, nofun, fun _ => rfl⟩
  · have hl : Searched l := ⟨not_le.1 hdescent, hc1, hc2, halpha0, hamax⟩
    have htriple : Triple (fun s : Search S E K n => s.trials = [] ∧ s.brackets = [])
        (strongWolfe sqrt relativeStep objective budget scheme l) (fun r s => ∃ step, r = some step ∧ Found l step s)
        (fun _ s => Sound l s.trials s.brackets) := strongWolfe_triple hl
    have hspec := htriple ⟨c, [], []⟩ ⟨rfl, rfl⟩
    refine ⟨?_, ?_, ?_, fun h => absurd h hdescent⟩ <;>
      rcases hrun : r with ⟨e | t, s⟩ <;>
      rw [show strongWolfe sqrt relativeStep objective budget scheme l ⟨c, [], []⟩ = r from rfl, hrun] at hspec
    · exact hspec
    · obtain ⟨step, -, hfound⟩ := hspec
      exact hfound.1
    · exact nofun
    · obtain ⟨step, rfl, -⟩ := hspec
      exact nofun
    · exact nofun
    · obtain ⟨step, rfl, -, hstep⟩ := hspec
      intro step' heq
      cases heq
      exact hstep

/-- A line on which the unit step decreases the objective, but by half of what is enough. -/
def line : Line ℚ 1 where
  start  := ⟨fun _ => 0, 0, fun _ => -1⟩
  p      := fun _ => 1
  params := ⟨1 / 10000, 9 / 10, 1, 10, 1, none⟩

/-- An objective without a state, a gradient or constraints. -/
def plain (f : K → K) : Objective Unit Empty K (Option K) 1 where
  value x                := pure (some (f (x 0)))
  gradient _             := pure none
  callback _             := pure .continue
  constraintCount _      := 0
  constraintKind _ _     := .eq
  constraint _ _         := pure none
  constraintJacobian _ _ := pure none

/-- Its slope at 0 is -1. -/
def bowl (x : ℚ) : ℚ := -x + (1 - 1 / 20000) * (x * x)

theorem strongWolfe_spec_line :
    Sound line (strongWolfe id (fun _ => 1 / 1000) (plain bowl) ⟨none, none, none⟩ .forward line
        ⟨.new (), [], []⟩).2.trials
      (strongWolfe id (fun _ => 1 / 1000) (plain bowl) ⟨none, none, none⟩ .forward line ⟨.new (), [], []⟩).2.brackets :=
  (strongWolfe_spec id (fun _ => 1 / 1000) (plain bowl) ⟨none, none, none⟩ .forward line (.new ())
    (by norm_num [line]) (by norm_num [line]) (by norm_num [line]) (by norm_num [line])).1

/-- **The low end of a bracket need not have the smaller value**: the high end may be below it where the objective does not
decrease enough. -/
theorem bracket_value_above :
    ∃ b ∈ (strongWolfe id (fun _ => 1 / 1000) (plain bowl) ⟨none, none, none⟩ .forward line
      ⟨.new (), [], []⟩).2.brackets, b.2.f < b.1.f := by
  refine ⟨(⟨0, 0, -1⟩, ⟨1, -1 / 20000, none⟩), ?_, by norm_num⟩
  decide +kernel

end
end LineSearch
end Optimize
end Itofin
