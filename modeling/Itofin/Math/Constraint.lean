import Itofin.Lib.Ieee
import Itofin.Math.Optimization
import Mathlib.Algebra.Order.Ring.Rat
import Mathlib.Data.Rat.Defs
import Mathlib.Tactic.Positivity
/-!
# Constraint — a step that is halved until it is feasible

`math/optimization/constraint.rs`.  The loop of `update` is over any numbers, and nothing is asked of the feasible region: the
test is any function of the point, which can panic.  A run remembers the points that it has tested.  Before the turn `k` the
points of the first `k` steps are known to be infeasible, and the parameters are still those of the caller (`Before`); the run
is `update_run`.  In exact arithmetic with infinities and `nan` the steps are the quotients by the powers of two
(`halved_half`).
-/
namespace Itofin

open Effect

/-- A feasible region; `none` is a test that panics. -/
structure Constraint (R : Type) where
  test : List R → Option Bool

namespace Constraint

/-- The parameters of the caller, and the points that were tested. -/
structure Updating (R : Type) where
  params : List R
  tested : List (List R)
  deriving DecidableEq

/-- The local variables of `update`. -/
structure Trying (R : Type) where
  diff      : R
  newParams : List R
  icount    : ℕ

section

variable {R : Type} [Add R] [Mul R]

/-- `&*params + &(direction * diff)`, of arrays of one size. -/
def moved (params direction : List R) (diff : R) : List R := List.zipWith (· + ·) params (direction.map (· * diff))

/-- The sum of arrays panics on a size mismatch. -/
def move (direction : List R) (diff : R) : Prog (Updating R) Stop (List R) := do
  let s ← Prog.get
  Prog.require (s.params.length = direction.length) .panic
  return moved s.params direction diff

def ask (c : Constraint R) (x : List R) : Prog (Updating R) Stop Bool := do
  Prog.modify (fun s => { s with tested := s.tested ++ [x] })
  match c.test x with
  | some feasible => return feasible
  | none          => Prog.fail .panic

variable (half : R) (c : Constraint R) (direction : List R)

/-- A turn of the loop, with the condition at its head. -/
def turn (t : Trying R) : Prog (Updating R) Stop (Trying R ⊕ Trying R) := do
  if ← c.ask t.newParams then return .inl t
  else do
    Prog.require (t.icount ≤ 200) (.error "can't update parameter vector")
    let newParams ← move direction (t.diff * half)
    return .inr ⟨t.diff * half, newParams, t.icount + 1⟩

/-- `none` is that the turns did not do. -/
def update (beta : R) (turns : ℕ) : Prog (Updating R) Stop (Option R) := do
  let newParams ← move direction beta
  match ← Prog.loop (turn half c direction) turns ⟨beta, newParams, 0⟩ with
  | some t => do
    Prog.modify (fun s => { s with params := t.newParams })
    return some t.diff
  | none   => return none

/-! ## The run -/

/-- The step after so many halvings. -/
def halved (beta : R) : ℕ → R
  | 0     => beta
  | k + 1 => halved beta k * half

/-- The point of the step after so many halvings. -/
def point (params : List R) (beta : R) (k : ℕ) : List R := moved params direction (halved half beta k)

variable {half c direction} {params : List R} {beta : R} {tested : List (List R)} {points : ℕ → List R} {k : ℕ}

/-- The points before the step `k` are infeasible, and that step is under the cap. -/
structure Reached (c : Constraint R) (points : ℕ → List R) (k : ℕ) : Prop where
  le : k ≤ 201
  infeasible : ∀ j, j < k → c.test (points j) = some false

/-- The parameters of the caller, when so many points have been tested. -/
def after (params : List R) (tested : List (List R)) (points : ℕ → List R) (k : ℕ) : Updating R :=
  ⟨params, tested ++ (List.range k).map points⟩

/-- The loop at the step `k`. -/
def trying (half beta : R) (points : ℕ → List R) (k : ℕ) : Trying R := ⟨halved half beta k, points k, k⟩

/-- **The loop before its turn `k`.** -/
structure Before (half : R) (c : Constraint R) (params : List R) (beta : R) (tested : List (List R)) (points : ℕ → List R)
    (k : ℕ) (t : Trying R) (s : Updating R) : Prop where
  reached : Reached c points k
  trying : t = trying half beta points k
  state : s = after params tested points k

/-- The loop at its end, with a feasible point. -/
def Found (half : R) (c : Constraint R) (params : List R) (beta : R) (tested : List (List R)) (points : ℕ → List R)
    (t : Trying R) (s : Updating R) : Prop :=
  ∃ k, Reached c points k ∧ c.test (points k) = some true ∧ t = trying half beta points k ∧
    s = after params tested points (k + 1)

/-- The loop at its end, without one. -/
def Failed (c : Constraint R) (params : List R) (tested : List (List R)) (points : ℕ → List R) (e : Stop)
    (s : Updating R) : Prop :=
  ∃ k, Reached c points k ∧ s = after params tested points (k + 1) ∧
    (c.test (points k) = none ∧ e = .panic ∨
      c.test (points k) = some false ∧ k = 201 ∧ e = .error "can't update parameter vector")

omit [Add R] [Mul R] in
theorem run_ask (c : Constraint R) (params : List R) (tested : List (List R)) (points : ℕ → List R) (k : ℕ) :
    ask c (points k) (after params tested points k) =
      ((c.test (points k)).elim (.error .panic) .ok, after params tested points (k + 1)) := by
  have hafter : (⟨params, tested ++ (List.range k).map points ++ [points k]⟩ : Updating R) =
      after params tested points (k + 1) := by
    unfold after
    rw [List.range_succ, List.map_append, List.map_singleton, List.append_assoc]
  unfold ask
  rw [Prog.run_bind, Prog.run_modify, ← hafter]
  rcases c.test (points k) with _ | feasible <;> rfl

theorem run_move (s : Updating R) (diff : R) :
    move direction diff s =
      (if s.params.length = direction.length then .ok (moved s.params direction diff) else .error .panic, s) := by
  unfold move
  rw [Prog.run_bind, Prog.run_get]
  dsimp only
  rw [Prog.run_bind, Prog.run_require]
  split_ifs <;> rfl

/-- **A turn**: the test of one more point. -/
theorem turn_spec (hsize : params.length = direction.length) (hpoints : points = point half direction params beta)
    (k : ℕ) (t : Trying R) :
    Triple (Before half c params beta tested points k t) (turn half c direction t)
      (fun r s => match r with
        | .inl t => Found half c params beta tested points t s
        | .inr t => Before half c params beta tested points (k + 1) t s)
      (Failed c params tested points) := by
  rintro s ⟨hreached, rfl, rfl⟩
  unfold turn trying
  rw [Prog.run_bind, run_ask]
  rcases htest : c.test (points k) with _ | _ | _
  · exact ⟨k, hreached, rfl, .inl ⟨htest, rfl⟩⟩
  · -- the point is infeasible: the step is halved, under the cap
    dsimp only [Option.elim]
    rw [if_neg Bool.false_ne_true, Prog.run_bind, Prog.run_require]
    rcases Nat.lt_or_ge 200 k with hcap | hcap
    · rw [if_neg (Nat.not_le.2 hcap)]
      exact ⟨k, hreached, rfl, .inr ⟨htest, Nat.le_antisymm hreached.le hcap, rfl⟩⟩
    · rw [if_pos hcap]
      dsimp only
      rw [Prog.run_bind, run_move, if_pos (show (after params tested points (k + 1)).params.length = _ from hsize)]
      refine ⟨⟨by omega, fun j hj => ?_⟩, ?_, rfl⟩
      · rcases Nat.lt_succ_iff_lt_or_eq.1 hj with hj | rfl
        · exact hreached.infeasible j hj
        · exact htest
      · rw [hpoints]
        rfl
  · exact ⟨k, hreached, htest, rfl, rfl⟩

/-- **The loop ends**: the cap is reached before the turns are out. -/
theorem loop_spec (hsize : params.length = direction.length) (hpoints : points = point half direction params beta)
    {turns : ℕ} (hturns : 202 ≤ turns) :
    Triple (Before half c params beta tested points 0 (trying half beta points 0))
      (Prog.loop (turn half c direction) turns (trying half beta points 0))
      (fun r s => ∃ t, r = some t ∧ Found half c params beta tested points t s) (Failed c params tested points) := by
  refine Triple.loop 202 (Before half c params beta tested points) (fun k t s hs => Nat.lt_succ_of_le hs.reached.le)
    (fun k t => ?_) turns 0 _ (by omega)
  refine Triple.weaken (turn_spec hsize hpoints k t) (fun _ hs => hs) (fun r s hs => ?_)
  cases r <;> exact hs

theorem update_panics (hsize : params.length ≠ direction.length) (turns : ℕ) :
    update half c direction beta turns ⟨params, tested⟩ = (.error .panic, ⟨params, tested⟩) := by
  unfold update
  rw [Prog.run_bind, run_move, if_neg hsize]

/-- **The run of an update**, whatever the operations on numbers compute: it ends at the first point that is not infeasible,
or at the cap, and only a feasible point becomes the parameters. -/
theorem update_run (c : Constraint R) (tested : List (List R)) (hsize : params.length = direction.length)
    (hpoints : points = point half direction params beta) {turns : ℕ} (hturns : 202 ≤ turns) :
    ∃ k, Reached c points k ∧
      (c.test (points k) = some true ∧ update half c direction beta turns ⟨params, tested⟩ =
          (.ok (some (halved half beta k)), ⟨points k, tested ++ (List.range (k + 1)).map points⟩) ∨
        c.test (points k) = none ∧ update half c direction beta turns ⟨params, tested⟩ =
          (.error .panic, ⟨params, tested ++ (List.range (k + 1)).map points⟩) ∨
        c.test (points k) = some false ∧ k = 201 ∧ update half c direction beta turns ⟨params, tested⟩ =
          (.error (.error "can't update parameter vector"), ⟨params, tested ++ (List.range (k + 1)).map points⟩)) := by
  have hstart : (⟨params, tested⟩ : Updating R) = after params tested points 0 := by
    unfold after
    rw [List.range_zero, List.map_nil, List.append_nil]
  have hloop := loop_spec (c := c) hsize hpoints hturns (after params tested points 0)
    ⟨⟨Nat.zero_le _, fun j hj => absurd hj (Nat.not_lt_zero j)⟩, rfl, rfl⟩
  unfold update
  rw [hstart, Prog.run_bind, run_move, if_pos (show (after params tested points 0).params.length = _ from hsize)]
  dsimp only
  rw [Prog.run_bind]
  have htrying : (⟨beta, moved (after params tested points 0).params direction beta, 0⟩ : Trying R) =
      trying half beta points 0 := by
    rw [hpoints]
    rfl
  rw [htrying]
  rcases hrun : Prog.loop (turn half c direction) turns (trying half beta points 0) (after params tested points 0) with
    ⟨e | t, s⟩
  · rw [hrun] at hloop
    obtain ⟨k, hreached, rfl, hcases⟩ := hloop
    refine ⟨k, hreached, ?_⟩
    rcases hcases with ⟨htest, rfl⟩ | ⟨htest, hcap, rfl⟩
    · exact .inr (.inl ⟨htest, rfl⟩)
    · exact .inr (.inr ⟨htest, hcap, rfl⟩)
  · rw [hrun] at hloop
    obtain ⟨_, rfl, k, hreached, htest, rfl, rfl⟩ := hloop
    exact ⟨k, hreached, .inl ⟨htest, rfl⟩⟩

end

/-! ## Exact arithmetic -/

section

open Ieee (finite)

variable {K : Type} [Field K] [LinearOrder K]

/-- `0.5` -/
def half : Ieee K := finite (1 / (2 : ℕ))

/-- `PositiveConstraint` -/
def positive : Constraint (Ieee K) := ⟨fun params => some (params.all (fun p => Ieee.lt 0 p))⟩

variable [IsStrictOrderedRing K]

/-- A power of two divides the infinities and `nan` too. -/
theorem div_mul_half (beta : Ieee K) (k : ℕ) :
    beta / finite ((2 ^ k : ℕ) : K) * half = beta / finite ((2 ^ (k + 1) : ℕ) : K) := by
  have hpow : ∀ k : ℕ, (0 : K) < ((2 ^ k : ℕ) : K) := fun k => by exact_mod_cast Nat.two_pow_pos k
  have hhalf : (0 : K) < 1 / (2 : ℕ) := by positivity
  rcases beta with x | s | _
  · rw [Ieee.finite_div (hpow k).ne', Ieee.finite_div (hpow (k + 1)).ne']
    apply congrArg finite
    rw [div_mul_div_comm, mul_one, pow_succ, Nat.cast_mul]
  · rw [Ieee.infinite_div (hpow k), Ieee.infinite_div (hpow (k + 1))]
    exact Ieee.infinite_mul hhalf
  · rfl

theorem halved_half (beta : Ieee K) : ∀ k, halved half beta k = beta / finite ((2 ^ k : ℕ) : K)
  | 0     => by
    rw [halved, pow_zero, Nat.cast_one]
    rcases beta with x | s | _
    · rw [Ieee.finite_div one_ne_zero, div_one]
    · rw [Ieee.infinite_div one_pos]
    · rfl
  | k + 1 => by rw [halved, halved_half beta k, div_mul_half]

/-- **The update**: the step is `beta / 2 ^ k` for the first point that is not infeasible, and there are at most `201`
halvings.  If the point is feasible, it becomes the parameters; otherwise they stay. -/
theorem update_least (c : Constraint (Ieee K)) (params direction : List (Ieee K)) (beta : Ieee K)
    (tested : List (List (Ieee K))) {turns : ℕ} (hturns : 202 ≤ turns) :
    let point (k : ℕ) := moved params direction (beta / finite ((2 ^ k : ℕ) : K))
    let run := update half c direction beta turns ⟨params, tested⟩
    (params.length ≠ direction.length ∧ run = (.error .panic, ⟨params, tested⟩)) ∨
      params.length = direction.length ∧ ∃ k, k ≤ 201 ∧ (∀ j, j < k → c.test (point j) = some false) ∧
        (c.test (point k) = some true ∧
            run = (.ok (some (beta / finite ((2 ^ k : ℕ) : K))), ⟨point k, tested ++ (List.range (k + 1)).map point⟩) ∨
          c.test (point k) = none ∧ run = (.error .panic, ⟨params, tested ++ (List.range (k + 1)).map point⟩) ∨
          c.test (point k) = some false ∧ k = 201 ∧ run =
            (.error (.error "can't update parameter vector"), ⟨params, tested ++ (List.range (k + 1)).map point⟩)) := by
  intro point run
  rcases ne_or_eq params.length direction.length with hsize | hsize
  · exact .inl ⟨hsize, update_panics hsize turns⟩
  · refine .inr ⟨hsize, ?_⟩
    have hpoints : point = Constraint.point half direction params beta := by
      funext k
      unfold Constraint.point
      rw [halved_half]
    obtain ⟨k, hreached, hcases⟩ := update_run c tested hsize hpoints hturns
    rw [halved_half] at hcases
    exact ⟨k, hreached.le, hreached.infeasible, hcases⟩

/-- The first point is at `-0.5`, and the second at `0.25`. -/
theorem update_least_positive :
    update half positive [finite (-1)] (finite (3 / 2)) 202 ⟨[finite 1], []⟩ =
      (.ok (some (finite (3 / 4 : ℚ))), ⟨[finite (1 / 4)], [[finite (-1 / 2)], [finite (1 / 4)]]⟩) := by
  have hfirst : positive.test (moved [finite (1 : ℚ)] [finite (-1)] (finite (3 / 2) / finite ((2 ^ 0 : ℕ) : ℚ))) =
      some false := by decide +kernel
  have hsecond : positive.test (moved [finite (1 : ℚ)] [finite (-1)] (finite (3 / 2) / finite ((2 ^ 1 : ℕ) : ℚ))) =
      some true := by decide +kernel
  rcases update_least positive [finite (1 : ℚ)] [finite (-1)] (finite (3 / 2)) [] (le_refl 202) with
    ⟨hsize, -⟩ | ⟨-, k, -, hbefore, hcases⟩
  · exact absurd rfl hsize
  · have hk : k = 1 := by
      rcases Nat.lt_trichotomy k 1 with hlt | heq | hgt
      · obtain rfl := Nat.lt_one_iff.1 hlt
        rw [hfirst] at hcases
        rcases hcases with ⟨h, -⟩ | ⟨h, -⟩ | ⟨-, h, -⟩ <;> cases h
      · exact heq
      · have := hbefore 1 hgt
        rw [hsecond] at this
        cases this
    subst hk
    rw [hsecond] at hcases
    rcases hcases with ⟨-, hrun⟩ | ⟨h, -⟩ | ⟨h, -⟩
    · have hstep : (finite (3 / 2) / finite ((2 ^ 1 : ℕ) : ℚ) : Ieee ℚ) = finite (3 / 4) := by decide +kernel
      have hpoint : moved [finite (1 : ℚ)] [finite (-1)] (finite (3 / 2) / finite ((2 ^ 1 : ℕ) : ℚ)) =
          [finite (1 / 4)] := by decide +kernel
      have htested : (List.range (1 + 1)).map (fun k => moved [finite (1 : ℚ)] [finite (-1)]
          (finite (3 / 2) / finite ((2 ^ k : ℕ) : ℚ))) = [[finite (-1 / 2)], [finite (1 / 4)]] := by decide +kernel
      rw [hrun, htested]
      dsimp only
      rw [hpoint, hstep, List.nil_append]
    · cases h
    · cases h

/-- The source's own test of a direction that leads nowhere. -/
example : (update half positive [finite 0] (finite 1) 202 ⟨[finite (-1 : ℚ)], []⟩).1 =
    .error (.error "can't update parameter vector") := by decide +kernel

end

end Constraint
end Itofin
