import Itofin.Lib.Ieee
import Itofin.Lib.Incumbent
import Itofin.TermStructures.IterativeBootstrap
import Mathlib.Tactic.Ring
/-!
# Fallback — the search for the smallest error

`fallback` of `termstructures/iterativebootstrap.rs`, in exact arithmetic with infinities and `nan`.  It asks for the error at
each point in turn and keeps the first of the best (`fallback_eq`, over any numbers); the points divide the bracket in equal
parts (`fallback_first`).
-/
namespace Itofin

namespace IterativeBootstrap

open Effect
open Floats (isFinite)

/-! ## The evaluations -/

section

variable {K I : Type} [Floats K] (error : K → Prog (CurveData K I) (BootstrapError K) K)

/-- The absolute errors at the points, up to the first that fails or is not finite. -/
def absErrors : List K → Prog (CurveData K I) (BootstrapError K) (List K)
  | []              => pure []
  | point :: points => do
    let currentError ← error point
    Prog.require (isFinite (Floats.abs currentError) = true) .nonfiniteFallback
    let errors ← absErrors points
    return Floats.abs currentError :: errors

/-- The points after a value. -/
def pointsAfter (step : K) : ℕ → K → List K
  | 0, _             => []
  | steps + 1, value => (value + step) :: pointsAfter step steps (value + step)

/-- What the loop keeps of the points and their errors. -/
def keepBest : K → K → List (K × K) → K
  | best, _, []                                      => best
  | best, bestError, (value, currentError) :: rest =>
    if Floats.lt currentError bestError then keepBest value currentError rest else keepBest best bestError rest

/-- The loop asks for the errors first and looks at them afterwards. -/
theorem scan_eq (step : K) : ∀ (steps : ℕ) (best bestError value : K) (s : CurveData K I),
    scan error step steps best bestError value s =
      match absErrors error (pointsAfter step steps value) s with
      | (.error e, s')    => (.error e, s')
      | (.ok errors, s') => (.ok (keepBest best bestError ((pointsAfter step steps value).zip errors)), s')
  | 0, best, bestError, value, s         => rfl
  | steps + 1, best, bestError, value, s => by
    rw [scan, pointsAfter, absErrors, Prog.run_bind, Prog.run_bind]
    rcases error (value + step) s with ⟨e | current, t⟩
    · rfl
    · dsimp only
      rw [Prog.run_bind, Prog.run_bind, Prog.run_require]
      by_cases hfinite : isFinite (Floats.abs current) = true
      · rw [if_pos hfinite]
        dsimp only
        rw [Prog.run_bind]
        by_cases hlt : Floats.lt (Floats.abs current) bestError = true
        · rw [if_pos hlt, scan_eq step steps]
          rcases absErrors error (pointsAfter step steps (value + step)) t with ⟨e | errors, t'⟩
          · rfl
          · simp only [Prog.run_pure, List.zip_cons_cons, keepBest, if_pos hlt]
        · rw [if_neg hlt, scan_eq step steps]
          rcases absErrors error (pointsAfter step steps (value + step)) t with ⟨e | errors, t'⟩
          · rfl
          · simp only [Prog.run_pure, List.zip_cons_cons, keepBest, if_neg hlt]
      · rw [if_neg hfinite]

/-- The point that is kept of all. -/
def firstBest (min : K) : List (K × K) → K
  | []                         => min
  | (value, currentError) :: rest => keepBest value currentError rest

/-- The points of the search. -/
def fallbackPoints (min max : K) (steps : ℕ) : List K := min :: pointsAfter ((max - min) / Floats.ofNat steps) steps min

/-- **The search** asks for the errors at its points, and ends with the point that is kept. -/
theorem fallback_eq (min max : K) (steps : ℕ) (s : CurveData K I) : fallback error min max steps s =
    match absErrors error (fallbackPoints min max steps) s with
    | (.error e, s')   => (.error e, s')
    | (.ok errors, s') => (.ok (firstBest min ((fallbackPoints min max steps).zip errors)), s') := by
  rw [fallback, fallbackPoints, absErrors, Prog.run_bind, Prog.run_bind]
  rcases error min s with ⟨e | first, t⟩
  · rfl
  · dsimp only
    rw [Prog.run_bind, Prog.run_bind, Prog.run_require]
    by_cases hfinite : isFinite (Floats.abs first) = true
    · rw [if_pos hfinite]
      dsimp only
      rw [Prog.run_bind, scan_eq]
      rcases absErrors error (pointsAfter ((max - min) / Floats.ofNat steps) steps min) t with ⟨e | errors, t'⟩ <;> rfl
    · rw [if_neg hfinite]

/-- Every error that is found is finite, and there is one for each point. -/
theorem absErrors_ok : ∀ {points errors : List K} {s s' : CurveData K I}, absErrors error points s = (.ok errors, s') →
    errors.length = points.length ∧ ∀ e ∈ errors, isFinite e = true
  | [], errors, s, s', h              => by
    cases h
    exact ⟨rfl, nofun⟩
  | point :: points, errors, s, s', h => by
    rw [absErrors] at h
    obtain ⟨current, t, -, h⟩ := Prog.run_bind_eq_ok.1 h
    obtain ⟨_, t₁, hrequire, h⟩ := Prog.run_bind_eq_ok.1 h
    obtain ⟨rest, t₂, hrest, h⟩ := Prog.run_bind_eq_ok.1 h
    rw [Prog.run_require] at hrequire
    cases h
    obtain ⟨hlength, hfinite⟩ := absErrors_ok hrest
    refine ⟨congrArg (· + 1) hlength, List.forall_mem_cons.2 ⟨?_, hfinite⟩⟩
    by_contra hnot
    rw [if_neg hnot] at hrequire
    cases hrequire

theorem foldl_keepBest : ∀ {rest : List (K × K)} (best bestError : K), (∀ a ∈ rest, isFinite a.2 = true) →
    ∃ e, rest.foldl (Incumbent.keep (fun a : K × K => isFinite a.2 = true) (fun a b => Floats.lt a.2 b.2 = true))
      (some (best, bestError)) = some (keepBest best bestError rest, e)
  | [], best, bestError, _                             => ⟨bestError, rfl⟩
  | (value, currentError) :: rest, best, bestError, h => by
    obtain ⟨hfinite, hrest⟩ := List.forall_mem_cons.1 h
    rw [List.foldl_cons, keepBest, Incumbent.keep]
    by_cases hlt : Floats.lt currentError bestError = true
    · rw [if_pos ⟨hfinite, decide_eq_true hlt⟩, if_pos hlt]
      exact foldl_keepBest value currentError hrest
    · rw [if_neg fun h' => hlt (of_decide_eq_true h'.2), if_neg hlt]
      exact foldl_keepBest best bestError hrest

theorem best_eq {value currentError : K} {rest : List (K × K)} (h : ∀ a ∈ (value, currentError) :: rest, isFinite a.2 = true)
    (min : K) : ∃ e, Incumbent.best (fun a : K × K => isFinite a.2 = true) (fun a b => Floats.lt a.2 b.2 = true)
      ((value, currentError) :: rest) = some (firstBest min ((value, currentError) :: rest), e) := by
  obtain ⟨hfinite, hrest⟩ := List.forall_mem_cons.1 h
  obtain ⟨e, he⟩ := foldl_keepBest value currentError hrest
  refine ⟨e, ?_⟩
  rw [Incumbent.best, List.foldl_cons, Incumbent.keep, if_pos ⟨hfinite, rfl⟩, he, firstBest]

end

/-! ## Exact arithmetic -/

section Exact

variable {K I : Type} [Field K] [LinearOrder K]

/-- The operations that round nothing. -/
instance exactNumbers : Floats (Ieee K) where
  lt := Ieee.lt
  le a b := Ieee.lt a b || match a, b with
    | .finite x, .finite y     => x = y
    | .infinite s, .infinite t => s = t
    | _, _                     => false
  isFinite
    | .finite _ => true
    | _         => false
  abs
    | .finite x   => .finite |x|
    | .infinite _ => .infinite false
    | .nan        => .nan
  max a b := match a, b with
    | .nan, b => b
    | a, .nan => a
    | a, b    => if Ieee.lt a b then b else a
  ofNat n := .finite n
  nan := .nan

theorem isFinite_iff {a : Ieee K} : isFinite a = true ↔ ∃ x, a = .finite x := by
  cases a with
  | finite x   => exact iff_of_true rfl ⟨x, rfl⟩
  | infinite s => exact iff_of_false nofun nofun
  | nan        => exact iff_of_false nofun nofun

theorem lt_asymm (a b : Ieee K) (h : Floats.lt a b = true) : ¬ Floats.lt b a = true := by
  change Ieee.lt a b = true at h
  change ¬ Ieee.lt b a = true
  rcases a with ⟨x⟩ | s | _ <;> rcases b with ⟨y⟩ | t | _ <;> simp only [Ieee.lt] at * <;> grind

theorem lt_trans_not (a b c : Ieee K) (ha : isFinite a = true) (hb : isFinite b = true) (hc : isFinite c = true)
    (hab : Floats.lt a b = true) (hcb : ¬ Floats.lt c b = true) : Floats.lt a c = true := by
  obtain ⟨x, rfl⟩ := isFinite_iff.1 ha
  obtain ⟨y, rfl⟩ := isFinite_iff.1 hb
  obtain ⟨z, rfl⟩ := isFinite_iff.1 hc
  exact decide_eq_true ((of_decide_eq_true hab).trans_le (not_lt.1 (mt decide_eq_true hcb)))

theorem finite_lt_iff {x y : K} : Floats.lt (Ieee.finite x) (.finite y) = true ↔ x < y := decide_eq_true_iff

/-- **What is kept** is the first of the best. -/
theorem firstBest_spec {items : List (Ieee K × Ieee K)} (hne : items ≠ []) (hfinite : ∀ a ∈ items, isFinite a.2 = true)
    (min : Ieee K) : ∃ before a after, items = before ++ a :: after ∧ firstBest min items = a.1 ∧
      (∀ b ∈ before, Floats.lt a.2 b.2 = true) ∧ ∀ b ∈ after, ¬ Floats.lt b.2 a.2 = true := by
  obtain ⟨first, rest, rfl⟩ := List.exists_cons_of_ne_nil hne
  obtain ⟨e, hkept⟩ := best_eq hfinite min
  rcases @Incumbent.best_cases (Ieee K × Ieee K) (fun a => isFinite a.2 = true) _ (fun a b => Floats.lt a.2 b.2 = true) _
      (fun a b => lt_asymm a.2 b.2) (fun a b c => lt_trans_not a.2 b.2 c.2) (first :: rest) with
    ⟨hnone, -⟩ | ⟨before, a, after, hsplit, hbest, -, hbefore, hafter⟩
  · rw [hnone] at hkept
    cases hkept
  · have hfirst : a.1 = firstBest min (first :: rest) := congrArg Prod.fst (Option.some.inj (hbest.symm.trans hkept))
    refine ⟨before, a, after, hsplit, hfirst.symm, fun b hb => ?_, fun b hb => ?_⟩
    · exact hbefore b hb (hfinite b (by rw [hsplit]; exact List.mem_append_left _ hb))
    · exact hafter b hb (hfinite b (by rw [hsplit]; exact List.mem_append_right _ (List.mem_cons_of_mem _ hb)))

theorem pointsAfter_eq (d : K) : ∀ (n : ℕ) (v : K), pointsAfter (.finite d) n (.finite v) =
    (List.range n).map fun (k : ℕ) => Ieee.finite (v + (k + 1) * d)
  | 0, _     => rfl
  | n + 1, v => by
    rw [pointsAfter, List.range_succ_eq_map, List.map_cons, List.map_map, Ieee.finite_add, pointsAfter_eq d n (v + d)]
    congr 1
    · rw [Nat.cast_zero, zero_add, one_mul]
    · refine List.map_congr_left fun k _ => congrArg Ieee.finite ?_
      push_cast
      ring

/-- The points that divide a bracket in equal parts. -/
def equallySpaced (min max : K) (steps : ℕ) : List (Ieee K) :=
  (List.range (steps + 1)).map fun (k : ℕ) => .finite (min + k * ((max - min) / steps))

variable [IsStrictOrderedRing K]

theorem fallbackPoints_eq (min max : K) (steps : ℕ) :
    fallbackPoints (.finite min) (.finite max) steps = equallySpaced min max steps := by
  have hfirst : min + ((0 : ℕ) : K) * ((max - min) / steps) = min := by rw [Nat.cast_zero, zero_mul, add_zero]
  unfold fallbackPoints equallySpaced
  rw [List.range_succ_eq_map, List.map_cons, List.map_map, hfirst]
  congr 1
  cases steps with
  | zero       => rfl
  | succ steps =>
    have hsteps : ((steps + 1 : ℕ) : K) ≠ 0 := Nat.cast_ne_zero.2 (Nat.succ_ne_zero steps)
    have hstep : (Ieee.finite max - .finite min) / Floats.ofNat (steps + 1) =
        Ieee.finite ((max - min) / ((steps + 1 : ℕ) : K)) := by
      change Ieee.finite (max + -min) / Ieee.finite ((steps + 1 : ℕ) : K) = _
      rw [Ieee.finite_div hsteps, ← sub_eq_add_neg]
    rw [hstep, pointsAfter_eq]
    refine List.map_congr_left fun k _ => congrArg Ieee.finite ?_
    rw [Nat.cast_succ k]

theorem getLast_equallySpaced (min max : K) {steps : ℕ} (h : 0 < steps) :
    (equallySpaced min max steps).getLast? = some (.finite max) := by
  have hsteps : (steps : K) ≠ 0 := Nat.cast_ne_zero.2 h.ne'
  unfold equallySpaced
  rw [List.range_succ, List.map_append, List.map_singleton, List.getLast?_concat, mul_div_cancel₀ _ hsteps,
    add_sub_cancel]

/-- **The fallback** asks for the errors at the points that divide the bracket in equal parts, and returns the first of those
with the smallest absolute error; it ends with an error where an evaluation does or is not finite. -/
theorem fallback_first (error : Ieee K → Prog (CurveData (Ieee K) I) (BootstrapError (Ieee K)) (Ieee K)) (min max : K)
    (steps : ℕ) (s : CurveData (Ieee K) I) :
    (0 < steps → (equallySpaced min max steps).getLast? = some (.finite max)) ∧
    match absErrors error (equallySpaced min max steps) s with
    | (.error e, s')   => fallback error (.finite min) (.finite max) steps s = (.error e, s')
    | (.ok errors, s') => ∃ before point smallest after,
      (equallySpaced min max steps).zip errors = before ++ (.finite point, .finite smallest) :: after ∧
      fallback error (.finite min) (.finite max) steps s = (.ok (.finite point), s') ∧
      (∀ b ∈ before, ∃ e, b.2 = .finite e ∧ smallest < e) ∧ ∀ b ∈ after, ∃ e, b.2 = .finite e ∧ smallest ≤ e := by
  refine ⟨getLast_equallySpaced min max, ?_⟩
  have hrun := fallback_eq error (.finite min) (.finite max) steps s
  rw [fallbackPoints_eq] at hrun
  rcases hevaluated : absErrors error (equallySpaced min max steps) s with ⟨e | errors, s'⟩ <;> rw [hevaluated] at hrun
  · exact hrun
  · dsimp only at hrun ⊢
    obtain ⟨hlength, hfinite⟩ := absErrors_ok error hevaluated
    have hitems : ∀ a ∈ (equallySpaced min max steps).zip errors, (∃ x, a.1 = .finite x) ∧ isFinite a.2 = true := by
      rintro ⟨point, e⟩ ha
      obtain ⟨hpoint, he⟩ := List.of_mem_zip ha
      obtain ⟨k, -, rfl⟩ := List.mem_map.1 hpoint
      exact ⟨⟨_, rfl⟩, hfinite e he⟩
    have hvalue : ∀ a ∈ (equallySpaced min max steps).zip errors, ∃ e, a.2 = .finite e := fun a ha =>
      isFinite_iff.1 (hitems a ha).2
    have hne : (equallySpaced min max steps).zip errors ≠ [] := by
      intro hnil
      have hzero := congrArg List.length hnil
      rw [List.length_zip, hlength, Nat.min_self, equallySpaced, List.length_map, List.length_range] at hzero
      exact Nat.succ_ne_zero steps hzero
    obtain ⟨before, a, after, hsplit, hfirst, hbefore, hafter⟩ :=
      firstBest_spec hne (fun a ha => (hitems a ha).2) (.finite min)
    have hmem : a ∈ (equallySpaced min max steps).zip errors := by
      rw [hsplit]
      exact List.mem_append_right _ List.mem_cons_self
    obtain ⟨x, hx⟩ := (hitems a hmem).1
    obtain ⟨smallest, hsmallest⟩ := hvalue a hmem
    rw [hsmallest] at hbefore hafter
    refine ⟨before, x, smallest, after, ?_, ?_, fun b hb => ?_, fun b hb => ?_⟩
    · rw [hsplit, ← hx, ← hsmallest]
    · rw [hrun, hfirst, hx]
    · obtain ⟨e, he⟩ := hvalue b (by rw [hsplit]; exact List.mem_append_left _ hb)
      have hlt := hbefore b hb
      rw [he] at hlt
      exact ⟨e, he, finite_lt_iff.1 hlt⟩
    · obtain ⟨e, he⟩ := hvalue b (by rw [hsplit]; exact List.mem_append_right _ (List.mem_cons_of_mem _ hb))
      have hnot := hafter b hb
      rw [he] at hnot
      exact ⟨e, he, not_lt.1 (mt finite_lt_iff.2 hnot)⟩

/-- An error that is zero everywhere. -/
def noError : Ieee ℚ → Prog (CurveData (Ieee ℚ) Unit) (BootstrapError (Ieee ℚ)) (Ieee ℚ) := fun _ => pure (.finite 0)

def noCurve : CurveData (Ieee ℚ) Unit := ⟨[], [], [], none, none, false⟩

theorem fallback_first_noError :
    ∃ point : ℚ, fallback noError (.finite 0) (.finite 1) 1 noCurve = (.ok (.finite point), noCurve) := by
  have h := (fallback_first noError 0 1 1 noCurve).2
  have hevaluated : absErrors noError (equallySpaced 0 1 1) noCurve = (.ok [.finite |0|, .finite |0|], noCurve) := rfl
  rw [hevaluated] at h
  obtain ⟨before, point, smallest, after, -, hrun, -⟩ := h
  exact ⟨point, hrun⟩

end Exact
end IterativeBootstrap
end Itofin
