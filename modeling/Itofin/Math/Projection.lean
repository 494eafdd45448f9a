import Itofin.Math.Optimization
import Mathlib.Data.List.GetD
/-!
# Projection — free and full parameters

The two loops of `math/optimization/projection.rs`, which walk the mask with one index into the free parameters and one into
all of them, and what they are to each other: `project` undoes `include`, and `include` undoes `project` on the parameters
that agree with the seed where it is fixed.
-/
namespace Itofin

variable {K : Type} [Zero K]

/-- The loop of `Projection::project`: the free parameters so far, with zeros behind them, and how many they are. -/
def projectLoop (fixParameters : List Bool) (parameters : List K) : List K × ℕ :=
  (fixParameters.zip parameters).foldl
    (fun s e => if e.1 then s else (s.1.set s.2 e.2, s.2 + 1)) (List.replicate (fixParameters.count false) 0, 0)

/-- The loop of `Projection::include`: the parameters so far, and how many free ones they have taken. -/
def includeLoop (fixParameters : List Bool) (seed projected : List K) : List K × ℕ :=
  fixParameters.zipIdx.foldl
    (fun s e => if e.1 then s else (s.1.set e.2 (projected.getD s.2 0), s.2 + 1)) (seed, 0)

theorem projectLoop_from (done : List K) : ∀ (fix : List Bool) (full : List K), full.length = fix.length →
    (fix.zip full).foldl (fun (s : List K × ℕ) e => if e.1 then s else (s.1.set s.2 e.2, s.2 + 1))
        (done ++ List.replicate (fix.count false) 0, done.length) =
      (done ++ freeEntries fix full, done.length + fix.count false) := by
  intro fix
  induction fix generalizing done with
  | nil => simp [freeEntries]
  | cons fixed fs ih =>
    intro full hlen
    obtain _ | ⟨v, vs⟩ := full
    · simp at hlen
    have hlen' : vs.length = fs.length := by simpa using hlen
    cases fixed
    · have hstep := ih (done ++ [v]) vs hlen'
      simp only [List.append_assoc, List.singleton_append, List.length_append, List.length_singleton] at hstep
      simp only [List.zip_cons_cons, List.foldl_cons, Bool.false_eq_true, if_false, List.count_cons_self, freeEntries,
        List.replicate_succ]
      rw [List.set_append_right _ _ (Nat.le_refl _), Nat.sub_self, List.set_cons_zero, hstep]
      simp only [Prod.mk.injEq, true_and]
      omega
    · simpa [freeEntries] using ih done vs hlen'

theorem projectLoop_eq {fix : List Bool} {full : List K} (h : full.length = fix.length) :
    projectLoop fix full = (freeEntries fix full, fix.count false) := by
  simpa [projectLoop] using projectLoop_from [] fix full h

theorem includeLoop_from (projected : List K) : ∀ (fix : List Bool) (done seed : List K) (i : ℕ),
    seed.length = fix.length → i + fix.count false = projected.length →
    (fix.zipIdx done.length).foldl
        (fun (s : List K × ℕ) e => if e.1 then s else (s.1.set e.2 (projected.getD s.2 0), s.2 + 1)) (done ++ seed, i) =
      (done ++ withFree fix seed (projected.drop i), projected.length) := by
  intro fix
  induction fix with
  | nil => simp +contextual [withFree]
  | cons fixed fs ih =>
    intro done seed i hlen hi
    obtain _ | ⟨s, ss⟩ := seed
    · simp at hlen
    have hlen' : ss.length = fs.length := by simpa using hlen
    cases fixed
    · have hcount : i + 1 + fs.count false = projected.length := by
        rw [← hi, List.count_cons_self]
        omega
      have hlt : i < projected.length := by omega
      have hstep := ih (done ++ [projected[i]]) ss (i + 1) hlen' hcount
      simp only [List.append_assoc, List.singleton_append, List.length_append, List.length_singleton] at hstep
      simp only [List.zipIdx_cons, List.foldl_cons, Bool.false_eq_true, if_false]
      rw [List.set_append_right _ _ (Nat.le_refl _), Nat.sub_self, List.set_cons_zero, List.getD_eq_getElem _ _ hlt, hstep,
        List.drop_eq_getElem_cons hlt]
      simp [withFree]
    · have hstep := ih (done ++ [s]) ss i hlen' (by simpa using hi)
      simp only [List.append_assoc, List.singleton_append, List.length_append, List.length_singleton] at hstep
      simp only [List.zipIdx_cons, List.foldl_cons, if_true, hstep, withFree]

theorem includeLoop_eq {fix : List Bool} {seed projected : List K} (hseed : seed.length = fix.length)
    (hprojected : projected.length = fix.count false) :
    includeLoop fix seed projected = (withFree fix seed projected, projected.length) := by
  simpa [includeLoop] using includeLoop_from projected fix [] seed 0 hseed (by simp [hprojected])

/-! ## The laws -/

omit [Zero K] in
theorem freeEntries_length : ∀ (fix : List Bool) (full : List K), full.length = fix.length →
    (freeEntries fix full).length = fix.count false
  | [], full, _                => by simp [freeEntries]
  | _ :: _, [], h              => by simp at h
  | true :: fs, _ :: vs, h     => by simpa [freeEntries] using freeEntries_length fs vs (by simpa using h)
  | false :: fs, _ :: vs, h    => by simpa [freeEntries] using freeEntries_length fs vs (by simpa using h)

omit [Zero K] in
/-- **The free parameters of a full vector, put back, are that vector** as far as it agrees with the seed where fixed. -/
theorem withFree_freeEntries_iff : ∀ (fix : List Bool) (seed full : List K), seed.length = fix.length →
    full.length = fix.length →
    (withFree fix seed (freeEntries fix full) = full ↔ ∀ i : ℕ, fix[i]? = some true → full[i]? = seed[i]?) := by
  intro fix
  induction fix with
  | nil =>
    intro seed full hseed hfull
    simp only [List.length_nil, List.length_eq_zero_iff] at hseed hfull
    simp [hseed, hfull, withFree]
  | cons fixed fs ih =>
    intro seed full hseed hfull
    obtain _ | ⟨s, ss⟩ := seed
    · simp at hseed
    obtain _ | ⟨v, vs⟩ := full
    · simp at hfull
    have hrest := ih ss vs (by simpa using hseed) (by simpa using hfull)
    rw [← Nat.and_forall_add_one]
    cases fixed
    · simpa [freeEntries, withFree] using hrest
    · simp only [freeEntries, withFree, if_true, List.cons.injEq, List.getElem?_cons_zero, List.getElem?_cons_succ,
        Option.some.injEq, true_implies, hrest, eq_comm]

namespace Projection

/-- `project` is its loop, from a full vector. -/
theorem project_eq (p : Projection K) {full : List K} (h : full.length = p.fixParameters.length) :
    p.project full = .ok (projectLoop p.fixParameters full).1 := by
  rw [project, if_pos h, projectLoop_eq h]

/-- `include` is its loop, from as many parameters as are free. -/
theorem includeFree_eq (p : Projection K) {projected : List K} (h : projected.length = p.fixParameters.count false) :
    p.includeFree projected = .ok (includeLoop p.fixParameters p.seed projected).1 := by
  rw [includeFree, if_pos h, includeLoop_eq p.sized h]

omit [Zero K] in
/-- **The laws of a projection**, for every mask and seed that make one. -/
theorem laws (p : Projection K) :
    (∀ free : List K, free.length = p.fixParameters.count false →
      ∃ full : List K, p.includeFree free = .ok full ∧ p.project full = .ok free ∧
        ∀ i : ℕ, p.fixParameters[i]? = some true → full[i]? = p.seed[i]?) ∧
    ∀ full : List K, full.length = p.fixParameters.length →
      ∃ free back, p.project full = .ok free ∧ p.includeFree free = .ok back ∧
        (back = full ↔ ∀ i : ℕ, p.fixParameters[i]? = some true → full[i]? = p.seed[i]?) := by
  refine ⟨fun free hfree => ?_, fun full hfull => ?_⟩
  · refine ⟨withFree p.fixParameters p.seed free, by rw [includeFree, if_pos hfree], ?_, withFree_fixed _ _ _⟩
    rw [project, withFree_length, if_pos p.sized, freeEntries_withFree _ _ _ p.sized hfree]
  · refine ⟨freeEntries p.fixParameters full, _, by rw [project, if_pos hfull], ?_,
      withFree_freeEntries_iff _ _ _ p.sized hfull⟩
    rw [includeFree, if_pos (freeEntries_length _ _ hfull)]

theorem laws_middle : ∃ p : Projection ℤ, new [1, 2, 3] [true, false, true] = .ok p ∧
    ∃ full : List ℤ, p.includeFree [9] = .ok full ∧ p.project full = .ok [9] ∧
      ∀ i : ℕ, p.fixParameters[i]? = some true → full[i]? = p.seed[i]? :=
  ⟨⟨[1, 2, 3], [true, false, true], rfl, by decide⟩, rfl, (laws _).1 [9] rfl⟩

end Projection
end Itofin
