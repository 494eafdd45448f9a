import Mathlib.Algebra.BigOperators.Group.List.Basic
import Mathlib.Algebra.Order.Field.Basic
import Mathlib.Algebra.Order.BigOperators.Group.List
/-!
# Ieee — an ordered field with signed infinities

The numbers of an ordered field, two infinities and `nan`, computed with as floating point does where nothing is rounded.
What is not finite is not left again by sums and products (`isFinite_add`, `isFinite_mul`): only a quotient by an infinity
is finite.  On the numbers of the field the operations are the field's own, as long as nothing is divided by zero.
-/
inductive Ieee (K : Type)
  | finite (x : K)
  | infinite (negative : Bool)
  | nan
  deriving DecidableEq

namespace Ieee

section

variable {K : Type} [Field K] [LinearOrder K]

instance : Zero (Ieee K) := ⟨.finite 0⟩
instance : One (Ieee K) := ⟨.finite 1⟩

instance : Neg (Ieee K) where
  neg
    | .finite x   => .finite (-x)
    | .infinite s => .infinite (!s)
    | .nan        => .nan

instance : Add (Ieee K) where
  add
    | .finite x, .finite y     => .finite (x + y)
    | .finite _, .infinite s   => .infinite s
    | .infinite s, .finite _   => .infinite s
    | .infinite s, .infinite t => if s = t then .infinite s else .nan
    | .nan, _                  => .nan
    | _, .nan                  => .nan

instance : Sub (Ieee K) := ⟨fun a b => a + -b⟩

instance : Mul (Ieee K) where
  mul
    | .finite x, .finite y     => .finite (x * y)
    | .finite x, .infinite s   => if x = 0 then .nan else .infinite (xor (x < 0) s)
    | .infinite s, .finite y   => if y = 0 then .nan else .infinite (xor s (y < 0))
    | .infinite s, .infinite t => .infinite (xor s t)
    | .nan, _                  => .nan
    | _, .nan                  => .nan

instance : Div (Ieee K) where
  div
    | .finite x, .finite y     => if y = 0 then if x = 0 then .nan else .infinite (x < 0) else .finite (x / y)
    | .finite _, .infinite _   => .finite 0
    | .infinite s, .finite y   => .infinite (xor s (y < 0))
    | .infinite _, .infinite _ => .nan
    | .nan, _                  => .nan
    | _, .nan                  => .nan

/-- `a < b` -/
def lt : Ieee K → Ieee K → Bool
  | .finite x, .finite y     => x < y
  | .finite _, .infinite s   => !s
  | .infinite s, .finite _   => s
  | .infinite s, .infinite t => s && !t
  | .nan, _                  => false
  | _, .nan                  => false

/-- `0.0 <= a` -/
def nonneg : Ieee K → Bool
  | .finite x   => 0 ≤ x
  | .infinite s => !s
  | .nan        => false

def IsFinite (a : Ieee K) : Prop := ∃ x, a = .finite x

variable {a b : Ieee K} {x y : K}

omit [Field K] [LinearOrder K] in
theorem isFinite_finite (x : K) : IsFinite (finite x) := ⟨x, rfl⟩

omit [Field K] [LinearOrder K] in
theorem not_isFinite_infinite (s : Bool) : ¬ IsFinite (infinite s : Ieee K) := nofun

omit [Field K] [LinearOrder K] in
theorem not_isFinite_nan : ¬ IsFinite (nan : Ieee K) := nofun

omit [LinearOrder K] in
theorem finite_add (x y : K) : finite x + finite y = finite (x + y) := rfl

theorem finite_div (h : y ≠ 0) : finite x / finite y = finite (x / y) := if_neg h

theorem infinite_div {s : Bool} (h : 0 < y) : infinite s / finite y = infinite s := by
  change infinite (xor s (decide (y < 0))) = infinite s
  rw [decide_eq_false (not_lt_of_gt h), Bool.xor_false]

theorem infinite_mul {s : Bool} (h : 0 < y) : infinite s * finite y = infinite s := by
  change (if y = 0 then nan else infinite (xor s (decide (y < 0)))) = infinite s
  rw [if_neg h.ne', decide_eq_false (not_lt_of_gt h), Bool.xor_false]

omit [LinearOrder K] in
/-- **Nothing finite comes of what is not**, in a sum. -/
theorem isFinite_add : IsFinite (a + b) ↔ IsFinite a ∧ IsFinite b := by
  constructor
  · rintro ⟨z, hz⟩
    cases a with
    | finite x =>
      cases b with
      | finite y   => exact ⟨⟨x, rfl⟩, y, rfl⟩
      | infinite t => cases hz
      | nan        => cases hz
    | infinite s =>
      cases b with
      | finite y   => cases hz
      | infinite t =>
        change (if s = t then infinite s else nan) = finite z at hz
        split at hz <;> cases hz
      | nan        => cases hz
    | nan => cases b <;> cases hz
  · rintro ⟨⟨x, rfl⟩, y, rfl⟩
    exact ⟨x + y, rfl⟩

omit [LinearOrder K] in
theorem isFinite_neg : IsFinite (-a) ↔ IsFinite a := by
  cases a with
  | finite x   => exact iff_of_true ⟨-x, rfl⟩ ⟨x, rfl⟩
  | infinite s => exact iff_of_false (not_isFinite_infinite _) (not_isFinite_infinite _)
  | nan        => exact Iff.rfl

omit [LinearOrder K] in
theorem isFinite_sub : IsFinite (a - b) ↔ IsFinite a ∧ IsFinite b :=
  isFinite_add.trans (and_congr_right' isFinite_neg)

theorem isFinite_mul : IsFinite (a * b) ↔ IsFinite a ∧ IsFinite b := by
  constructor
  · rintro ⟨z, hz⟩
    cases a with
    | finite x =>
      cases b with
      | finite y   => exact ⟨⟨x, rfl⟩, y, rfl⟩
      | infinite t =>
        change (if x = 0 then nan else infinite (xor (x < 0) t)) = finite z at hz
        split at hz <;> cases hz
      | nan        => cases hz
    | infinite s =>
      cases b with
      | finite y   =>
        change (if y = 0 then nan else infinite (xor s (y < 0))) = finite z at hz
        split at hz <;> cases hz
      | infinite t => cases hz
      | nan        => cases hz
    | nan => cases b <;> cases hz
  · rintro ⟨⟨x, rfl⟩, y, rfl⟩
    exact ⟨x * y, rfl⟩

theorem isFinite_div (hb : IsFinite b) : IsFinite (a / b) ↔ IsFinite a ∧ b ≠ 0 := by
  obtain ⟨y, rfl⟩ := hb
  have hy : (finite y : Ieee K) ≠ 0 ↔ y ≠ 0 := not_congr ⟨fun h => finite.inj h, fun h => congrArg finite h⟩
  rw [hy]
  cases a with
  | finite x =>
    by_cases h : y = 0
    · refine iff_of_false (fun ⟨z, hz⟩ => ?_) (fun h' => h'.2 h)
      change (if y = 0 then if x = 0 then nan else infinite (x < 0) else finite (x / y)) = finite z at hz
      rw [if_pos h] at hz
      split at hz <;> cases hz
    · exact iff_of_true ⟨x / y, finite_div h⟩ ⟨⟨x, rfl⟩, h⟩
  | infinite s => exact iff_of_false nofun (fun h => not_isFinite_infinite s h.1)
  | nan        => exact iff_of_false nofun (fun h => not_isFinite_nan h.1)

theorem isFinite_of_div (h : IsFinite (a / b)) : IsFinite a := by
  cases a with
  | finite x   => exact ⟨x, rfl⟩
  | infinite s => cases b <;> exact absurd h nofun
  | nan        => cases b <;> exact absurd h nofun

/-! ## Sums -/

omit [LinearOrder K] in
/-- `l.iter().sum()`, from a first term. -/
theorem isFinite_foldl : ∀ (l : List (Ieee K)) {a : Ieee K},
    IsFinite (l.foldl (· + ·) a) ↔ IsFinite a ∧ ∀ b ∈ l, IsFinite b
  | [], a     => by simp
  | b :: l, a => by
    rw [List.foldl_cons, isFinite_foldl l, isFinite_add, List.forall_mem_cons, and_assoc]

omit [LinearOrder K] in
theorem foldl_finite : ∀ (l : List K) (a : K), (l.map finite).foldl (· + ·) (finite a) = finite (a + l.sum)
  | [], a     => by rw [List.map_nil, List.foldl_nil, List.sum_nil, add_zero]
  | x :: l, a => by
    rw [List.map_cons, List.foldl_cons, finite_add, foldl_finite l, List.sum_cons, add_assoc]

/-- A sum of non-negative numbers is not zero just when one of them is not. -/
theorem foldl_ne_zero [IsStrictOrderedRing K] : ∀ (l : List (Ieee K)) {x : K}, 0 ≤ x → (∀ b ∈ l, IsFinite b) →
    (∀ b ∈ l, b.nonneg = true) → (l.foldl (· + ·) (finite x) ≠ 0 ↔ x ≠ 0 ∨ ∃ b ∈ l, b ≠ 0)
  | [], x, _, _, _        => by
    rw [List.foldl_nil]
    have hx : (finite x : Ieee K) ≠ 0 ↔ x ≠ 0 := not_congr ⟨fun h => finite.inj h, fun h => congrArg finite h⟩
    simp [hx]
  | b :: l, x, hx, hf, hn => by
    obtain ⟨y, rfl⟩ := hf b List.mem_cons_self
    have hy : 0 ≤ y := of_decide_eq_true (hn _ List.mem_cons_self)
    have hne : (finite y : Ieee K) ≠ 0 ↔ y ≠ 0 := not_congr ⟨fun h => finite.inj h, fun h => congrArg finite h⟩
    have hsum : x + y ≠ 0 ↔ x ≠ 0 ∨ y ≠ 0 := by
      rw [Ne, add_eq_zero_iff_of_nonneg hx hy, not_and_or]
    rw [List.foldl_cons, finite_add, foldl_ne_zero l (add_nonneg hx hy) (fun b hb => hf b (List.mem_cons_of_mem _ hb))
      (fun b hb => hn b (List.mem_cons_of_mem _ hb)), hsum]
    simp only [List.exists_mem_cons_iff, hne, or_assoc]

end

end Ieee
