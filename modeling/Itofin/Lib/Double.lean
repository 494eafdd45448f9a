import Itofin.Lib.Ieee
import Mathlib.Algebra.Order.Floor.Ring
import Mathlib.Data.Nat.Log
import Mathlib.Tactic.Common
/-!
# Double — the comparisons of machine numbers

A machine number is one of `Ieee` with its sign bit, which tells the two zeros apart, and the two kinds of `nan`; what it is
elsewhere does not matter.  `<` and `<=` do not see it, the total order does.  On numbers that are not `nan` the total order
refines `<=` (`le_of_totalLe`).  What sums and products round to is left open (`Double.Arithmetic`).  A size is rounded to 53
bits, and a number is cut to a size (`one_le_toSize_max`).
-/
structure Double (K : Type) where
  val      : Ieee K
  negative : Bool
  deriving DecidableEq

namespace Double

/-- The operations on machine numbers, and the numbers that a program writes. -/
class Arithmetic (K : Type) extends Add (Double K), Sub (Double K), Mul (Double K), Div (Double K), Neg (Double K) where
  abs     : Double K → Double K
  literal : ℚ → Double K

export Arithmetic (abs literal)

variable {K : Type}

def infinity : Double K := ⟨.infinite false, false⟩

def nan : Double K := ⟨.nan, false⟩

def isFinite (a : Double K) : Bool :=
  match a.val with
  | .finite _ => true
  | _         => false

/-- `is_nan`, or it is the infinity below all numbers. -/
def isLost (a : Double K) : Bool :=
  match a.val with
  | .finite _   => false
  | .infinite s => s
  | .nan        => true

section

variable (K) [Field K] [LinearOrder K]

/-- A number with the sign that it has. -/
def signed (a : Ieee K) : Double K :=
  ⟨a, match a with
    | .finite x   => x < 0
    | .infinite s => s
    | .nan        => false⟩

/-- The operations that round nothing. -/
@[reducible]
def Arithmetic.exact : Arithmetic K where
  add a b   := signed K (a.val + b.val)
  sub a b   := signed K (a.val - b.val)
  mul a b   := signed K (a.val * b.val)
  div a b   := signed K (a.val / b.val)
  neg a     := ⟨-a.val, !a.negative⟩
  abs a     := if a.val.lt 0 then ⟨-a.val, false⟩ else ⟨a.val, false⟩
  literal q := signed K (.finite q)

end

variable [LinearOrder K]

/-- `a < b` -/
def lt (a b : Double K) : Bool :=
  match a.val, b.val with
  | .finite x, .finite y     => x < y
  | .finite _, .infinite s   => !s
  | .infinite s, .finite _   => s
  | .infinite s, .infinite t => s && !t
  | .nan, _                  => false
  | _, .nan                  => false

/-- `a <= b` -/
def le (a b : Double K) : Bool :=
  match a.val, b.val with
  | .finite x, .finite y     => x ≤ y
  | .finite _, .infinite s   => !s
  | .infinite s, .finite _   => s
  | .infinite s, .infinite t => s || !t
  | .nan, _                  => false
  | _, .nan                  => false

instance : LT (Double K) := ⟨fun a b => lt a b = true⟩
instance : LE (Double K) := ⟨fun a b => le a b = true⟩

instance (a b : Double K) : Decidable (a < b) := inferInstanceAs (Decidable (lt a b = true))
instance (a b : Double K) : Decidable (a ≤ b) := inferInstanceAs (Decidable (le a b = true))

/-- The place of a kind of number in the total order. -/
def rank (a : Double K) : ℕ :=
  match a.val with
  | .finite _   => 2
  | .infinite s => if s then 1 else 3
  | .nan        => if a.negative then 0 else 4

/-- `total_cmp` is not greater. -/
def totalLe (a b : Double K) : Bool :=
  match a.val, b.val with
  | .finite x, .finite y => x < y || (x == y && (a.negative || !b.negative))
  | _, _                 => a.rank ≤ b.rank

variable {a b c : Double K}

theorem totalLe_total (a b : Double K) : totalLe a b = true ∨ totalLe b a = true := by
  rcases a with ⟨x | s | _, p⟩ <;> rcases b with ⟨y | t | _, q⟩ <;> simp only [totalLe, rank] <;> grind

theorem totalLe_trans (hab : totalLe a b = true) (hbc : totalLe b c = true) : totalLe a c = true := by
  rcases a with ⟨x | s | _, p⟩ <;> rcases b with ⟨y | t | _, q⟩ <;> rcases c with ⟨z | u | _, r⟩ <;>
    simp only [totalLe, rank] at * <;> grind

/-- **The total order refines `<=`** on what a search goes on from. -/
theorem le_of_totalLe (ha : a.isLost = false) (hb : b.isLost = false) (h : totalLe a b = true) : a ≤ b := by
  change le a b = true
  rcases a with ⟨x | s | _, p⟩ <;> rcases b with ⟨y | t | _, q⟩ <;> simp only [totalLe, rank, le, isLost] at * <;> grind

theorem le_refl (ha : a.isLost = false) : a ≤ a := le_of_totalLe ha ha ((totalLe_total a a).elim id id)

theorem le_trans (hab : a ≤ b) (hbc : b ≤ c) : a ≤ c := by
  change le a b = true at hab
  change le b c = true at hbc
  change le a c = true
  rcases a with ⟨x | s | _, p⟩ <;> rcases b with ⟨y | t | _, q⟩ <;> rcases c with ⟨z | u | _, r⟩ <;>
    simp only [le] at * <;> grind

theorem le_of_lt (h : a < b) : a ≤ b := by
  change lt a b = true at h
  change le a b = true
  rcases a with ⟨x | s | _, p⟩ <;> rcases b with ⟨y | t | _, q⟩ <;> simp only [lt, le] at * <;> grind

theorem lt_of_lt_of_le (hab : a < b) (hbc : b ≤ c) : a < c := by
  change lt a b = true at hab
  change le b c = true at hbc
  change lt a c = true
  rcases a with ⟨x | s | _, p⟩ <;> rcases b with ⟨y | t | _, q⟩ <;> rcases c with ⟨z | u | _, r⟩ <;>
    simp only [lt, le] at * <;> grind

theorem le_of_not_lt (ha : a.isLost = false) (hb : b.isLost = false) (h : ¬ a < b) : b ≤ a := by
  change ¬ lt a b = true at h
  change le b a = true
  rcases a with ⟨x | s | _, p⟩ <;> rcases b with ⟨y | t | _, q⟩ <;> simp only [lt, le, isLost] at * <;> grind

theorem le_of_not_le (ha : a.isLost = false) (hb : b.isLost = false) (h : ¬ a ≤ b) : b ≤ a :=
  le_of_totalLe hb ha ((totalLe_total a b).resolve_left (fun hle => h (le_of_totalLe ha hb hle)))

omit [LinearOrder K] in
theorem isLost_of_isFinite (h : a.isFinite = true) : a.isLost = false := by
  rcases a with ⟨x | s | _, p⟩ <;> simp [isFinite, isLost] at *

omit [LinearOrder K] in
theorem val_of_not_isFinite (ha : a.isLost = false) (h : a.isFinite = false) : a.val = .infinite false := by
  rcases a with ⟨x | s | _, p⟩ <;> simp_all [isFinite, isLost]

theorem lt_asymm (h : a < b) : ¬ b < a := by
  change lt a b = true at h
  change ¬ lt b a = true
  rcases a with ⟨x | s | _, p⟩ <;> rcases b with ⟨y | t | _, q⟩ <;> simp only [lt] at * <;> grind

/-- What a search goes on from is finite where it is not above something finite. -/
theorem isFinite_of_le (ha : a.isLost = false) (hb : b.isFinite = true) (h : a ≤ b) : a.isFinite = true := by
  change le a b = true at h
  rcases a with ⟨x | s | _, p⟩ <;> rcases b with ⟨y | t | _, q⟩ <;> simp [isFinite, isLost, le] at *
  exact absurd h (by simp [ha])

/-! ## Sizes -/

/-- `usize::MAX` -/
def sizeMax : ℕ := 2 ^ 64 - 1

/-- The nearest number of 53 bits, and of two such the one with the even significand. -/
def roundSize (n : ℕ) : ℕ :=
  let ulp := 2 ^ (Nat.log 2 n - 52)
  let rest := 2 * (n % ulp)
  if rest < ulp ∨ rest = ulp ∧ n / ulp % 2 = 0 then n / ulp * ulp else (n / ulp + 1) * ulp

section

variable [Field K]

/-- `n as f64` -/
def ofSize (n : ℕ) : Double K := ⟨.finite (roundSize n : ℕ), false⟩

/-- `a.max(b)`: the other one of what is not a number. -/
def max (a b : Double K) : Double K :=
  match a.val, b.val with
  | .nan, _ => b
  | _, .nan => a
  | _, _    => if lt a b then b else a

/-- `a as usize`: cut towards zero, and to the range. -/
def toSize [FloorRing K] (a : Double K) : ℕ :=
  match a.val with
  | .finite x   => min ⌊x⌋.toNat sizeMax
  | .infinite s => if s then 0 else sizeMax
  | .nan        => 0

theorem roundSize_pos {n : ℕ} : 0 < roundSize n ↔ 0 < n := by
  rcases n.eq_zero_or_pos with rfl | hn
  · simp [roundSize]
  · have hpow : 2 ^ (Nat.log 2 n - 52) ≤ n :=
      (Nat.pow_le_pow_right Nat.two_pos (Nat.sub_le _ _)).trans (Nat.pow_log_le_self 2 hn.ne')
    have hulp : 0 < 2 ^ (Nat.log 2 n - 52) := Nat.pow_pos Nat.two_pos
    have hq : 0 < n / 2 ^ (Nat.log 2 n - 52) := Nat.div_pos hpow hulp
    refine iff_of_true ?_ hn
    unfold roundSize
    dsimp only
    split
    · exact Nat.mul_pos hq hulp
    · exact Nat.mul_pos (Nat.succ_pos _) hulp

variable [FloorRing K] [IsStrictOrderedRing K]

omit [IsStrictOrderedRing K] in
theorem one_le_toSize_finite {x : K} {s : Bool} : 1 ≤ toSize (⟨.finite x, s⟩ : Double K) ↔ 1 ≤ x := by
  have hmax : 1 ≤ sizeMax := by decide
  have hfloor : 1 ≤ ⌊x⌋.toNat ↔ 1 ≤ ⌊x⌋ := by omega
  change 1 ≤ min ⌊x⌋.toNat sizeMax ↔ 1 ≤ x
  rw [Nat.le_min, and_iff_left hmax, hfloor, Int.le_floor, Int.cast_one]

/-- **The greater of a number and a size, as a size, is not nothing** when one of them is not. -/
theorem one_le_toSize_max (a : Double K) (n : ℕ) : 1 ≤ toSize (max a (ofSize n)) ↔ 1 ≤ n ∨ 1 ≤ toSize a := by
  have hsize : 1 ≤ toSize (ofSize n : Double K) ↔ 1 ≤ n := by
    rw [ofSize, one_le_toSize_finite, Nat.one_le_cast]
    exact roundSize_pos
  obtain ⟨x | s | _, p⟩ := a
  · change 1 ≤ toSize (if decide (x < (roundSize n : K)) = true then ofSize n else ⟨.finite x, p⟩) ↔ _
    split
    · rename_i hlt
      have hle : 1 ≤ x → 1 ≤ (roundSize n : K) := fun h => h.trans (of_decide_eq_true hlt).le
      rw [hsize, one_le_toSize_finite, iff_comm, or_iff_left_iff_imp]
      intro h
      exact roundSize_pos.1 (Nat.one_le_cast.1 (hle h))
    · rename_i hge
      have hle : (roundSize n : K) ≤ x := not_lt.1 (fun h => hge (decide_eq_true h))
      rw [one_le_toSize_finite, iff_comm, or_iff_right_iff_imp]
      intro h
      exact (Nat.one_le_cast.2 (roundSize_pos.2 h)).trans hle
  · cases s with
    | true  =>
      change 1 ≤ toSize (ofSize n : Double K) ↔ 1 ≤ n ∨ 1 ≤ 0
      rw [hsize]
      omega
    | false => exact iff_of_true (show 1 ≤ sizeMax by decide) (.inr (show 1 ≤ sizeMax by decide))
  · change 1 ≤ toSize (ofSize n : Double K) ↔ 1 ≤ n ∨ 1 ≤ 0
    rw [hsize]
    omega

end

end Double
