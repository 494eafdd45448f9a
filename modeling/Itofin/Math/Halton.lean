import Itofin.Lib.Mirrored
import Mathlib.Data.Nat.Nth
import Mathlib.Algebra.Order.Ring.Rat
import Mathlib.NumberTheory.PrimeCounting
/-!
# Halton — prime bases and radical inverses

`math/randomnumbers/haltonrsg.rs`: a coordinate of a draw is the radical inverse of the counter to a prime base of its own.
The bases are the first primes (`firstPrimes_eq`), found by trial division, and the loop of the inverse mirrors the digits
(`radicalInverse_mirrors`), in exact arithmetic.  The counters are natural numbers: what the source holds in 64 bits outlasts
any list of primes that it can store.
-/
namespace Itofin
namespace HaltonRsg

/-! ## Primes -/

/-- `while d * d <= n { if n.is_multiple_of(d) { return false; } d += 1; }` -/
def noDivisorFrom (n d : ℕ) : Bool :=
  if d * d ≤ n then
    if n % d = 0 then false else noDivisorFrom n (d + 1)
  else true
termination_by n + 1 - d
decreasing_by
  have : d ≤ d * d := Nat.le_mul_self d
  omega

def isPrime (n : ℕ) : Bool := if n < 2 then false else noDivisorFrom n 2

theorem noDivisorFrom_iff (n : ℕ) : ∀ d, noDivisorFrom n d = true ↔ ∀ e, d ≤ e → e * e ≤ n → ¬ e ∣ n := by
  intro d
  induction d using noDivisorFrom.induct (n := n) with
  | case1 d hle hdvd =>
    rw [noDivisorFrom, if_pos hle, if_pos hdvd]
    simp only [Bool.false_eq_true, false_iff]
    exact fun h => h d (Nat.le_refl d) hle (Nat.dvd_of_mod_eq_zero hdvd)
  | case2 d hle hdvd ih =>
    rw [noDivisorFrom, if_pos hle, if_neg hdvd, ih]
    refine ⟨fun h e he hsq => ?_, fun h e he => h e (by omega)⟩
    rcases Nat.eq_or_lt_of_le he with rfl | hlt
    · exact fun h => hdvd (Nat.mod_eq_zero_of_dvd h)
    · exact h e hlt hsq
  | case3 d hgt =>
    rw [noDivisorFrom, if_neg hgt]
    simp only [true_iff]
    exact fun e he hsq => absurd ((Nat.mul_le_mul he he).trans hsq) hgt

/-- **Trial division up to the square root decides primality.** -/
theorem isPrime_iff (n : ℕ) : isPrime n = true ↔ n.Prime := by
  rw [isPrime, Nat.prime_def_le_sqrt]
  split
  · simp only [Bool.false_eq_true, false_iff, not_and]
    omega
  · rw [noDivisorFrom_iff]
    refine ⟨fun h => ⟨by omega, fun e he hsq => h e he (Nat.le_sqrt.mp hsq)⟩, fun h e he hsq => ?_⟩
    exact h.2 e he (Nat.le_sqrt.mpr hsq)

/-- The loop of `first_primes` between two turns: the primes up to the candidate. -/
structure Search where
  candidate : ℕ
  primes    : List ℕ
  listed    : primes = (List.range (Nat.count Nat.Prime (candidate + 1))).map (Nat.nth Nat.Prime)

/-- `candidate += 1; if is_prime(candidate) { primes.push(candidate); }` -/
def Search.turn (s : Search) : Search where
  candidate := s.candidate + 1
  primes    := if isPrime (s.candidate + 1) then s.primes ++ [s.candidate + 1] else s.primes
  listed    := by
    rw [Nat.count_succ _ (s.candidate + 1)]
    by_cases hprime : (s.candidate + 1).Prime
    · rw [if_pos hprime, if_pos ((isPrime_iff _).mpr hprime), List.range_succ, List.map_append, ← s.listed, List.map_singleton,
        Nat.nth_count hprime]
    · rw [if_neg hprime, if_neg (mt (isPrime_iff _).mp hprime), Nat.add_zero, s.listed]

theorem Search.length_eq (s : Search) : s.primes.length = Nat.count Nat.Prime (s.candidate + 1) := by
  rw [s.listed, List.length_map, List.length_range]

/-- While primes are missing, the next one is beyond the candidate. -/
theorem Search.candidate_lt {n : ℕ} (s : Search) (h : s.primes.length < n) : s.candidate < Nat.nth Nat.Prime n := by
  rw [s.length_eq] at h
  exact (Nat.count_le_iff_le_nth Nat.infinite_setOfPred_prime).mp h.le

/-- `while primes.len() < n { .. }`: it ends because there are infinitely many primes. -/
def firstPrimesLoop (n : ℕ) (s : Search) : List ℕ :=
  if s.primes.length < n then firstPrimesLoop n s.turn else s.primes
termination_by Nat.nth Nat.Prime n - s.candidate
decreasing_by
  rename_i h
  have := s.candidate_lt h
  simp only [Search.turn]
  omega

def firstPrimes (n : ℕ) : List ℕ := firstPrimesLoop n ⟨1, [], by decide⟩

theorem turn_length_le {n : ℕ} (s : Search) (h : s.primes.length < n) : s.turn.primes.length ≤ n := by
  rw [Search.turn]
  dsimp only
  split
  · rw [List.length_append, List.length_singleton]
    exact h
  · exact h.le

theorem firstPrimesLoop_eq (n : ℕ) (s : Search) (hs : s.primes.length ≤ n) :
    firstPrimesLoop n s = (List.range n).map (Nat.nth Nat.Prime) := by
  induction s using firstPrimesLoop.induct (n := n) with
  | case1 s hlt ih =>
    rw [firstPrimesLoop, if_pos hlt]
    exact ih (turn_length_le s hlt)
  | case2 s hge =>
    have hlength : Nat.count Nat.Prime (s.candidate + 1) = n := by
      have := s.length_eq
      omega
    rw [firstPrimesLoop, if_neg hge, s.listed, hlength]

/-- **The first primes, in their order.** -/
theorem firstPrimes_eq (n : ℕ) : firstPrimes n = (List.range n).map (Nat.nth Nat.Prime) :=
  firstPrimesLoop_eq n _ (Nat.zero_le n)

/-! ## Radical inverses -/

/-- A base has more than one digit. -/
abbrev Base : Type := {b : ℕ // 2 ≤ b}

variable {K : Type} [Field K]

/-- `while k != 0 { f /= b; h += (k % b) * f; k /= b; }` -/
def inverseLoop (b : Base) (h f : K) (k : ℕ) : K :=
  if k = 0 then h else
    let f := f / b.1
    inverseLoop b (h + (k % b.1 : ℕ) * f) f (k / b.1)
termination_by k
decreasing_by exact Nat.div_lt_self (by omega) b.2

def radicalInverse (b : Base) (k : ℕ) : K := inverseLoop b 0 1 k

theorem inverseLoop_of_zero (b : Base) (h f : K) {k : ℕ} (hk : k = 0) : inverseLoop b h f k = h := by
  rw [inverseLoop, if_pos hk]

theorem inverseLoop_of_pos (b : Base) (h f : K) {k : ℕ} (hk : k ≠ 0) :
    inverseLoop b h f k = inverseLoop b (h + (k % b.1 : ℕ) * (f / b.1)) (f / b.1) (k / b.1) := by
  rw [inverseLoop, if_neg hk]

/-- The loop adds what the rest of the digits stand for, from its place on. -/
theorem inverseLoop_eq (b : Base) (h f : K) (k : ℕ) : inverseLoop b h f k = h + f * radicalInverse b k := by
  induction k using Nat.strong_induction_on generalizing h f with
  | _ k ih =>
    by_cases hk : k = 0
    · rw [radicalInverse, inverseLoop_of_zero _ _ _ hk, inverseLoop_of_zero _ _ _ hk, mul_zero, add_zero]
    · have hlt := Nat.div_lt_self (Nat.pos_of_ne_zero hk) b.2
      rw [radicalInverse, inverseLoop_of_pos _ _ _ hk, inverseLoop_of_pos _ _ _ hk, ih _ hlt, ih _ hlt]
      ring

theorem radicalInverse_mirrors [LinearOrder K] [IsStrictOrderedRing K] (b : Base) :
    Mirrored.Mirrors b.1 (radicalInverse b : ℕ → K) where
  base   := b.2
  zero   := inverseLoop_of_zero b 0 1 rfl
  step k := by
    by_cases hk : k = 0
    · have hzero : (radicalInverse b 0 : K) = 0 := inverseLoop_of_zero b 0 1 rfl
      rw [hk, Nat.zero_mod, Nat.zero_div, hzero, Nat.cast_zero, add_zero, zero_div]
    · rw [radicalInverse, inverseLoop_of_pos _ _ _ hk, inverseLoop_eq]
      ring

end HaltonRsg

/-! ## The generator -/

open HaltonRsg

structure HaltonRsg (K : Type) where
  sequenceCounter : ℕ
  bases           : List Base
  sequence        : List K

namespace HaltonRsg

variable {K : Type} [Field K]

theorem two_le_of_mem {n p : ℕ} (h : p ∈ firstPrimes n) : 2 ≤ p := by
  rw [firstPrimes_eq] at h
  obtain ⟨i, -, rfl⟩ := List.mem_map.mp h
  exact (Nat.prime_nth_prime i).two_le

def new (dimensionality : ℕ) : Except String (HaltonRsg K) :=
  if 0 < dimensionality then
    .ok ⟨0, (firstPrimes dimensionality).pmap Subtype.mk (fun _ => two_le_of_mem), List.replicate dimensionality 0⟩
  else .error "dimensionality must be greater than 0"

def nextSequence (g : HaltonRsg K) : HaltonRsg K where
  sequenceCounter := g.sequenceCounter + 1
  bases           := g.bases
  sequence        := g.bases.map (fun b => radicalInverse b (g.sequenceCounter + 1))

/-- The `i`-th prime as a base. -/
noncomputable def base (i : ℕ) : Base := ⟨Nat.nth Nat.Prime i, (Nat.prime_nth_prime i).two_le⟩

theorem new_eq {dimensionality : ℕ} (h : 0 < dimensionality) :
    (new dimensionality : Except String (HaltonRsg K)) =
      .ok ⟨0, (List.range dimensionality).map base, List.replicate dimensionality 0⟩ := by
  have hbases : (firstPrimes dimensionality).pmap Subtype.mk (fun _ => two_le_of_mem) =
      (List.range dimensionality).map base := by
    refine List.map_injective_iff.mpr Subtype.val_injective ?_
    rw [List.map_pmap, List.pmap_eq_map, List.map_id', firstPrimes_eq, List.map_map]
    rfl
  rw [new, if_pos h, hbases]

theorem draws_eq (g : HaltonRsg K) (n : ℕ) :
    (nextSequence^[n + 1] g).sequence = g.bases.map (fun b => radicalInverse b (g.sequenceCounter + n + 1)) := by
  induction n generalizing g with
  | zero => rfl
  | succ n ih =>
    rw [Function.iterate_succ_apply, ih]
    simp only [nextSequence, Nat.add_right_comm _ 1 n, Nat.add_assoc]

/-- **The Halton sequence**: the bases are the first primes in their order; the inverse to a base lies strictly between 0 and 1
for every positive counter, tells the counters apart, and takes those of so many digits to the positive multiples of the last
place, each once; and the draws of a generator are the inverses of their number to the bases. -/
theorem halton_spec [LinearOrder K] [IsStrictOrderedRing K] :
    (∀ n, firstPrimes n = (List.range n).map (Nat.nth Nat.Prime)) ∧
    (∀ b : Base, (∀ k, 0 < k → 0 < (radicalInverse b k : K) ∧ (radicalInverse b k : K) < 1) ∧
      Function.Injective (radicalInverse b : ℕ → K) ∧
      ∀ m, ((List.range' 1 (b.1 ^ m - 1)).map (radicalInverse b : ℕ → K)).Perm
        ((List.range' 1 (b.1 ^ m - 1)).map (fun j : ℕ => (j : K) / (b.1 : K) ^ m))) ∧
    ∀ dimensionality, 0 < dimensionality → ∃ g : HaltonRsg K, new dimensionality = .ok g ∧
      ∀ n, (nextSequence^[n + 1] g).sequence = (List.range dimensionality).map (fun i => radicalInverse (base i) (n + 1)) := by
  refine ⟨firstPrimes_eq, fun b => ?_, fun dimensionality h => ⟨_, new_eq h, fun n => ?_⟩⟩
  · have hmirrors : Mirrored.Mirrors b.1 (radicalInverse b : ℕ → K) := radicalInverse_mirrors b
    exact ⟨fun k hk => ⟨hmirrors.pos k hk, (hmirrors.range k).2⟩, hmirrors.injective, hmirrors.perm⟩
  · rw [draws_eq, List.map_map, Nat.zero_add]
    rfl

theorem halton_spec_three : ∃ g : HaltonRsg ℚ, new 3 = .ok g ∧
    ∀ n, (nextSequence^[n + 1] g).sequence = (List.range 3).map (fun i => radicalInverse (base i) (n + 1)) :=
  halton_spec.2.2 3 (by decide)

end HaltonRsg
end Itofin
