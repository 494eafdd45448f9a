import Itofin.Lib.Mixing
import Mathlib.Dynamics.PeriodicPts.Lemmas
/-!
# Xoshiro — a generator that goes round

`xoshiro256starstaruniformrng.rs`: a state of four words that a step mixes, seeded by a counter and a mixer.  A step takes
no two states to one, so that every run goes round (`run_periodic`), and the state of zeros, which gives nothing but zeros,
is met from itself alone.  The words of a seed differ from one another, and no seed gives that state.
-/
namespace Itofin
namespace Xoshiro

structure SplitMix64 where
  x : BitVec 64

namespace SplitMix64

def gamma : BitVec 64 := 0x9e3779b97f4a7c15#64

def mix (x : BitVec 64) : BitVec 64 :=
  let z := (x ^^^ (x >>> 30)) * 0xbf58476d1ce4e5b9#64
  let z := (z ^^^ (z >>> 27)) * 0x94d049bb133111eb#64
  z ^^^ (z >>> 31)

def next (self : SplitMix64) : BitVec 64 × SplitMix64 :=
  let x := self.x + gamma
  (mix x, ⟨x⟩)

end SplitMix64

@[ext]
structure State where
  s0 : BitVec 64
  s1 : BitVec 64
  s2 : BitVec 64
  s3 : BitVec 64
deriving DecidableEq

structure Xoshiro256StarStarUniformRng where
  state : State
  seed : Option (BitVec 64)

namespace State

def result (self : State) : BitVec 64 := (self.s1 * 5#64).rotateLeft 7 * 9#64

def step (self : State) : State :=
  let t := self.s1 <<< 17
  let s2 := self.s2 ^^^ self.s0
  let s3 := self.s3 ^^^ self.s1
  let s1 := self.s1 ^^^ s2
  let s0 := self.s0 ^^^ s3
  ⟨s0, s1, s2 ^^^ t, s3.rotateLeft 45⟩

def zero : State := ⟨0#64, 0#64, 0#64, 0#64⟩

end State

namespace Xoshiro256StarStarUniformRng

/-- The words of a seed; `nonzero` is what the seed generator would give for none. -/
def new (nonzero seed : BitVec 64) : Xoshiro256StarStarUniformRng :=
  let seed := if seed ≠ 0#64 then seed else nonzero
  let (s0, split) := SplitMix64.next ⟨seed⟩
  let (s1, split) := split.next
  let (s2, split) := split.next
  let (s3, _) := split.next
  ⟨⟨s0, s1, s2, s3⟩, some seed⟩

def fromState (s0 s1 s2 s3 : BitVec 64) : Xoshiro256StarStarUniformRng := ⟨⟨s0, s1, s2, s3⟩, none⟩

def nextU64 (self : Xoshiro256StarStarUniformRng) : BitVec 64 × Xoshiro256StarStarUniformRng :=
  (self.state.result, { self with state := self.state.step })

/-- The generator after so many draws. -/
def after (self : Xoshiro256StarStarUniformRng) : ℕ → Xoshiro256StarStarUniformRng
  | 0     => self
  | k + 1 => (self.after k).nextU64.2

def output (self : Xoshiro256StarStarUniformRng) (k : ℕ) : BitVec 64 := (self.after k).nextU64.1

end Xoshiro256StarStarUniformRng

open Xoshiro256StarStarUniformRng

/-! ## The step -/

instance : Finite State :=
  Finite.of_injective (fun s : State => (s.s0, s.s1, s.s2, s.s3)) fun x y h => by
    simp only [Prod.mk.injEq] at h
    exact State.ext h.1 h.2.1 h.2.2.1 h.2.2.2

/-- **No two states have one successor.** -/
theorem step_injective : Function.Injective State.step := by
  intro x y h
  obtain ⟨h0, h1, h2, h3⟩ := State.mk.injEq .. ▸ h
  -- the last word gives the first
  have hrot : x.s3 ^^^ x.s1 = y.s3 ^^^ y.s1 := Mixing.rotateLeft_injective 45 h3
  have hs0 : x.s0 = y.s0 := by
    rw [hrot] at h0
    exact (BitVec.xor_left_inj _).1 h0
  -- what the middle two differ by gives the second
  have hcancel (a b t : BitVec 64) : (a ^^^ b) ^^^ (b ^^^ t) = a ^^^ t := by
    rw [BitVec.xor_assoc, ← BitVec.xor_assoc b, BitVec.xor_self, BitVec.zero_xor]
  have hs1 : x.s1 = y.s1 := by
    have hshift := congrArg₂ (· ^^^ ·) h1 h2
    simp only [hcancel] at hshift
    apply Mixing.xorMaskedShift_injective (k := 17) (by decide) (BitVec.allOnes 64)
    simpa only [BitVec.and_allOnes] using hshift
  have hs2 : x.s2 = y.s2 := by
    rw [hs1, hs0] at h1
    exact (BitVec.xor_left_inj _).1 ((BitVec.xor_right_inj _).1 h1)
  have hs3 : x.s3 = y.s3 := by
    rw [hs1] at hrot
    exact (BitVec.xor_left_inj _).1 hrot
  exact State.ext hs0 hs1 hs2 hs3

variable {rng : Xoshiro256StarStarUniformRng}

theorem after_state (rng : Xoshiro256StarStarUniformRng) : ∀ k, (rng.after k).state = State.step^[k] rng.state
  | 0     => rfl
  | k + 1 => by
    rw [Function.iterate_succ_apply', ← after_state rng k]
    rfl

theorem iterate_step_zero (k : ℕ) : State.step^[k] State.zero = State.zero := Function.iterate_fixed (by decide) k

/-- The state of zeros is met from itself alone. -/
theorem after_ne_zero (h : rng.state ≠ State.zero) (k : ℕ) : (rng.after k).state ≠ State.zero := by
  intro hzero
  rw [after_state, ← iterate_step_zero k] at hzero
  exact h (step_injective.iterate k hzero)

/-! ## Seeds -/

theorem mix_injective : Function.Injective SplitMix64.mix := by
  have hfirst := Mixing.mul_injective 0xbf58476d1ce4e5b9#64 0x96de1b173f119089#64 (by decide)
  have hsecond := Mixing.mul_injective 0x94d049bb133111eb#64 0x319642b2d24d8ec3#64 (by decide)
  exact (Mixing.xorShift_injective (by decide)).comp (hsecond.comp ((Mixing.xorShift_injective (by decide)).comp
    (hfirst.comp (Mixing.xorShift_injective (by decide)))))

/-- The words of a seed are not all zero, for no two of them are one. -/
theorem new_ne_zero (nonzero seed : BitVec 64) : (new nonzero seed).state ≠ State.zero := by
  intro h
  obtain ⟨h0, h1, -, -⟩ := State.mk.injEq .. ▸ h
  have hsame := mix_injective (h0.trans h1.symm)
  have hgamma : SplitMix64.gamma = 0#64 := add_eq_left.1 hsame.symm
  exact absurd hgamma (by decide)

/-- A generator that was seeded, or given a state other than that of zeros. -/
def Seeded (rng : Xoshiro256StarStarUniformRng) : Prop :=
  (∃ nonzero seed, new nonzero seed = rng) ∨ ∃ s0 s1 s2 s3, fromState s0 s1 s2 s3 = rng ∧ rng.state ≠ State.zero

theorem Seeded.ne_zero (h : Seeded rng) : rng.state ≠ State.zero := by
  rcases h with ⟨nonzero, seed, rfl⟩ | ⟨s0, s1, s2, s3, -, hne⟩
  · exact new_ne_zero nonzero seed
  · exact hne

/-- **Every run goes round, and never through the state of zeros**: after some draws the generator gives the same words
again, from the first. -/
theorem run_periodic (h : Seeded rng) :
    (∃ p, 0 < p ∧ ∀ k, rng.output (k + p) = rng.output k) ∧ ∀ k, (rng.after k).state ≠ State.zero := by
  refine ⟨?_, after_ne_zero h.ne_zero⟩
  obtain ⟨p, hp, hperiod⟩ := Function.mem_periodicPts.1 (step_injective.mem_periodicPts rng.state)
  refine ⟨p, hp, fun k => ?_⟩
  unfold output nextU64
  dsimp only
  rw [after_state, after_state, Function.iterate_add_apply, hperiod.eq]

theorem run_periodic_seed : (∃ p, 0 < p ∧ ∀ k, (fromState 1 0 0 0).output (k + p) = (fromState 1 0 0 0).output k) ∧
    ∀ k, ((fromState 1 0 0 0).after k).state ≠ State.zero :=
  run_periodic (.inr ⟨1, 0, 0, 0, rfl, by decide⟩)

end Xoshiro
end Itofin
