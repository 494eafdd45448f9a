import Mathlib.Algebra.BigOperators.Ring.Finset
import Mathlib.Algebra.BigOperators.Group.Finset.Sigma
import Mathlib.Tactic.Common
/-!
# Flow — pushing forward and pulling back through layers

Layers of so many points each, and for each layer the weight of every point on every point of the next layer.  Weights
on a layer are pushed to the next one, and values on it are pulled back from the next one.  The two are dual: the sum of
the products does not change (`sum_push`), however many layers lie between (`sum_pushes`).
-/
namespace Flow

open Finset

variable {K : Type} [CommSemiring K] (size : ℕ → ℕ) (w : ℕ → ℕ → ℕ → K)

def push (i : ℕ) (f : ℕ → K) (k : ℕ) : K := ∑ j ∈ range (size i), f j * w i j k

def pull (i : ℕ) (g : ℕ → K) (j : ℕ) : K := ∑ k ∈ range (size (i + 1)), w i j k * g k

/-- Pushed from the layer `i` on, through so many layers. -/
def pushes (i : ℕ) (f : ℕ → K) : ℕ → ℕ → K
  | 0     => f
  | m + 1 => push size w (i + m) (pushes i f m)

/-- Pulled back to the layer `i`, through so many layers. -/
def pulls (i : ℕ) : ℕ → (ℕ → K) → ℕ → K
  | 0, g     => g
  | m + 1, g => pulls i m (pull size w (i + m) g)

/-- **Pushing and pulling are dual.** -/
theorem sum_push (i : ℕ) (f g : ℕ → K) :
    ∑ k ∈ range (size (i + 1)), push size w i f k * g k = ∑ j ∈ range (size i), f j * pull size w i g j := by
  simp only [push, pull, sum_mul, mul_sum]
  rw [sum_comm]
  simp only [mul_assoc]

theorem sum_pushes (i : ℕ) (f : ℕ → K) : ∀ (m : ℕ) (g : ℕ → K),
    ∑ k ∈ range (size (i + m)), pushes size w i f m k * g k = ∑ j ∈ range (size i), f j * pulls size w i m g j
  | 0, _     => rfl
  | m + 1, g => by
    rw [pulls, ← sum_pushes i f m, pushes]
    exact sum_push size w (i + m) _ g

theorem pushes_add (i : ℕ) (f : ℕ → K) (m : ℕ) : ∀ n, pushes size w i f (m + n) =
    pushes size w (i + m) (pushes size w i f m) n
  | 0     => rfl
  | n + 1 => by rw [← Nat.add_assoc, pushes, pushes, pushes_add i f m n, Nat.add_assoc]

theorem pulls_succ (i : ℕ) : ∀ (m : ℕ) (g : ℕ → K), pulls size w i (m + 1) g = pull size w i (pulls size w (i + 1) m g)
  | 0, _     => rfl
  | m + 1, g => by
    rw [pulls, pulls_succ i m, pulls, show i + (m + 1) = i + 1 + m by omega]

end Flow
