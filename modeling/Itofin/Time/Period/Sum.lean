import Mathlib.Tactic.Ring
import Itofin.Time.Period.Order
/-!
# Sum — adding periods

`AddAssign` of `time/period.rs`.  Years and months add in months, and weeks and days in days; nothing else does, unless
one of the two is empty.  `addAssign` checks every product and every sum for overflow, and `plus` is the sum in exact
arithmetic, which adds the measures (`measure_plus`).
-/
namespace Itofin

/-- Arithmetic on `i32`, which panics on an overflow. -/
def checked (n : ℤ) : Option ℤ := if isI32 n then some n else none

namespace Period

/-- `self += p`; an overflow and an impossible addition panic. -/
def addAssign (self p : Period) : Option Period :=
  if self.length = 0 then some p
  else if self.units = p.units then do
    let length ← checked (self.length + p.length)
    some ⟨length, self.units⟩
  else match self.units, p.units with
    | .years, .months => do
      let months ← checked (self.length * 12)
      let length ← checked (months + p.length)
      some ⟨length, .months⟩
    | .months, .years => do
      let months ← checked (p.length * 12)
      let length ← checked (self.length + months)
      some ⟨length, self.units⟩
    | .weeks, .days   => do
      let days ← checked (self.length * 7)
      let length ← checked (days + p.length)
      some ⟨length, .days⟩
    | .days, .weeks   => do
      let days ← checked (p.length * 7)
      let length ← checked (self.length + days)
      some ⟨length, self.units⟩
    | _, _            => if p.length = 0 then some self else none

def plus (p q : Period) : Option Period :=
  if p.length = 0 then some q
  else if p.units = q.units then some ⟨p.length + q.length, p.units⟩
  else match p.units, q.units with
    | .years, .months => some ⟨p.length * 12 + q.length, .months⟩
    | .months, .years => some ⟨p.length + q.length * 12, .months⟩
    | .weeks, .days   => some ⟨p.length * 7 + q.length, .days⟩
    | .days, .weeks   => some ⟨p.length + q.length * 7, .days⟩
    | _, _            => if q.length = 0 then some p else none

/-- The products and the sums that `add_assign` forms. -/
def formed (p q : Period) : List ℤ :=
  if p.length = 0 then []
  else if p.units = q.units then [p.length + q.length]
  else match p.units, q.units with
    | .years, .months => [p.length * 12, p.length * 12 + q.length]
    | .months, .years => [q.length * 12, p.length + q.length * 12]
    | .weeks, .days   => [p.length * 7, p.length * 7 + q.length]
    | .days, .weeks   => [q.length * 7, p.length + q.length * 7]
    | _, _            => []

/-- No product and no sum of the addition overflows. -/
def SumFits (p q : Period) : Prop := ∀ n ∈ formed p q, isI32 n

instance (p q : Period) : Decidable (SumFits p q) := inferInstanceAs (Decidable (∀ n ∈ _, _))

variable {p q r : Period}

theorem checked_bind {α : Type} (n : ℤ) (f : ℤ → Option α) : (checked n).bind f = if isI32 n then f n else none := by
  rw [checked]
  split <;> rfl

/-- **`add_assign` is the sum, unless it overflows.** -/
theorem addAssign_eq (p q : Period) : p.addAssign q = if SumFits p q then p.plus q else none := by
  unfold addAssign plus SumFits formed
  split
  · simp
  split
  · simp [checked_bind]
  · cases hp : p.units <;> cases hq : q.units <;> simp [checked_bind, ite_and]

theorem measure_plus (h : p.plus q = some r) : r.measure = p.measure + q.measure := by
  obtain ⟨m, u⟩ := p
  obtain ⟨n, v⟩ := q
  have empty (u : TimeUnit) : (⟨0, u⟩ : Period).measure = 0 := by cases u <;> rfl
  rw [plus] at h
  split at h
  · rename_i hm
    obtain rfl : m = 0 := hm
    rw [empty, zero_add, Option.some.inj h]
  split at h
  · rename_i hu
    obtain rfl : u = v := hu
    rw [← Option.some.inj h]
    cases u <;> simp only [measure] <;> ring
  split at h
  · rename_i hu hv
    obtain ⟨rfl, rfl⟩ : u = .years ∧ v = .months := ⟨hu, hv⟩
    rw [← Option.some.inj h]
    simp only [measure]
    ring
  · rename_i hu hv
    obtain ⟨rfl, rfl⟩ : u = .months ∧ v = .years := ⟨hu, hv⟩
    rw [← Option.some.inj h]
    simp only [measure]
    ring
  · rename_i hu hv
    obtain ⟨rfl, rfl⟩ : u = .weeks ∧ v = .days := ⟨hu, hv⟩
    rw [← Option.some.inj h]
    simp only [measure]
    ring
  · rename_i hu hv
    obtain ⟨rfl, rfl⟩ : u = .days ∧ v = .weeks := ⟨hu, hv⟩
    rw [← Option.some.inj h]
    simp only [measure]
    ring
  · split at h
    · rename_i hn
      obtain rfl : n = 0 := hn
      rw [empty, add_zero, Option.some.inj h]
    · cases h

theorem isI32_plus (hp : isI32 p.length) (hq : isI32 q.length) (hfits : SumFits p q) (h : p.plus q = some r) :
    isI32 r.length := by
  unfold plus at h
  unfold SumFits formed at hfits
  split at h
  · rwa [← Option.some.inj h]
  rename_i hm
  rw [if_neg hm] at hfits
  split at h
  · rename_i hu
    rw [if_pos hu] at hfits
    rw [← Option.some.inj h]
    exact hfits _ List.mem_cons_self
  rename_i hu
  rw [if_neg hu] at hfits
  split at h
  case h_5 =>
    split at h
    · rwa [← Option.some.inj h]
    · cases h
  all_goals
    rename_i hp hq
    rw [hp, hq] at hfits
    rw [← Option.some.inj h]
    exact hfits _ (List.mem_cons_of_mem _ List.mem_cons_self)

end Period
end Itofin
