import Itofin.Time.DayCounters.ActualActual
import Itofin.Time.DayCounters.Thirty360
/-!
# DayCounter — the measures of a period that add up

`time/daycounter.rs`: a counter measures a period by days and by a fraction of a year.  A measure that is the difference
of a function of the two dates adds up over any three dates, in any order: the ISDA fraction is one (`isda_eq`), and so
are the 30/360 counts that adjust each date by itself (`dayCount_eq`).
-/
namespace Itofin

open Turns (Halt)

/-- The counters, as far as they are modelled. -/
inductive DayCounter where
  | actualActual (c : ActualActual.Convention)
  | thirty360 (self : Thirty360.Counter)

namespace DayCounter

def dayCount : DayCounter → Date → Date → ℤ
  | actualActual _, d1, d2 => d2.serialNumber - d1.serialNumber
  | thirty360 self, d1, d2 => Thirty360.dayCount self d1 d2

def yearFractionRef : DayCounter → Date → Date → Date → Date → Except Halt ℚ
  | actualActual c, d1, d2, refPeriodStart, refPeriodEnd =>
    ActualActual.yearFractionRef c d1 d2 refPeriodStart refPeriodEnd
  | thirty360 self, d1, d2, _, _ => .ok ((Thirty360.dayCount self d1 d2 : ℚ) / 360)

def yearFraction (self : DayCounter) (d1 d2 : Date) : Except Halt ℚ := self.yearFractionRef d1 d2 Date.null Date.null

/-- The ISDA convention and its aliases. -/
def isIsda (self : DayCounter) : Prop :=
  self = actualActual .isda ∨ self = actualActual .historical ∨ self = actualActual .actual365

/-- The 30E/360 convention, its alias, and the Italian one. -/
def isEuropean (self : DayCounter) : Prop :=
  self = thirty360 (Thirty360.withConvention .european) ∨ self = thirty360 (Thirty360.withConvention .eurobondBasis) ∨
    self = thirty360 (Thirty360.withConvention .italian)

variable {self : DayCounter} {a b c : Date}

theorem yearFraction_isda (h : self.isIsda) (ha : a ≠ Date.null) (hb : b ≠ Date.null) :
    self.yearFraction a b = .ok (ActualActual.position b - ActualActual.position a) := by
  have hi := ActualActual.isda_eq ha hb
  rcases h with rfl | rfl | rfl <;> exact hi

/-- A counter of that kind has a rule that adjusts each date by itself. -/
theorem separate_of_isEuropean (h : self.isEuropean) : ∃ s, self = thirty360 s ∧ Thirty360.Separate s.rule := by
  rcases h with rfl | rfl | rfl
  · exact ⟨_, rfl, .inl rfl⟩
  · exact ⟨_, rfl, .inl rfl⟩
  · exact ⟨_, rfl, .inr rfl⟩

/-- **Day counts add up.**  The ISDA year fractions of three dates, in whatever order, and the day counts of the 30E/360
and the Italian conventions: from the first to the second and on to the third is from the first to the third, and the
way back is the negative. -/
theorem adds_up (ha : a ≠ Date.null) (hb : b ≠ Date.null) (hc : c ≠ Date.null) :
    (∀ self : DayCounter, self.isIsda → ∃ x y, self.yearFraction a b = .ok x ∧ self.yearFraction b c = .ok y ∧
      self.yearFraction a c = .ok (x + y) ∧ self.yearFraction b a = .ok (-x)) ∧
    (∀ self : DayCounter, self.isEuropean → self.dayCount a b + self.dayCount b c = self.dayCount a c ∧
      self.dayCount b a = -self.dayCount a b) := by
  refine ⟨fun self h => ?_, fun self h => ?_⟩
  · refine ⟨_, _, yearFraction_isda h ha hb, yearFraction_isda h hb hc, ?_, ?_⟩
    · rw [yearFraction_isda h ha hc]
      congr 1
      ring
    · rw [yearFraction_isda h hb ha, neg_sub]
  · obtain ⟨s, rfl, hs⟩ := separate_of_isEuropean h
    exact Thirty360.dayCount_additive hs a b c

/-- From the last day of February to the last of a year and back. -/
theorem adds_up_february : ∃ a b : Date, (actualActual .isda).yearFraction a b = .ok (306 / 365) ∧
    (actualActual .isda).yearFraction b a = .ok (-(306 / 365)) := by
  refine ⟨⟨36950, by decide⟩, ⟨37256, by decide⟩, by decide +kernel, ?_⟩
  obtain ⟨x, -, hx, -, -, hb⟩ := (adds_up (a := ⟨36950, by decide⟩) (b := ⟨37256, by decide⟩) (c := ⟨37256, by decide⟩)
    (by decide) (by decide) (by decide)).1 (actualActual .isda) (.inl rfl)
  rw [hb]
  have h : (actualActual .isda).yearFraction ⟨36950, by decide⟩ ⟨37256, by decide⟩ = .ok (306 / 365) := by
    decide +kernel
  rw [h] at hx
  rw [← Except.ok.inj hx]

end DayCounter
end Itofin
