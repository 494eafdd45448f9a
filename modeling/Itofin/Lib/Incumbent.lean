import Mathlib.Data.List.Induction
import Mathlib.Tactic.Common
/-!
# Incumbent — the first of the best

A look through a list that keeps the best of what it admits: a later item takes the place of the one it has only where it is
better, so the one it ends with is the first of the best (`best_cases`).
-/
namespace Incumbent

variable {α : Type} (admits : α → Prop) [DecidablePred admits] (lt : α → α → Prop) [DecidableRel lt]

/-- The better one of what was best and a new item. -/
def keep (best : Option α) (a : α) : Option α := if admits a ∧ best.all (fun b => lt a b) then some a else best

def best (items : List α) : Option α := items.foldl (keep admits lt) none

theorem best_append (items : List α) (a : α) : best admits lt (items ++ [a]) = keep admits lt (best admits lt items) a := by
  rw [best, List.foldl_append]
  rfl

variable {admits lt} {a : α}

theorem keep_of_not_admits (b : Option α) (h : ¬ admits a) : keep admits lt b a = b := if_neg (fun h' => h h'.1)

/-- **What is best**: the first of the items that no other is better than. -/
theorem best_cases (asymm : ∀ a b, lt a b → ¬ lt b a)
    (trans : ∀ a b c, admits a → admits b → admits c → lt a b → ¬ lt c b → lt a c) (items : List α) :
    (best admits lt items = none ∧ ∀ a ∈ items, ¬ admits a) ∨
      ∃ before a after, items = before ++ a :: after ∧ best admits lt items = some a ∧ admits a ∧
        (∀ b ∈ before, admits b → lt a b) ∧ ∀ b ∈ after, admits b → ¬ lt b a := by
  induction items using List.reverseRecOn with
  | nil                      => exact .inl ⟨rfl, nofun⟩
  | append_singleton items a ih =>
    rw [best_append]
    by_cases ha : admits a
    · rcases ih with ⟨hnone, hno⟩ | ⟨before, b, after, rfl, hbest, hb, hbefore, hafter⟩
      · refine .inr ⟨items, a, [], rfl, ?_, ha, fun b hb h => absurd h (hno b hb), nofun⟩
        rw [hnone]
        exact if_pos ⟨ha, rfl⟩
      · rw [hbest]
        by_cases hlt : lt a b
        · refine .inr ⟨_, a, [], rfl, if_pos ⟨ha, decide_eq_true hlt⟩, ha, fun c hc h => ?_, nofun⟩
          -- The new item is better than all before it: than the best one, and so than what that one is not worse than.
          rcases List.mem_append.1 hc with hc | hc
          · exact trans a b c ha hb h hlt (asymm b c (hbefore c hc h))
          · rcases List.mem_cons.1 hc with rfl | hc
            · exact hlt
            · exact trans a b c ha hb h hlt (hafter c hc h)
        · refine .inr ⟨before, b, after ++ [a], by simp, if_neg (fun h => hlt (of_decide_eq_true h.2)), hb, hbefore,
            fun c hc h => ?_⟩
          rcases List.mem_append.1 hc with hc | hc
          · exact hafter c hc h
          · rwa [List.mem_singleton.1 hc]
    · rw [keep_of_not_admits _ ha]
      rcases ih with ⟨hnone, hno⟩ | ⟨before, b, after, rfl, hbest, hb, hbefore, hafter⟩
      · refine .inl ⟨hnone, fun c hc => ?_⟩
        rcases List.mem_append.1 hc with hc | hc
        · exact hno c hc
        · rwa [List.mem_singleton.1 hc]
      · refine .inr ⟨before, b, after ++ [a], by simp, hbest, hb, hbefore, fun c hc h => ?_⟩
        rcases List.mem_append.1 hc with hc | hc
        · exact hafter c hc h
        · rw [List.mem_singleton.1 hc] at h
          exact absurd h ha

end Incumbent
