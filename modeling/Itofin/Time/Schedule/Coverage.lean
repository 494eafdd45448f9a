import Itofin.Time.Schedule
/-!
# Coverage — the ends of a schedule

Pushing keeps the date pushed first (`Draft.Extends`), so each rule starts from its end and the other end is pushed, or
adjusts to the same day as the date there (`backward_ends`, `forward_ends`).  Merging keeps both ends as long as two
dates are left, and drops a date and a flag together (`mergeEnd_spec`, `mergeStart_spec`).
-/
namespace Itofin.Schedule

open Calendar Ends

variable {a : Terms} {b b' b'' : Draft} {d seed exitDate : Date} {p : Period}

/-! ## Pushing -/

def Draft.Extends (b b' : Draft) : Prop := ∃ l, b'.dates = l ++ b.dates

theorem Draft.Extends.refl (b : Draft) : b.Extends b := ⟨[], rfl⟩

theorem Draft.Extends.trans (h : b.Extends b') (h' : b'.Extends b'') : b.Extends b'' := by
  obtain ⟨l, hl⟩ := h
  obtain ⟨l', hl'⟩ := h'
  exact ⟨l' ++ l, by rw [hl', hl, List.append_assoc]⟩

theorem Draft.Extends.push (b : Draft) (d : Date) (regular : Bool) : b.Extends (b.push d regular) := ⟨[d], rfl⟩

theorem Draft.Extends.getLast? (h : b.Extends b') : b'.dates.getLast? = b.dates.getLast? := by
  obtain ⟨l, hl⟩ := h
  rw [hl, List.getLast?_append_of_ne_nil]
  exact List.cons_ne_nil _ _

namespace Terms

theorem pushStub_eq_some (h : a.pushStub b p d = some b') : ∃ regular, b' = b.push d regular := by
  obtain ⟨temp, -, h⟩ := Option.bind_eq_some_iff.mp h
  exact ⟨_, (Option.some.inj h).symm⟩

theorem apart_eq_some {c : BusinessDayConvention} {d' : Date} {r : Bool} (h : a.apart c d d' = some r) :
    ∃ x y, a.calendar.adjust d c = some x ∧ a.calendar.adjust d' c = some y ∧ r = decide (x ≠ y) := by
  obtain ⟨x, hx, h⟩ := Option.bind_eq_some_iff.mp h
  obtain ⟨y, hy, h⟩ := Option.bind_eq_some_iff.mp h
  exact ⟨x, y, hx, hy, (Option.some.inj h).symm⟩

theorem apart_eq_false {c : BusinessDayConvention} {d' : Date} (h : a.apart c d d' = some false) :
    a.calendar.adjust d c = a.calendar.adjust d' c := by
  obtain ⟨x, y, hx, hy, hxy⟩ := apart_eq_some h
  rw [hx, hy, not_not.mp (of_decide_eq_false hxy.symm)]

theorem backwardLoop_extends : ∀ (fuel : ℕ) (periods : ℤ) (b : Draft),
    a.backwardLoop seed exitDate fuel periods b = some b' → b.Extends b'
  | 0, _, _, h              => absurd h.symm (Option.some_ne_none b')
  | fuel + 1, periods, b, h => by
    obtain ⟨temp, -, h⟩ := Option.bind_eq_some_iff.mp h
    split at h
    · split at h
      · obtain ⟨apart, -, h⟩ := Option.bind_eq_some_iff.mp h
        split at h
        · obtain ⟨regular, rfl⟩ := pushStub_eq_some h
          exact .push b _ _
        · exact Option.some.inj h ▸ .refl b
      · exact Option.some.inj h ▸ .refl b
    · obtain ⟨apart, -, h⟩ := Option.bind_eq_some_iff.mp h
      refine Draft.Extends.trans ?_ (backwardLoop_extends fuel (periods + 1) _ h)
      split
      · exact .push b _ _
      · exact .refl b

theorem forwardLoop_extends : ∀ (fuel : ℕ) (periods : ℤ) (b : Draft),
    a.forwardLoop seed exitDate fuel periods b = some b' → b.Extends b'
  | 0, _, _, h              => absurd h.symm (Option.some_ne_none b')
  | fuel + 1, periods, b, h => by
    obtain ⟨temp, -, h⟩ := Option.bind_eq_some_iff.mp h
    split at h
    · split at h
      · obtain ⟨apart, -, h⟩ := Option.bind_eq_some_iff.mp h
        split at h
        · obtain ⟨regular, rfl⟩ := pushStub_eq_some h
          exact .push b _ _
        · exact Option.some.inj h ▸ .refl b
      · exact Option.some.inj h ▸ .refl b
    · obtain ⟨apart, -, h⟩ := Option.bind_eq_some_iff.mp h
      refine Draft.Extends.trans ?_ (forwardLoop_extends fuel (periods + 1) _ h)
      split
      · exact .push b _ _
      · exact .refl b

/-- **Back from the termination date** to one that adjusts to the same day as the effective date. -/
theorem backward_ends {g : Generated} (h : a.backward = some g) : ∃ x, g.dates.head? = some x ∧
    a.calendar.adjust x a.convention = a.calendar.adjust a.effectiveDate a.convention ∧
    g.dates.getLast? = some a.terminationDate := by
  obtain ⟨⟨seed, b₁⟩, h₁, h⟩ := Option.bind_eq_some_iff.mp h
  obtain ⟨b₂, h₂, h⟩ := Option.bind_eq_some_iff.mp h
  obtain ⟨b₃, h₃, h⟩ := Option.bind_eq_some_iff.mp h
  obtain rfl := Option.some.inj h
  have e₁ : (Draft.start a.terminationDate).Extends b₁ := by
    unfold backwardStart at h₁
    simp only at h₁
    split at h₁
    · obtain ⟨b, hb, h₁⟩ := Option.bind_eq_some_iff.mp h₁
      obtain ⟨regular, rfl⟩ := pushStub_eq_some hb
      rw [← (Prod.mk.inj (Option.some.inj h₁)).2]
      exact .push _ _ _
    · rw [← (Prod.mk.inj (Option.some.inj h₁)).2]
      exact .refl _
  obtain ⟨apart, hap, h₃⟩ := Option.bind_eq_some_iff.mp h₃
  have e₃ : b₂.Extends b₃ ∧
      a.calendar.adjust b₃.last a.convention = a.calendar.adjust a.effectiveDate a.convention := by
    cases apart with
    | true =>
      obtain ⟨regular, rfl⟩ := pushStub_eq_some h₃
      exact ⟨.push _ _ _, rfl⟩
    | false =>
      obtain rfl := Option.some.inj h₃
      exact ⟨.refl _, apart_eq_false hap⟩
  refine ⟨b₃.last, rfl, e₃.2, ?_⟩
  exact ((e₁.trans (backwardLoop_extends _ _ _ h₂)).trans e₃.1).getLast?

/-- **Forward from the effective date** to one that adjusts to the same day as the termination date. -/
theorem forward_ends {g : Generated} (hr : a.rule.isTwentieth = false) (h : a.forward = some g) :
    ∃ z, g.dates.head? = some a.effectiveDate ∧ g.dates.getLast? = some z ∧
    a.calendar.adjust z a.terminationDateConvention =
      a.calendar.adjust a.terminationDate a.terminationDateConvention := by
  obtain ⟨b₀, h₀, h⟩ := Option.bind_eq_some_iff.mp h
  obtain ⟨⟨seed, b₁⟩, h₁, h⟩ := Option.bind_eq_some_iff.mp h
  obtain ⟨b₂, h₂, h⟩ := Option.bind_eq_some_iff.mp h
  obtain ⟨b₃, h₃, h⟩ := Option.bind_eq_some_iff.mp h
  obtain rfl := Option.some.inj h
  have hcds : a.rule.isCDS = false := by revert hr; cases a.rule <;> decide
  have e₀ : Draft.start a.effectiveDate = b₀ := by
    rw [forwardStart, hcds] at h₀
    exact Option.some.inj h₀
  have e₁ : b₀.Extends b₁ := by
    unfold forwardStub at h₁
    split at h₁
    · obtain ⟨b, hb, h₁⟩ := Option.bind_eq_some_iff.mp h₁
      obtain ⟨regular, rfl⟩ := pushStub_eq_some hb
      rw [← (Prod.mk.inj (Option.some.inj h₁)).2]
      exact .push _ _ _
    · rw [hr] at h₁
      rw [← (Prod.mk.inj (Option.some.inj h₁)).2]
      exact .refl _
  obtain ⟨apart, hap, h₃⟩ := Option.bind_eq_some_iff.mp h₃
  have e₃ : b₂.Extends b₃ ∧ a.calendar.adjust b₃.last a.terminationDateConvention =
      a.calendar.adjust a.terminationDate a.terminationDateConvention := by
    cases apart with
    | true =>
      rw [hr] at h₃
      obtain rfl := Option.some.inj h₃
      exact ⟨.push _ _ _, rfl⟩
    | false =>
      obtain rfl := Option.some.inj h₃
      exact ⟨.refl _, apart_eq_false hap⟩
  refine ⟨b₃.last, ?_, List.getLast?_reverse, e₃.2⟩
  rw [List.head?_reverse, ((e₁.trans (forwardLoop_extends _ _ _ h₂)).trans e₃.1).getLast?, ← e₀]
  rfl

end Terms

/-! ## Merging -/

variable {dates : List Date} {flags : List Bool} {x y z : Date}

theorem mergeEnd_append (l : List Date) (y z : Date) (flags : List Bool) :
    (mergeEnd (l ++ [y, z]) flags).1 = if z ≤ y then l ++ [z] else l ++ [y, z] := by
  unfold mergeEnd
  have hn : (l ++ [y, z]).length = l.length + 2 := by simp
  have h₁ : (l ++ [y, z]).getD (l.length + 1) Date.null = z := by simp [List.getD_eq_getElem?_getD]
  have h₂ : (l ++ [y, z]).getD l.length Date.null = y := by simp [List.getD_eq_getElem?_getD]
  simp only [hn, show l.length + 2 - 1 = l.length + 1 from rfl, show l.length + 2 - 2 = l.length from rfl, h₁, h₂]
  by_cases hzy : z ≤ y
  · rw [if_pos ⟨by omega, hzy⟩, if_pos hzy]
    simp
  · rw [if_neg (fun h => hzy h.2), if_neg hzy]

theorem mergeStart_cons (x y : Date) (l : List Date) (flags : List Bool) :
    (mergeStart (x :: y :: l) flags).1 = if y ≤ x then x :: l else x :: y :: l := by
  unfold mergeStart
  by_cases hyx : y ≤ x
  · rw [if_pos ⟨by simp, by simpa using hyx⟩, if_pos hyx]
    simp
  · rw [if_neg (fun h => hyx (by simpa using h.2)), if_neg hyx]

theorem mergeEnd_inStep (h : flags.length + 1 = dates.length) :
    (mergeEnd dates flags).2.length + 1 = (mergeEnd dates flags).1.length := by
  unfold mergeEnd
  simp only
  split
  · rename_i hc
    split <;> simp only [List.length_dropLast, List.length_set] <;> omega
  · exact h

theorem mergeStart_inStep (h : flags.length + 1 = dates.length) :
    (mergeStart dates flags).2.length + 1 = (mergeStart dates flags).1.length := by
  unfold mergeStart
  simp only
  split
  · rename_i hc
    split <;> simp only [List.length_tail, List.length_set] <;> omega
  · exact h

/-- The merge at the end keeps the last date, and the first if there are two. -/
theorem mergeEnd_spec (flags : List Bool) (h : 2 ≤ dates.length) : (mergeEnd dates flags).1.getLast? = dates.getLast? ∧
    (2 ≤ (mergeEnd dates flags).1.length → (mergeEnd dates flags).1.head? = dates.head?) := by
  obtain ⟨x, l, z, rfl⟩ := exists_ends h
  rcases List.eq_nil_or_concat l with rfl | ⟨l, y, rfl⟩
  · rw [List.nil_append, show [x, z] = [] ++ [x, z] from rfl, mergeEnd_append]
    split <;> simp
  · rw [show x :: (l.concat y ++ [z]) = (x :: l) ++ [y, z] by simp, mergeEnd_append]
    have hl : ∀ k w, ((x :: l) ++ (k ++ [w])).getLast? = some w := fun k w => by
      rw [← List.append_assoc, List.getLast?_append_of_ne_nil _ (List.cons_ne_nil _ _)]
      rfl
    split
    · exact ⟨(hl [] z).trans (hl [y] z).symm, fun _ => rfl⟩
    · exact ⟨rfl, fun _ => rfl⟩

/-- The merge at the start keeps the first date, and the last if there are two. -/
theorem mergeStart_spec : (mergeStart dates flags).1.head? = dates.head? ∧
    (2 ≤ (mergeStart dates flags).1.length → (mergeStart dates flags).1.getLast? = dates.getLast?) ∧
    (mergeStart dates flags).1.length ≤ dates.length := by
  match dates with
  | []          => exact ⟨rfl, fun _ => rfl, le_rfl⟩
  | [x]         => exact ⟨rfl, fun _ => rfl, le_rfl⟩
  | x :: y :: l =>
    rw [mergeStart_cons]
    split
    · refine ⟨rfl, fun h => ?_, by simp⟩
      obtain ⟨z, l, rfl⟩ := List.exists_cons_of_ne_nil (l := l) (by rintro rfl; simp at h)
      simp
    · exact ⟨rfl, fun _ => rfl, le_rfl⟩

theorem mergeEnd_length_le (flags : List Bool) (h : dates.length ≤ 1) : (mergeEnd dates flags).1.length ≤ 1 := by
  unfold mergeEnd
  simp only
  rw [if_neg (fun hc => by omega)]
  exact h

theorem two_le_of_merged {flags flags' : List Bool} (h : 1 < (mergeStart (mergeEnd dates flags).1 flags').1.length) :
    2 ≤ dates.length := by
  by_contra hlt
  have := mergeEnd_length_le flags (by omega : dates.length ≤ 1)
  have := (@mergeStart_spec (mergeEnd dates flags).1 flags').2.2
  omega

/-! ## The whole schedule -/

namespace Terms

theorem shift_length {l ds : List Date} (h : a.shift l = some ds) : ds.length = l.length := by
  unfold shift at h
  split at h
  · exact mapInner_length h
  · exact mapM_length h
  · rw [← Option.some.inj h]

theorem adjustEnds_length {l ds : List Date} (h : a.adjustEnds l = some ds) : ds.length = l.length := by
  obtain ⟨l', hl, h⟩ := Option.bind_eq_some_iff.mp h
  have h₁ : l'.length = l.length := by
    split at hl
    · exact mapFirst_length hl
    · rw [← Option.some.inj hl]
  rw [← h₁]
  split at h
  · exact mapLast_length h
  · rw [← Option.some.inj h]

theorem adjustInner_length {l ds : List Date} (h : a.adjustInner seed l = some ds) : ds.length = l.length := by
  obtain ⟨eom, -, h⟩ := Option.bind_eq_some_iff.mp h
  split at h <;> exact mapInner_length h

theorem adjustEnds_ends {l ds : List Date} (h : a.adjustEnds (x :: (l ++ [z])) = some ds) :
    ∃ x' z', ds = x' :: (l ++ [z']) ∧
      (if a.convention ≠ .unadjusted ∧ a.rule ≠ .oldCDS then a.calendar.adjust x a.convention = some x' else x' = x) ∧
      (if a.terminationDateConvention ≠ .unadjusted ∧ a.rule.isCDS = false then
        a.calendar.adjust z a.terminationDateConvention = some z' else z' = z) := by
  obtain ⟨l', hl, h⟩ := Option.bind_eq_some_iff.mp h
  obtain ⟨x', rfl, hx⟩ : ∃ x', l' = x' :: (l ++ [z]) ∧ if a.convention ≠ .unadjusted ∧ a.rule ≠ .oldCDS then
      a.calendar.adjust x a.convention = some x' else x' = x := by
    by_cases hc : a.convention ≠ .unadjusted ∧ a.rule ≠ .oldCDS
    · rw [if_pos hc, mapFirst_cons] at hl
      obtain ⟨x', hx, rfl⟩ := Option.map_eq_some_iff.mp hl
      exact ⟨x', rfl, by rwa [if_pos hc]⟩
    · rw [if_neg hc] at hl
      exact ⟨x, (Option.some.inj hl).symm, by rw [if_neg hc]⟩
  by_cases hc : a.terminationDateConvention ≠ .unadjusted ∧ a.rule.isCDS = false
  · rw [if_pos hc, ← List.cons_append, mapLast_append] at h
    obtain ⟨z', hz, rfl⟩ := Option.map_eq_some_iff.mp h
    exact ⟨x', z', rfl, hx, by rwa [if_pos hc]⟩
  · rw [if_neg hc] at h
    exact ⟨x', z, (Option.some.inj h).symm, hx, by rw [if_neg hc]⟩

theorem adjustInner_ends {l ds : List Date} (h : a.adjustInner seed (x :: (l ++ [z])) = some ds) :
    ∃ l', ds = x :: (l' ++ [z]) := by
  obtain ⟨eom, -, h⟩ := Option.bind_eq_some_iff.mp h
  split at h <;> rw [mapInner_ends] at h <;> obtain ⟨l', -, rfl⟩ := Option.map_eq_some_iff.mp h <;> exact ⟨l', rfl⟩

/-- The rules that count from an end leave dates at the ends that adjust to the days of the ends. -/
theorem generate_ends {g : Generated} (hr : a.rule ∈ [.zero, .forward, .backward]) (h : a.generate = some g) :
    ∃ x z, g.dates.head? = some x ∧ g.dates.getLast? = some z ∧
      a.calendar.adjust x a.convention = a.calendar.adjust a.effectiveDate a.convention ∧
      a.calendar.adjust z a.terminationDateConvention =
        a.calendar.adjust a.terminationDate a.terminationDateConvention := by
  unfold generate at h
  split at h
  · rw [← Option.some.inj h]
    exact ⟨_, _, rfl, rfl, rfl, rfl⟩
  · obtain ⟨x, hx, hax, hz⟩ := backward_ends h
    exact ⟨x, _, hx, hz, hax, rfl⟩
  · rename_i hf
    obtain ⟨z, hx, hz, haz⟩ := forward_ends (by rw [hf]; rfl) h
    exact ⟨_, z, hx, hz, rfl, haz⟩
  · rename_i h₁ h₂ h₃
    simp only [List.mem_cons, List.not_mem_nil, or_false] at hr
    rcases hr with hr | hr | hr
    · exact absurd hr h₁
    · exact absurd hr h₃
    · exact absurd hr h₂

/-- A date that an end adjusts to the day of another is, when it is not adjusted, that other. -/
theorem end_eq {c : BusinessDayConvention} {e : Date} {k : Prop} [Decidable k] (he : e ≠ Date.null)
    (hk : ¬ k → c = .unadjusted) (hx : a.calendar.adjust x c = a.calendar.adjust e c)
    (h : if k then a.calendar.adjust x c = some y else y = x) : some y = a.calendar.adjust e c := by
  by_cases hc : k
  · rw [if_pos hc] at h
    rw [← hx, h]
  · rw [if_neg hc] at h
    obtain rfl := hk hc
    rw [h, ← hx]
    rw [adjust_unadjusted he] at hx
    have hn : x ≠ Date.null := fun hn => by rw [hn, adjust, tryAdjust.eq_def, if_pos rfl] at hx; cases hx
    rw [adjust_unadjusted hn]

/-- **The ends once rolled**, under the rules that count from an end: each is its end of the schedule, adjusted. -/
theorem rolled_ends {g : Generated} {l₁ l₂ l₃ : List Date} (ha : a.Accepted)
    (hr : a.rule ∈ [.zero, .forward, .backward]) (hg : a.generate = some g) (h₁ : a.shift g.dates = some l₁)
    (h₂ : a.adjustEnds l₁ = some l₂) (h₃ : a.adjustInner g.seed l₂ = some l₃) (hlen : 2 ≤ l₃.length) :
    ∃ x l z x' l' z', g.dates = x :: (l ++ [z]) ∧ l₂ = x' :: (l ++ [z']) ∧ l₃ = x' :: (l' ++ [z']) ∧
      a.calendar.adjust x a.convention = some x' ∧ a.calendar.adjust a.effectiveDate a.convention = some x' ∧
      a.calendar.adjust a.terminationDate a.terminationDateConvention = some z' := by
  obtain ⟨x, z, hx, hz, hax, haz⟩ := generate_ends hr hg
  have hrule : a.rule = .zero ∨ a.rule = .forward ∨ a.rule = .backward := by
    simpa only [List.mem_cons, List.not_mem_nil, or_false] using hr
  have hl₁ : l₁ = g.dates := by
    unfold shift at h₁
    rcases hrule with hr | hr | hr <;> rw [hr] at h₁ <;> exact (Option.some.inj h₁).symm
  have hcds : a.rule ≠ .oldCDS ∧ a.rule.isCDS = false := by
    rcases hrule with hr | hr | hr <;> rw [hr] <;> decide
  obtain ⟨x₀, l, z₀, hshape⟩ := exists_ends (l := g.dates) (by
    rw [← hl₁, ← adjustEnds_length h₂, ← adjustInner_length h₃]
    exact hlen)
  obtain rfl : x₀ = x := by rw [hshape] at hx; exact Option.some.inj hx
  obtain rfl : z₀ = z := by
    rw [hshape, ← List.cons_append, List.getLast?_append_of_ne_nil _ (List.cons_ne_nil _ _)] at hz
    exact Option.some.inj hz
  rw [hl₁, hshape] at h₂
  obtain ⟨x', z', rfl, hx', hz'⟩ := adjustEnds_ends h₂
  obtain ⟨l', rfl⟩ := adjustInner_ends h₃
  have hx'' := end_eq ha.effectiveDate (fun hk => by_contra fun hc => hk ⟨hc, hcds.1⟩) hax hx'
  have hz'' := end_eq ha.terminationDate (fun hk => by_contra fun hc => hk ⟨hc, hcds.2⟩) haz hz'
  exact ⟨x₀, l, z₀, x', l', z', hshape, rfl, rfl, hax.trans hx''.symm, hx''.symm, hz''.symm⟩

end Terms

theorem new_eq_some {args : Terms} {s : Schedule} (h : Schedule.new args = some s) :
    args.normalized.Accepted ∧ ∃ g l₁ l₂ l₃, args.normalized.generate = some g ∧
      args.normalized.shift g.dates = some l₁ ∧ args.normalized.adjustEnds l₁ = some l₂ ∧
      args.normalized.adjustInner g.seed l₂ = some l₃ ∧
      (s.dates, s.isRegular) = mergeStart (mergeEnd l₃ g.isRegular).1 (mergeEnd l₃ g.isRegular).2 ∧
      1 < s.dates.length := by
  unfold Schedule.new at h
  simp only at h
  split at h
  · rename_i ha
    obtain ⟨g, hg, h⟩ := Option.bind_eq_some_iff.mp h
    obtain ⟨l₁, h₁, h⟩ := Option.bind_eq_some_iff.mp h
    obtain ⟨l₂, h₂, h⟩ := Option.bind_eq_some_iff.mp h
    obtain ⟨l₃, h₃, h⟩ := Option.bind_eq_some_iff.mp h
    split at h
    · rename_i hl
      rw [← Option.some.inj h]
      exact ⟨ha, g, l₁, l₂, l₃, hg, h₁, h₂, h₃, rfl, hl⟩
    · exact absurd h.symm (Option.some_ne_none s)
  · exact absurd h.symm (Option.some_ne_none s)

theorem new_inStep {args : Terms} {s : Schedule} (h : Schedule.new args = some s) :
    s.isRegular.length + 1 = s.dates.length := by
  obtain ⟨-, g, l₁, l₂, l₃, -, h₁, h₂, h₃, hm, -⟩ := new_eq_some h
  have hs : l₃.length = g.dates.length := by
    rw [Terms.adjustInner_length h₃, Terms.adjustEnds_length h₂, Terms.shift_length h₁]
  have hinStep := mergeStart_inStep (mergeEnd_inStep (by rw [hs]; exact g.inStep))
  rw [← hm] at hinStep
  exact hinStep

/-- **A schedule covers its terms.**  It has one regularity flag fewer than dates; under the rules that count from an end
it has two dates at least, from the effective date to the termination date, each adjusted by its convention. -/
theorem new_coverage {args : Terms} {s : Schedule} (h : Schedule.new args = some s) :
    s.isRegular.length + 1 = s.dates.length ∧
    (args.rule ∈ [.zero, .forward, .backward] → 2 ≤ s.dates.length ∧
      s.dates.head? = args.calendar.adjust args.effectiveDate args.convention ∧
      s.dates.getLast? = args.calendar.adjust args.terminationDate args.terminationDateConvention) := by
  obtain ⟨ha, g, l₁, l₂, l₃, hg, h₁, h₂, h₃, hm, hlen⟩ := new_eq_some h
  have hd : s.dates = (mergeStart (mergeEnd l₃ g.isRegular).1 (mergeEnd l₃ g.isRegular).2).1 := congrArg Prod.fst hm
  refine ⟨new_inStep h, fun hr => ⟨hlen, ?_⟩⟩
  have hr' : args.normalized.rule ∈ [.zero, .forward, .backward] := by
    change (if args.tenor.length = 0 then DateGeneration.zero else args.rule) ∈ _
    split
    · exact List.mem_cons_self
    · exact hr
  have hstart := @mergeStart_spec (mergeEnd l₃ g.isRegular).1 (mergeEnd l₃ g.isRegular).2
  rw [← hd] at hstart
  have h₃' : 2 ≤ l₃.length := two_le_of_merged (hd ▸ hlen)
  have hend := mergeEnd_spec g.isRegular h₃'
  obtain ⟨-, -, -, x', l', z', -, -, rfl, -, hx', hz'⟩ := Terms.rolled_ends ha hr' hg h₁ h₂ h₃ h₃'
  constructor
  · rw [hstart.1, hend.2 (by omega)]
    exact hx'.symm
  · rw [hstart.2.1 (by omega), hend.1, ← List.cons_append, List.getLast?_append_of_ne_nil _ (List.cons_ne_nil _ _)]
    exact hz'.symm

/-- Monthly from Friday, January 5th, 2018 to Saturday, April 7th, 2018. -/
def quarter : Terms where
  effectiveDate := ⟨43105, by decide⟩
  terminationDate := ⟨43197, by decide⟩
  tenor := ⟨1, .months⟩
  calendar := weekendsOnly
  convention := .following
  terminationDateConvention := .preceding
  rule := .backward
  endOfMonth := false
  firstDate := Date.null
  nextToLastDate := Date.null

/-- The last date is the Friday before. -/
theorem new_coverage_quarter : ∃ s, Schedule.new quarter = some s ∧ 2 ≤ s.dates.length ∧
    s.dates.getLast? = some ⟨43196, by decide⟩ := by
  obtain ⟨s, hs⟩ := Option.isSome_iff_exists.mp (by decide +kernel : (Schedule.new quarter).isSome = true)
  obtain ⟨-, h⟩ := new_coverage hs
  obtain ⟨hlen, -, hlast⟩ := h (by decide)
  exact ⟨s, hs, hlen, by rw [hlast]; decide +kernel⟩

end Itofin.Schedule
