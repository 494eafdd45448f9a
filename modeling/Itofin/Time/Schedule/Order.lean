import Mathlib.Tactic.Ring
import Itofin.Time.Schedule.Coverage
/-!
# Order — when the dates of a schedule do not decrease

The merges look at the neighbours at the ends only, so they leave the dates in order exactly when the rolled dates were
in order but at the ends (`merged_iff`).  The generated dates are in order when the stubs do not cross: every step from
the seed goes further than the one before (`backwardLoop_falls`, `forwardLoop_rises`).  Stubs that cross stay crossed.
-/
namespace Itofin.Schedule

open Calendar Ends

/-! ## The merges -/

theorem mergeStart_sorted {x y : Date} {l : List Date} {flags : List Bool} :
    (mergeStart (x :: y :: l) flags).1.Pairwise (· ≤ ·) ↔ l.Pairwise (· ≤ ·) ∧ ∀ a ∈ l, x ≤ a ∧ y ≤ a := by
  rw [mergeStart_cons]
  split
  · rename_i hyx
    rw [List.pairwise_cons]
    exact ⟨fun h => ⟨h.2, fun a ha => ⟨h.1 a ha, hyx.trans (h.1 a ha)⟩⟩, fun h => ⟨fun a ha => (h.2 a ha).1, h.1⟩⟩
  · rename_i hyx
    rw [List.pairwise_cons, List.pairwise_cons, List.forall_mem_cons]
    exact ⟨fun h => ⟨h.2.2, fun a ha => ⟨h.1.2 a ha, h.2.1 a ha⟩⟩,
      fun h => ⟨⟨(not_le.mp hyx).le, fun a ha => (h.2 a ha).1⟩, fun a ha => (h.2 a ha).2, h.1⟩⟩

theorem mergedEnd_sorted {m : List Date} {u v : Date} :
    (if v ≤ u then m ++ [v] else m ++ [u, v]).Pairwise (· ≤ ·) ↔ m.Pairwise (· ≤ ·) ∧ ∀ a ∈ m, a ≤ u ∧ a ≤ v := by
  split
  · rename_i hvu
    rw [List.pairwise_append]
    refine ⟨fun h => ⟨h.1, fun a ha => ?_⟩, fun h => ⟨h.1, List.pairwise_singleton _ _, fun a ha b hb => ?_⟩⟩
    · have := h.2.2 a ha v List.mem_cons_self
      exact ⟨this.trans hvu, this⟩
    · rw [List.mem_singleton.mp hb]
      exact (h.2 a ha).2
  · rename_i hvu
    rw [List.pairwise_append]
    have hpair := List.pairwise_pair.mpr (not_le.mp hvu).le
    refine ⟨fun h => ⟨h.1, fun a ha => ?_⟩, fun h => ⟨h.1, hpair, fun a ha b hb => ?_⟩⟩
    · exact ⟨h.2.2 a ha u List.mem_cons_self, h.2.2 a ha v (List.mem_cons_of_mem _ List.mem_cons_self)⟩
    · rcases List.mem_pair.mp hb with rfl | rfl
      · exact (h.2 a ha).1
      · exact (h.2 a ha).2

theorem forall_mergedEnd {m : List Date} {x u v : Date} :
    (∀ a ∈ (if v ≤ u then m ++ [v] else m ++ [u, v]), x ≤ a) ↔ (∀ a ∈ m, x ≤ a) ∧ x ≤ u ∧ x ≤ v := by
  split
  · rename_i hvu
    rw [List.forall_mem_append, List.forall_mem_singleton]
    exact and_congr_right (fun _ => ⟨fun h => ⟨h.trans hvu, h⟩, And.right⟩)
  · rw [List.forall_mem_append, List.forall_mem_cons, List.forall_mem_singleton]

/-- **The merges repair the ends**: where two dates are left, they do not decrease exactly when the dates before the
merges are in order but at the ends. -/
theorem merged_iff {dates : List Date} {flags flags' : List Bool}
    (h : 1 < (mergeStart (mergeEnd dates flags).1 flags').1.length) :
    (mergeStart (mergeEnd dates flags).1 flags').1.Pairwise (· ≤ ·) ↔ InOrder dates := by
  obtain ⟨x, l, v, rfl⟩ := exists_ends (two_le_of_merged h)
  rcases l with - | ⟨y, l⟩
  · rw [show x :: ([] ++ [v]) = [] ++ [x, v] from rfl, mergeEnd_append] at h ⊢
    split at h
    · exact absurd h (by simp [mergeStart])
    · rename_i hv
      rw [if_neg hv, List.nil_append, mergeStart_sorted]
      simp [inOrder_two]
  rcases List.eq_nil_or_concat l with rfl | ⟨m, u, rfl⟩
  · rw [show x :: ([y] ++ [v]) = [x] ++ [y, v] from rfl, mergeEnd_append] at h ⊢
    rw [show [x] ++ [y, v] = [x, y, v] from rfl, inOrder_three]
    by_cases hv : v ≤ y
    · rw [if_pos hv, show [x] ++ [v] = [x, v] from rfl] at h ⊢
      rw [mergeStart_cons] at h
      split at h
      · simp at h
      · rename_i hx
        simp [mergeStart_sorted, (not_le.mp hx).le]
    · rw [if_neg hv, mergeStart_sorted]
      simp [(not_le.mp hv).le]
  · have hshape : (mergeEnd (x :: (y :: m.concat u ++ [v])) flags).1 =
        x :: y :: (if v ≤ u then m ++ [v] else m ++ [u, v]) := by
      rw [show x :: (y :: m.concat u ++ [v]) = (x :: y :: m) ++ [u, v] by simp, mergeEnd_append]
      split <;> rfl
    rw [hshape, mergeStart_sorted, mergedEnd_sorted,
      show x :: (y :: m.concat u ++ [v]) = x :: y :: (m ++ [u, v]) by simp, inOrder_four]
    simp only [forall_and, forall_mergedEnd]
    tauto

/-! ## Steps -/

section

variable {a : Terms} {b b' : Draft} {d r seed exitDate : Date} {p : Period} {n : ℕ}

theorem nullCalendar_business (hd : d ≠ Date.null) : nullCalendar.Business d := ⟨hd, rfl⟩

theorem nullCalendar_advanceForward : ∀ (n : ℕ) {d : Date}, d ≠ Date.null →
    nullCalendar.advanceForward n d = some r → d.addDays n = some r
  | 0, d, hd, h     => by
    obtain rfl := Option.some.inj h
    exact Date.addDays_eq_some.mpr ⟨hd, by rw [Nat.cast_zero, add_zero]⟩
  | n + 1, d, hd, h => by
    obtain ⟨d', hd₁, h⟩ := Option.bind_eq_some_iff.mp h
    obtain ⟨m, hm, h⟩ := Option.bind_eq_some_iff.mp h
    obtain ⟨hd', hs⟩ := Date.addDays_eq_some.mp hd₁
    obtain rfl := ((rollForward_eq_some hd').mp hm).eq_of_holds (nullCalendar_business hd')
    obtain ⟨hr, hs'⟩ := Date.addDays_eq_some.mp (nullCalendar_advanceForward n hd' h)
    exact Date.addDays_eq_some.mpr ⟨hr, by push_cast; omega⟩

theorem nullCalendar_advanceBackward : ∀ (n : ℕ) {d : Date}, d ≠ Date.null →
    nullCalendar.advanceBackward n d = some r → d.addDays (-n) = some r
  | 0, d, hd, h     => by
    obtain rfl := Option.some.inj h
    exact Date.addDays_eq_some.mpr ⟨hd, by rw [Nat.cast_zero, neg_zero, add_zero]⟩
  | n + 1, d, hd, h => by
    obtain ⟨d', hd₁, h⟩ := Option.bind_eq_some_iff.mp h
    obtain ⟨m, hm, h⟩ := Option.bind_eq_some_iff.mp h
    obtain ⟨hd', hs⟩ := Date.addDays_eq_some.mp hd₁
    obtain rfl := ((rollBackward_eq_some hd').mp hm).eq_of_holds (nullCalendar_business hd')
    obtain ⟨hr, hs'⟩ := Date.addDays_eq_some.mp (nullCalendar_advanceBackward n hd' h)
    exact Date.addDays_eq_some.mpr ⟨hr, by push_cast; omega⟩

namespace Terms

theorem step_eq (hd : d ≠ Date.null) (he : a.endOfMonth = false) (hp : p.length ≠ 0) (h : a.step d p = some r) :
    d.advance p.length p.units = some r := by
  rw [step, advanceByPeriod, he, advance.eq_def, if_neg hd, if_neg (by decide), if_neg hp] at h
  have hmove (h : (d.advance p.length p.units).bind (fun d1 => nullCalendar.adjust d1 a.convention) = some r) :
      d.advance p.length p.units = some r := by
    obtain ⟨d1, hd1, h⟩ := Option.bind_eq_some_iff.mp h
    rw [adjust_of_business rfl (nullCalendar_business (Date.advance_ne_null hd1))] at h
    rwa [← Option.some.inj h]
  cases hu : p.units with
  | days =>
    rw [hu] at h
    dsimp only at h
    split at h
    · have := nullCalendar_advanceForward _ hd h
      rwa [Int.toNat_of_nonneg (by omega)] at this
    · have := nullCalendar_advanceBackward _ hd h
      rwa [Int.toNat_of_nonneg (by omega), neg_neg] at this
  | _ =>
    rw [hu] at h hmove
    exact hmove h

/-- **Steps back from the seed** go before it, and further with every period. -/
theorem stepBack_lt (hs : seed ≠ Date.null) (he : a.endOfMonth = false) (ht : 0 < a.tenor.length) {k : ℤ} (hk : 1 ≤ k)
    (h : a.step seed (a.tenor.scale k).neg = some r) : r < seed ∧
      ∀ r', a.step seed (a.tenor.scale (k + 1)).neg = some r' → r' < r := by
  have hlen (k : ℤ) : (a.tenor.scale k).neg.length = -(k * a.tenor.length) := by
    rw [Period.neg_length, Period.scale_length]
  have hpos : 0 < k * a.tenor.length := mul_pos (by omega) ht
  have h₁ := step_eq hs he (by rw [hlen]; omega) h
  refine ⟨Date.advance_lt_self (by rw [hlen]; omega) h₁, fun r' h' => ?_⟩
  have hadd : (k + 1) * a.tenor.length = k * a.tenor.length + a.tenor.length := by ring
  have h₂ := step_eq hs he (by rw [hlen]; omega) h'
  exact Date.advance_lt (by rw [hlen, hlen]; omega) h₂ h₁

/-- **Steps on from the seed** go after it, and further with every period. -/
theorem lt_stepOn (hs : seed ≠ Date.null) (he : a.endOfMonth = false) (ht : 0 < a.tenor.length) {k : ℤ} (hk : 1 ≤ k)
    (h : a.step seed (a.tenor.scale k) = some r) : seed < r ∧
      ∀ r', a.step seed (a.tenor.scale (k + 1)) = some r' → r < r' := by
  have hpos : 0 < k * a.tenor.length := mul_pos (by omega) ht
  have h₁ := step_eq hs he (by rw [Period.scale_length]; omega) h
  refine ⟨Date.lt_advance (by rw [Period.scale_length]; omega) h₁, fun r' h' => ?_⟩
  have hadd : (k + 1) * a.tenor.length = k * a.tenor.length + a.tenor.length := by ring
  have h₂ := step_eq hs he (by rw [Period.scale_length]; omega) h'
  exact Date.advance_lt (by rw [Period.scale_length, Period.scale_length]; omega) h₁ h₂

end Terms

/-! ## Drafts in order -/

/-- Back from the end, a date pushed comes before those pushed earlier. -/
def Draft.Falls (b : Draft) : Prop := b.dates.Pairwise (· ≤ ·)

/-- On from the start, a date pushed comes after those pushed earlier. -/
def Draft.Rises (b : Draft) : Prop := b.dates.Pairwise (· ≥ ·)

theorem Draft.Falls.push {regular : Bool} (h : b.Falls) (hd : d ≤ b.last) : (b.push d regular).Falls :=
  List.pairwise_cons.mpr ⟨fun x hx => by
    rcases List.mem_cons.mp hx with rfl | hx
    · exact hd
    · exact hd.trans ((List.pairwise_cons.mp h).1 x hx), h⟩

theorem Draft.Rises.push {regular : Bool} (h : b.Rises) (hd : b.last ≤ d) : (b.push d regular).Rises :=
  List.pairwise_cons.mpr ⟨fun x hx => by
    rcases List.mem_cons.mp hx with rfl | hx
    · exact hd
    · exact ((List.pairwise_cons.mp h).1 x hx).trans hd, h⟩

namespace Terms

/-- **The loop back pushes earlier and earlier dates**, none before the exit date. -/
theorem backwardLoop_falls (hs : seed ≠ Date.null) (he : a.endOfMonth = false) (ht : 0 < a.tenor.length)
    (hexit : a.firstDate ≠ Date.null → exitDate = a.firstDate) : ∀ (fuel : ℕ) (periods : ℤ) (b : Draft), 1 ≤ periods →
    b.Falls → exitDate ≤ b.last → (∀ r, a.step seed (a.tenor.scale periods).neg = some r → r ≤ b.last) →
      a.backwardLoop seed exitDate fuel periods b = some b' → b'.Falls ∧ exitDate ≤ b'.last
  | 0, _, _, _, _, _, _, h                  => absurd h.symm (Option.some_ne_none b')
  | fuel + 1, periods, b, hk, hb, hl, hr, h => by
    obtain ⟨temp, htemp, h⟩ := Option.bind_eq_some_iff.mp h
    have hle := hr temp htemp
    have hnext := (stepBack_lt hs he ht hk htemp).2
    split at h
    · split at h
      · rename_i hfirst
        obtain ⟨apart, -, h⟩ := Option.bind_eq_some_iff.mp h
        split at h
        · obtain ⟨regular, rfl⟩ := pushStub_eq_some h
          rw [hexit hfirst] at hl ⊢
          exact ⟨hb.push hl, le_refl _⟩
        · exact Option.some.inj h ▸ ⟨hb, hl⟩
      · exact Option.some.inj h ▸ ⟨hb, hl⟩
    · rename_i hin
      rw [not_lt] at hin
      obtain ⟨apart, -, h⟩ := Option.bind_eq_some_iff.mp h
      cases apart with
      | true  =>
        exact backwardLoop_falls hs he ht hexit fuel (periods + 1) _ (by omega) (hb.push hle) hin
          (fun r' h' => (hnext r' h').le) h
      | false =>
        exact backwardLoop_falls hs he ht hexit fuel (periods + 1) _ (by omega) hb hl
          (fun r' h' => (hnext r' h').le.trans hle) h

/-- **The loop forward pushes later and later dates**, none after the exit date. -/
theorem forwardLoop_rises (hs : seed ≠ Date.null) (he : a.endOfMonth = false) (ht : 0 < a.tenor.length)
    (hexit : a.nextToLastDate ≠ Date.null → exitDate = a.nextToLastDate) : ∀ (fuel : ℕ) (periods : ℤ) (b : Draft),
    1 ≤ periods → b.Rises → b.last ≤ exitDate → (∀ r, a.step seed (a.tenor.scale periods) = some r → b.last ≤ r) →
      a.forwardLoop seed exitDate fuel periods b = some b' → b'.Rises ∧ b'.last ≤ exitDate
  | 0, _, _, _, _, _, _, h                  => absurd h.symm (Option.some_ne_none b')
  | fuel + 1, periods, b, hk, hb, hl, hr, h => by
    obtain ⟨temp, htemp, h⟩ := Option.bind_eq_some_iff.mp h
    have hle := hr temp htemp
    have hnext := (lt_stepOn hs he ht hk htemp).2
    split at h
    · split at h
      · rename_i hlast
        obtain ⟨apart, -, h⟩ := Option.bind_eq_some_iff.mp h
        split at h
        · obtain ⟨regular, rfl⟩ := pushStub_eq_some h
          rw [hexit hlast] at hl ⊢
          exact ⟨hb.push hl, le_refl _⟩
        · exact Option.some.inj h ▸ ⟨hb, hl⟩
      · exact Option.some.inj h ▸ ⟨hb, hl⟩
    · rename_i hin
      rw [not_lt] at hin
      obtain ⟨apart, -, h⟩ := Option.bind_eq_some_iff.mp h
      cases apart with
      | true  =>
        exact forwardLoop_rises hs he ht hexit fuel (periods + 1) _ (by omega) (hb.push hle) hin
          (fun r' h' => (hnext r' h').le) h
      | false =>
        exact forwardLoop_rises hs he ht hexit fuel (periods + 1) _ (by omega) hb hl
          (fun r' h' => hle.trans (hnext r' h').le) h

def Uncrossed (a : Terms) : Prop :=
  a.firstDate ≠ Date.null → a.nextToLastDate ≠ Date.null → a.firstDate ≤ a.nextToLastDate

/-- The dates lie in order between the ends. -/
structure Between (a : Terms) (dates : List Date) : Prop where
  sorted : dates.Pairwise (· ≤ ·)
  bounds : ∀ d ∈ dates, a.effectiveDate ≤ d ∧ d ≤ a.terminationDate

theorem Accepted.first_bounds (h : a.Accepted) (hr : a.rule = .backward ∨ a.rule = .forward)
    (hf : a.firstDate ≠ Date.null) : a.effectiveDate < a.firstDate ∧ a.firstDate ≤ a.terminationDate := by
  have := h.firstDate hf
  rcases hr with hr | hr <;> simpa [acceptsFirstDate, hr] using this

theorem Accepted.nextToLast_bounds (h : a.Accepted) (hr : a.rule = .backward ∨ a.rule = .forward)
    (hn : a.nextToLastDate ≠ Date.null) :
    a.effectiveDate ≤ a.nextToLastDate ∧ a.nextToLastDate < a.terminationDate := by
  have := h.nextToLastDate hn
  rcases hr with hr | hr <;> simpa [acceptsNextToLastDate, hr] using this

theorem stubs_ordered (ha : a.Accepted) (hr : a.rule = .backward ∨ a.rule = .forward) (hu : a.Uncrossed) :
    a.effectiveDate ≤ (if a.firstDate ≠ Date.null then a.firstDate else a.effectiveDate) ∧
    (if a.firstDate ≠ Date.null then a.firstDate else a.effectiveDate) ≤
      (if a.nextToLastDate ≠ Date.null then a.nextToLastDate else a.terminationDate) ∧
    (if a.nextToLastDate ≠ Date.null then a.nextToLastDate else a.terminationDate) ≤ a.terminationDate := by
  have hfirst := ha.first_bounds hr
  have hnext := ha.nextToLast_bounds hr
  by_cases hf : a.firstDate ≠ Date.null <;> by_cases hn : a.nextToLastDate ≠ Date.null
  · rw [if_pos hf, if_pos hn]
    exact ⟨(hfirst hf).1.le, hu hf hn, (hnext hn).2.le⟩
  · rw [if_pos hf, if_neg hn]
    exact ⟨(hfirst hf).1.le, (hfirst hf).2, le_refl _⟩
  · rw [if_neg hf, if_pos hn]
    exact ⟨le_refl _, (hnext hn).1, (hnext hn).2.le⟩
  · rw [if_neg hf, if_neg hn]
    exact ⟨le_refl _, ha.inOrder.le, le_refl _⟩

theorem backwardStart_falls (ha : a.Accepted) (hr : a.rule = .backward) (h : a.backwardStart = some (seed, b)) :
    seed ≠ Date.null ∧ b.last = seed ∧ b.Falls ∧
      seed = if a.nextToLastDate ≠ Date.null then a.nextToLastDate else a.terminationDate := by
  unfold backwardStart at h
  dsimp only at h
  split at h
  · rename_i hn
    obtain ⟨b', hb, h⟩ := Option.bind_eq_some_iff.mp h
    obtain ⟨regular, rfl⟩ := pushStub_eq_some hb
    obtain ⟨rfl, rfl⟩ := Prod.mk.inj (Option.some.inj h)
    rw [if_pos hn]
    exact ⟨hn, rfl, Draft.Falls.push (List.pairwise_singleton _ _) (ha.nextToLast_bounds (.inl hr) hn).2.le, rfl⟩
  · rename_i hn
    obtain ⟨rfl, rfl⟩ := Prod.mk.inj (Option.some.inj h)
    rw [if_neg hn]
    exact ⟨ha.terminationDate, rfl, List.pairwise_singleton _ _, rfl⟩

theorem between_of_ends {dates : List Date} {x z : Date} (hs : dates.Pairwise (· ≤ ·)) (hx : dates.head? = some x)
    (hz : dates.getLast? = some z) (h₁ : a.effectiveDate ≤ x) (h₂ : z ≤ a.terminationDate) : a.Between dates := by
  refine ⟨hs, fun d hd => ⟨h₁.trans ?_, le_trans ?_ h₂⟩⟩
  · obtain ⟨l, rfl⟩ := List.head?_eq_some_iff.mp hx
    rcases List.mem_cons.mp hd with rfl | hd
    · exact le_refl _
    · exact (List.pairwise_cons.mp hs).1 d hd
  · obtain ⟨l, rfl⟩ := List.getLast?_eq_some_iff.mp hz
    rcases List.mem_append.mp hd with hd | hd
    · exact (List.pairwise_append.mp hs).2.2 d hd z (List.mem_singleton.mpr rfl)
    · rw [List.mem_singleton.mp hd]

theorem backward_between {g : Generated} (ha : a.Accepted) (hr : a.rule = .backward) (he : a.endOfMonth = false)
    (ht : 0 < a.tenor.length) (hu : a.Uncrossed) (h : a.backward = some g) : a.Between g.dates := by
  obtain ⟨-, -, -, hz⟩ := backward_ends h
  obtain ⟨⟨seed, b₁⟩, h₁, h⟩ := Option.bind_eq_some_iff.mp h
  obtain ⟨b₂, h₂, h⟩ := Option.bind_eq_some_iff.mp h
  obtain ⟨b₃, h₃, h⟩ := Option.bind_eq_some_iff.mp h
  obtain rfl := Option.some.inj h
  obtain ⟨hseed, hlast, hb₁, hseed'⟩ := backwardStart_falls ha hr h₁
  obtain ⟨he₁, he₂, -⟩ := stubs_ordered ha (.inl hr) hu
  rw [← hseed', ← hlast] at he₂
  obtain ⟨hb₂, hl₂⟩ := backwardLoop_falls hseed he ht (fun hf => if_pos hf) days 1 b₁ (le_refl _) hb₁ he₂
    (fun r h' => hlast ▸ (stepBack_lt hseed he ht (le_refl _) h').1.le) h₂
  obtain ⟨apart, -, h₃⟩ := Option.bind_eq_some_iff.mp h₃
  cases apart with
  | true  =>
    obtain ⟨regular, rfl⟩ := pushStub_eq_some h₃
    exact between_of_ends (hb₂.push (he₁.trans hl₂)) rfl hz (le_refl _) (le_refl _)
  | false =>
    obtain rfl := Option.some.inj h₃
    exact between_of_ends hb₂ rfl hz (he₁.trans hl₂) (le_refl _)

theorem forwardStub_rises (ha : a.Accepted) (hr : a.rule = .forward)
    (h : a.forwardStub (Draft.start a.effectiveDate) = some (seed, b)) : seed ≠ Date.null ∧ b.last = seed ∧ b.Rises ∧
      seed = if a.firstDate ≠ Date.null then a.firstDate else a.effectiveDate := by
  unfold forwardStub at h
  split at h
  · rename_i hf
    obtain ⟨b', hb, h⟩ := Option.bind_eq_some_iff.mp h
    obtain ⟨regular, rfl⟩ := pushStub_eq_some hb
    obtain ⟨rfl, rfl⟩ := Prod.mk.inj (Option.some.inj h)
    rw [if_pos hf]
    exact ⟨hf, rfl, Draft.Rises.push (List.pairwise_singleton _ _) (ha.first_bounds (.inr hr) hf).1.le, rfl⟩
  · rename_i hf
    rw [hr] at h
    obtain ⟨rfl, rfl⟩ := Prod.mk.inj (Option.some.inj h)
    rw [if_neg hf]
    exact ⟨ha.effectiveDate, rfl, List.pairwise_singleton _ _, rfl⟩

theorem forward_between {g : Generated} (ha : a.Accepted) (hr : a.rule = .forward) (he : a.endOfMonth = false)
    (ht : 0 < a.tenor.length) (hu : a.Uncrossed) (h : a.forward = some g) : a.Between g.dates := by
  obtain ⟨-, hx, -, -⟩ := forward_ends (by rw [hr]; rfl) h
  obtain ⟨b₀, h₀, h⟩ := Option.bind_eq_some_iff.mp h
  obtain ⟨⟨seed, b₁⟩, h₁, h⟩ := Option.bind_eq_some_iff.mp h
  obtain ⟨b₂, h₂, h⟩ := Option.bind_eq_some_iff.mp h
  obtain ⟨b₃, h₃, h⟩ := Option.bind_eq_some_iff.mp h
  obtain rfl := Option.some.inj h
  rw [forwardStart, hr] at h₀
  obtain rfl := Option.some.inj h₀
  obtain ⟨hseed, hlast, hb₁, hseed'⟩ := forwardStub_rises ha hr h₁
  obtain ⟨-, he₁, he₂⟩ := stubs_ordered ha (.inr hr) hu
  rw [← hseed', ← hlast] at he₁
  obtain ⟨hb₂, hl₂⟩ := forwardLoop_rises hseed he ht (fun hn => if_pos hn) days 1 b₁ (le_refl _) hb₁ he₁
    (fun r h' => hlast ▸ (lt_stepOn hseed he ht (le_refl _) h').1.le) h₂
  obtain ⟨apart, -, h₃⟩ := Option.bind_eq_some_iff.mp h₃
  cases apart with
  | true  =>
    rw [hr] at h₃
    obtain rfl := Option.some.inj h₃
    exact between_of_ends (List.pairwise_reverse.mpr (hb₂.push (hl₂.trans he₂))) hx List.getLast?_reverse (le_refl _)
      (le_refl _)
  | false =>
    obtain rfl := Option.some.inj h₃
    exact between_of_ends (List.pairwise_reverse.mpr hb₂) hx List.getLast?_reverse (le_refl _) (hl₂.trans he₂)

/-! ## The whole schedule -/

/-- The generated dates, each rolled by its convention, before the merges. -/
def rolled (a : Terms) : Option (List Date) := do
  let g ← a.generate
  let dates ← a.shift g.dates
  let dates ← a.adjustEnds dates
  a.adjustInner g.seed dates

/-- **Terms whose rolls keep the order**: two ends, or stubs that do not cross, no end of the month, and conventions that
move no earlier date past a later one. -/
structure KeepsOrder (a : Terms) : Prop where
  rule : a.rule = .backward ∨ a.rule = .forward
  uncrossed : a.Uncrossed
  endOfMonth : a.endOfMonth = false
  convention : ∀ d d' r r', d ≤ d' → a.calendar.adjust d a.convention = some r →
    a.calendar.adjust d' a.convention = some r' → r ≤ r'
  termination : ∀ d r z, d ≤ a.terminationDate → a.calendar.adjust d a.convention = some r →
    a.calendar.adjust a.terminationDate a.terminationDateConvention = some z → r ≤ z

theorem rolled_sorted {dates : List Date} (ha : a.Accepted) (ht : 0 < a.tenor.length) (hk : a.KeepsOrder)
    (h : a.rolled = some dates) (hlen : 2 ≤ dates.length) : dates.Pairwise (· ≤ ·) := by
  obtain ⟨g, hg, h⟩ := Option.bind_eq_some_iff.mp h
  obtain ⟨l₁, h₁, h⟩ := Option.bind_eq_some_iff.mp h
  obtain ⟨l₂, h₂, h₃⟩ := Option.bind_eq_some_iff.mp h
  have hbetween : a.Between g.dates := by
    unfold generate at hg
    rcases hk.rule with hr | hr <;> rw [hr] at hg
    · exact backward_between ha hr hk.endOfMonth ht hk.uncrossed hg
    · exact forward_between ha hr hk.endOfMonth ht hk.uncrossed hg
  have hr : a.rule ∈ [.zero, .forward, .backward] := by rcases hk.rule with hr | hr <;> rw [hr] <;> decide
  obtain ⟨x, l, z, x', l', z', hshape, rfl, rfl, hx', -, hz'⟩ := rolled_ends ha hr hg h₁ h₂ h₃ hlen
  rw [hshape] at hbetween
  rw [adjustInner, hk.endOfMonth, if_neg (fun hc => Bool.false_ne_true hc.1)] at h₃
  rw [Option.bind_eq_bind, Option.bind_some, if_neg Bool.false_ne_true, mapInner_ends] at h₃
  obtain ⟨l'', hl', heq⟩ := Option.map_eq_some_iff.mp h₃
  obtain rfl : l'' = l' := List.append_cancel_right (List.cons.inj heq).2
  obtain ⟨hfirst, hrest⟩ := List.pairwise_cons.mp hbetween.sorted
  obtain ⟨hinner, -, -⟩ := List.pairwise_append.mp hrest
  have hbound (d) (hd : d ∈ l) : d ≤ a.terminationDate :=
    (hbetween.bounds d (List.mem_cons_of_mem x (List.mem_append_left [z] hd))).2
  refine List.pairwise_cons.mpr ⟨fun y hy => ?_, List.pairwise_append.mpr ⟨?_, List.pairwise_singleton _ _, ?_⟩⟩
  · rcases List.mem_append.mp hy with hy | hy
    · obtain ⟨d, hd, hdy⟩ := mapM_mem hl' y hy
      exact hk.convention x d x' y (hfirst d (List.mem_append_left _ hd)) hx' hdy
    · rw [List.mem_singleton.mp hy]
      exact hk.termination x x' z' (hbetween.bounds x List.mem_cons_self).2 hx' hz'
  · exact mapM_pairwise (fun d d' r r' hle => hk.convention d d' r r' hle) hinner hl'
  · intro y hy w hw
    obtain ⟨d, hd, hdy⟩ := mapM_mem hl' y hy
    rw [List.mem_singleton.mp hw]
    exact hk.termination d y z' (hbound d hd) hdy hz'

end Terms
end

/-- Every six months of 2019, with the first date after the next-to-last one. -/
def crossed : Terms where
  effectiveDate := ⟨43466, by decide⟩
  terminationDate := ⟨43831, by decide⟩
  tenor := ⟨6, .months⟩
  calendar := nullCalendar
  convention := .unadjusted
  terminationDateConvention := .unadjusted
  rule := .backward
  endOfMonth := false
  firstDate := ⟨43739, by decide⟩
  nextToLastDate := ⟨43556, by decide⟩

end Itofin.Schedule
