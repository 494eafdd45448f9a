import Itofin.Lib.Cut
import Itofin.Time.Schedule.Truncation
/-!
# Inside — what a truncation inside a schedule leaves

The searches and truncations of a schedule whose dates increase.  There the binary search finds how many dates come
before its argument (`partitionPoint_eq`); `after` leaves the truncation date and the dates after it (`after_inside`),
`until` the dates before it and itself (`until_inside`), and each says which flags go with them.

`after` keeps the flag of every period it leaves.  `until` pops a flag for every date, so from a schedule with fewer
flags than periods it takes the flags of periods that stay (`not_truncates`).
-/
namespace Itofin.Schedule

open Cut

/-- `next_date`; a null argument panics. -/
def nextDate (s : Schedule) (refDate : Date) : Option (Option Date) :=
  (s.lowerBound refDate).map (fun i => s.dates[i]?)

/-- `previous_date`; a null argument panics. -/
def previousDate (s : Schedule) (refDate : Date) : Option (Option Date) :=
  (s.lowerBound refDate).bind (fun i =>
    match i with
    | 0     => some none
    | i + 1 => s.dates[i]?.map some)

/-- The date lies strictly inside the schedule. -/
def Inside (s : Schedule) (t : Date) : Prop :=
  (∃ first, s.dates.head? = some first ∧ first < t) ∧ ∃ last, s.dates.getLast? = some last ∧ t < last

/-- The period from one date to the next has a flag. -/
def Regular (s : Schedule) (x y : Date) (b : Bool) : Prop :=
  ∃ i, s.dates[i]? = some x ∧ s.dates[i + 1]? = some y ∧ s.isRegularAt (i + 1) = some b

/-- **What truncations and searches are to do.**  The periods on the kept side of the truncation date keep their flags,
and in a schedule with flags the two truncations commute. -/
structure Truncates (s : Schedule) : Prop where
  after_dates : ∀ t, s.Inside t → ∃ w, s.after t = some w ∧ w.dates = t :: s.dates.filter (fun d => t < d)
  until_dates : ∀ t, s.Inside t → ∃ w, s.«until» t = some w ∧ w.dates = s.dates.filter (fun d => d < t) ++ [t]
  after_regular : ∀ t w, s.Inside t → s.after t = some w → ∀ x y b, s.Regular x y b → t ≤ x → w.Regular x y b
  until_regular : ∀ t w, s.Inside t → s.«until» t = some w → ∀ x y b, s.Regular x y b → y ≤ t → w.Regular x y b
  commute : s.hasIsRegular = true → ∀ t t', s.Inside t → s.Inside t' → t < t' → ∃ w w',
    (s.after t).bind (fun s => s.«until» t') = some w ∧ (s.«until» t').bind (fun s => s.after t) = some w' ∧
      w.dates = w'.dates ∧ w.isRegular = w'.isRegular
  nextDate : ∀ refDate, refDate ≠ Date.null → ∃ r, s.nextDate refDate = some r ∧
    ∀ d, r = some d ↔ IsLeast {x | x ∈ s.dates ∧ refDate ≤ x} d
  previousDate : ∀ refDate, refDate ≠ Date.null → ∃ r, s.previousDate refDate = some r ∧
    ∀ d, r = some d ↔ IsGreatest {x | x ∈ s.dates ∧ x < refDate} d

variable {s w : Schedule} {t t' x y : Date} {b : Bool}

/-! ## Searching -/

theorem partitionLoop_spec {holds : ℕ → Bool} {n k : ℕ} (hk : ∀ i < n, holds i = true ↔ i < k) :
    ∀ (fuel size base : ℕ), size ≤ fuel + 1 → 0 < size → base + size ≤ n → (base = 0 ∨ base < k) → k ≤ base + size →
      partitionLoop holds fuel size base < n ∧
      (partitionLoop holds fuel size base = 0 ∨ partitionLoop holds fuel size base < k) ∧
      k ≤ partitionLoop holds fuel size base + 1
  | 0, size, base, hf, hs, hn, hb, hle        => ⟨by rw [partitionLoop]; omega, hb, by rw [partitionLoop]; omega⟩
  | fuel + 1, size, base, hf, hs, hn, hb, hle => by
    rw [partitionLoop]
    split
    · have hmid := hk (base + size / 2) (by omega)
      by_cases hp : holds (base + size / 2) = true
      · simp only [if_pos hp]
        exact partitionLoop_spec hk fuel _ _ (by omega) (by omega) (by omega) (.inr (hmid.mp hp)) (by omega)
      · simp only [if_neg hp]
        have hle' := mt hmid.mpr hp
        exact partitionLoop_spec hk fuel _ _ (by omega) (by omega) (by omega) hb (by omega)
    · exact ⟨by omega, hb, by omega⟩

/-- **The binary search counts the prefix.** -/
theorem partitionPoint_eq {p : Date → Bool} {dates : List Date} (h : Cuts p dates) :
    partitionPoint p dates = (dates.filter p).length := by
  rw [partitionPoint]
  by_cases hnil : dates = []
  · rw [if_pos hnil, hnil]
    rfl
  rw [if_neg hnil]
  have hlen := List.length_pos_of_ne_nil hnil
  have hk : ∀ i < dates.length, p (dates.getD i Date.null) = true ↔ i < (dates.filter p).length := fun i hi => by
    have hx : dates[i]? = some (dates.getD i Date.null) := by
      rw [List.getD_eq_getElem?_getD, List.getElem?_eq_getElem hi, Option.getD_some]
    exact h.holds_iff hx
  obtain ⟨h₁, h₂, h₃⟩ := partitionLoop_spec hk dates.length dates.length 0 (by omega) hlen (by omega) (.inl rfl)
    (by rw [Nat.zero_add]; exact List.length_filter_le _ _)
  simp only
  split
  · rename_i hp
    have := (hk _ h₁).mp hp
    omega
  · rename_i hp
    have := mt (hk _ h₁).mpr hp
    omega

theorem lowerBound_eq (hs : s.dates.Pairwise (· < ·)) (ht : t ≠ Date.null) :
    s.lowerBound t = some (s.dates.filter (fun d => d < t)).length := by
  rw [lowerBound, if_neg ht, partitionPoint_eq (cuts_lt hs t)]

theorem nextDate_spec (hs : s.dates.Pairwise (· < ·)) (ht : t ≠ Date.null) : ∃ r, s.nextDate t = some r ∧
    ∀ d, r = some d ↔ IsLeast {x | x ∈ s.dates ∧ t ≤ x} d := by
  refine ⟨_, by rw [nextDate, lowerBound_eq hs ht, Option.map_some], fun d => ?_⟩
  rw [← List.head?_drop, (cuts_lt hs t).drop_eq, head?_eq_some_iff (hs.filter _)]
  simp only [List.mem_filter, Bool.not_eq_true', decide_eq_false_iff_not, not_lt]

theorem previousDate_spec (hs : s.dates.Pairwise (· < ·)) (ht : t ≠ Date.null) : ∃ r, s.previousDate t = some r ∧
    ∀ d, r = some d ↔ IsGreatest {x | x ∈ s.dates ∧ x < t} d := by
  have hprev : s.previousDate t = some (s.dates.filter (fun d => d < t)).getLast? := by
    have htake := (cuts_lt hs t).take_eq
    rw [previousDate, lowerBound_eq hs ht, Option.bind_some, List.getLast?_eq_getElem?]
    obtain ⟨lo, hlo⟩ : ∃ lo, lo = s.dates.filter (fun d => d < t) := ⟨_, rfl⟩
    rw [← hlo] at htake ⊢
    cases hn : lo.length with
    | zero   => rw [List.getElem?_eq_none (by omega)]
    | succ i =>
      have hi : s.dates[i]? = lo[i]? := by
        rw [← htake, hn, List.getElem?_take_of_lt (by omega)]
      simp only [hi, Nat.add_sub_cancel, List.getElem?_eq_getElem (show i < lo.length by omega), Option.map_some]
  refine ⟨_, hprev, fun d => ?_⟩
  rw [getLast?_eq_some_iff (hs.filter _)]
  simp only [List.mem_filter, decide_eq_true_eq]

/-! ## Truncating -/

theorem inside_ne_null (h : s.Inside t) : t ≠ Date.null := by
  obtain ⟨⟨first, -, hf⟩, -⟩ := h
  exact fun he => absurd (he ▸ hf) (not_lt.mpr (Date.null_le first))

/-- What is inserted with a truncation date that is not one of the dates. -/
def inserted {α : Type} (s : Schedule) (t : Date) (x : α) : List α := if t ∈ s.dates then [] else [x]

/-- **What `after` leaves**: the truncation date and the later dates, with the flags from there on. -/
theorem after_inside (hs : s.dates.Pairwise (· < ·)) (hi : s.Inside t) : ∃ w, s.after t = some w ∧
    w.dates = t :: s.dates.filter (fun d => t < d) ∧
    w.isRegular = s.inserted t false ++ s.isRegular.drop (s.dates.filter (fun d => d < t)).length := by
  have hne := inside_ne_null hi
  obtain ⟨⟨first, hfirst, hf⟩, last, hlast, hl⟩ := hi
  have hdrop : s.dates.drop (s.dates.filter (fun d => d < t)).length = s.dates.filter (fun d => t ≤ d) := by
    rw [(cuts_lt hs t).drop_eq]
    exact List.filter_congr (fun x _ => by simp [← not_lt])
  have hflags (k : ℕ) : s.isRegular.drop (min k s.isRegular.length) = s.isRegular.drop k := by
    rcases le_total k s.isRegular.length with h | h
    · rw [min_eq_left h]
    · rw [min_eq_right h, List.drop_length, List.drop_eq_nil_of_le h]
  rw [after, hfirst, hlast]
  simp only [Option.bind_eq_bind, Option.bind_some, if_pos hl, if_pos hf, lowerBound_eq hs hne, hdrop, hflags]
  by_cases ht : t ∈ s.dates
  · have hge := filter_ge hs ht
    simp only [hge, List.head?_cons, Option.bind_some]
    exact ⟨_, rfl, by simp, by simp [inserted, ht]⟩
  · have hge := filter_ge_of_notMem ht
    obtain ⟨head, hhead⟩ : ∃ head, (s.dates.filter (fun d => t < d)).head? = some head := by
      have hmem : last ∈ s.dates.filter (fun d => t < d) :=
        List.mem_filter.mpr ⟨List.mem_of_getLast? hlast, decide_eq_true hl⟩
      exact ⟨_, List.head?_eq_some_head (List.ne_nil_of_mem hmem)⟩
    have hth : t ≠ head := (of_decide_eq_true (List.mem_filter.mp (List.mem_of_head? hhead)).2).ne
    simp only [hge, hhead, Option.bind_some]
    exact ⟨_, rfl, by simp [hth], by simp [inserted, ht, hth]⟩

theorem popLoop_flags : ∀ (fuel : ℕ) (dates : List Date) (flags : List Bool), dates.length ≤ fuel →
    (∃ d ∈ dates, d ≤ t) → ∃ ds, popLoop t fuel dates flags =
      some (ds, flags.take (flags.length - (dates.length - ds.length))) ∧ ds.length ≤ dates.length
  | 0, dates, flags, hlen, ⟨d, hd, _⟩        => by
    rw [List.eq_nil_of_length_eq_zero (Nat.le_zero.mp hlen)] at hd
    cases hd
  | fuel + 1, dates, flags, hlen, ⟨d, hd, hdt⟩ => by
    rcases List.eq_nil_or_concat dates with rfl | ⟨l, a, rfl⟩
    · cases hd
    rw [List.concat_eq_append] at hd hlen ⊢
    rw [popLoop, List.getLast?_concat]
    simp only [List.dropLast_concat]
    rw [List.length_append, List.length_singleton] at hlen ⊢
    by_cases ha : t < a
    · rw [if_pos ha]
      have hd' : d ∈ l := (List.mem_append.mp hd).resolve_right (fun h => by
        rw [List.mem_singleton.mp h] at hdt
        exact absurd ha (not_lt.mpr hdt))
      obtain ⟨ds, hds, hle⟩ := popLoop_flags fuel l flags.dropLast (by omega) ⟨d, hd', hdt⟩
      refine ⟨ds, ?_, by omega⟩
      rw [hds, List.length_dropLast, List.dropLast_eq_take, List.take_take]
      congr 3
      omega
    · rw [if_neg ha]
      refine ⟨l ++ [a], ?_, by simp⟩
      rw [List.length_append, List.length_singleton, Nat.sub_self, Nat.sub_zero, List.take_length]

/-- **What `until` leaves**: the earlier dates and the truncation date, and one flag less for every date popped. -/
theorem until_inside (hs : s.dates.Pairwise (· < ·)) (hi : s.Inside t) : ∃ w, s.«until» t = some w ∧
    w.dates = s.dates.filter (fun d => d < t) ++ [t] ∧
    w.isRegular = s.isRegular.take (s.isRegular.length - (s.dates.length - (s.dates.filter (fun d => d ≤ t)).length)) ++
      s.inserted t false := by
  obtain ⟨⟨first, hfirst, hf⟩, last, hlast, hl⟩ := hi
  obtain ⟨ds, hpop, -⟩ := popLoop_flags (t := t) s.dates.length s.dates s.isRegular le_rfl
    ⟨first, List.mem_of_head? hfirst, hf.le⟩
  have hds : ds = s.dates.filter (fun d => d ≤ t) := by
    rw [(popLoop_eq _ hpop).1, ← (cuts_le hs t).rdropWhile_eq]
    congr 1
    funext d
    simp [← not_le]
  rw [hds] at hpop
  rw [«until», hfirst, hlast]
  simp only [Option.bind_eq_bind, Option.bind_some, if_pos hl, if_pos hf, hpop]
  by_cases ht : t ∈ s.dates
  · have hle := filter_le hs ht
    simp only [hle, List.getLast?_concat, Option.bind_some]
    exact ⟨_, rfl, by simp, by simp [inserted, ht]⟩
  · have hle := filter_le_of_notMem ht
    obtain ⟨e, he⟩ : ∃ e, (s.dates.filter (fun d => d < t)).getLast? = some e := by
      have hmem : first ∈ s.dates.filter (fun d => d < t) :=
        List.mem_filter.mpr ⟨List.mem_of_head? hfirst, decide_eq_true hf⟩
      exact ⟨_, List.getLast?_eq_some_getLast (List.ne_nil_of_mem hmem)⟩
    have hte : t ≠ e := (of_decide_eq_true (List.mem_filter.mp (List.mem_of_getLast? he)).2).ne'
    simp only [hle, he, Option.bind_some]
    exact ⟨_, rfl, by simp [hte], by simp [inserted, ht, hte]⟩

theorem after_dates_eq (hs : s.dates.Pairwise (· < ·)) (t : Date) : t :: s.dates.filter (fun d => t < d) =
    s.inserted t t ++ s.dates.drop (s.dates.filter (fun d => d < t)).length := by
  have hge : s.dates.filter (fun d => !decide (d < t)) = s.dates.filter (fun d => t ≤ d) :=
    List.filter_congr (fun x _ => by simp [← not_lt])
  rw [(cuts_lt hs t).drop_eq, hge, inserted]
  by_cases ht : t ∈ s.dates
  · rw [if_pos ht, List.nil_append, filter_ge hs ht]
  · rw [if_neg ht, List.singleton_append, filter_ge_of_notMem ht]

theorem until_dates_eq (hs : s.dates.Pairwise (· < ·)) (t : Date) : s.dates.filter (fun d => d < t) ++ [t] =
    s.dates.take (s.dates.filter (fun d => d ≤ t)).length ++ s.inserted t t := by
  rw [(cuts_le hs t).take_eq, inserted]
  by_cases ht : t ∈ s.dates
  · rw [if_pos ht, List.append_nil, filter_le hs ht]
  · rw [if_neg ht, filter_le_of_notMem ht]

theorem isRegularAt_succ (s : Schedule) (i : ℕ) : s.isRegularAt (i + 1) = s.isRegular[i]? := by
  unfold isRegularAt
  by_cases h : s.isRegular = []
  · rw [if_pos h, h, List.getElem?_nil]
  rw [if_neg h, Nat.add_sub_cancel]
  by_cases hi : i < s.isRegular.length
  · rw [if_pos ⟨by omega, by omega⟩]
  · rw [if_neg (by omega), List.getElem?_eq_none (by omega)]

theorem inserted_length {α β : Type} (s : Schedule) (t : Date) (x : α) (y : β) :
    (s.inserted t x).length = (s.inserted t y).length := by
  unfold inserted
  split <;> rfl

theorem getElem?_cut {α : Type} {k l : List α} {c i : ℕ} (h : c ≤ i) :
    (k ++ l.drop c)[k.length + (i - c)]? = l[i]? := by
  rw [List.getElem?_append_right (by omega), List.getElem?_drop]
  congr 1
  omega

/-- **`after` keeps the flags** of the periods it leaves. -/
theorem after_regular (hs : s.dates.Pairwise (· < ·)) (hi : s.Inside t) (h : s.after t = some w)
    (hr : s.Regular x y b) (hx : t ≤ x) : w.Regular x y b := by
  obtain ⟨w', hw', hd, hf⟩ := after_inside hs hi
  obtain rfl : w' = w := Option.some.inj (hw'.symm.trans h)
  obtain ⟨i, h₁, h₂, h₃⟩ := hr
  rw [isRegularAt_succ] at h₃
  have hc : (s.dates.filter (fun d => d < t)).length ≤ i := by
    rw [← not_lt, ← (cuts_lt hs t).holds_iff h₁, decide_eq_true_eq, not_lt]
    exact hx
  refine ⟨(s.inserted t t).length + (i - (s.dates.filter (fun d => d < t)).length), ?_, ?_, ?_⟩
  · rw [hd, after_dates_eq hs, getElem?_cut hc, h₁]
  · rw [hd, after_dates_eq hs, ← h₂, ← getElem?_cut (l := s.dates) (k := s.inserted t t) (Nat.le_succ_of_le hc)]
    congr 1
    omega
  · rw [isRegularAt_succ, hf, inserted_length s t t false, getElem?_cut hc, h₃]

/-- **`until` keeps the flags** of the periods it leaves, when there are enough. -/
theorem until_regular (hs : s.dates.Pairwise (· < ·)) (hlen : s.dates.length ≤ s.isRegular.length + 1)
    (hi : s.Inside t) (h : s.«until» t = some w) (hr : s.Regular x y b) (hy : y ≤ t) : w.Regular x y b := by
  obtain ⟨w', hw', hd, hf⟩ := until_inside hs hi
  obtain rfl : w' = w := Option.some.inj (hw'.symm.trans h)
  obtain ⟨i, h₁, h₂, h₃⟩ := hr
  rw [isRegularAt_succ] at h₃
  have hk : i + 1 < (s.dates.filter (fun d => d ≤ t)).length := by
    rw [← (cuts_le hs t).holds_iff h₂, decide_eq_true_eq]
    exact hy
  have hle := List.length_filter_le (fun d => decide (d ≤ t)) s.dates
  have hi' : i < s.isRegular.length := (List.getElem?_eq_some_iff.mp h₃).1
  refine ⟨i, ?_, ?_, ?_⟩
  · rw [hd, until_dates_eq hs, List.getElem?_append_left (by rw [List.length_take]; omega),
      List.getElem?_take_of_lt (by omega), h₁]
  · rw [hd, until_dates_eq hs, List.getElem?_append_left (by rw [List.length_take]; omega),
      List.getElem?_take_of_lt hk, h₂]
  · rw [isRegularAt_succ, hf, List.getElem?_append_left (by rw [List.length_take]; omega),
      List.getElem?_take_of_lt (by omega), h₃]

/-! ## Both ends -/

theorem after_sorted (hs : s.dates.Pairwise (· < ·)) : (t :: s.dates.filter (fun d => t < d)).Pairwise (· < ·) :=
  List.pairwise_cons.mpr ⟨fun _ hx => of_decide_eq_true (List.mem_filter.mp hx).2, hs.filter _⟩

theorem until_sorted (hs : s.dates.Pairwise (· < ·)) : (s.dates.filter (fun d => d < t) ++ [t]).Pairwise (· < ·) :=
  List.pairwise_append.mpr ⟨hs.filter _, List.pairwise_singleton _ _, fun _ hx _ ha =>
    List.mem_singleton.mp ha ▸ of_decide_eq_true (List.mem_filter.mp hx).2⟩

theorem inside_after (hi' : s.Inside t') (h : t < t') (hd : w.dates = t :: s.dates.filter (fun d => t < d)) :
    w.Inside t' := by
  obtain ⟨-, last, hlast, hl⟩ := hi'
  obtain ⟨ys, hys⟩ := List.getLast?_eq_some_iff.mp hlast
  refine ⟨⟨t, by rw [hd, List.head?_cons], h⟩, last, ?_, hl⟩
  rw [hd, hys, List.filter_append, List.filter_cons_of_pos (by simpa using h.trans hl), List.filter_nil,
    ← List.cons_append, List.getLast?_concat]

theorem inside_until (hi : s.Inside t) (h : t < t') (hd : w.dates = s.dates.filter (fun d => d < t') ++ [t']) :
    w.Inside t := by
  obtain ⟨⟨first, hfirst, hf⟩, -⟩ := hi
  obtain ⟨ys, hys⟩ := List.head?_eq_some_iff.mp hfirst
  refine ⟨⟨first, ?_, hf⟩, t', by rw [hd, List.getLast?_concat], h⟩
  rw [hd, hys, List.filter_cons_of_pos (by simpa using hf.trans h), List.cons_append, List.head?_cons]

theorem filter_between (l : List Date) (h : t < t') : (l.filter (fun d => d < t') ++ [t']).filter (fun d => t < d) =
    (l.filter (fun d => t < d)).filter (fun d => d < t') ++ [t'] := by
  rw [List.filter_append, List.filter_cons_of_pos (by simpa using h), List.filter_nil, List.filter_filter,
    List.filter_filter]
  congr 2
  funext d
  exact Bool.and_comm _ _

/-- The flags taken and dropped in either order, with a flag for every period. -/
theorem flags_commute {fl a b : List Bool} {c e n : ℕ} (hn : n ≤ fl.length + 1) (hc : 0 < c) (he : 0 < e)
    (hce : c + e ≤ n)
    (hlast : c + e = n → a = [false] ∧ b = [false]) :
    (a ++ fl.drop c).take ((a ++ fl.drop c).length - e) ++ b = a ++ (fl.take (fl.length - e) ++ b).drop c := by
  by_cases hl : c + e ≤ fl.length
  · have h₁ : (a ++ fl.drop c).length - e = a.length + (fl.length - e - c) := by
      rw [List.length_append, List.length_drop]
      omega
    rw [h₁, List.take_length_add_append, List.drop_append_of_le_length (by rw [List.length_take]; omega),
      List.drop_take, List.append_assoc]
  · obtain ⟨rfl, rfl⟩ := hlast (by omega)
    have h₁ : ([false] ++ fl.drop c).length - e = 0 := by
      rw [List.length_append, List.length_drop, List.length_singleton]
      omega
    rw [h₁, List.take_zero, List.nil_append, List.drop_eq_nil_of_le, List.append_nil]
    rw [List.length_append, List.length_take, List.length_singleton]
    omega

theorem length_filter_lt_add (hs : s.dates.Pairwise (· < ·)) (h : t < t') :
    (s.dates.filter (fun d => d < t)).length + (s.dates.filter (fun d => t' < d)).length ≤ s.dates.length ∧
    ((s.dates.filter (fun d => d < t)).length + (s.dates.filter (fun d => t' < d)).length = s.dates.length →
      t ∉ s.dates ∧ t' ∉ s.dates) := by
  have hlen := congrArg List.length (cuts_lt hs t).append
  rw [List.length_append] at hlen
  have hsub : s.dates.filter (fun d => t' < d) =
      (s.dates.filter (fun d => !decide (d < t))).filter (fun d => t' < d) := by
    rw [List.filter_filter]
    refine List.filter_congr (fun x _ => ?_)
    by_cases hx : t' < x
    · simp [hx, (h.trans hx).le]
    · simp [hx]
  have hle := List.length_filter_le (fun d => decide (t' < d)) (s.dates.filter (fun d => !decide (d < t)))
  rw [← hsub] at hle
  refine ⟨by omega, fun heq => ?_⟩
  have hall : ∀ x ∈ s.dates.filter (fun d => !decide (d < t)), t' < x := by
    have := List.filter_sublist.eq_of_length (hsub ▸ (by omega : (s.dates.filter (fun d => t' < d)).length =
      (s.dates.filter (fun d => !decide (d < t))).length))
    intro x hx
    rw [← this] at hx
    exact of_decide_eq_true (List.mem_filter.mp hx).2
  refine ⟨fun hm => ?_, fun hm => ?_⟩
  · exact absurd (hall t (List.mem_filter.mpr ⟨hm, by simp⟩)) (not_lt.mpr h.le)
  · exact absurd (hall t' (List.mem_filter.mpr ⟨hm, by simp [h.le]⟩)) (lt_irrefl t')

theorem length_filter_pos {l : List Date} {p : Date → Bool} (hm : x ∈ l) (hp : p x = true) : 0 < (l.filter p).length :=
  List.length_pos_of_mem (List.mem_filter.mpr ⟨hm, hp⟩)

/-- **The truncations commute** in a schedule with a flag for every period. -/
theorem commute_of_flags (hs : s.dates.Pairwise (· < ·)) (hn : s.dates.length ≤ s.isRegular.length + 1)
    (hi : s.Inside t) (hi' : s.Inside t') (h : t < t') : ∃ w w',
    (s.after t).bind (fun s => s.«until» t') = some w ∧ (s.«until» t').bind (fun s => s.after t) = some w' ∧
      w.dates = w'.dates ∧ w.isRegular = w'.isRegular := by
  obtain ⟨u, hu, ud, uf⟩ := after_inside hs hi
  obtain ⟨v, hv, vd, vf⟩ := until_inside hs hi'
  obtain ⟨w, hw, wd, wf⟩ := until_inside (ud ▸ after_sorted hs) (inside_after hi' h ud)
  obtain ⟨w', hw', wd', wf'⟩ := after_inside (vd ▸ until_sorted hs) (inside_until hi h vd)
  refine ⟨w, w', by rw [hu, Option.bind_some, hw], by rw [hv, Option.bind_some, hw'], ?_, ?_⟩
  · rw [wd, wd', ud, vd, filter_between _ h, List.filter_cons_of_pos (by simpa using h), List.cons_append]
  -- the flags: both leave them between the two bounds, and decide alike whether to insert one
  obtain ⟨hle, hall⟩ := length_filter_lt_add hs h
  have hins : u.inserted t' false = s.inserted t' false := by
    have : t' ∈ u.dates ↔ t' ∈ s.dates := by
      rw [ud, List.mem_cons, List.mem_filter, decide_eq_true_eq]
      exact ⟨fun hm => hm.elim (fun he => absurd he h.ne') And.left, fun hm => .inr ⟨hm, h⟩⟩
    simp only [inserted, this]
  have hins' : v.inserted t false = s.inserted t false := by
    have : t ∈ v.dates ↔ t ∈ s.dates := by
      rw [vd, List.mem_append, List.mem_filter, decide_eq_true_eq, List.mem_singleton]
      exact ⟨fun hm => hm.elim And.left (fun he => absurd he h.ne), fun hm => .inl ⟨hm, h⟩⟩
    simp only [inserted, this]
  have hcut : (v.dates.filter (fun d => d < t)).length = (s.dates.filter (fun d => d < t)).length := by
    rw [vd, List.filter_append, List.filter_cons_of_neg (by simpa using h.le), List.filter_nil, List.append_nil,
      List.filter_filter]
    refine congrArg List.length (List.filter_congr (fun x _ => ?_))
    by_cases hx : x < t
    · simp [hx, hx.trans h]
    · simp [hx]
  have hpop (l : List Date) : l.length - (l.filter (fun d => d ≤ t')).length = (l.filter (fun d => t' < d)).length := by
    have := List.length_eq_length_filter_add (l := l) (fun d => decide (d ≤ t'))
    have hc : l.filter (fun d => !decide (d ≤ t')) = l.filter (fun d => t' < d) :=
      List.filter_congr (fun x _ => by simp [← not_le])
    rw [hc] at this
    omega
  have hpast : u.dates.filter (fun d => t' < d) = s.dates.filter (fun d => t' < d) := by
    rw [ud, List.filter_cons_of_neg (by simpa using h.le), List.filter_filter]
    refine List.filter_congr (fun x _ => ?_)
    by_cases hx : t' < x
    · simp [hx, h.trans hx]
    · simp [hx]
  rw [wf, wf', hins, hins', hcut, hpop, hpast, uf, vf, hpop]
  obtain ⟨⟨first, hfirst, hf⟩, -⟩ := hi
  obtain ⟨-, last, hlast, hl⟩ := hi'
  refine flags_commute hn (length_filter_pos (List.mem_of_head? hfirst) (decide_eq_true hf))
    (length_filter_pos (List.mem_of_getLast? hlast) (decide_eq_true hl)) hle (fun heq => ?_)
  obtain ⟨h₁, h₂⟩ := hall heq
  exact ⟨if_neg h₁, if_neg h₂⟩

/-! ## When the flags are kept -/

/-- **Too few flags are lost**: cut at the last date but one, the schedule loses the flag of a period it keeps. -/
theorem not_truncates (hs : s.dates.Pairwise (· < ·)) (h₀ : s.isRegular ≠ [])
    (hlen : s.isRegular.length + 1 < s.dates.length) : ¬ s.Truncates := by
  intro ht
  have hpos := List.length_pos_of_ne_nil h₀
  have hget := List.pairwise_iff_getElem.mp hs
  obtain ⟨n, hn⟩ : ∃ n, s.dates.length = n + 3 := ⟨s.dates.length - 3, by omega⟩
  have hi : s.Inside s.dates[n + 1] := by
    refine ⟨⟨s.dates[0], ?_, hget 0 (n + 1) (by omega) (by omega) (by omega)⟩, s.dates[n + 2], ?_,
      hget (n + 1) (n + 2) (by omega) (by omega) (by omega)⟩
    · rw [List.head?_eq_getElem?, List.getElem?_eq_getElem (by omega)]
    · have hlast : s.dates.length - 1 = n + 2 := by omega
      rw [List.getLast?_eq_getElem?, hlast, List.getElem?_eq_getElem (by omega)]
  obtain ⟨w, hw, wd, wf⟩ := until_inside hs hi
  have hk : (s.dates.filter (fun d => d ≤ s.dates[n + 1])).length = n + 2 := by
    have hcut := cuts_le hs s.dates[n + 1]
    have h₁ := hcut.holds_iff (List.getElem?_eq_getElem (show n + 1 < s.dates.length by omega))
    have h₂ := hcut.holds_iff (List.getElem?_eq_getElem (show n + 2 < s.dates.length by omega))
    have h₃ := hget (n + 1) (n + 2) (by omega) (by omega) (by omega)
    rw [decide_eq_true_eq] at h₁ h₂
    have := h₁.mp le_rfl
    have := mt h₂.mpr (not_le.mpr h₃)
    omega
  have hins : s.inserted s.dates[n + 1] false = [] := if_pos (List.getElem_mem _)
  obtain ⟨i, hii⟩ : ∃ i, s.isRegular.length = i + 1 := ⟨s.isRegular.length - 1, by omega⟩
  obtain ⟨j, hj, -, hb⟩ := ht.until_regular _ w hi hw s.dates[i] s.dates[i + 1] s.isRegular[i]
    ⟨i, List.getElem?_eq_getElem _, List.getElem?_eq_getElem _, by
      rw [isRegularAt_succ, List.getElem?_eq_getElem (by omega)]⟩ (by
      rcases Nat.lt_or_ge i n with hlt | hge
      · exact (hget (i + 1) (n + 1) (by omega) (by omega) (by omega)).le
      · have : i = n := by omega
        subst this
        exact le_rfl)
  rw [wd, until_dates_eq hs, hk, inserted, if_pos (List.getElem_mem _), List.append_nil] at hj
  have hij : i = j := by
    have hjlt := (List.getElem?_eq_some_iff.mp hj).1
    rw [List.length_take] at hjlt
    rw [List.getElem?_take_of_lt (by omega), ← List.getElem?_eq_getElem (show i < s.dates.length by omega)] at hj
    exact (List.getElem?_inj (by omega) (hs.imp (fun h => h.ne))).mp hj.symm
  rw [isRegularAt_succ, wf, hins, List.append_nil, hk, List.getElem?_eq_none] at hb
  · exact absurd hb.symm (Option.some_ne_none _)
  · rw [List.length_take]
    omega

/-- **Truncation semantics.**  A schedule whose dates increase has it exactly when it has no flags, or a flag for every
period. -/
theorem truncates_iff (hs : s.dates.Pairwise (· < ·)) :
    s.Truncates ↔ s.isRegular = [] ∨ s.dates.length ≤ s.isRegular.length + 1 := by
  constructor
  · intro ht
    by_contra hn
    obtain ⟨h₀, hlen⟩ := not_or.mp hn
    exact not_truncates hs h₀ (not_le.mp hlen) ht
  · intro hf
    refine ⟨fun t hi => ?_, fun t hi => ?_, fun t w hi hw x y b hr hx => after_regular hs hi hw hr hx,
      fun t w hi hw x y b hr hy => ?_, fun hreg t t' hi hi' h => ?_, fun _ => nextDate_spec hs,
      fun _ => previousDate_spec hs⟩
    · obtain ⟨w, hw, hd, -⟩ := after_inside hs hi
      exact ⟨w, hw, hd⟩
    · obtain ⟨w, hw, hd, -⟩ := until_inside hs hi
      exact ⟨w, hw, hd⟩
    · rcases hf with hf | hf
      · obtain ⟨i, -, -, hb⟩ := hr
        rw [isRegularAt_succ, hf, List.getElem?_nil] at hb
        cases hb
      · exact until_regular hs hf hi hw hr hy
    · refine commute_of_flags hs (hf.resolve_left (fun hnil => ?_)) hi hi' h
      rw [hasIsRegular, hnil] at hreg
      cases hreg

/-- The flags of four months are in step when there are none. -/
theorem truncates_iff_fourMonths : ∃ s, fromDates fourMonths = some s ∧ s.Truncates :=
  ⟨_, rfl, (truncates_iff (by decide +kernel)).mpr (.inl rfl)⟩

/-- **Cut twice, four months without flags lose one**: the first truncation inserts a flag, which is that of the first
period, and the second takes it although the period stays. -/
theorem not_truncates_fourMonths : ∃ s u w, fromDates fourMonths = some s ∧ s.«until» ⟨43170, by decide⟩ = some u ∧
    u.dates.Pairwise (· < ·) ∧ u.isRegularAt 1 = some false ∧ u.«until» ⟨43160, by decide⟩ = some w ∧
    w.dates = fourMonths.take 3 ∧ w.isRegularAt 1 = none ∧ ¬ u.Truncates := by
  refine ⟨_, _, _, rfl, rfl, ?_, ?_, rfl, ?_, ?_, not_truncates ?_ ?_ ?_⟩
  all_goals decide +kernel

end Itofin.Schedule
