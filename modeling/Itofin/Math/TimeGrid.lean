import Mathlib.Data.List.Destutter
import Mathlib.Data.List.Sort
import Itofin.Lib.Cut
import Itofin.Lib.Nearest
import Itofin.Math.Comparison
/-!
# Time grid — the nodes between mandatory times

The constructor from mandatory times of `math/timegrid.rs` and its lookups, in exact arithmetic.  The mandatory times are
sorted, and a time close to the one kept before it is dropped; between two that are kept stand evenly spaced nodes.

`gridTimes_spec` is the induction over the kept times: a segment starts after the node before it and ends at its time
(`segment_spec`).  A lookup counts the nodes before a time, which cuts the nodes in two, so it finds the nearest
(`closestIndex_nearest`).
-/
namespace Itofin.Math

open Nearest Cut

variable {K : Type} [Field K] [LinearOrder K]

structure TimeGrid (K : Type) where
  times : List K
  dt : List K
  mandatoryTimes : List K
deriving DecidableEq

namespace TimeGrid

inductive Failure (K : Type) where
  | message (text : String)
  /-- `using inadequate time grid: no node is close enough to the required time t = {t} (closest node is t1 = {})` -/
  | inadequate (t t1 : K)
  /-- An index out of range. -/
  | panic
deriving DecidableEq

/-- `mandatory.sort_by(..); mandatory.dedup_by(|a, b| close_enough(*a, *b))`, which compares with the time kept before. -/
def mandatory (times : List K) : List K :=
  (times.insertionSort (· ≤ ·)).destutter (fun b a => ¬ closeEnough a b = true)

/-- `x as Size` -/
def asSize (x : ℤ) : ℕ := min x.toNat 18446744073709551615

/-- The differences, without a first that is zero; the first is there, so the check before it never fails. -/
def gaps (mandatory : List K) : List K :=
  let diff := mandatory.headD 0 :: List.zipWith (fun a b => b - a) mandatory mandatory.tail
  if diff.head? = some 0 then diff.tail else diff

/-- The spacing from which the number of nodes of a segment is inferred. -/
def dtMax (mandatory : List K) (steps : ℕ) : Except (Failure K) K :=
  if steps = 0 then
    match gaps mandatory with
    | []        => .error (.message "not enough distinct points in time grid")
    | d :: diff => .ok (diff.foldl min d)
  else .ok (mandatory.getLastD 0 / steps)

section Constructor

variable [FloorRing K]

/-- The nodes after one mandatory time up to the next. -/
def segment (dtMax periodBegin periodEnd : K) : List K :=
  let nSteps := asSize (max (roundAway ((periodEnd - periodBegin) / dtMax)) 1)
  let dt := (periodEnd - periodBegin) / nSteps
  (List.range nSteps).map (fun n => periodBegin + ((n + 1 : ℕ) : K) * dt)

/-- `for &period_end in &mandatory { .. period_begin = period_end; }` -/
def gridTimes (dtMax : K) : List K → K → List K
  | [], _                          => []
  | periodEnd :: rest, periodBegin =>
    (if periodEnd = 0 then [] else segment dtMax periodBegin periodEnd) ++ gridTimes dtMax rest periodEnd

def withMandatoryTimes (times : List K) (steps : ℕ) : Except (Failure K) (TimeGrid K) :=
  if times = [] then .error (.message "empty time sequence")
  else if (times.insertionSort (· ≤ ·)).headD 0 < 0 then .error (.message "negative times not allowed")
  else
    match dtMax (mandatory times) steps with
    | .error e  => .error e
    | .ok dtMax =>
      let times' := 0 :: gridTimes dtMax (mandatory times) 0
      .ok ⟨times', List.zipWith (fun a b => b - a) times' times'.tail, mandatory times⟩

end Constructor

/-- The number of nodes before `t` is the `partition_point`. -/
def closestIndex (self : TimeGrid K) (t : K) : ℕ :=
  let result := (self.times.filter (fun x => x < t)).length
  if result = 0 then 0
  else if result = self.times.length then self.times.length - 1
  else
    let dt1 := self.times.getD result 0 - t
    let dt2 := t - self.times.getD (result - 1) 0
    if dt1 < dt2 then result else result - 1

def index (self : TimeGrid K) (t : K) : Except (Failure K) ℕ :=
  let i := self.closestIndex t
  match self.times[i]? with
  | some t1 => if closeEnough t t1 then .ok i else .error (.inadequate t t1)
  | none    => .error .panic

/-! ## The mandatory times that are kept -/

variable {l times : List K} {a t : K}

theorem kept_increasing : ∀ {l : List K} {a : K}, (a :: l).Pairwise (· ≤ ·) →
    (l.destutter' (fun b a => ¬ closeEnough a b = true) a).Pairwise (· < ·) ∧
      ∀ s ∈ l.destutter' (fun b a => ¬ closeEnough a b = true) a, a ≤ s
  | [], a, _     => ⟨List.pairwise_singleton _ _, fun s hs => (List.mem_singleton.mp hs).ge⟩
  | b :: l, a, h => by
    obtain ⟨ha, hl⟩ := List.pairwise_cons.mp h
    by_cases hc : closeEnough b a = true
    · rw [List.destutter'_cons_neg (h := not_not.mpr hc)]
      exact kept_increasing (List.pairwise_cons.mpr
        ⟨fun x hx => ha x (List.mem_cons_of_mem _ hx), (List.pairwise_cons.mp hl).2⟩)
    · rw [List.destutter'_cons_pos (h := hc)]
      obtain ⟨hp, hb⟩ := kept_increasing hl
      have hab : a < b := lt_of_le_of_ne (ha b List.mem_cons_self) (ne_of_not_close hc).symm
      refine ⟨List.pairwise_cons.mpr ⟨fun s hs => hab.trans_le (hb s hs), hp⟩, fun s hs => ?_⟩
      rcases List.mem_cons.mp hs with rfl | hs
      · exact le_rfl
      · exact hab.le.trans (hb s hs)

/-- **A dropped time is close to one that is kept**, which is not after it. -/
theorem exists_kept : ∀ {l : List K} {a : K}, (a :: l).Pairwise (· ≤ ·) → ∀ t ∈ a :: l,
    ∃ s ∈ l.destutter' (fun b a => ¬ closeEnough a b = true) a, s ≤ t ∧ closeEnough t s = true
  | [], a, _, t, ht     => by
    obtain rfl := List.mem_singleton.mp ht
    exact ⟨t, List.mem_singleton_self t, le_rfl, closeEnough_self t⟩
  | b :: l, a, h, t, ht => by
    obtain ⟨ha, hl⟩ := List.pairwise_cons.mp h
    by_cases hc : closeEnough b a = true
    · rw [List.destutter'_cons_neg (h := not_not.mpr hc)]
      have hal : (a :: l).Pairwise (· ≤ ·) :=
        List.pairwise_cons.mpr ⟨fun x hx => ha x (List.mem_cons_of_mem _ hx), (List.pairwise_cons.mp hl).2⟩
      rcases List.mem_cons.mp ht with rfl | ht
      · exact ⟨t, List.mem_destutter' _ _ _, le_rfl, closeEnough_self t⟩
      · rcases List.mem_cons.mp ht with rfl | ht
        · exact ⟨a, List.mem_destutter' _ _ _, ha t List.mem_cons_self, hc⟩
        · exact exists_kept hal t (List.mem_cons_of_mem _ ht)
    · rw [List.destutter'_cons_pos (h := hc)]
      rcases List.mem_cons.mp ht with rfl | ht
      · exact ⟨t, List.mem_cons_self, le_rfl, closeEnough_self t⟩
      · obtain ⟨s, hs, h⟩ := exists_kept hl t ht
        exact ⟨s, List.mem_cons_of_mem _ hs, h⟩

theorem close_to_last : ∀ {l : List K} {a : K}, (a :: l).Pairwise (· ≤ ·) → ∀ last,
    (l.destutter' (fun b a => ¬ closeEnough a b = true) a).getLast? = some last →
      ∀ t ∈ a :: l, last < t → closeEnough t last = true
  | [], a, _, last, hlast, t, ht, hlt     => by
    obtain rfl := List.mem_singleton.mp ht
    obtain rfl := Option.some.inj hlast
    exact absurd hlt (lt_irrefl _)
  | b :: l, a, h, last, hlast, t, ht, hlt => by
    obtain ⟨ha, hl⟩ := List.pairwise_cons.mp h
    by_cases hc : closeEnough b a = true
    · rw [List.destutter'_cons_neg (h := not_not.mpr hc)] at hlast
      have hal : (a :: l).Pairwise (· ≤ ·) :=
        List.pairwise_cons.mpr ⟨fun x hx => ha x (List.mem_cons_of_mem _ hx), (List.pairwise_cons.mp hl).2⟩
      have ih := close_to_last hal last hlast
      rcases List.mem_cons.mp ht with rfl | ht
      · exact ih t List.mem_cons_self hlt
      · rcases List.mem_cons.mp ht with rfl | ht
        · rcases List.mem_cons.mp ((List.destutter'_sublist _ _ _).mem (List.mem_of_getLast? hlast)) with rfl | hm
          · exact hc
          · exact absurd hlt (not_lt.mpr ((List.pairwise_cons.mp hl).1 last hm))
        · exact ih t (List.mem_cons_of_mem _ ht) hlt
    · rw [List.destutter'_cons_pos (h := hc), List.getLast?_cons_of_ne_nil (List.destutter'_ne_nil _ _)] at hlast
      rcases List.mem_cons.mp ht with rfl | ht
      · have hle := (kept_increasing hl).2 last (List.mem_of_getLast? hlast)
        exact absurd hlt (not_lt.mpr ((ha b List.mem_cons_self).trans hle))
      · exact close_to_last hl last hlast t ht hlt

/-- What is kept of some mandatory times. -/
structure Kept (times kept : List K) : Prop where
  increasing : kept.Pairwise (· < ·)
  mem : ∀ s ∈ kept, s ∈ times
  covers : ∀ t ∈ times, ∃ s ∈ kept, s ≤ t ∧ closeEnough t s = true
  last : ∀ last, kept.getLast? = some last → ∀ t ∈ times, last < t → closeEnough t last = true

theorem mandatory_kept (times : List K) : Kept times (mandatory times) := by
  have hmem : ∀ t, t ∈ times.insertionSort (· ≤ ·) ↔ t ∈ times :=
    fun t => (List.perm_insertionSort (· ≤ ·) times).mem_iff
  have hsorted : (times.insertionSort (· ≤ ·)).Pairwise (· ≤ ·) := List.pairwise_insertionSort (· ≤ ·) times
  unfold mandatory
  cases hl : times.insertionSort (· ≤ ·) with
  | nil      =>
    rw [hl] at hmem
    exact ⟨List.Pairwise.nil, fun s hs => (hmem s).mp hs, fun t ht => absurd ((hmem t).mpr ht) List.not_mem_nil, nofun⟩
  | cons a l =>
    rw [hl] at hmem hsorted
    exact ⟨(kept_increasing hsorted).1, fun s hs => (hmem s).mp ((List.destutter'_sublist _ _ _).mem hs),
      fun t ht => exists_kept hsorted t ((hmem t).mpr ht),
      fun last hlast t ht => close_to_last hsorted last hlast t ((hmem t).mpr ht)⟩

/-! ## The nodes -/

variable [IsStrictOrderedRing K]

section Constructor

variable [FloorRing K] {dtMax b e : K}

/-- **The nodes of a segment** go up from after its beginning to its end. -/
theorem segment_spec (dtMax : K) (h : b < e) : (segment dtMax b e).Pairwise (· < ·) ∧
    (∀ t ∈ segment dtMax b e, b < t ∧ t ≤ e) ∧ ∃ l, segment dtMax b e = l ++ [e] := by
  obtain ⟨n, hn⟩ : ∃ n, asSize (max (roundAway ((e - b) / dtMax)) 1) = n + 1 :=
    Nat.exists_eq_succ_of_ne_zero (by unfold asSize; omega)
  have hn0 : (0 : K) < ((n + 1 : ℕ) : K) := Nat.cast_pos.mpr n.succ_pos
  have hdt : 0 < (e - b) / ((n + 1 : ℕ) : K) := div_pos (sub_pos.mpr h) hn0
  have hend : b + ((n + 1 : ℕ) : K) * ((e - b) / ((n + 1 : ℕ) : K)) = e := by
    rw [mul_div_cancel₀ _ hn0.ne']
    ring
  unfold segment
  dsimp only
  rw [hn]
  refine ⟨?_, fun t ht => ?_, (List.range n).map (fun k => b + ((k + 1 : ℕ) : K) * ((e - b) / ((n + 1 : ℕ) : K))), ?_⟩
  · refine List.pairwise_map.mpr (List.pairwise_lt_range.imp (fun {i j} hij => ?_))
    have : ((i + 1 : ℕ) : K) < ((j + 1 : ℕ) : K) := Nat.cast_lt.mpr (Nat.succ_lt_succ hij)
    exact add_lt_add_right (mul_lt_mul_of_pos_right this hdt) b
  · obtain ⟨k, hk, rfl⟩ := List.mem_map.mp ht
    have h₁ : (0 : K) < ((k + 1 : ℕ) : K) := Nat.cast_pos.mpr k.succ_pos
    have h₂ : ((k + 1 : ℕ) : K) ≤ ((n + 1 : ℕ) : K) := Nat.cast_le.mpr (List.mem_range.mp hk)
    refine ⟨lt_add_of_pos_right b (mul_pos h₁ hdt), ?_⟩
    exact (add_le_add_right (mul_le_mul_of_nonneg_right h₂ hdt.le) b).trans hend.le
  · rw [List.range_succ, List.map_append, List.map_singleton, hend]

/-- **The nodes after a time**, of increasing times after it. -/
theorem gridTimes_spec (dtMax : K) : ∀ (l : List K) {b : K}, 0 ≤ b → (b :: l).Pairwise (· < ·) →
    (b :: gridTimes dtMax l b).Pairwise (· < ·) ∧ (∀ t ∈ l, t ∈ gridTimes dtMax l b) ∧
      (b :: gridTimes dtMax l b).getLast? = (b :: l).getLast?
  | [], b, _, _     => ⟨List.pairwise_singleton _ _, fun t ht => absurd ht List.not_mem_nil, rfl⟩
  | e :: l, b, hb, h => by
    obtain ⟨hlt, hl⟩ := List.pairwise_cons.mp h
    have hbe : b < e := hlt e List.mem_cons_self
    obtain ⟨hp, hmem, hlast⟩ := gridTimes_spec dtMax l (hb.trans hbe.le) hl
    obtain ⟨hseg, hin, init, hinit⟩ := segment_spec dtMax hbe
    obtain ⟨hafter, hrest⟩ := List.pairwise_cons.mp hp
    rw [gridTimes, if_neg (hb.trans_lt hbe).ne']
    refine ⟨List.pairwise_cons.mpr ⟨fun t ht => ?_, List.pairwise_append.mpr ⟨hseg, hrest, fun x hx y hy => ?_⟩⟩,
      fun t ht => ?_, ?_⟩
    · rcases List.mem_append.mp ht with ht | ht
      · exact (hin t ht).1
      · exact hbe.trans (hafter t ht)
    · exact (hin x hx).2.trans_lt (hafter y hy)
    · rcases List.mem_cons.mp ht with rfl | ht
      · rw [hinit]
        exact List.mem_append_left _ (List.mem_append_right _ (List.mem_singleton_self _))
      · exact List.mem_append_right _ (hmem t ht)
    · rw [hinit, List.append_assoc, ← List.cons_append, List.getLast?_append_of_ne_nil _ (by simp), List.singleton_append,
        hlast, List.getLast?_cons_cons]

/-- **The nodes of the grid**, from zero on. -/
theorem nodes_spec (dtMax : K) (hp : l.Pairwise (· < ·)) (hl : ∀ t ∈ l, 0 ≤ t) (hne : l ≠ []) :
    (0 :: gridTimes dtMax l 0).Pairwise (· < ·) ∧ (∀ t ∈ l, t ∈ 0 :: gridTimes dtMax l 0) ∧
      (0 :: gridTimes dtMax l 0).getLast? = l.getLast? := by
  cases l with
  | nil      => exact absurd rfl hne
  | cons m l =>
    rcases (hl m List.mem_cons_self).eq_or_lt with rfl | hm
    · rw [gridTimes, if_pos rfl, List.nil_append]
      obtain ⟨h₁, h₂, h₃⟩ := gridTimes_spec dtMax l le_rfl hp
      refine ⟨h₁, fun t ht => ?_, h₃⟩
      exact (List.mem_cons.mp ht).elim (fun h => h ▸ List.mem_cons_self) (fun h => List.mem_cons_of_mem _ (h₂ t h))
    · have hp' : (0 :: m :: l).Pairwise (· < ·) := by
        refine List.pairwise_cons.mpr ⟨fun t ht => ?_, hp⟩
        exact (List.mem_cons.mp ht).elim (fun h => h ▸ hm) (fun h => hm.trans ((List.pairwise_cons.mp hp).1 t h))
      obtain ⟨h₁, h₂, h₃⟩ := gridTimes_spec dtMax (m :: l) le_rfl hp'
      exact ⟨h₁, fun t ht => List.mem_cons_of_mem _ (h₂ t ht), h₃.trans List.getLast?_cons_cons⟩

end Constructor

/-! ## The lookups -/

variable {self : TimeGrid K} {i j : ℕ}

omit [IsStrictOrderedRing K] in
theorem getD_mono (h : l.Pairwise (· < ·)) (hij : i ≤ j) (hj : j < l.length) : l.getD i 0 ≤ l.getD j 0 := by
  rcases hij.eq_or_lt with rfl | hlt
  · exact le_rfl
  · have := List.pairwise_iff_getElem.mp h i j (hlt.trans hj) hj hlt
    rw [List.getD_eq_getElem?_getD, List.getD_eq_getElem?_getD, List.getElem?_eq_getElem (hlt.trans hj),
      List.getElem?_eq_getElem hj]
    exact this.le

/-- **The nearest node**: the nodes before the time are the first ones. -/
theorem closestIndex_nearest (h : self.times.Pairwise (· < ·)) (hne : self.times ≠ []) (t : K) :
    self.closestIndex t < self.times.length ∧
      IsNearest {j | j < self.times.length} (fun j => self.times.getD j 0) t (self.closestIndex t) := by
  have hlen := List.length_pos_of_ne_nil hne
  have hcut : ∀ i, i < self.times.length → (self.times.getD i 0 < t ↔ i < (self.times.filter (fun x => x < t)).length) :=
    fun i hi => by
      have hx : self.times[i]? = some (self.times.getD i 0) := by
        rw [List.getD_eq_getElem?_getD, List.getElem?_eq_getElem hi, Option.getD_some]
      exact decide_eq_true_iff.symm.trans ((cuts_lt h t).holds_iff hx)
  have hle : (self.times.filter (fun x => x < t)).length ≤ self.times.length := List.length_filter_le _ _
  unfold closestIndex
  dsimp only
  generalize (self.times.filter (fun x => x < t)).length = r at hcut hle
  split_ifs with h₀ hn hd
  · refine ⟨hlen, nearest_least ?_ (fun z hz => getD_mono h (Nat.zero_le z) hz)⟩
    exact not_lt.mp (mt (hcut 0 hlen).mp (by omega))
  · refine ⟨by omega, nearest_greatest ?_ (fun z hz => getD_mono h (Nat.le_sub_one_of_lt hz) (by omega))⟩
    exact ((hcut (self.times.length - 1) (by omega)).mpr (by omega)).le
  all_goals
    have hbefore : self.times.getD (r - 1) 0 < t := (hcut (r - 1) (by omega)).mpr (by omega)
    have hafter : t ≤ self.times.getD r 0 := not_lt.mp (mt (hcut r (by omega)).mp (by omega))
    have hc : Crosses {j | j < self.times.length} (fun j => self.times.getD j 0) t (r - 1) r := by
      refine ⟨hbefore.le, hafter, fun z hz => ?_⟩
      rcases le_or_gt z (r - 1) with hz' | hz'
      · exact .inl (getD_mono h hz' (by omega))
      · exact .inr (getD_mono h (by omega) hz)
    have h₁ := abs_of_nonpos (sub_nonpos.mpr hbefore.le)
    have h₂ := abs_of_nonneg (sub_nonneg.mpr hafter)
  · exact ⟨by omega, hc.nearest_right (by rw [h₁, h₂]; linarith)⟩
  · exact ⟨by omega, hc.nearest_left (by rw [h₁, h₂]; linarith)⟩

/-- The tolerance of 42 epsilons. -/
def tolerance : K := ((42 : ℕ) : K) * epsilon

theorem tolerance_bounds : (0 : K) < tolerance ∧ (tolerance : K) < 1 := by
  have h : (0 : K) < epsilon := epsilon_pos
  refine ⟨mul_pos (by norm_num) h, ?_⟩
  unfold tolerance epsilon
  rw [← div_eq_mul_inv, div_lt_one (by positivity)]
  exact_mod_cast (by norm_num : (42 : ℕ) < 2 ^ 52)

/-- **What is close to a time below it is within the tolerance of it**, and a nearer one is close too, unless the time is
within the square of the tolerance of zero. -/
theorem close_of_nearer {s c : K} (hs : 0 ≤ s) (hst : s ≤ t) (ht : t = 0 ∨ tolerance * tolerance ≤ t)
    (h : closeEnough t s = true) (hc : |c - t| ≤ |s - t|) : closeEnough t c = true := by
  obtain ⟨h₀, h₁⟩ := tolerance_bounds (K := K)
  by_cases hts : t = s
  · have : c = t := by rw [hts, sub_self, abs_zero] at hc; rw [hts]; exact sub_eq_zero.mp (abs_nonpos_iff.mp hc)
    rw [this]
    exact closeEnough_self t
  have hpos : 0 < t := lt_of_le_of_lt hs (lt_of_le_of_ne hst (Ne.symm hts))
  have hge : tolerance * tolerance ≤ t := ht.resolve_left hpos.ne'
  have hdist : |t - s| ≤ tolerance * t := by
    rw [closeEnough, closeEnoughN, if_neg hts] at h
    change (if t = 0 ∨ s = 0 then decide (|t - s| < tolerance * tolerance)
      else decide (|t - s| ≤ tolerance * |t| ∨ |t - s| ≤ tolerance * |s|)) = true at h
    by_cases hs0 : s = 0
    · rw [if_pos (.inr hs0), hs0, sub_zero, abs_of_pos hpos] at h
      exact absurd (of_decide_eq_true h) (not_lt.mpr hge)
    · rw [if_neg (not_or.mpr ⟨hpos.ne', hs0⟩), abs_of_pos hpos, abs_of_nonneg hs] at h
      rcases of_decide_eq_true h with h | h
      · exact h
      · exact h.trans (mul_le_mul_of_nonneg_left hst h₀.le)
  have hdist' : |t - c| ≤ tolerance * t := by
    rw [abs_sub_comm t c]
    rw [abs_sub_comm t s] at hdist
    exact hc.trans hdist
  rw [closeEnough, closeEnoughN]
  change (if t = c then true else if t = 0 ∨ c = 0 then decide (|t - c| < tolerance * tolerance)
    else decide (|t - c| ≤ tolerance * |t| ∨ |t - c| ≤ tolerance * |c|)) = true
  by_cases htc : t = c
  · exact if_pos htc
  have hc0 : c ≠ 0 := fun hc0 => by
    rw [hc0, sub_zero, abs_of_pos hpos] at hdist'
    nlinarith
  rw [if_neg htc, if_neg (not_or.mpr ⟨hpos.ne', hc0⟩), abs_of_pos hpos]
  exact decide_eq_true (.inl hdist')

/-! ## The grid -/

/-- **The grid of some mandatory times**: its nodes go up from zero to the last time that is kept, with every other one
close to one before it that is kept. -/
structure IsGridOf (times : List K) (grid : TimeGrid K) : Prop where
  increasing : grid.times.Pairwise (· < ·)
  start : grid.times.head? = some 0
  contains : ∀ t ∈ times, ∃ s ∈ times, s ∈ grid.times ∧ s ≤ t ∧ closeEnough t s = true
  ends : ∃ last ∈ times, grid.times.getLast? = some last ∧ ∀ t ∈ times, last < t → closeEnough t last = true
  dt_length : grid.dt.length + 1 = grid.times.length
  dt_eq : ∀ i, i < grid.dt.length → grid.dt.getD i 0 = grid.times.getD (i + 1) 0 - grid.times.getD i 0
  closestIndex_lt : ∀ t, grid.closestIndex t < grid.times.length
  closest : ∀ t j, j < grid.times.length →
    |grid.times.getD (grid.closestIndex t) 0 - t| ≤ |grid.times.getD j 0 - t|
  index : ∀ t ∈ times, t = 0 ∨ tolerance * tolerance ≤ t → ∃ i, grid.index t = .ok i

omit [IsStrictOrderedRing K] in
theorem dtMax_cases (kept : List K) (steps : ℕ) : (∃ d, TimeGrid.dtMax kept steps = .ok d) ∨
    steps = 0 ∧ kept.headD 0 = 0 ∧ kept.length ≤ 1 ∧
      TimeGrid.dtMax kept steps = .error (.message "not enough distinct points in time grid") := by
  unfold TimeGrid.dtMax
  by_cases hs : steps = 0
  · rw [if_pos hs]
    cases hg : gaps kept with
    | cons d diff => exact .inl ⟨_, rfl⟩
    | nil         =>
      refine .inr ⟨hs, ?_, ?_, rfl⟩ <;> unfold gaps at hg <;> dsimp only at hg <;> split at hg
      · rename_i h
        exact Option.some.inj h
      · cases hg
      · rw [List.tail_cons] at hg
        have := congrArg List.length hg
        simp only [List.length_zipWith, List.length_tail, List.length_nil] at this
        omega
      · cases hg
  · rw [if_neg hs]
    exact .inl ⟨_, rfl⟩

variable [FloorRing K]

/-- **Time grid from mandatory times.**  For non-negative times, not empty, and any number of steps, there is a grid of
them, unless the spacing is to be inferred and they are all close to a zero among them. -/
theorem withMandatoryTimes_spec (hne : times ≠ []) (hnonneg : ∀ t ∈ times, 0 ≤ t) (steps : ℕ) :
    (∃ grid, withMandatoryTimes times steps = .ok grid ∧ IsGridOf times grid) ∨
      steps = 0 ∧ 0 ∈ times ∧ (∀ t ∈ times, closeEnough t 0 = true) ∧
        withMandatoryTimes times steps = .error (.message "not enough distinct points in time grid") := by
  have hk := mandatory_kept times
  obtain ⟨t₀, ht₀⟩ := List.exists_mem_of_ne_nil _ hne
  obtain ⟨s₀, hs₀, -⟩ := hk.covers t₀ ht₀
  have hkept : mandatory times ≠ [] := List.ne_nil_of_mem hs₀
  have hhead : ¬ (times.insertionSort (· ≤ ·)).headD 0 < 0 := by
    cases hl : times.insertionSort (· ≤ ·) with
    | nil      => exact lt_irrefl 0
    | cons a l =>
      have ha : a ∈ times := (List.perm_insertionSort (· ≤ ·) times).mem_iff.mp (hl ▸ List.mem_cons_self)
      exact not_lt.mpr (hnonneg a ha)
  have hrun : withMandatoryTimes times steps = match TimeGrid.dtMax (mandatory times) steps with
      | .error e  => .error e
      | .ok dtMax => .ok ⟨0 :: gridTimes dtMax (mandatory times) 0, List.zipWith (fun a b => b - a)
          (0 :: gridTimes dtMax (mandatory times) 0) (gridTimes dtMax (mandatory times) 0), mandatory times⟩ := by
    rw [withMandatoryTimes, if_neg hne, if_neg hhead]
    rfl
  rcases dtMax_cases (mandatory times) steps with ⟨d, hd⟩ | ⟨hs, h₀, hlen, hd⟩
  · left
    obtain ⟨hinc, hmem, hlast⟩ := nodes_spec d hk.increasing (fun t ht => hnonneg t (hk.mem t ht)) hkept
    obtain ⟨last, hl⟩ : ∃ last, (mandatory times).getLast? = some last := ⟨_, List.getLast?_eq_getLast_of_ne_nil hkept⟩
    have hgreatest := (Cut.getLast?_eq_some_iff hk.increasing).mp hl
    obtain ⟨nodes, hnodes⟩ : ∃ nodes, nodes = 0 :: gridTimes d (mandatory times) 0 := ⟨_, rfl⟩
    obtain ⟨grid, hgrid⟩ : ∃ grid : TimeGrid K, grid = ⟨nodes, List.zipWith (fun a b => b - a) nodes nodes.tail, mandatory times⟩ :=
      ⟨_, rfl⟩
    have ht : grid.times = nodes := by rw [hgrid]
    have hdt : grid.dt = List.zipWith (fun a b => b - a) grid.times grid.times.tail := by rw [ht, hgrid]
    rw [← hnodes, ← ht] at hinc hmem hlast
    have hnil : grid.times ≠ [] := by rw [ht, hnodes]; exact List.cons_ne_nil _ _
    have hpos := List.length_pos_of_ne_nil hnil
    refine ⟨grid, by rw [hrun, hd, hgrid, hnodes]; rfl, hinc, by rw [ht, hnodes]; rfl, fun t ht => ?_,
      ⟨last, hk.mem last (List.mem_of_getLast? hl), hlast.trans hl, hk.last last hl⟩, ?_, fun i hi => ?_, fun t => ?_,
      fun t j hj => ?_, fun t ht h0 => ?_⟩
    · obtain ⟨s, hs, h⟩ := hk.covers t ht
      exact ⟨s, hk.mem s hs, hmem s hs, h⟩
    · rw [hdt, List.length_zipWith, List.length_tail]
      omega
    · rw [hdt, List.length_zipWith, List.length_tail] at hi
      have h₁ : i < grid.times.length := by omega
      have h₂ : i + 1 < grid.times.length := by omega
      simp [hdt, List.getD_eq_getElem?_getD, List.getElem?_zipWith, h₁, h₂]
    · exact (closestIndex_nearest hinc hnil t).1
    · exact (closestIndex_nearest hinc hnil t).2 j hj
    · obtain ⟨s, hs, hst, hclose⟩ := hk.covers t ht
      obtain ⟨j, hj, rfl⟩ := List.mem_iff_getElem.mp (hmem s hs)
      obtain ⟨hi, hnear⟩ := closestIndex_nearest hinc hnil t
      have hdist := hnear j hj
      simp only [List.getD_eq_getElem?_getD, List.getElem?_eq_getElem hi, List.getElem?_eq_getElem hj,
        Option.getD_some] at hdist
      refine ⟨grid.closestIndex t, ?_⟩
      rw [TimeGrid.index, List.getElem?_eq_getElem hi]
      exact if_pos (close_of_nearer (hnonneg _ (hk.mem _ hs)) hst h0 hclose hdist)
  · right
    have hzero : ∀ s ∈ mandatory times, s = 0 := by
      cases hm : mandatory times with
      | nil      => exact nofun
      | cons m l =>
        rw [hm] at h₀ hlen
        rw [List.eq_nil_of_length_eq_zero (Nat.le_zero.mp (Nat.le_of_succ_le_succ hlen))]
        exact fun s hs => (List.mem_singleton.mp hs).trans h₀
    refine ⟨hs, hzero s₀ hs₀ ▸ hk.mem s₀ hs₀, fun t ht => ?_, by rw [hrun, hd]⟩
    obtain ⟨s, hs, -, hclose⟩ := hk.covers t ht
    exact hzero s hs ▸ hclose

/-- Three times, of which one comes twice. -/
theorem withMandatoryTimes_spec_three :
    (∃ grid : TimeGrid ℚ, withMandatoryTimes [2, 1 / 2, 2, 1] 3 = .ok grid ∧ IsGridOf [2, 1 / 2, 2, 1] grid) ∨
      (3 : ℕ) = 0 ∧ (0 : ℚ) ∈ [2, 1 / 2, 2, 1] ∧ (∀ t ∈ [(2 : ℚ), 1 / 2, 2, 1], closeEnough t 0 = true) ∧
        withMandatoryTimes [(2 : ℚ), 1 / 2, 2, 1] 3 = .error (.message "not enough distinct points in time grid") :=
  withMandatoryTimes_spec (by decide) (by decide +kernel) 3

example : (withMandatoryTimes [(2 : ℚ), 1 / 2, 2, 1] 3).map TimeGrid.times = .ok [0, 1 / 2, 1, 3 / 2, 2] := by decide +kernel

/-- **What closeness drops**: a time an epsilon after another is no node and not the end; two zeros infer no spacing; and a
time within the square of the tolerance of zero may have no node close to it. -/
theorem withMandatoryTimes_drops :
    (∃ grid : TimeGrid ℚ, withMandatoryTimes [1, 1 + epsilon] 1 = .ok grid ∧ 1 + epsilon ∉ grid.times ∧
      grid.times.getLast? = some 1) ∧
    withMandatoryTimes [(0 : ℚ), 0] 0 = .error (.message "not enough distinct points in time grid") ∧
    ∃ grid : TimeGrid ℚ, withMandatoryTimes [0, tolerance * tolerance / 2, 2 * (tolerance * tolerance)] 5 = .ok grid ∧
      grid.index (tolerance * tolerance / 2) =
        .error (.inadequate (tolerance * tolerance / 2) (2 * (tolerance * tolerance) / 5)) := by
  refine ⟨⟨⟨[0, 1], [1], [1]⟩, by decide +kernel, by decide +kernel, by decide +kernel⟩, by decide +kernel, ?_⟩
  refine ⟨⟨(List.range 6).map (fun n : ℕ => (n : ℚ) * (2 * (tolerance * tolerance) / 5)),
    List.replicate 5 (2 * (tolerance * tolerance) / 5), [0, 2 * (tolerance * tolerance)]⟩, by decide +kernel, by decide +kernel⟩

end TimeGrid
end Itofin.Math
