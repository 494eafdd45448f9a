import Mathlib.Data.Nat.Log
import Itofin.Lib.Effect
import Itofin.Math.Statistics.Sequence
/-!
# Convergence — running means at doubling checkpoints

`ConvergenceStatistics` of `math/statistics/convergence.rs`: samples come in batches, and the mean of the first 1, 3, 7, ..
of them is recorded when they are there.  A batch is validated as a whole before anything of it is stored.

`Recorded` is what a recorder is after the samples it took: their sums and the means of their prefixes, whatever the
arithmetic.  So it is determined by the samples (`Recorded.unique`), and a batch is taken just when the samples with it can
be recorded (`addBatch_iff`).
-/
namespace Itofin

open Effect

structure ConvergencePoint (F : Type) where
  samples : ℕ
  mean    : F
deriving DecidableEq

@[ext] structure ConvergenceStatistics (F : Type) where
  values    : List F
  weights   : List F
  weightSum : F
  table     : List (ConvergencePoint F)
deriving DecidableEq

namespace ConvergenceStatistics

/-- `usize::MAX` -/
def usizeMax : ℕ := 18446744073709551615

/-- `DoublingConvergenceSteps::next_samples` -/
def nextSamples {F : Type} (current : ℕ) : Except (Failure F) ℕ :=
  if 2 * current + 1 ≤ usizeMax then .ok (2 * current + 1) else .error (.message "convergence checkpoint overflow")

/-- `while next <= len { count += 1; next = next_samples(next)?; }` -/
def completed {F : Type} (len next count : ℕ) : Except (Failure F) ℕ :=
  if next ≤ len then
    match h : nextSamples (F := F) next with
    | .ok n    =>
      have : next < n := by
        unfold nextSamples at h
        split at h
        · cases h
          omega
        · cases h
      completed len n (count + 1)
    | .error e => .error e
  else .ok count
termination_by len + 1 - next

def validateConvergenceLength {F : Type} (len : ℕ) : Except (Failure F) ℕ := do
  require (len ≤ 100000) "convergence sample limit exceeded"
  completed len 1 0

def validateAddition {F : Type} (current additional : ℕ) : Except (Failure F) ℕ := do
  require (current + additional ≤ usizeMax) "convergence sample count overflow"
  validateConvergenceLength (current + additional)

variable {F : Type} [Zero F] [One F] [Add F] [Sub F] [Mul F] [Div F] (N : Arithmetic F)

def new : ConvergenceStatistics F := ⟨[], [], 0, []⟩

def samples (s : ConvergenceStatistics F) : ℕ := s.values.length

/-- `weights.map_or(1.0, |weights| weights[index])` -/
def weightAt (weights : Option (List F)) (index : ℕ) : F := weights.elim 1 (fun weights => weights.getD index 0)

/-- The values of a batch with their weights. -/
def incoming (values : List F) (weights : Option (List F)) : List (F × F) :=
  values.zipIdx.map (fun p => (p.1, weightAt weights p.2))

/-- `statistics.add_weighted(&[value], weight)?` and the mean of one column. -/
def addSample (statistics : SequenceStatistics F) (sample : F × F) : Except (Failure F) (SequenceStatistics F) :=
  statistics.addWeighted N [sample.1] sample.2

def meanOf (statistics : SequenceStatistics F) : Except (Failure F) F := do
  let mean ← statistics.mean N
  .ok (mean.headD 0)

def runningMean (samples : List (F × F)) : Except (Failure F) F := do
  let statistics ← SequenceStatistics.new 1
  let statistics ← samples.foldlM (addSample N) statistics
  meanOf N statistics

def mean (s : ConvergenceStatistics F) : Except (Failure F) F := runningMean N (s.values.zip s.weights)

def checkSamples : List (F × F) → F → Except (Failure F) F
  | [], total              => .ok total
  | (value, weight) :: rest, total => do
    require (N.isFinite value) "nonfinite convergence sample"
    require (N.isFinite weight ∧ N.le 0 weight) "invalid convergence weight"
    let total := total + weight
    require (N.isFinite total) "convergence weight sum overflow"
    checkSamples rest total

/-- The loop over the samples, up to as many points as are pending. -/
def collect (count : ℕ) : List (F × F) → SequenceStatistics F → List (ConvergencePoint F) → ℕ →
    Except (Failure F) (List (ConvergencePoint F))
  | [], _, points, _                    => .ok points
  | sample :: rest, statistics, points, next => do
    let statistics ← addSample N statistics sample
    if statistics.samples = next then do
      let mean ← meanOf N statistics
      let points := points ++ [⟨next, mean⟩]
      if points.length = count then .ok points
      else do
        let next ← nextSamples next
        collect count rest statistics points next
    else collect count rest statistics points next

def pendingPoints (s : ConvergenceStatistics F) (values : List F) (weights : Option (List F)) (count : ℕ) :
    Except (Failure F) (List (ConvergencePoint F)) := do
  let next ← s.table.getLast?.elim (.ok 1) (fun point => nextSamples point.samples)
  let statistics ← SequenceStatistics.new 1
  collect N count (s.values.zip s.weights ++ incoming values weights) statistics [] next

def addBatch (values : List F) (weights : Option (List F)) : Prog (ConvergenceStatistics F) (Failure F) Unit := do
  let s ← Prog.get
  let checkpointCount ← Prog.lift (validateAddition s.samples values.length)
  Prog.require (∀ w ∈ weights, w.length = values.length)
    (.message "convergence weight length mismatch")
  let total ← Prog.lift (checkSamples N (incoming values weights) s.weightSum)
  let newPoints ← Prog.lift (if s.table.length < checkpointCount then
    pendingPoints N s values weights (checkpointCount - s.table.length) else .ok [])
  Prog.modify (fun s => { s with values := s.values ++ values })
  Prog.modify (fun s => { s with weights := s.weights ++ (List.range values.length).map (weightAt weights) })
  Prog.modify (fun s => { s with weightSum := total })
  Prog.modify (fun s => { s with table := s.table ++ newPoints })

def reset : Prog (ConvergenceStatistics F) (Failure F) Unit := do
  Prog.modify (fun s => { s with values := [], weights := [] })
  Prog.modify (fun s => { s with table := [] })
  Prog.modify (fun s => { s with weightSum := 0 })

/-! ## Checkpoints -/

/-- How many samples there are at a checkpoint: 1, 3, 7, .. -/
def checkpoint (k : ℕ) : ℕ := 2 ^ (k + 1) - 1

/-- How many checkpoints there are up to `n` samples. -/
def reached (n : ℕ) : ℕ := Nat.log 2 (n + 1)

def checkpoints (n : ℕ) : List ℕ := (List.range (reached n)).map checkpoint

theorem lt_reached {k n : ℕ} : k < reached n ↔ checkpoint k ≤ n := by
  have hpow : 2 ^ (k + 1) ≤ n + 1 ↔ k + 1 ≤ Nat.log 2 (n + 1) :=
    (Nat.le_log_iff_pow_le Nat.one_lt_two (Nat.succ_ne_zero n)).symm
  rw [reached, checkpoint, Nat.sub_le_iff_le_add, hpow, Nat.succ_le_iff]

theorem checkpoint_succ (k : ℕ) : checkpoint (k + 1) = 2 * checkpoint k + 1 := by
  have : 0 < 2 ^ (k + 1) := Nat.pow_pos Nat.two_pos
  rw [checkpoint, checkpoint, pow_succ]
  omega

omit [Zero F] [One F] [Add F] [Sub F] [Mul F] [Div F] in
theorem nextSamples_checkpoint {k : ℕ} (h : checkpoint k ≤ 100000) :
    nextSamples (F := F) (checkpoint k) = .ok (checkpoint (k + 1)) := by
  rw [nextSamples, checkpoint_succ, if_pos (by unfold usizeMax; omega)]

omit [Zero F] [One F] [Add F] [Sub F] [Mul F] [Div F] in
theorem completed_eq {len : ℕ} (hlen : len ≤ 100000) : ∀ (d k : ℕ), k + d = reached len →
    completed (F := F) len (checkpoint k) k = .ok (reached len)
  | 0, k, hk     => by
    have hlt : ¬ checkpoint k ≤ len := fun h => by
      have := lt_reached.mpr h
      omega
    rw [completed, if_neg hlt, ← hk, Nat.add_zero]
  | d + 1, k, hk => by
    have hle : checkpoint k ≤ len := lt_reached.mp (by omega)
    rw [completed, if_pos hle]
    have hnext := nextSamples_checkpoint (F := F) (hle.trans hlen)
    split
    · rename_i n hn
      obtain rfl : checkpoint (k + 1) = n := Except.ok.inj (hnext.symm.trans hn)
      exact completed_eq hlen d (k + 1) (by omega)
    · rename_i e he
      cases hnext.symm.trans he

omit [Zero F] [One F] [Add F] [Sub F] [Mul F] [Div F] in
theorem validateAddition_cases (current additional : ℕ) :
    (∃ e, validateAddition (F := F) current additional = .error e) ∧ 100000 < current + additional ∨
      validateAddition (F := F) current additional = .ok (reached (current + additional)) ∧
        current + additional ≤ 100000 := by
  rw [validateAddition, require_bind, validateConvergenceLength, require_bind]
  by_cases h : current + additional ≤ 100000
  · refine .inr ⟨?_, h⟩
    rw [if_pos (h.trans (by decide)), if_pos h]
    exact completed_eq h _ 0 (Nat.zero_add _)
  · refine .inl ⟨?_, not_le.mp h⟩
    rw [if_neg h]
    split
    · exact ⟨_, rfl⟩
    · exact ⟨_, rfl⟩

/-! ## Samples that are checked -/

section

variable {N : Arithmetic F} {l m : List (F × F)} {t total : F}

omit [One F] [Sub F] [Mul F] [Div F] in
theorem checkSamples_append : ∀ (l m : List (F × F)) (t : F),
    checkSamples N (l ++ m) t = (checkSamples N l t).bind (checkSamples N m)
  | [], _, _     => rfl
  | p :: l, m, t => by
    rw [List.cons_append, checkSamples, checkSamples]
    simp only [require_bind]
    split_ifs
    · exact checkSamples_append l m _
    all_goals rfl

omit [One F] [Sub F] [Mul F] [Div F] in
theorem checkSamples_append_iff : checkSamples N (l ++ m) t = .ok total ↔
    ∃ u, checkSamples N l t = .ok u ∧ checkSamples N m u = .ok total := by
  rw [checkSamples_append]
  exact bind_eq_ok

/-- The samples as rows of one number. -/
def sequenceOf (l : List (F × F)) (total : F) : SequenceStatistics F := ⟨1, l.map (fun p => [p.1]), l.map Prod.snd, total⟩

omit [One F] [Sub F] [Mul F] [Div F] in
/-- **A sample that is checked is added.** -/
theorem addSample_eq {p : F × F} (h : checkSamples N [p] t = .ok total) (hl : l.length < 100000) :
    addSample N (sequenceOf l t) p = .ok (sequenceOf (l ++ [p]) total) := by
  rw [checkSamples] at h
  simp only [require_bind] at h
  split_ifs at h with hvalue hweight htotal
  obtain rfl : t + p.2 = total := Except.ok.inj h
  have hshape : validateSequenceShape (F := F) ((sequenceOf l t).samples + 1) 1 = .ok 1 := by
    have hlen : (sequenceOf l t).samples = l.length := List.length_map _
    rw [validateSequenceShape, hlen]
    simp only [require_bind]
    rw [if_pos (by decide), if_pos (by omega), if_pos (by omega)]
  rw [addSample, SequenceStatistics.addWeighted]
  simp only [require_bind]
  rw [if_pos (show [p.1].length = (sequenceOf l t).dimension from rfl), if_pos (by simpa using hvalue), if_pos hweight,
    if_pos (show N.isFinite ((sequenceOf l t).weightSum + p.2) = true from htotal)]
  change (validateSequenceShape ((sequenceOf l t).samples + 1) 1 >>= _) = _
  rw [hshape, ok_bind, sequenceOf, sequenceOf, List.map_append, List.map_append]
  rfl

omit [One F] [Sub F] [Mul F] [Div F] in
theorem addSamples_eq : ∀ (m l : List (F × F)) (t : F), checkSamples N m t = .ok total →
    l.length + m.length ≤ 100000 → m.foldlM (addSample N) (sequenceOf l t) = .ok (sequenceOf (l ++ m) total)
  | [], l, t, h, _        => by
    obtain rfl : t = total := Except.ok.inj h
    rw [List.append_nil]
    rfl
  | p :: m, l, t, h, hlen => by
    obtain ⟨u, hu, hm⟩ := checkSamples_append_iff.mp (show checkSamples N ([p] ++ m) t = _ from h)
    rw [List.length_cons] at hlen
    have ih := addSamples_eq m (l ++ [p]) u hm (by rw [List.length_append, List.length_singleton]; omega)
    rw [List.foldlM_cons, addSample_eq hu (by omega), ok_bind, ih, List.append_assoc, List.singleton_append]

theorem runningMean_eq (h : checkSamples N l 0 = .ok total) (hl : l.length ≤ 100000) :
    runningMean N l = meanOf N (sequenceOf l total) := by
  have hadd := addSamples_eq l [] 0 h (by rwa [List.length_nil, Nat.zero_add])
  have hnew : SequenceStatistics.new (F := F) 1 = .ok (sequenceOf [] 0) := rfl
  rw [runningMean, hnew, ok_bind, hadd, ok_bind, List.nil_append]

/-! ## Points -/

/-- A point of the table: the mean of so many samples. -/
def IsPoint (N : Arithmetic F) (l : List (F × F)) (c : ℕ) (p : ConvergencePoint F) : Prop :=
  p.samples = c ∧ runningMean N (l.take c) = .ok p.mean

theorem points_unique {cs : List ℕ} : ∀ {points points' : List (ConvergencePoint F)},
    List.Forall₂ (IsPoint N l) cs points → List.Forall₂ (IsPoint N l) cs points' → points = points' := by
  induction cs with
  | nil =>
    intro points points' h h'
    rw [List.forall₂_nil_left_iff] at h h'
    rw [h, h']
  | cons c cs ih =>
    intro points points' h h'
    obtain ⟨p, rest, ⟨hp, hmean⟩, hrest, rfl⟩ := List.forall₂_cons_left_iff.mp h
    obtain ⟨q, rest', ⟨hq, hmean'⟩, hrest', rfl⟩ := List.forall₂_cons_left_iff.mp h'
    obtain rfl : p = q := by
      cases p
      cases q
      exact congrArg₂ ConvergencePoint.mk (hp.trans hq.symm) (Except.ok.inj (hmean.symm.trans hmean'))
    rw [ih hrest hrest']

theorem points_append {cs : List ℕ} {points : List (ConvergencePoint F)} (hcs : ∀ c ∈ cs, c ≤ l.length) :
    List.Forall₂ (IsPoint N (l ++ m)) cs points ↔ List.Forall₂ (IsPoint N l) cs points := by
  have htake : ∀ c ∈ cs, ∀ p, IsPoint N (l ++ m) c p ↔ IsPoint N l c p := fun c hc p => by
    rw [IsPoint, IsPoint, List.take_append_of_le_length (hcs c hc)]
  induction cs generalizing points with
  | nil => rw [List.forall₂_nil_left_iff, List.forall₂_nil_left_iff]
  | cons c cs ih =>
    rw [List.forall₂_cons_left_iff, List.forall₂_cons_left_iff]
    simp only [htake c List.mem_cons_self, ih (fun c hc => hcs c (List.mem_cons_of_mem _ hc))
      (fun c hc => htake c (List.mem_cons_of_mem _ hc))]

theorem points_cons {c : ℕ} {cs : List ℕ} {mean : F} {points result : List (ConvergencePoint F)}
    (hmean : runningMean N (l.take c) = .ok mean) :
    (∃ new, result = points ++ new ∧ List.Forall₂ (IsPoint N l) (c :: cs) new) ↔
      ∃ new, result = points ++ [⟨c, mean⟩] ++ new ∧ List.Forall₂ (IsPoint N l) cs new := by
  constructor
  · rintro ⟨new, rfl, hnew⟩
    obtain ⟨⟨samples, mean'⟩, rest, ⟨hq, hqm⟩, hrest, rfl⟩ := List.forall₂_cons_left_iff.mp hnew
    obtain rfl : samples = c := hq
    obtain rfl : mean' = mean := Except.ok.inj (hqm.symm.trans hmean)
    exact ⟨rest, by rw [List.append_assoc, List.singleton_append], hrest⟩
  · rintro ⟨rest, rfl, hrest⟩
    exact ⟨⟨c, mean⟩ :: rest, by rw [List.append_assoc, List.singleton_append], List.Forall₂.cons ⟨rfl, hmean⟩ hrest⟩

theorem points_cons_error {c : ℕ} {cs : List ℕ} {e : Failure F} {points result : List (ConvergencePoint F)}
    (hmean : runningMean N (l.take c) = .error e) :
    ¬ ∃ new, result = points ++ new ∧ List.Forall₂ (IsPoint N l) (c :: cs) new := by
  rintro ⟨new, -, hnew⟩
  obtain ⟨q, _, ⟨_, hq⟩, _⟩ := List.forall₂_cons_left_iff.mp hnew
  cases hq.symm.trans hmean

/-- **One turn of the loop over the samples**: a point where the next one is due. -/
theorem collect_cons {p : F × F} {done rest : List (F × F)} {u : F} {count next : ℕ} {points : List (ConvergencePoint F)}
    (hcheck : checkSamples N done 0 = .ok t) (hu : checkSamples N [p] t = .ok u) (hlen : done.length < 100000) :
    collect N count (p :: rest) (sequenceOf done t) points next =
      if done.length + 1 = next then runningMean N (done ++ [p]) >>= fun mean =>
        if points.length + 1 = count then .ok (points ++ [⟨next, mean⟩]) else nextSamples next >>= fun next' =>
          collect N count rest (sequenceOf (done ++ [p]) u) (points ++ [⟨next, mean⟩]) next'
      else collect N count rest (sequenceOf (done ++ [p]) u) points next := by
  have hlength : (done ++ [p]).length = done.length + 1 := by rw [List.length_append, List.length_singleton]
  have hcheck' : checkSamples N (done ++ [p]) 0 = .ok u := checkSamples_append_iff.mpr ⟨t, hcheck, hu⟩
  have hsamples : (sequenceOf (done ++ [p]) u).samples = done.length + 1 := (List.length_map _).trans hlength
  rw [collect, addSample_eq hu hlen, ok_bind, hsamples, runningMean_eq hcheck' (by omega)]
  simp only [List.length_append, List.length_singleton]

/-- **The loop over the samples**: it adds the points that are pending, or fails where one of them has no mean. -/
theorem collect_iff (hlen : l.length ≤ 100000) {b count : ℕ} (hcount : b + count ≤ reached l.length)
    (result : List (ConvergencePoint F)) : ∀ (rest done : List (F × F)) (t : F) (points : List (ConvergencePoint F)),
    done ++ rest = l → checkSamples N done 0 = .ok t → checkSamples N rest t = .ok total →
    points.length < count → done.length < checkpoint (b + points.length) →
    (collect N count rest (sequenceOf done t) points (checkpoint (b + points.length)) = .ok result ↔
      ∃ new, result = points ++ new ∧ List.Forall₂ (IsPoint N l)
        ((List.range' (b + points.length) (count - points.length)).map checkpoint) new)
  | [], done, t, points, hl, _, _, hpoints, hdone => by
    have hle : checkpoint (b + points.length) ≤ l.length := lt_reached.mp (by omega)
    rw [← hl, List.append_nil] at hle
    omega
  | p :: rest, done, t, points, hl, hcheck, hrest, hpoints, hdone => by
    obtain ⟨u, hu, hrest⟩ := checkSamples_append_iff.mp (show checkSamples N ([p] ++ rest) t = _ from hrest)
    have hl' : (done ++ [p]) ++ rest = l := by rw [List.append_assoc, List.singleton_append, hl]
    have hlength : (done ++ [p]).length = done.length + 1 := by rw [List.length_append, List.length_singleton]
    have hle : done.length + 1 ≤ l.length := by rw [← hl', List.length_append, hlength]; omega
    have hcheck' : checkSamples N (done ++ [p]) 0 = .ok u := checkSamples_append_iff.mpr ⟨t, hcheck, hu⟩
    have hrange : List.range' (b + points.length) (count - points.length) =
        (b + points.length) :: List.range' (b + points.length + 1) (count - points.length - 1) := by
      rw [← List.range'_succ, Nat.sub_add_cancel (by omega)]
    rw [collect_cons hcheck hu (by omega)]
    by_cases hnext : done.length + 1 = checkpoint (b + points.length)
    · have htake : l.take (checkpoint (b + points.length)) = done ++ [p] := by
        rw [← hnext, ← hlength, ← hl', List.take_left]
      rw [if_pos hnext, hrange, List.map_cons, ← htake]
      cases hmean : runningMean N (l.take (checkpoint (b + points.length))) with
      | error e => exact iff_of_false nofun (points_cons_error hmean)
      | ok mean =>
        rw [ok_bind, points_cons hmean]
        by_cases hlast : points.length + 1 = count
        · rw [if_pos hlast, show count - points.length - 1 = 0 by omega, List.range'_zero, List.map_nil]
          simp only [List.forall₂_nil_left_iff, exists_eq_right, List.append_nil, Except.ok.injEq]
          exact eq_comm
        · have hbound : checkpoint (b + points.length) ≤ 100000 := by omega
          have hone : (points ++ [(⟨checkpoint (b + points.length), mean⟩ : ConvergencePoint F)]).length =
              points.length + 1 := by rw [List.length_append, List.length_singleton]
          have ih := collect_iff hlen hcount result rest (done ++ [p]) u
            (points ++ [⟨checkpoint (b + points.length), mean⟩]) hl' hcheck' hrest (by omega) (by
              rw [hone, hlength, ← Nat.add_assoc, checkpoint_succ]
              omega)
          rw [hone, ← Nat.add_assoc, ← Nat.sub_sub, ← htake] at ih
          rw [if_neg hlast, nextSamples_checkpoint hbound, ok_bind]
          exact ih
    · rw [if_neg hnext]
      exact collect_iff hlen hcount result rest (done ++ [p]) u points hl' hcheck' hrest hpoints (by omega)

/-! ## What is recorded -/

/-- **A recorder after samples.** -/
structure Recorded (N : Arithmetic F) (s : ConvergenceStatistics F) (l : List (F × F)) : Prop where
  values  : s.values = l.map Prod.fst
  weights : s.weights = l.map Prod.snd
  total   : checkSamples N l 0 = .ok s.weightSum
  length  : l.length ≤ 100000
  table   : List.Forall₂ (IsPoint N l) (checkpoints l.length) s.table

variable {s s' : ConvergenceStatistics F} {values : List F} {weights : Option (List F)}

theorem Recorded.unique (h : Recorded N s l) (h' : Recorded N s' l) : s = s' := by
  have htotal := Except.ok.inj (h.total.symm.trans h'.total)
  exact ConvergenceStatistics.ext (h.values.trans h'.values.symm) (h.weights.trans h'.weights.symm) htotal
    (points_unique h.table h'.table)

theorem checkpoints_append (n k : ℕ) : checkpoints (n + k) =
    checkpoints n ++ (List.range' (reached n) (reached (n + k) - reached n)).map checkpoint := by
  have hle : reached n ≤ reached (n + k) := Nat.log_mono_right (by omega)
  have hrange := List.range'_append_1 (s := 0) (m := reached n) (n := reached (n + k) - reached n)
  rw [Nat.zero_add, Nat.add_sub_cancel' hle] at hrange
  rw [checkpoints, checkpoints, ← List.map_append, List.range_eq_range', List.range_eq_range', hrange]

theorem le_of_mem_checkpoints {c n : ℕ} (h : c ∈ checkpoints n) : c ≤ n := by
  obtain ⟨k, hk, rfl⟩ := List.mem_map.mp h
  exact lt_reached.mp (List.mem_range.mp hk)

theorem table_append (h : List.Forall₂ (IsPoint N l) (checkpoints l.length) s.table) (table : List (ConvergencePoint F)) :
    List.Forall₂ (IsPoint N (l ++ m)) (checkpoints (l.length + m.length)) table ↔
      ∃ new, table = s.table ++ new ∧ List.Forall₂ (IsPoint N (l ++ m))
        ((List.range' (reached l.length) (reached (l.length + m.length) - reached l.length)).map checkpoint) new := by
  have h' := (points_append (m := m) (fun c hc => le_of_mem_checkpoints hc)).mpr h
  rw [checkpoints_append]
  constructor
  · intro ht
    have hlen : (checkpoints l.length).length = s.table.length := h.length_eq
    have htake := List.forall₂_take (checkpoints l.length).length ht
    have hdrop := List.forall₂_drop (checkpoints l.length).length ht
    rw [List.take_left] at htake
    rw [List.drop_left] at hdrop
    refine ⟨table.drop (checkpoints l.length).length, ?_, hdrop⟩
    rw [← points_unique htake h', List.take_append_drop]
  · rintro ⟨new, rfl, hnew⟩
    exact List.rel_append h' hnew

theorem Recorded.of_append (h : Recorded N s (l ++ m)) : ∃ s', Recorded N s' l := by
  obtain ⟨u, hu, -⟩ := checkSamples_append_iff.mp h.total
  have hlength := h.length
  have htable := h.table
  rw [List.length_append] at hlength htable
  rw [checkpoints_append] at htable
  have htake := List.forall₂_take (checkpoints l.length).length htable
  rw [List.take_left, points_append (fun c hc => le_of_mem_checkpoints hc)] at htake
  exact ⟨⟨_, _, u, _⟩, rfl, rfl, hu, by omega, htake⟩

theorem Recorded.samples (h : Recorded N s l) : s.samples = l.length := by
  rw [ConvergenceStatistics.samples, h.values, List.length_map]

theorem Recorded.zip (h : Recorded N s l) : s.values.zip s.weights = l := by
  have := List.zip_unzip l
  rwa [List.unzip_eq_map, ← h.values, ← h.weights] at this

theorem Recorded.table_length (h : Recorded N s l) : s.table.length = reached l.length := by
  rw [← h.table.length_eq, checkpoints, List.length_map, List.length_range]

theorem Recorded.next (h : Recorded N s l) : s.table.getLast?.elim (.ok 1) (fun point => nextSamples point.samples) =
    Except.ok (ε := Failure F) (checkpoint (reached l.length)) := by
  have hsamples : ∀ {cs : List ℕ} {points : List (ConvergencePoint F)}, List.Forall₂ (IsPoint N l) cs points →
      points.map ConvergencePoint.samples = cs := fun h => by
    induction h with
    | nil => rfl
    | cons hp _ ih => rw [List.map_cons, hp.1, ih]
  have hlast := congrArg List.getLast? (hsamples h.table)
  rw [List.getLast?_map] at hlast
  cases hr : reached l.length with
  | zero =>
    rw [checkpoints, hr] at hlast
    rw [Option.map_eq_none_iff.mp hlast]
    rfl
  | succ k =>
    rw [checkpoints, hr, List.range_succ, List.map_append, List.map_singleton, List.getLast?_concat] at hlast
    obtain ⟨point, hpoint, hk⟩ := Option.map_eq_some_iff.mp hlast
    have hle : checkpoint k ≤ l.length := lt_reached.mp (by omega)
    rw [hpoint, Option.elim_some, hk]
    exact nextSamples_checkpoint (hle.trans h.length)

omit [Add F] [Sub F] [Mul F] [Div F] in
theorem incoming_fst (values : List F) (weights : Option (List F)) : (incoming values weights).map Prod.fst = values := by
  rw [incoming, List.map_map]
  exact List.zipIdx_map_fst 0 values

omit [Add F] [Sub F] [Mul F] [Div F] in
theorem incoming_snd (values : List F) (weights : Option (List F)) :
    (incoming values weights).map Prod.snd = (List.range values.length).map (weightAt weights) := by
  rw [incoming, List.map_map, List.range_eq_range', ← List.zipIdx_map_snd, List.map_map]
  rfl

omit [Add F] [Sub F] [Mul F] [Div F] in
theorem incoming_length (values : List F) (weights : Option (List F)) :
    (incoming values weights).length = values.length := by
  rw [incoming, List.length_map, List.length_zipIdx]

theorem pendingPoints_iff (h : Recorded N s l) (hcheck : checkSamples N (incoming values weights) s.weightSum = .ok total)
    (hlen : l.length + values.length ≤ 100000) (new : List (ConvergencePoint F)) :
    (if s.table.length < reached (l.length + values.length) then
      pendingPoints N s values weights (reached (l.length + values.length) - s.table.length) else .ok []) = .ok new ↔
    List.Forall₂ (IsPoint N (l ++ incoming values weights)) ((List.range' (reached l.length)
      (reached (l.length + values.length) - reached l.length)).map checkpoint) new := by
  have hlength : (l ++ incoming values weights).length = l.length + values.length := by
    rw [List.length_append, incoming_length]
  rw [h.table_length]
  by_cases hlt : reached l.length < reached (l.length + values.length)
  · have hnew : SequenceStatistics.new (F := F) 1 = .ok (sequenceOf [] 0) := rfl
    have hall : checkSamples N (l ++ incoming values weights) 0 = .ok total :=
      checkSamples_append_iff.mpr ⟨_, h.total, hcheck⟩
    have hpos : 0 < checkpoint (reached l.length) := Nat.sub_pos_of_lt (Nat.one_lt_two_pow (Nat.succ_ne_zero _))
    have hcollect := collect_iff (hlength ▸ hlen) (b := reached l.length) (hlength ▸ (Nat.add_sub_cancel' hlt.le).le) new
      (l ++ incoming values weights) [] 0 [] rfl rfl hall (Nat.sub_pos_of_lt hlt) hpos
    rw [if_pos hlt, pendingPoints, h.next, ok_bind, hnew, ok_bind, h.zip]
    simpa using hcollect
  · rw [if_neg hlt, Nat.sub_eq_zero_of_le (not_lt.mp hlt), List.range'_zero, List.map_nil, List.forall₂_nil_left_iff,
      Except.ok.injEq, eq_comm]

theorem Recorded.append (h : Recorded N s l) (hcheck : checkSamples N (incoming values weights) s.weightSum = .ok total)
    (hlen : l.length + values.length ≤ 100000) {new : List (ConvergencePoint F)}
    (hnew : List.Forall₂ (IsPoint N (l ++ incoming values weights)) ((List.range' (reached l.length)
      (reached (l.length + values.length) - reached l.length)).map checkpoint) new) :
    Recorded N ⟨s.values ++ values, s.weights ++ (List.range values.length).map (weightAt weights), total, s.table ++ new⟩
      (l ++ incoming values weights) := by
  have hlength : (l ++ incoming values weights).length = l.length + values.length := by
    rw [List.length_append, incoming_length]
  have htable := table_append (m := incoming values weights) h.table (s.table ++ new)
  rw [incoming_length] at htable
  refine ⟨?_, ?_, checkSamples_append_iff.mpr ⟨_, h.total, hcheck⟩, hlength ▸ hlen, ?_⟩
  · rw [List.map_append, incoming_fst, h.values]
  · rw [List.map_append, incoming_snd, h.weights]
  · rw [hlength]
    exact htable.mpr ⟨new, rfl, hnew⟩

/-- **A batch is taken just when the samples with it can be recorded.** -/
theorem addBatch_iff (h : Recorded N s l) : addBatch N values weights s = (.ok (), s') ↔
    (∀ w ∈ weights, w.length = values.length) ∧ Recorded N s' (l ++ incoming values weights) := by
  have hlength : (l ++ incoming values weights).length = l.length + values.length := by
    rw [List.length_append, incoming_length]
  rw [addBatch, Prog.run_bind, Prog.run_get]
  dsimp only
  rw [Prog.run_bind, Prog.run_lift]
  rcases validateAddition_cases (F := F) s.samples values.length with ⟨⟨e, he⟩, hgt⟩ | ⟨he, hle⟩
  · rw [he]
    refine iff_of_false nofun (fun h' => ?_)
    have := h'.2.length
    rw [hlength, ← h.samples] at this
    omega
  rw [he]
  dsimp only
  rw [h.samples] at hle ⊢
  rw [Prog.run_bind, Prog.run_require]
  by_cases hm : ∀ w ∈ weights, w.length = values.length
  case neg =>
    rw [if_neg hm]
    exact iff_of_false nofun (fun h' => hm h'.1)
  rw [if_pos hm]
  dsimp only
  rw [Prog.run_bind, Prog.run_lift]
  cases hcheck : checkSamples N (incoming values weights) s.weightSum with
  | error e =>
    refine iff_of_false nofun (fun h' => ?_)
    obtain ⟨u, hu, hinc⟩ := checkSamples_append_iff.mp h'.2.total
    obtain rfl := Except.ok.inj (h.total.symm.trans hu)
    cases hcheck.symm.trans hinc
  | ok total =>
    dsimp only
    rw [Prog.run_bind, Prog.run_lift]
    have hpoints := pendingPoints_iff h hcheck hle
    cases hp : (if s.table.length < reached (l.length + values.length) then
      pendingPoints N s values weights (reached (l.length + values.length) - s.table.length) else .ok []) with
    | error e =>
      refine iff_of_false nofun (fun h' => ?_)
      have htable := h'.2.table
      rw [hlength, ← incoming_length values weights, table_append h.table, incoming_length] at htable
      obtain ⟨new, -, hnew⟩ := htable
      cases hp.symm.trans ((hpoints new).mpr hnew)
    | ok new =>
      have hrecorded := h.append hcheck hle ((hpoints new).mp hp)
      refine ⟨fun hrun => ⟨hm, ?_⟩, fun h' => ?_⟩
      · obtain rfl : _ = s' := congrArg Prod.snd hrun
        exact hrecorded
      · rw [← hrecorded.unique h'.2]
        rfl

theorem recorded_new : Recorded N (new : ConvergenceStatistics F) [] := ⟨rfl, rfl, rfl, Nat.zero_le _, by
  rw [checkpoints, reached]
  exact List.Forall₂.nil⟩

/-- **A batch that fails leaves the recorder as it is.** -/
theorem addBatch_fails (N : Arithmetic F) (values : List F) (weights : Option (List F)) (s : ConvergenceStatistics F) :
    Triple (· = s) (addBatch N values weights) (fun _ _ => True) (fun _ s' => s' = s) := by
  refine Triple.bind (Triple.get _) (fun s₁ => ?_)
  refine Triple.bind (Q := fun _ s' => s' = s) (Triple.lift (fun _ _ _ h => h.2) (fun _ _ _ h => h.2)) (fun count => ?_)
  refine Triple.bind (Triple.require_keeps _ _) (fun _ => ?_)
  refine Triple.bind (Q := fun _ s' => s' = s) (Triple.lift (fun _ _ _ h => h.1) (fun _ _ _ h => h.1)) (fun total => ?_)
  refine Triple.bind (Q := fun _ s' => s' = s) (Triple.lift (fun _ _ _ h => h) (fun _ _ _ h => h)) (fun points => ?_)
  intro s' _
  trivial

end

/-! ## Batches and runs -/

structure Batch (F : Type) where
  values  : List F
  weights : Option (List F)

namespace Batch

def Matches (b : Batch F) : Prop := ∀ w ∈ b.weights, w.length = b.values.length

def samples (b : Batch F) : List (F × F) := incoming b.values b.weights

end Batch

/-- The batches one after the other, up to one that fails. -/
def addAll (N : Arithmetic F) : List (Batch F) → Prog (ConvergenceStatistics F) (Failure F) Unit
  | []      => pure ()
  | b :: bs => do
    addBatch N b.values b.weights
    addAll N bs

inductive Call (F : Type) where
  | batch (b : Batch F)
  | reset

def call (N : Arithmetic F) : Call F → Prog (ConvergenceStatistics F) (Failure F) Unit
  | .batch b => addBatch N b.values b.weights
  | .reset   => reset

/-- The recorder after calls, some of which may have failed. -/
def run (N : Arithmetic F) (calls : List (Call F)) : ConvergenceStatistics F :=
  calls.foldl (fun s c => (call N c s).2) new

section

variable {N : Arithmetic F} {s s' : ConvergenceStatistics F} {l : List (F × F)}

theorem Recorded.call (h : Recorded N s l) (c : Call F) : ∃ l', Recorded N (call N c s).2 l' := by
  cases c with
  | reset   => exact ⟨[], recorded_new⟩
  | batch b =>
    have hfails := addBatch_fails N b.values b.weights s s rfl
    rw [ConvergenceStatistics.call]
    rcases hrun : addBatch N b.values b.weights s with ⟨e | ⟨⟩, s'⟩
    · rw [hrun] at hfails
      obtain rfl : s' = s := hfails
      exact ⟨l, h⟩
    · exact ⟨_, ((addBatch_iff h).mp hrun).2⟩

theorem recorded_run (N : Arithmetic F) (calls : List (Call F)) : ∃ l, Recorded N (run N calls) l := by
  have hrun : ∀ (calls : List (Call F)) {s : ConvergenceStatistics F} {l : List (F × F)}, Recorded N s l →
      ∃ l', Recorded N (calls.foldl (fun s c => (ConvergenceStatistics.call N c s).2) s) l' := fun calls => by
    induction calls with
    | nil => exact fun h => ⟨_, h⟩
    | cons c calls ih =>
      intro s l h
      obtain ⟨l', h'⟩ := h.call c
      exact ih h'
  exact hrun calls recorded_new

/-- **Batches are taken just when their samples can be recorded.** -/
theorem addAll_iff : ∀ (bs : List (Batch F)) {s : ConvergenceStatistics F} {l : List (F × F)}, Recorded N s l →
    (addAll N bs s = (.ok (), s') ↔ (∀ b ∈ bs, b.Matches) ∧ Recorded N s' (l ++ bs.flatMap Batch.samples))
  | [], s, l, h      => by
    rw [addAll, Prog.run_pure, List.flatMap_nil, List.append_nil]
    constructor
    · intro hrun
      obtain rfl : s = s' := congrArg Prod.snd hrun
      exact ⟨fun b hb => absurd hb List.not_mem_nil, h⟩
    · intro h'
      rw [h.unique h'.2]
  | b :: bs, s, l, h => by
    rw [addAll, Prog.run_bind, List.flatMap_cons, ← List.append_assoc, List.forall_mem_cons]
    rcases hrun : addBatch N b.values b.weights s with ⟨e | ⟨⟩, s₁⟩
    · refine iff_of_false nofun (fun h' => ?_)
      obtain ⟨s₂, h₂⟩ := h'.2.of_append
      rw [(addBatch_iff h).mpr ⟨h'.1.1, h₂⟩] at hrun
      cases hrun
    · obtain ⟨hb, h₁⟩ := (addBatch_iff h).mp hrun
      rw [show b.samples = incoming b.values b.weights from rfl, and_iff_right (show b.Matches from hb)]
      exact addAll_iff bs h₁

end

/-! ## In exact arithmetic -/

section

variable {K : Type} [Field K] [LinearOrder K] {sqrt : K → K} {l : List (K × K)} {t total m : K}

/-- The weighted mean, of samples that weigh. -/
def IsMean (l : List (K × K)) (m : K) : Prop :=
  0 < (l.map Prod.snd).sum ∧ m = (l.map (fun p => p.1 * p.2)).sum / (l.map Prod.snd).sum

theorem checkSamples_exact : ∀ (l : List (K × K)) (t : K), checkSamples (.exact sqrt) l t = .ok total →
    (∀ w ∈ l.map Prod.snd, 0 ≤ w) ∧ t + (l.map Prod.snd).sum = total
  | [], t, h     => ⟨fun w hw => absurd hw List.not_mem_nil, (add_zero t).trans (Except.ok.inj h)⟩
  | p :: l, t, h => by
    rw [checkSamples] at h
    simp only [require_bind] at h
    split_ifs at h with hvalue hweight htotal
    obtain ⟨hall, hsum⟩ := checkSamples_exact l (t + p.2) h
    rw [List.map_cons, List.sum_cons, ← add_assoc]
    exact ⟨List.forall_mem_cons.mpr ⟨of_decide_eq_true hweight.2, hall⟩, hsum⟩

theorem runningMean_exact [IsStrictOrderedRing K] (hsqrt : ∀ x, 0 ≤ x → sqrt x * sqrt x = x)
    (hcheck : checkSamples (.exact sqrt) l 0 = .ok total) (hlen : l.length ≤ 100000)
    (h : runningMean (.exact sqrt) l = .ok m) : IsMean l m := by
  obtain ⟨hnonneg, hsum⟩ := checkSamples_exact l 0 hcheck
  rw [zero_add] at hsum
  rw [runningMean_eq hcheck hlen, meanOf] at h
  by_cases hpos : 0 < total
  · have hweighed : (sequenceOf l total).Weighed :=
      ⟨hnonneg, (List.length_map _).trans (List.length_map _).symm, hsum, hpos⟩
    have hcolumn : (sequenceOf l total).column 0 = l := by
      rw [SequenceStatistics.column, sequenceOf, List.zip_map', List.map_map]
      exact List.map_id l
    rw [SequenceStatistics.mean_exact hsqrt hweighed, ok_bind] at h
    refine ⟨hsum ▸ hpos, ?_⟩
    rw [← Except.ok.inj h]
    change ((((sequenceOf l total).column 0).map (fun p => p.1 * p.2)).sum / total) = _
    rw [hcolumn, hsum]
  · have hfail : (sequenceOf l total).mean (.exact sqrt) =
        .error (.message "sequence total weight must be positive") := by
      rw [SequenceStatistics.mean, SequenceStatistics.requireWeight, require_bind,
        if_neg (fun h => hpos (of_decide_eq_true h.2))]
    rw [hfail] at h
    cases h

end

/-- **The recorder after any calls**, in any arithmetic: its table are the means of the first 1, 3, 7, .. samples it holds, a
batch that fails leaves it as it is, and batches are taken just when one batch of their samples is, with the same state.
In exact arithmetic the means are those of the samples. -/
theorem convergence_spec (N : Arithmetic F) (calls : List (Call F)) :
    List.Forall₂ (IsPoint N ((run N calls).values.zip (run N calls).weights)) (checkpoints (run N calls).samples)
        (run N calls).table ∧
      (∀ (b : Batch F) e s', addBatch N b.values b.weights (run N calls) = (.error e, s') → s' = run N calls) ∧
      (∀ (bs : List (Batch F)) (one : Batch F), (∀ b ∈ bs, b.Matches) → one.Matches →
        one.samples = bs.flatMap Batch.samples → ∀ s', addAll N bs (run N calls) = (.ok (), s') ↔
          addBatch N one.values one.weights (run N calls) = (.ok (), s')) ∧
      ∀ {K : Type} [Field K] [LinearOrder K] [IsStrictOrderedRing K] (sqrt : K → K),
        (∀ x, 0 ≤ x → sqrt x * sqrt x = x) → ∀ calls : List (Call K), List.Forall₂ (fun c p => p.samples = c ∧
          IsMean (((run (.exact sqrt) calls).values.zip (run (.exact sqrt) calls).weights).take c) p.mean)
            (checkpoints (run (.exact sqrt) calls).samples) (run (.exact sqrt) calls).table := by
  obtain ⟨l, h⟩ := recorded_run N calls
  refine ⟨?_, fun b e s' hrun => ?_, fun bs one hbs hone hsame s' => ?_, ?_⟩
  · rw [h.zip, h.samples]
    exact h.table
  · have hfails := addBatch_fails N b.values b.weights (run N calls) (run N calls) rfl
    rwa [hrun] at hfails
  · rw [addAll_iff bs h, addBatch_iff h, ← hsame]
    exact and_congr_left' (iff_of_true hbs hone)
  · intro K _ _ _ sqrt hsqrt calls
    obtain ⟨l, h⟩ := recorded_run (.exact sqrt) calls
    rw [h.zip, h.samples]
    refine h.table.imp (fun c p hp => ⟨hp.1, ?_⟩)
    obtain ⟨u, hu, -⟩ := checkSamples_append_iff.mp
      (show checkSamples (.exact sqrt) (l.take c ++ l.drop c) 0 = _ by rw [List.take_append_drop]; exact h.total)
    exact runningMean_exact hsqrt hu ((List.length_take_le' _ _).trans h.length) hp.2

/-- **A stream that fails part of the way**: in two batches the first of them is kept, in one nothing is. -/
theorem split_keeps : (run (.exact (fun x : ℚ => x)) [.batch ⟨[1], some [1]⟩, .batch ⟨[2], some [-1]⟩]).values = [1] ∧
    (run (.exact (fun x : ℚ => x)) [.batch ⟨[1, 2], some [1, -1]⟩]).values = [] := by
  decide +kernel

end ConvergenceStatistics

end Itofin
