import Itofin.DiscretizedAsset
/-!
# Discretized options — an underlying rolled back by an option

`DiscretizedOption` of `discretizedasset.rs`: its post-adjustment rolls the underlying back to its own time, and adjusts
it before and after the exercise.

The underlying is `Followed` from where it stood when the option was put on the lattice, and so is adjusted once at every
node on its way (`post_followed`).  `rollback_composes` is what holds of two rollbacks of any asset, and of an option.
-/
namespace Itofin.Discretized

open Effect

inductive ExerciseType where
  | american
  | bermudan
  | european
deriving DecidableEq

/-- The fields of the option but its underlying. -/
structure DiscretizedOption (K : Type) where
  exerciseType : ExerciseType
  exerciseTimes : List K

variable {K L S ε : Type} [Field K] [LinearOrder K]

/-- The time nearest to `t`, the first of them. -/
def nearest (t : K) : List K → Option K
  | []            => none
  | best :: times => some (times.foldl (fun best x => if |x - t| < |best - t| then x else best) best)

def isOnTime (lattices : L → Lattice K) (method : Option L) (time t : K) : Except (Failure K ε) Bool :=
  match method.bind (fun m => nearest t (lattices m).timeGrid.times) with
  | some best => .ok (Math.closeEnough best time)
  | none      => .error .panic

/-- `values[i] = values[i].max(underlying.values()[i])` -/
def applyExerciseCondition : Prog (List K × Asset K L S) (Failure K ε) Unit := do
  let s ← Prog.get
  Prog.require (s.1.length ≤ s.2.base.values.length) .panic
  Prog.modify (fun s => (List.zipWith max s.1 s.2.base.values, s.2))

/-- A program on the underlying. -/
def onUnderlying (x : Prog (Asset K L S) (Failure K ε) Unit) : Prog (List K × Asset K L S) (Failure K ε) Unit :=
  x.zoom Prod.snd (fun underlying s => (s.1, underlying))

namespace DiscretizedOption

/-- `match self.exercise_type { .. }`; the American branch indexes its window, and the second time only after the first. -/
def exercise (lattices : L → Lattice K) (option : DiscretizedOption K) : Impl K L (Asset K L S) ε := fun method time =>
  match option.exerciseType with
  | .american            => match option.exerciseTimes with
    | []            => Prog.fail .panic
    | first :: rest =>
      if first ≤ time then
        match rest with
        | []        => Prog.fail .panic
        | last :: _ => if time ≤ last then applyExerciseCondition else pure ()
      else pure ()
  | .bermudan | .european => Prog.each 0 option.exerciseTimes (fun _ et =>
      if 0 ≤ et then do
        let onTime ← Prog.lift (isOnTime lattices method time et)
        if onTime then applyExerciseCondition else pure ()
      else pure ())

variable [DecidableEq L]

/-- The option on an underlying, which is its own field. -/
def terms (lattices : L → Lattice K) (underlying : Terms K L S ε) (option : DiscretizedOption K) :
    Terms K L (Asset K L S) ε where
  resetBefore size := fun method _ => do
    let s ← Prog.get
    Prog.require (method.isSome ∧ method = s.2.base.method) .differentMethods
    Prog.modify (fun s => (List.replicate size 0, s.2))
  adjusts := true
  resetAfter _ := fun _ _ => pure ()
  preAdjustValuesImpl := fun _ _ => pure ()
  postAdjustValuesImpl := fun method time => do
    onUnderlying (partialRollback lattices underlying time)
    onUnderlying (preAdjustValues underlying)
    option.exercise lattices method time
    onUnderlying (postAdjustValues underlying)

end DiscretizedOption

variable {lattices : L → Lattice K} {terms : Terms K L S ε} {option : DiscretizedOption K} {m : L} {i k lo hi n : ℕ}
variable {t t' time : K} {log : List (Adjustment K)} {pass : CouponAdjustment} {method : Option L}

/-! ## The underlying -/

omit [Field K] [LinearOrder K] in
theorem onUnderlying_ends {P Q : Asset K L S → Prop} {x : Prog (Asset K L S) (Failure K ε) Unit} (h : Ends P x Q) :
    Ends (fun v => P v.2) (onUnderlying x) (fun v => Q v.2) := by
  intro v hv
  have := h v.2 hv
  unfold onUnderlying Prog.zoom
  rcases hx : x v.2 with ⟨_ | _, u⟩ <;> rw [hx] at this
  · trivial
  · exact this

omit [Field K] in
theorem applyExerciseCondition_ends (P : Asset K L S → Prop) :
    Ends (fun v => P v.2) (applyExerciseCondition : Prog _ (Failure K ε) Unit) (fun v => P v.2) := by
  refine Triple.bind (Triple.get _) (fun v => Triple.bind (Triple.require (fun _ _ _ => trivial)) (fun _ => ?_))
  exact Triple.modify (fun _ hs => hs.2.2)

/-- **An exercise leaves the underlying alone.** -/
theorem exercise_ends (P : Asset K L S → Prop) :
    Ends (fun v => P v.2) (option.exercise lattices method time : Prog _ (Failure K ε) Unit) (fun v => P v.2) := by
  have hpure : Ends (fun v : List K × Asset K L S => P v.2) (pure () : Prog _ (Failure K ε) Unit) (fun v => P v.2) :=
    Triple.pure () (fun _ hs => hs)
  have hpanic : Ends (fun v : List K × Asset K L S => P v.2) (Prog.fail .panic : Prog _ (Failure K ε) Unit) (fun v => P v.2) :=
    Triple.fail _ (fun _ _ => trivial)
  have heach : Ends (fun v : List K × Asset K L S => P v.2) (Prog.each 0 option.exerciseTimes (fun _ et =>
      if 0 ≤ et then do
        let onTime ← Prog.lift (isOnTime lattices method time et)
        if onTime then applyExerciseCondition else pure ()
      else pure ()) : Prog _ (Failure K ε) Unit) (fun v => P v.2) := by
    refine Triple.each (fun _ (v : List K × Asset K L S) => P v.2) option.exerciseTimes 0 0 (fun _ et _ => Triple.ite (fun _ => ?_) (fun _ => hpure))
    refine Triple.bind (Triple.lift (Q := fun _ (v : List K × Asset K L S) => P v.2) (fun _ _ _ hs => hs) (fun _ _ _ _ => trivial)) (fun onTime => ?_)
    exact Triple.ite (fun _ => applyExerciseCondition_ends P) (fun _ => hpure)
  unfold DiscretizedOption.exercise
  cases option.exerciseType with
  | american =>
    dsimp only
    cases option.exerciseTimes with
    | nil             => exact hpanic
    | cons first rest =>
      refine Triple.ite (fun _ => ?_) (fun _ => hpure)
      cases rest with
      | nil         => exact hpanic
      | cons last _ => exact Triple.ite (fun _ => applyExerciseCondition_ends P) (fun _ => hpure)
  | bermudan => exact heach
  | european => exact heach

/-- The underlying stands where it stood from the start: after those logged already there are some adjustments there. -/
def Started (lattices : L → Lattice K) (m : L) (t : K) (k : ℕ) (log : List (Adjustment K))
    (s : Asset K L (S × List (Adjustment K))) : Prop :=
  ∃ start, (∀ a ∈ start, a.time = t) ∧ Waiting lattices m t (fun _ => k) (fun own => own.2 = log ++ start) s

/-- The underlying stands at the `k`-th node: at every node below the `hi`-th down to there both adjustments have been
made, after those logged already and some at the `hi`-th node. -/
def Followed (lattices : L → Lattice K) (m : L) (hi : ℕ) (log : List (Adjustment K)) (k : ℕ)
    (s : Asset K L (S × List (Adjustment K))) : Prop :=
  ∃ t start, (lattices m).timeGrid.times[k]? = some t ∧
    (∀ a ∈ start, (lattices m).timeGrid.times[hi]? = some a.time) ∧
    Waiting lattices m t (fun _ => k) (fun own => own.2 = log ++ start ++ visited (lattices m).timeGrid.times k (hi - k)) s

section Followed

variable [IsStrictOrderedRing K] (hgrid : Apart (lattices m).timeGrid)
include hgrid

/-- A partial rollback sweeps all but its last node, where it leaves the adjustments to be made. -/
theorem partialRollback_waiting (ht' : (lattices m).timeGrid.times[lo]? = some t')
    (ht : (lattices m).timeGrid.times[lo + (n + 1)]? = some t) :
    Ends (Waiting lattices m t (fun _ => lo + (n + 1)) (fun own => own.2 = log))
      (partialRollback lattices terms.logged t')
      (Waiting lattices m t' (fun _ => lo + 1)
        (fun own => own.2 = log ++ visited (lattices m).timeGrid.times (lo + 1) n)) := by
  intro s hs
  rw [partialRollback_eq hgrid ht' ht hs.stands, slices_eq]
  obtain ⟨hlt, -⟩ := List.getElem?_eq_some_iff.1 ht
  have hnext : (lattices m).timeGrid.times[lo + 1]? = some _ := List.getElem?_eq_getElem (by omega)
  rw [show lo + (n + 1) = lo + 1 + n by omega] at ht hs
  refine Triple.bind (sweep_log hgrid hnext ht log) (fun _ => ?_) s hs
  refine (stepTo_waiting (k := lo + 1) (fun _ => le_rfl)).weaken (fun _ h => h) (fun _ s hs => ?_)
  rw [Option.some.inj (ht'.symm.trans hs.1)]
  exact hs.2

/-- **The post-adjustment of an option** at a node below its underlying takes the underlying there. -/
theorem post_waiting [DecidableEq L] (ht' : (lattices m).timeGrid.times[lo]? = some t')
    (ht : (lattices m).timeGrid.times[lo + (n + 1)]? = some t) :
    Ends (fun v => Waiting lattices m t (fun _ => lo + (n + 1)) (fun own => own.2 = log) v.2)
      ((option.terms lattices terms.logged).postAdjustValuesImpl method t')
      (fun v => Waiting lattices m t' (fun _ => lo)
        (fun own => own.2 = log ++ visited (lattices m).timeGrid.times lo (n + 1)) v.2) := by
  obtain ⟨before, hbefore⟩ : ∃ before, before = log ++ visited (lattices m).timeGrid.times (lo + 1) n := ⟨_, rfl⟩
  have hpre : Ends (Waiting lattices m t' (fun _ => lo + 1) (fun own => own.2 = before)) (preAdjustValues terms.logged) _ :=
    guarded_log hgrid ht' (Nat.lt_succ_self lo) before
  have hpost : Ends _ (postAdjustValues terms.logged) _ :=
    guarded_log hgrid ht' (show lo < Function.update (fun _ => lo + 1) CouponAdjustment.pre lo .post from
      Nat.lt_succ_self lo) (before ++ [⟨.pre, t'⟩])
  refine Triple.bind (onUnderlying_ends (partialRollback_waiting hgrid ht' ht)) (fun _ => ?_)
  rw [← hbefore]
  refine Triple.bind (onUnderlying_ends hpre) (fun _ => Triple.bind (exercise_ends _) (fun _ => ?_))
  refine (onUnderlying_ends hpost).weaken (fun _ h => h) (fun _ v hv => ⟨hv.stands, fun pass => ?_, hv.own.trans ?_⟩)
  · cases pass with
    | pre  => exact hv.clear .pre
    | post => exact hv.clear .post
  · rw [hbefore, Nat.add_comm n 1, visited_add, visited_one ht', List.append_assoc, List.append_assoc]
    rfl

omit [IsStrictOrderedRing K] hgrid in
theorem followed_iff_started {s : Asset K L (S × List (Adjustment K))} (ht : (lattices m).timeGrid.times[hi]? = some t) :
    Followed lattices m hi log hi s ↔ Started lattices m t hi log s := by
  unfold Followed Started
  rw [Nat.sub_self]
  refine ⟨fun ⟨t', start, ht', hstart, hs⟩ => ⟨start, fun a ha => ?_, ?_⟩, fun ⟨start, hstart, hs⟩ =>
    ⟨t, start, ht, fun a ha => by rw [hstart a ha, ht], hs.stands, hs.clear, hs.own.trans (List.append_nil _).symm⟩⟩
  · exact Option.some.inj ((hstart a ha).symm.trans ht)
  · obtain rfl : t = t' := Option.some.inj (ht.symm.trans ht')
    exact ⟨hs.stands, hs.clear, hs.own.trans (List.append_nil _)⟩

omit [IsStrictOrderedRing K] in
/-- An adjustment where the underlying stood from the start may have been made before. -/
theorem guarded_started (ht : (lattices m).timeGrid.times[lo]? = some t) :
    Ends (Started lattices m t lo log) (guarded pass terms.logged) (Started lattices m t lo log) := by
  rintro s ⟨start, hstart, hs⟩
  rw [guarded_eq]
  by_cases h : marked s.base.time (s.base.latest pass) = true
  · rw [if_pos h]
    exact ⟨start, hstart, hs⟩
  · rw [if_neg h]
    have hcall : Ends (Waiting lattices m t (fun _ => lo) (fun own => own.2 = log ++ start))
        (call (terms.logged.adjustValuesImpl pass))
        (Waiting lattices m t (fun _ => lo) (fun own => own.2 = log ++ start ++ [⟨pass, t⟩])) := by
      apply call_waiting
      cases pass <;> exact logging_ends _ _ _ _ _
    refine Triple.bind hcall (fun _ => Triple.modify (fun s hs => ⟨start ++ [⟨pass, t⟩], fun a ha => ?_, ?_⟩)) s hs
    · rcases List.mem_append.1 ha with ha | ha
      · exact hstart a ha
      · rw [List.mem_singleton.1 ha]
    · have := hs.marks hgrid ht pass
      rwa [show Function.update (fun _ => lo) pass lo = fun _ => lo from Function.update_eq_self pass _,
        List.append_assoc] at this

/-- **The post-adjustment of an option** takes an underlying that is followed to its node. -/
theorem post_followed [DecidableEq L] (ht : (lattices m).timeGrid.times[lo]? = some t) (hk : lo ≤ k) (hhi : k ≤ hi)
    (hstart : lo = k → k = hi) :
    Ends (fun v => Followed lattices m hi log k v.2) ((option.terms lattices terms.logged).postAdjustValuesImpl method t)
      (fun v => Followed lattices m hi log lo v.2) := by
  rcases hk.eq_or_lt with rfl | hlt
  · obtain rfl := hstart rfl
    have hroll : Ends (Started lattices m t lo log) (partialRollback lattices terms.logged t) (Started lattices m t lo log) := by
      rintro s ⟨start, hstart, hs⟩
      rw [partialRollback_eq (n := 0) hgrid ht ht hs.stands]
      exact ⟨start, hstart, hs⟩
    have hpre : Ends (Started lattices m t lo log) (preAdjustValues terms.logged) _ := guarded_started hgrid ht
    have hpost : Ends (Started lattices m t lo log) (postAdjustValues terms.logged) _ := guarded_started hgrid ht
    simp only [followed_iff_started ht]
    exact Triple.bind (onUnderlying_ends hroll) (fun _ => Triple.bind (onUnderlying_ends hpre)
      (fun _ => Triple.bind (exercise_ends _) (fun _ => onUnderlying_ends hpost)))
  · rintro v ⟨t', start, ht', htimes, hwait⟩
    obtain ⟨n, rfl⟩ : ∃ n, k = lo + (n + 1) := ⟨k - lo - 1, by omega⟩
    refine (post_waiting hgrid ht ht').weaken (fun _ h => h) (fun _ v hv => ?_) v hwait
    refine ⟨t, start, ht, htimes, hv.stands, hv.clear, hv.own.trans ?_⟩
    rw [List.append_assoc, ← visited_add, show n + 1 + (hi - (lo + (n + 1))) = hi - lo by omega]

variable [DecidableEq L]

/-- **An option on a lattice** takes its underlying to its own node. -/
theorem initializeOn_followed (ht : (lattices m).timeGrid.times[k]? = some t) (hhi : k ≤ hi) :
    Ends (fun s => (∀ pass, Clear (lattices m).timeGrid.times (k + 1) (s.base.latest pass)) ∧
        Followed lattices m hi log hi s.own)
      (initializeOn lattices (option.terms lattices terms.logged) m t)
      (Waiting lattices m t (fun _ => k) (Followed lattices m hi log k)) := by
  refine initializeOn_waiting hgrid ht ?_ ?_ (Triple.pure () (fun _ hs => hs))
  · refine Triple.bind (Triple.get _) (fun v => Triple.bind (Triple.require (fun _ _ _ => trivial)) (fun _ => ?_))
    exact Triple.modify (fun _ hs => hs.2.2)
  · exact adjustValues_waiting hgrid ht (Triple.pure () (fun _ hs => hs)) (post_followed hgrid ht hhi le_rfl (fun _ => rfl))

/-- **A sweep of an option** takes its underlying along. -/
theorem sweep_followed (ht' : (lattices m).timeGrid.times[lo]? = some t') (ht : (lattices m).timeGrid.times[lo + n]? = some t)
    (hhi : lo + n ≤ hi) :
    Ends (Waiting lattices m t (fun _ => lo + n) (Followed lattices m hi log (lo + n)))
      (sweep (lattices m) (option.terms lattices terms.logged) lo n)
      (Waiting lattices m t' (fun _ => lo) (Followed lattices m hi log lo)) := by
  refine sweep_waiting (R := fun k => Followed lattices m hi log (k + 1)) hgrid ht' n ht (fun k t hk ht => ⟨?_, ?_⟩)
  · exact Triple.pure () (fun _ hs => hs)
  · exact post_followed hgrid ht (Nat.le_succ k) (by omega) (by omega)

end Followed

/-! ## Rollback composition -/

/-- The asset, with a log. -/
def Asset.withLog (s : Asset K L S) (log : List (Adjustment K)) : Asset K L (S × List (Adjustment K)) := ⟨s.base, s.own, log⟩

theorem ends_ok {σ : Type} {P Q : σ → Prop} {x : Prog σ ε Unit} {s s' : σ} (h : Ends P x Q) (hs : P s) (hx : x s = (.ok (), s')) :
    Q s' := by
  have := h s hs
  rwa [hx] at this

theorem ends_true {σ : Type} (P : σ → Prop) (x : Prog σ ε Unit) : Ends P x (fun _ => True) := by
  intro s _
  rcases x s with ⟨_ | _, _⟩ <;> trivial

/-- **Rollback composition.**  On a lattice whose nodes are apart, for nodes `t₀ ≥ t₁ ≥ t₂` with `t₁` before `t₀` or an asset
whose reset adjusts: after the asset is put on the lattice at `t₀`, rolling it back to `t₁` and on to `t₂` ends as rolling
it back to `t₂` does, with a value or an error.  When no mark of the asset was close to `t₀` or a node before, the rollback
makes both adjustments once at every node below `t₀` down to `t₂`, from the last on.  An option that starts like this
takes its underlying to `t₂`, and both adjustments of that are made once at every node below the one where it stood. -/
theorem rollback_composes [IsStrictOrderedRing K] [DecidableEq L] (lattices : L → Lattice K) (m : L)
    (hgrid : Apart (lattices m).timeGrid) {i₀ i₁ i₂ : ℕ} {t₀ t₁ t₂ : K} (h₀ : (lattices m).timeGrid.times[i₀]? = some t₀)
    (h₁ : (lattices m).timeGrid.times[i₁]? = some t₁) (h₂ : (lattices m).timeGrid.times[i₂]? = some t₂) (h₂₁ : i₂ ≤ i₁)
    (h₁₀ : i₁ ≤ i₀) (terms : Terms K L S ε) :
    (∀ s s', initializeOn lattices terms m t₀ s = (.ok (), s') → i₁ < i₀ ∨ terms.adjusts = true →
      (rollback lattices terms t₁ >>= fun _ => rollback lattices terms t₂) s' = rollback lattices terms t₂ s' ∧
      ((∀ pass, Clear (lattices m).timeGrid.times (i₀ + 1) (s.base.latest pass)) → ∀ log s'',
        rollback lattices terms.logged t₂ (s'.withLog log) = (.ok (), s'') →
          rollback lattices terms t₂ s' = (.ok (), unlog s'') ∧ s''.base.time = t₂ ∧
          s''.own.2 = log ++ visited (lattices m).timeGrid.times i₂ (i₀ - i₂))) ∧
    ∀ (option : DiscretizedOption K) (o o' o'' : Asset K L (Asset K L (S × List (Adjustment K)))) (k₀ : ℕ) (t : K)
      (log : List (Adjustment K)),
      (lattices m).timeGrid.times[k₀]? = some t → i₀ ≤ k₀ →
      Waiting lattices m t (fun _ => k₀) (fun own => own.2 = log) o.own →
      (∀ pass, Clear (lattices m).timeGrid.times (i₀ + 1) (o.base.latest pass)) →
      initializeOn lattices (option.terms lattices terms.logged) m t₀ o = (.ok (), o') →
      rollback lattices (option.terms lattices terms.logged) t₂ o' = (.ok (), o'') →
      o''.own.base.time = t₂ ∧ ∃ start, (∀ a ∈ start, a.time = t) ∧
        o''.own.own.2 = log ++ start ++ visited (lattices m).timeGrid.times i₂ (k₀ - i₂) := by
  obtain ⟨k, rfl⟩ := Nat.exists_eq_add_of_le h₂₁
  obtain ⟨n, rfl⟩ := Nat.exists_eq_add_of_le h₁₀
  have h₀' : (lattices m).timeGrid.times[i₂ + (k + n)]? = some t₀ := by rwa [← Nat.add_assoc]
  refine ⟨fun s s' hinit hstart => ?_, fun option o o' o'' k₀ t log hk₀ hle hunder hclear hinit hroll => ?_⟩
  · obtain ⟨hat, hadjusted⟩ := ends_ok initializeOn_ends trivial hinit
    have hn : n = 0 → Adjusted s' := fun hn => hadjusted (hstart.resolve_left (by omega))
    refine ⟨rollback_rollback hgrid h₂ h₁ h₀ hat hn, fun hclear log s'' hlog => ?_⟩
    have hwait : Waiting lattices m t₀ (fun _ => i₂ + k + n) (fun _ => True) s' := by
      refine ends_ok (initializeOn_waiting (Q := fun _ => True) hgrid h₀ (ends_true _ _) ?_ (ends_true _ _)) ⟨hclear, trivial⟩ hinit
      refine Triple.ite (fun _ => ?_) (fun _ => Triple.pure () (fun s hs => ?_))
      · exact adjustValues_waiting (R := fun _ => True) hgrid h₀ (ends_true _ _) (ends_true _ _)
      · exact ⟨hs.stands, fun pass => (hs.clear pass).mono (Nat.le_succ _), trivial⟩
    rw [rollback_eq hgrid h₂ h₀' (show At m t₀ (s'.withLog log) from hat) (fun h => hn (by omega))] at hlog
    rw [Nat.add_assoc] at hwait
    obtain ⟨_, hunlogged, rfl⟩ := (sweep_relates (lattices m) terms i₂ (k + n)).of_ok rfl hlog
    have hend := ends_ok (sweep_log hgrid h₂ h₀' log) ⟨hwait.stands, hwait.clear, rfl⟩ hlog
    refine ⟨(rollback_eq hgrid h₂ h₀' hat (fun h => hn (by omega))).trans hunlogged, hend.stands.2, ?_⟩
    rw [hend.own, show i₂ + k + n - i₂ = k + n by omega]
  · have hwait := ends_ok (initializeOn_followed hgrid h₀ hle) ⟨hclear, (followed_iff_started hk₀).2
      ⟨[], fun _ h => absurd h List.not_mem_nil, hunder.stands, hunder.clear, hunder.own.trans (List.append_nil _).symm⟩⟩ hinit
    obtain ⟨-, hadjusted⟩ := ends_ok initializeOn_ends trivial hinit
    rw [rollback_eq hgrid h₂ h₀' hwait.stands (fun _ => hadjusted rfl)] at hroll
    rw [Nat.add_assoc] at hwait hle
    obtain ⟨t', start, ht', hstart, hend⟩ := (ends_ok (sweep_followed hgrid h₂ h₀' hle) hwait hroll).own
    obtain rfl : t₂ = t' := Option.some.inj (h₂.symm.trans ht')
    exact ⟨hend.stands.2, start, fun a ha => Option.some.inj ((hstart a ha).symm.trans hk₀), hend.own⟩

/-- A lattice of one node a slice, without discounting. -/
def flat (times : List ℚ) : Lattice ℚ where
  implementation := ⟨1, fun _ => 1, fun _ _ _ => 0, fun _ _ _ => 1, fun _ _ => 1, rfl, fun _ _ _ _ _ => Nat.one_pos⟩
  timeGrid       := ⟨times, List.zipWith (fun a b => b - a) times times.tail, times⟩

/-- A bond, and an option on a bond that stands at the node after. -/
theorem rollback_composes_flat :
    (∃ s' : Asset ℚ Unit Unit, initializeOn (fun _ => flat [0, 1, 2]) (discountBond (ε := Empty)) () 2 ⟨.default, ()⟩ =
      (.ok (), s') ∧
      (rollback (fun _ => flat [0, 1, 2]) (discountBond (ε := Empty)) 1 >>= fun _ =>
        rollback (fun _ => flat [0, 1, 2]) discountBond 0) s' = rollback (fun _ => flat [0, 1, 2]) discountBond 0 s') ∧
    ∃ o'' : Asset ℚ Unit (Asset ℚ Unit (Unit × List (Adjustment ℚ))),
      o''.own.base.time = 0 ∧ ∃ start, (∀ a ∈ start, a.time = 2) ∧ o''.own.own.2 = [] ++ start ++ visited [0, 1, 2] 0 2 := by
  let lattices : Unit → Lattice ℚ := fun _ => flat [0, 1, 2]
  let option : Terms ℚ Unit (Asset ℚ Unit (Unit × List (Adjustment ℚ))) Empty :=
    DiscretizedOption.terms lattices discountBond.logged ⟨.bermudan, [1]⟩
  let bond := (initializeOn lattices (discountBond (ε := Empty)) () 2 ⟨.default, ()⟩).2
  let o : Asset ℚ Unit (Asset ℚ Unit (Unit × List (Adjustment ℚ))) := ⟨.default, bond.withLog []⟩
  let o' := (initializeOn lattices option () 1 o).2
  have hgrid : Apart (lattices ()).timeGrid := by decide +kernel
  have hbond : (initializeOn lattices (discountBond (ε := Empty)) () 2 ⟨.default, ()⟩).1 = .ok () := by decide +kernel
  have hinit : (initializeOn lattices option () 1 o).1 = .ok () := by decide +kernel
  have hroll : (rollback lattices option 0 o').1 = .ok () := by decide +kernel
  have hbond' : bond.base = ⟨2, none, none, [1], some ()⟩ := by decide +kernel
  have hfresh : ∀ pass k, Clear [0, 1, 2] k (bond.base.latest pass) := by
    intro pass k
    rw [hbond']
    cases pass <;> exact clear_none _ _
  have h₂ : (lattices ()).timeGrid.times[2]? = some 2 := rfl
  have h₁ : (lattices ()).timeGrid.times[1]? = some 1 := rfl
  have h₀ : (lattices ()).timeGrid.times[0]? = some 0 := rfl
  refine ⟨⟨bond, Prod.ext hbond rfl, ?_⟩, (rollback lattices option 0 o').2, ?_⟩
  · exact ((rollback_composes lattices () hgrid h₂ h₁ h₀ (by decide) (by decide)
      discountBond).1 _ bond (Prod.ext hbond rfl) (.inl (by decide))).1
  · refine (rollback_composes lattices () hgrid h₁ h₁ h₀ (by decide) (by decide)
      (discountBond (ε := Empty))).2 ⟨.bermudan, [1]⟩ o o' _ 2 2 [] rfl (by decide) ?_ ?_ (Prod.ext hinit rfl) (Prod.ext hroll rfl)
    · exact ⟨⟨congrArg DiscretizedAssetBase.method hbond', congrArg DiscretizedAssetBase.time hbond'⟩, fun pass => hfresh pass 2, rfl⟩
    · exact fun pass => by cases pass <;> exact clear_none _ _

/-- An asset that counts its pre-adjustments. -/
def counting (adjusts : Bool) : Terms ℚ Unit ℕ Empty where
  resetBefore size       := fun _ _ => Prog.modify (fun s => (List.replicate size 0, s.2))
  adjusts                := adjusts
  resetAfter _           := fun _ _ => pure ()
  preAdjustValuesImpl    := fun _ _ => Prog.modify (fun s => (s.1, s.2 + 1))
  postAdjustValuesImpl   := fun _ _ => pure ()

/-- **A rollback to the start adjusts there** when the reset did not, which the rollback past it does not; and of two nodes
that are close enough only the later one is adjusted. -/
theorem rollback_at_start :
    (∃ s', initializeOn (fun _ => flat [0, 1, 2]) (counting false) () 2 ⟨.default, 0⟩ = (.ok (), s') ∧
      ((rollback (fun _ => flat [0, 1, 2]) (counting false) 2 >>= fun _ =>
        rollback (fun _ => flat [0, 1, 2]) (counting false) 0) s').2.own = 3 ∧
      (rollback (fun _ => flat [0, 1, 2]) (counting false) 0 s').2.own = 2) ∧
    ∃ tiny : ℚ, 0 < tiny ∧ ∃ s', initializeOn (fun _ => flat [0, tiny, 1, 2]) (counting true) () 2 ⟨.default, 0⟩ = (.ok (), s') ∧
      s'.own = 1 ∧ (rollback (fun _ => flat [0, tiny, 1, 2]) (counting true) 0 s').1 = .ok () ∧
      (rollback (fun _ => flat [0, tiny, 1, 2]) (counting true) 0 s').2.own = 3 := by
  refine ⟨⟨(initializeOn (fun _ => flat [0, 1, 2]) (counting false) () 2 ⟨.default, 0⟩).2, Prod.ext (by decide +kernel) rfl,
    by decide +kernel, by decide +kernel⟩, 1 / 10 ^ 30, by norm_num, ?_⟩
  exact ⟨(initializeOn (fun _ => flat [0, 1 / 10 ^ 30, 1, 2]) (counting true) () 2 ⟨.default, 0⟩).2, Prod.ext (by decide +kernel) rfl,
    by decide +kernel, by decide +kernel, by decide +kernel⟩

end Itofin.Discretized
