import Itofin.DiscretizedOption
/-!
# Re-initialisation — a used asset put on a lattice again

The marks of the latest adjustments are part of an asset and stay when it is put on a lattice, so an adjustment at a time
close to one of them is left out.

A run of the used asset and one of a freshly built asset are `Pending` on one another until both have made an adjustment at
one time, after which the two are the same (`adjustValues_pending`).  `reinitialize_iff` says for which marks of the used
asset nothing can tell the runs apart.
-/
namespace Itofin.Discretized

open Effect

variable {K L S ε : Type} [Field K] [LinearOrder K]

def rollbacks (lattices : L → Lattice K) (terms : Terms K L S ε) : List K → Prog (Asset K L S) (Failure K ε) Unit
  | []            => pure ()
  | stop :: stops => do
    rollback lattices terms stop
    rollbacks lattices terms stops

/-- An asset is put on a lattice and rolled back to some times in turn. -/
def session (lattices : L → Lattice K) (terms : Terms K L S ε) (m : L) (t : K) (stops : List K) :
    Prog (Asset K L S) (Failure K ε) Unit := do
  initializeOn lattices terms m t
  rollbacks lattices terms stops

/-- What is seen of a run: its error, or the time, the values and the own fields of the asset. -/
def seen (run : Except (Failure K ε) Unit × Asset K L S) : Except (Failure K ε) (K × List K × S) :=
  run.1.map (fun _ => (run.2.base.time, run.2.base.values, run.2.own))

/-- The part of the reset before the adjustments ends alike with the fields of the used asset and of a fresh one. -/
def Overwrites (terms : Terms K L S ε) (m : L) (t : K) (base : DiscretizedAssetBase K L) (own own₀ : S) : Prop :=
  ∀ size, terms.resetBefore size (some m) t (base.values, own) = terms.resetBefore size (some m) t ([], own₀)

/-- **No session tells the used asset from a freshly built one.** -/
def LikeFresh (lattices : L → Lattice K) (terms : Terms K L S ε) (m : L) (t : K) (base : DiscretizedAssetBase K L)
    (own own₀ : S) : Prop :=
  ∀ stops, seen (session lattices terms m t stops ⟨base, own⟩) = seen (session lattices terms m t stops ⟨.default, own₀⟩)

/-- No mark is close to the time. -/
def Unmarked (base : DiscretizedAssetBase K L) (t : K) : Prop := ∀ pass, marked t (base.latest pass) = false

variable {lattices : L → Lattice K} {lattice : Lattice K} {terms : Terms K L S ε} {m : L} {t t' stop : K}
variable {base : DiscretizedAssetBase K L} {own own₀ : S} {done : CouponAdjustment → Prop} {pass : CouponAdjustment}

/-- The two assets are alike but for the marks of the passes that are not done, which are those of the used one and of a
fresh one. -/
structure Pending (base : DiscretizedAssetBase K L) (m : L) (t : K) (done : CouponAdjustment → Prop)
    (s u : Asset K L S) : Prop where
  method : s.base.method = some m ∧ u.base.method = some m
  time   : s.base.time = t ∧ u.base.time = t
  values : s.base.values = u.base.values
  own    : s.own = u.own
  made   : ∀ pass, done pass → s.base.latest pass = u.base.latest pass
  due    : ∀ pass, ¬ done pass → s.base.latest pass = base.latest pass ∧ u.base.latest pass = none

omit [Field K] [LinearOrder K] in
theorem Pending.eq {s u : Asset K L S} (h : Pending base m t done s u) (hdone : ∀ pass, done pass) : s = u := by
  obtain ⟨⟨time, pre, post, values, method⟩, own⟩ := s
  obtain ⟨⟨time', pre', post', values', method'⟩, own'⟩ := u
  simp only [Asset.mk.injEq, DiscretizedAssetBase.mk.injEq]
  exact ⟨⟨h.time.1.trans h.time.2.symm, h.made .pre (hdone .pre), h.made .post (hdone .post), h.values,
    h.method.1.trans h.method.2.symm⟩, h.own⟩

omit [Field K] [LinearOrder K] in
theorem call_pending (impl : Impl K L S ε) :
    Relates (Pending base m t done) (call impl) (call impl) (Pending base m t done) := by
  intro s u h
  rw [call_eq, call_eq, h.method.1, h.method.2, h.time.1, h.time.2, h.values, h.own]
  rcases impl (some m) t (u.base.values, u.own) with ⟨e | _, v⟩
  · exact ⟨rfl, fun _ he => by cases he⟩
  · refine ⟨rfl, fun _ _ => ⟨h.method, h.time, rfl, rfl, fun pass hpass => ?_, fun pass hpass => ?_⟩⟩
    · cases pass <;> exact h.made _ hpass
    · cases pass <;> exact h.due _ hpass

theorem guarded_pending (hnot : ¬ done pass) (hmarked : marked t (base.latest pass) = false) :
    Relates (Pending base m t done) (guarded pass terms) (guarded pass terms)
      (Pending base m t (fun pass' => done pass' ∨ pass' = pass)) := by
  have hdue : ∀ s u : Asset K L S, Pending base m t done s u → marked s.base.time (s.base.latest pass) = false ∧
      marked u.base.time (u.base.latest pass) = false := by
    intro s u h
    rw [(h.due pass hnot).1, (h.due pass hnot).2, h.time.1]
    exact ⟨hmarked, rfl⟩
  refine guarded_relates (fun s u h => (hdue s u h).1.trans (hdue s u h).2.symm) (fun s u h hmade => ?_)
    (call_pending _) (fun s u h => ?_)
  · rw [(hdue s u h).1] at hmade
    cases hmade
  · refine ⟨⟨mark_method.trans h.method.1, mark_method.trans h.method.2⟩,
      ⟨mark_time.trans h.time.1, mark_time.trans h.time.2⟩, ?_, h.own, fun pass' hpass => ?_, fun pass' hpass => ?_⟩
    · cases pass <;> exact h.values
    · change (s.base.mark pass).latest pass' = (u.base.mark pass).latest pass'
      by_cases he : pass' = pass
      · rw [he, latest_mark, latest_mark, h.time.1, h.time.2]
      · rw [latest_mark_ne he, latest_mark_ne he]
        exact h.made pass' (hpass.resolve_right he)
    · change (s.base.mark pass).latest pass' = _ ∧ (u.base.mark pass).latest pass' = _
      rw [latest_mark_ne (mt Or.inr hpass), latest_mark_ne (mt Or.inr hpass)]
      exact h.due pass' (mt Or.inl hpass)

/-- **Adjustments that both assets make** leave them the same. -/
theorem adjustValues_pending (h : Unmarked base t) :
    Relates (Pending base m t (fun _ => False)) (adjustValues terms) (adjustValues terms) (· = ·) := by
  have hpre : Relates (Pending base m t (fun _ => False)) (preAdjustValues terms) (preAdjustValues terms) _ :=
    guarded_pending not_false (h .pre)
  have hpost : Relates (Pending base m t (fun pass => False ∨ pass = .pre)) (postAdjustValues terms)
      (postAdjustValues terms) (Pending base m t (fun pass => (False ∨ pass = .pre) ∨ pass = .post)) :=
    guarded_pending (by simp) (h .post)
  refine (Relates.bind hpre (fun _ => hpost)).weaken (fun _ _ h => h) (fun s u h => h.eq (fun pass => ?_))
  cases pass <;> simp

/-- The two assets are the same, or both are about to make their adjustments. -/
def Settling (base : DiscretizedAssetBase K L) (m : L) (s u : Asset K L S) : Prop :=
  s = u ∨ ∃ t, Unmarked base t ∧ Pending base m t (fun _ => False) s u

theorem adjustValues_settling : Relates (Settling base m) (adjustValues terms) (adjustValues terms) (· = ·) := by
  rintro s u (rfl | ⟨t, ht, h⟩)
  · exact Relates.refl _ s s rfl
  · exact adjustValues_pending ht s u h

theorem slices_pending (ht : Unmarked base t) (iTo : ℕ) : ∀ n,
    (∀ t', lattice.timeGrid.times[iTo + n - 1]? = some t' → 0 < n → Unmarked base t') →
    Relates (Pending base m t (fun _ => False)) (lattice.slices terms iTo n) (lattice.slices terms iTo n) (Settling base m)
  | 0, _         => (Relates.pure ()).weaken (fun _ _ h => h) (fun _ _ h => .inr ⟨t, ht, h⟩)
  | n + 1, hnext => by
    have hstep : Relates (Pending base m t (fun _ => False))
        (lattice.stepTo (iTo + n) : Prog (Asset K L S) (Failure K ε) Unit) (lattice.stepTo (iTo + n))
        (fun s u => ∃ t, Unmarked base t ∧ Pending base m t (fun _ => False) s u) := by
      refine stepTo_relates (fun s u h => h.values) (fun s u h time values htime => ?_)
      refine ⟨time, hnext time htime n.succ_pos, h.method, ⟨rfl, rfl⟩, rfl, h.own, fun _ => False.elim, fun pass hpass => ?_⟩
      rw [latest_update, latest_update]
      exact h.due pass hpass
    refine Relates.bind hstep (fun _ => ?_)
    cases n with
    | zero   =>
      rw [if_neg (by simp), Lattice.slices]
      exact (Relates.bind (Relates.pure ()) (fun _ => Relates.pure ())).weaken (fun _ _ h => h) (fun _ _ h => .inr h)
    | succ n =>
      rw [if_pos (by omega)]
      refine Relates.bind (adjustValues_settling.weaken (fun _ _ h => .inr h) (fun _ _ h => h)) (fun _ => ?_)
      exact (Relates.refl _).weaken (fun _ _ h => h) (fun _ _ h => .inl h)

/-- The marks of the used asset are close to no time at which its first adjustment after `t` can be due. -/
def ClearOf (lattice : Lattice K) (base : DiscretizedAssetBase K L) (t : K) : Prop :=
  ∀ i, lattice.timeGrid.index t = .ok i → Unmarked base t ∧
    ∀ stop iTo t', ¬ Math.close t stop = true → stop < t → lattice.timeGrid.index stop = .ok iTo → iTo < i →
      lattice.timeGrid.times[i - 1]? = some t' → Unmarked base t'

theorem rollback_pending (hclear : ClearOf (lattices m) base t) (hunmarked : Unmarked base t) (stop : K) :
    Relates (Pending base m t (fun _ => False)) (rollback lattices terms stop) (rollback lattices terms stop) (· = ·) := by
  have hpartial : Relates (Pending base m t (fun _ => False)) ((lattices m).partialRollback terms stop)
      ((lattices m).partialRollback terms stop) (Settling base m) := by
    have hstay : ∀ s u : Asset K L S, Pending base m t (fun _ => False) s u → Settling base m s u :=
      fun s u h => .inr ⟨t, hunmarked, h⟩
    refine Relates.get_bind (fun s u h => ?_)
    dsimp only
    rw [h.time.1, h.time.2]
    refine Relates.weaken (Relates.ite (fun _ => (Relates.pure ()).weaken (fun _ _ h => h) hstay) (fun hclose => ?_))
      (fun _ _ hsu => hsu.1 ▸ hsu.2 ▸ h) (fun _ _ h => h)
    refine Relates.require_bind (fun hlt => ?_)
    refine Relates.lift_bind (fun iFrom hFrom => Relates.lift_bind (fun iTo hTo => ?_))
    have hFrom := mapError_eq_ok.1 hFrom
    refine slices_pending hunmarked iTo _ (fun t' ht' hpos => ?_)
    rw [show iTo + (iFrom - iTo) - 1 = iFrom - 1 by omega] at ht'
    exact (hclear iFrom hFrom).2 stop iTo t' hclose hlt (mapError_eq_ok.1 hTo) (by omega) ht'
  intro s u h
  unfold rollback
  rw [Prog.run_bind, Prog.run_bind, requireMethod_eq h.method.1, requireMethod_eq h.method.2]
  exact Relates.bind hpartial (fun _ => adjustValues_settling) s u h

omit [LinearOrder K] in
/-- The part of the reset before the adjustments leaves both assets about to make them. -/
theorem resetBefore_pending (hover : Overwrites terms m t base own own₀) (size : ℕ) :
    Relates (fun s u => s = ⟨{ base with method := some m, time := t }, own⟩ ∧
        u = ⟨{ (DiscretizedAssetBase.default : DiscretizedAssetBase K L) with method := some m, time := t }, own₀⟩)
      (call (terms.resetBefore size)) (call (terms.resetBefore size)) (Pending base m t (fun _ => False)) := by
  rintro s u ⟨rfl, rfl⟩
  rw [call_eq, call_eq]
  dsimp only [DiscretizedAssetBase.default]
  rw [hover size]
  refine ⟨rfl, fun _ _ => ⟨⟨rfl, rfl⟩, ⟨rfl, rfl⟩, rfl, rfl, fun _ => False.elim, fun pass _ => ?_⟩⟩
  cases pass <;> exact ⟨rfl, rfl⟩

theorem initializeOn_relates {Q : Asset K L S → Asset K L S → Prop} (hover : Overwrites terms m t base own own₀)
    (hadjust : ∀ i, (lattices m).timeGrid.index t = .ok i → Relates (Pending base m t (fun _ => False))
      (if terms.adjusts then adjustValues terms else pure ()) (if terms.adjusts then adjustValues terms else pure ()) Q)
    (hafter : ∀ size, Relates Q (call (terms.resetAfter size)) (call (terms.resetAfter size)) Q) :
    Relates (fun s u => s = ⟨base, own⟩ ∧ u = ⟨.default, own₀⟩) (initializeOn lattices terms m t)
      (initializeOn lattices terms m t) Q := by
  refine Relates.bind (Q := fun s u => s = ⟨{ base with method := some m }, own⟩ ∧
    u = ⟨{ (DiscretizedAssetBase.default : DiscretizedAssetBase K L) with method := some m }, own₀⟩) (Relates.modify ?_) (fun _ => ?_)
  · rintro s u ⟨rfl, rfl⟩
    exact ⟨rfl, rfl⟩
  refine Relates.lift_bind (fun i hi => Relates.bind (Relates.modify ?_) (fun _ =>
    Relates.bind (resetBefore_pending hover _) (fun _ => ?_)))
  · rintro s u ⟨rfl, rfl⟩
    exact ⟨rfl, rfl⟩
  · exact Relates.bind (hadjust i (mapError_eq_ok.1 hi)) (fun _ => hafter _)

omit [Field K] [LinearOrder K] in
theorem seen_eq {P Q : Asset K L S → Asset K L S → Prop} {x : Prog (Asset K L S) (Failure K ε) Unit} {s u : Asset K L S}
    (h : Relates P x x Q) (hP : P s u)
    (hQ : ∀ s u, Q s u → s.base.time = u.base.time ∧ s.base.values = u.base.values ∧ s.own = u.own) :
    seen (x s) = seen (x u) := by
  obtain ⟨heq, hend⟩ := h s u hP
  unfold seen
  rw [← heq]
  rcases hx : (x s).1 with e | a
  · rfl
  · obtain ⟨htime, hvalues, hown⟩ := hQ _ _ (hend a hx)
    rw [htime, hvalues, hown]

/-- An asset that adjusts in its reset, and whose marks are not close to the time. -/
theorem likeFresh_of_adjusts (hover : Overwrites terms m t base own own₀) (hadjusts : terms.adjusts = true)
    (h : ∀ i, (lattices m).timeGrid.index t = .ok i → Unmarked base t) : LikeFresh lattices terms m t base own own₀ := by
  intro stops
  refine seen_eq (Relates.bind (initializeOn_relates hover (fun i hi => ?_) (fun _ => Relates.refl _))
    (fun _ => Relates.refl _)) ⟨rfl, rfl⟩ (fun s u he => by rw [he]; exact ⟨rfl, rfl, rfl⟩)
  rw [if_pos hadjusts]
  exact adjustValues_pending (h i hi)

theorem likeFresh_of_clear (hover : Overwrites terms m t base own own₀) (h : ClearOf (lattices m) base t) :
    LikeFresh lattices terms m t base own own₀ := by
  by_cases hadjusts : terms.adjusts = true
  · exact likeFresh_of_adjusts hover hadjusts (fun i hi => (h i hi).1)
  intro stops
  have hinit : Relates (fun s u => s = ⟨base, own⟩ ∧ u = ⟨.default, own₀⟩) (initializeOn lattices terms m t)
      (initializeOn lattices terms m t)
      (fun s u => (∃ i, (lattices m).timeGrid.index t = .ok i) ∧ Pending base m t (fun _ => False) s u) := by
    refine initializeOn_relates hover (fun i hi => ?_) (fun size s u hsu => ?_)
    · rw [if_neg hadjusts]
      exact (Relates.pure ()).weaken (fun _ _ h => h) (fun _ _ h => ⟨⟨i, hi⟩, h⟩)
    · obtain ⟨heq, hend⟩ := call_pending (terms.resetAfter size) s u hsu.2
      exact ⟨heq, fun a ha => ⟨hsu.1, hend a ha⟩⟩
  cases stops with
  | nil             =>
    refine seen_eq (Relates.bind hinit (fun _ => Relates.pure ())) ⟨rfl, rfl⟩ (fun s u hsu => ?_)
    exact ⟨hsu.2.time.1.trans hsu.2.time.2.symm, hsu.2.values, hsu.2.own⟩
  | cons stop stops =>
    refine seen_eq (Relates.bind hinit (fun _ => Relates.bind ?_ (fun _ => Relates.refl _))) ⟨rfl, rfl⟩
      (fun s u he => by rw [he]; exact ⟨rfl, rfl, rfl⟩)
    rintro s u ⟨⟨i, hi⟩, hsu⟩
    exact rollback_pending h (h i hi).1 stop s u hsu

/-! ## An asset that can tell -/

/-- The first adjustment fails at the time, the ones after it do nothing. -/
def pickyImpl (t : K) : Impl K L Bool Unit := fun _ time => do
  let s ← Prog.get
  if s.2 then pure ()
  else do
    Prog.require (time ≠ t) (.asset ())
    Prog.modify (fun s => (s.1, true))

/-- An asset whose first adjustment in one pass fails at one time. -/
def picky (adjusts : Bool) (pass : CouponAdjustment) (t : K) : Terms K L Bool Unit where
  resetBefore size       := fun _ _ => Prog.modify (fun s => (List.replicate size 0, s.2))
  adjusts                := adjusts
  resetAfter _           := fun _ _ => pure ()
  preAdjustValuesImpl    := if pass = .pre then pickyImpl t else fun _ _ => pure ()
  postAdjustValuesImpl   := if pass = .post then pickyImpl t else fun _ _ => pure ()

variable {adjusts : Bool} {pass' : CouponAdjustment} {i : ℕ}

theorem picky_impl : (picky adjusts pass t : Terms K L Bool Unit).adjustValuesImpl pass' =
    if pass = pass' then pickyImpl t else fun _ _ => pure () := by
  cases pass' <;> rfl

omit [Field K] in
theorem call_picky (t : K) (s : Asset K L Bool) : call (pickyImpl t) s =
    if s.own = true then (.ok (), s)
    else if s.base.time = t then (.error (.asset ()), s) else (.ok (), { s with own := true }) := by
  unfold call Prog.zoom pickyImpl
  rw [Prog.run_bind]
  dsimp only [Prog.get]
  by_cases hown : s.own = true
  · rw [if_pos hown, if_pos hown]
    rfl
  · rw [if_neg hown, if_neg hown]
    by_cases ht : s.base.time = t
    · rw [if_pos ht, Prog.require_neg (not_not.2 ht)]
      rfl
    · rw [if_neg ht, Prog.require, if_pos ht]
      rfl

/-- The asset has not adjusted in the pass, and has the mark of before, or it has. -/
def Spared (base : DiscretizedAssetBase K L) (pass : CouponAdjustment) (s : Asset K L Bool) : Prop :=
  s.own = false → s.base.latest pass = base.latest pass

/-- The program does not fail for the asset's own error. -/
abbrev Spares (base : DiscretizedAssetBase K L) (pass : CouponAdjustment) {α : Type} (x : Prog (Asset K L Bool) (Failure K Unit) α) :
    Prop :=
  Triple (Spared base pass) x (fun _ => Spared base pass) (fun e _ => e ≠ .asset ())

theorem guarded_spares (hmarked : marked t (base.latest pass) = true) :
    Spares base pass (guarded pass' (picky adjusts pass t)) := by
  intro s hs
  rw [guarded_eq, picky_impl]
  by_cases h : marked s.base.time (s.base.latest pass') = true
  · rw [if_pos h]
    exact hs
  rw [if_neg h, Prog.run_bind]
  by_cases he : pass = pass'
  · subst he
    rw [if_pos rfl, call_picky]
    by_cases hown : s.own = true
    · rw [if_pos hown]
      exact fun hfalse => absurd (hown.symm.trans hfalse) (by simp)
    · have htime : s.base.time ≠ t := fun htime => h (by rw [hs (Bool.eq_false_iff.2 hown), htime, hmarked])
      rw [if_neg hown, if_neg htime]
      exact fun hfalse => absurd hfalse (by simp)
  · rw [if_neg he]
    exact fun hown => (latest_mark_ne he).trans (hs hown)

theorem adjustValues_spares (hmarked : marked t (base.latest pass) = true) :
    Spares base pass (adjustValues (picky adjusts pass t)) :=
  Triple.bind (guarded_spares hmarked) (fun _ => guarded_spares hmarked)

omit [Field K] [LinearOrder K] in
theorem lift_spares {α ε' : Type} {f : ε' → Failure K Unit} (hf : ∀ e, f e ≠ .asset ()) (x : Except ε' α) :
    Spares base pass (Prog.lift (x.mapError f)) := by
  intro s hs
  cases x with
  | error e => exact hf e
  | ok a    => exact hs

omit [Field K] [LinearOrder K] in
theorem modify_spares {f : Asset K L Bool → Asset K L Bool}
    (hf : ∀ s, (f s).own = s.own ∧ (f s).base.latest pass = s.base.latest pass) : Spares base pass (Prog.modify f) :=
  Triple.modify (fun s hs hown => (hf s).2.trans (hs ((hf s).1.symm.trans hown)))

omit [LinearOrder K] in
theorem stepTo_spares (lattice : Lattice K) (i : ℕ) : Spares base pass (lattice.stepTo i) := by
  refine Triple.bind ((Triple.get _).weaken (fun _ h => h) (fun _ _ h => h.2)) (fun s₀ => ?_)
  refine Triple.bind (lift_spares (fun _ h => by cases h) _) (fun values => ?_)
  refine Triple.bind (lift_spares (fun _ h => by cases h) _) (fun time => ?_)
  refine Triple.bind (modify_spares (fun s => ⟨rfl, ?_⟩)) (fun _ => modify_spares (fun s => ⟨rfl, ?_⟩)) <;>
    cases pass <;> rfl

theorem slices_spares (hmarked : marked t (base.latest pass) = true) (lattice : Lattice K) (iTo : ℕ) : ∀ n,
    Spares base pass (lattice.slices (picky adjusts pass t) iTo n)
  | 0     => Triple.pure () (fun _ hs => hs)
  | n + 1 => by
    refine Triple.bind (stepTo_spares lattice _) (fun _ => Triple.bind ?_ (fun _ => slices_spares hmarked lattice iTo n))
    exact Triple.ite (fun _ => adjustValues_spares hmarked) (fun _ => Triple.pure () (fun _ hs => hs))

theorem rollback_spares (hmarked : marked t (base.latest pass) = true) (lattices : L → Lattice K) (stop : K) :
    Spares base pass (rollback lattices (picky adjusts pass t) stop) := by
  have hget : Spares base pass (Prog.get : Prog (Asset K L Bool) (Failure K Unit) _) :=
    (Triple.get _).weaken (fun _ h => h) (fun _ _ h => h.2)
  have hmethod : Spares base pass (requireMethod : Prog (Asset K L Bool) (Failure K Unit) L) := by
    refine Triple.bind hget (fun s => ?_)
    cases s.base.method with
    | none   => exact Triple.fail _ (fun _ _ h => by cases h)
    | some m => exact Triple.pure m (fun _ hs => hs)
  refine Triple.bind hmethod (fun m => Triple.bind (Triple.bind hget (fun s => ?_)) (fun _ => adjustValues_spares hmarked))
  refine Triple.ite (fun _ => Triple.pure () (fun _ hs => hs)) (fun _ => ?_)
  refine Triple.bind ((Triple.require (fun _ _ _ h => by cases h)).weaken (fun _ h => h) (fun _ _ h => h.2)) (fun _ => ?_)
  refine Triple.bind (lift_spares (fun _ h => by cases h) _) (fun iFrom => ?_)
  refine Triple.bind (lift_spares (fun _ h => by cases h) _) (fun iTo => ?_)
  exact slices_spares hmarked _ iTo _

theorem rollbacks_spares (hmarked : marked t (base.latest pass) = true) (lattices : L → Lattice K) : ∀ stops,
    Spares base pass (rollbacks lattices (picky adjusts pass t) stops)
  | []            => Triple.pure () (fun _ hs => hs)
  | stop :: stops => Triple.bind (rollback_spares hmarked lattices stop) (fun _ => rollbacks_spares hmarked lattices stops)

/-- **The used asset does not fail** at the time, when a mark of before is close to it. -/
theorem session_spares (hmarked : marked t' (base.latest pass) = true) (lattices : L → Lattice K) (m : L) (t : K) (stops : List K) :
    (session lattices (picky adjusts pass t') m t stops ⟨base, false⟩).1 ≠ .error (.asset ()) := by
  have hcall : ∀ impl : Impl K L Bool Unit, (∀ method time v, (impl method time v).1 = .ok () ∧ (impl method time v).2.2 = v.2) →
      Spares base pass (call impl) := by
    intro impl himpl s hs
    rw [call_eq, (himpl _ _ _).1]
    intro hown
    have := hs ((himpl _ _ _).2.symm.trans hown)
    cases pass <;> exact this
  have hinit : Spares base pass (initializeOn lattices (picky adjusts pass t') m t) := by
    refine Triple.bind (modify_spares (fun s => ⟨rfl, by cases pass <;> rfl⟩)) (fun _ => ?_)
    refine Triple.bind (lift_spares (fun _ h => by cases h) _) (fun i => ?_)
    refine Triple.bind (modify_spares (fun s => ⟨rfl, by cases pass <;> rfl⟩)) (fun _ => ?_)
    refine Triple.bind (hcall _ (fun _ _ _ => ⟨rfl, rfl⟩)) (fun _ => Triple.bind ?_ (fun _ => hcall _ (fun _ _ _ => ⟨rfl, rfl⟩)))
    exact Triple.ite (fun _ => adjustValues_spares hmarked) (fun _ => Triple.pure () (fun _ hs => hs))
  have hsession : Spares base pass (session lattices (picky adjusts pass t') m t stops) :=
    Triple.bind hinit (fun _ => rollbacks_spares hmarked lattices stops)
  have hend := hsession ⟨base, false⟩ (fun _ => rfl)
  intro he
  rcases hrun : session lattices (picky adjusts pass t') m t stops ⟨base, false⟩ with ⟨e | _, s⟩ <;> rw [hrun] at he hend
  · cases he
    exact hend rfl
  · cases he

/-! ## The freshly built asset -/

/-- The asset has not adjusted in the pass at all. -/
def Unadjusted (pass : CouponAdjustment) (s : Asset K L Bool) : Prop := s.own = false ∧ s.base.latest pass = none

/-- **The first adjustment at the time fails.** -/
theorem adjustValues_fails {s : Asset K L Bool} (hs : Unadjusted pass s) :
    (adjustValues (picky adjusts pass s.base.time) s).1 = .error (.asset ()) := by
  have hfails : ∀ s : Asset K L Bool, Unadjusted pass s →
      guarded pass (picky adjusts pass s.base.time) s = (.error (.asset ()), s) := by
    intro s hs
    rw [guarded_eq, hs.2, if_neg (show ¬ marked _ none = true from Bool.false_ne_true), picky_impl, if_pos rfl,
      Prog.run_bind, call_picky, if_neg (by rw [hs.1]; exact Bool.false_ne_true), if_pos rfl]
  unfold adjustValues
  rw [Prog.run_bind]
  cases pass with
  | pre  =>
    rw [preAdjustValues, hfails s hs]
  | post =>
    have hpre : preAdjustValues (picky adjusts .post s.base.time) s = (.ok (), s) ∨
        preAdjustValues (picky adjusts .post s.base.time) s = (.ok (), { s with base := s.base.mark .pre }) := by
      unfold preAdjustValues
      rw [guarded_eq]
      split
      · exact .inl rfl
      · exact .inr rfl
    rcases hpre with h | h
    · rw [h]
      exact congrArg Prod.fst (hfails s hs)
    · rw [h]
      exact congrArg Prod.fst (hfails { s with base := s.base.mark .pre } hs)

/-- The fresh asset on the lattice, before the adjustments of the reset. -/
def started (lattice : Lattice K) (m : L) (t : K) (i : ℕ) : Asset K L Bool :=
  ⟨⟨t, none, none, List.replicate (lattice.implementation.size i) 0, some m⟩, false⟩

theorem initializeOn_fresh (hi : (lattices m).timeGrid.index t = .ok i) (adjusts : Bool) (pass : CouponAdjustment) (t' : K) :
    initializeOn lattices (picky adjusts pass t') m t ⟨.default, false⟩ =
      ((if adjusts then adjustValues (picky adjusts pass t') else pure ()) >>= fun _ => pure ()) (started (lattices m) m t i) := by
  unfold initializeOn Lattice.initializeAsset
  rw [hi]
  rfl

/-- **The fresh asset fails in its reset**, when the first adjustment is due there. -/
theorem initializeOn_fails (hi : (lattices m).timeGrid.index t = .ok i) (pass : CouponAdjustment) :
    (initializeOn lattices (picky true pass t) m t ⟨.default, false⟩).1 = .error (.asset ()) := by
  rw [initializeOn_fresh hi, if_pos rfl, Prog.bind_pure]
  exact adjustValues_fails (s := started (lattices m) m t i) ⟨rfl, by cases pass <;> rfl⟩

/-- **The fresh asset fails in its first rollback** past the time, when the first adjustment is due at the node before. -/
theorem rollback_fails (hi : (lattices m).timeGrid.index t = .ok i) (hclose : ¬ Math.close t stop = true) (hlt : stop < t) {iTo : ℕ}
    (hTo : (lattices m).timeGrid.index stop = .ok iTo) (hiTo : iTo < i) (ht' : (lattices m).timeGrid.times[i - 1]? = some t')
    (pass : CouponAdjustment) :
    (rollback lattices (picky false pass t') stop (started (lattices m) m t i)).1 = .error (.asset ()) := by
  obtain ⟨n, rfl⟩ : ∃ n, i = iTo + (n + 1) := ⟨i - iTo - 1, by omega⟩
  rw [show iTo + (n + 1) - 1 = iTo + n by omega] at ht'
  have hzero : ∀ k, List.replicate k (0 : K) = table k (fun _ => 0) :=
    fun k => by rw [table, List.map_const', List.length_range]
  obtain ⟨values, hstep⟩ : ∃ values, (lattices m).stepTo (iTo + n) (started (lattices m) m t (iTo + (n + 1))) =
      ((.ok () : Except (Failure K Unit) Unit), (⟨⟨t', none, none, values, some m⟩, false⟩ : Asset K L Bool)) := by
    refine ⟨table ((lattices m).implementation.size (iTo + n)) (Flow.pull (lattices m).implementation.size
      (weight (lattices m).implementation) (iTo + n) (fun _ => 0)), ?_⟩
    unfold Lattice.stepTo started
    rw [Prog.run_bind]
    dsimp only [Prog.get]
    rw [hzero, hzero, ← Nat.add_assoc, stepback_eq, fetch, ht']
    rfl
  have hslices : partialRollback lattices (picky false pass t') stop (started (lattices m) m t (iTo + (n + 1))) =
      (lattices m).slices (picky false pass t') iTo (n + 1) (started (lattices m) m t (iTo + (n + 1))) := by
    rw [partialRollback_slices (m := m) ⟨rfl, rfl⟩ hclose hlt hi hTo, Nat.add_sub_cancel_left]
  have hfails : (adjustValues (picky false pass t') (⟨⟨t', none, none, values, some m⟩, false⟩ : Asset K L Bool)).1 =
      .error (.asset ()) :=
    adjustValues_fails (s := ⟨⟨t', none, none, values, some m⟩, false⟩) ⟨rfl, by cases pass <;> rfl⟩
  rw [rollback_of_slices, Prog.run_bind, hslices, ← Prog.run_bind, slices_adjustValues, sweep, Prog.run_bind, hstep]
  dsimp only
  rw [Prog.run_bind]
  rcases hrun : adjustValues (picky false pass t') (⟨⟨t', none, none, values, some m⟩, false⟩ : Asset K L Bool) with ⟨e | _, s⟩ <;>
    rw [hrun] at hfails
  · exact hfails
  · cases hfails

/-- A session in which the fresh asset fails for its own error, and the used one does not. -/
theorem told (hmarked : marked t' (base.latest pass) = true) (stops : List K)
    (hfresh : (session lattices (picky adjusts pass t') m t stops ⟨.default, false⟩).1 = .error (.asset ())) :
    ¬ LikeFresh lattices (picky adjusts pass t') m t base false false := by
  intro h
  have hseen := h stops
  have hspared : (session lattices (picky adjusts pass t') m t stops ⟨base, false⟩).1 ≠ _ :=
    session_spares hmarked lattices m t stops
  unfold seen at hseen
  rw [hfresh] at hseen
  rcases hused : (session lattices (picky adjusts pass t') m t stops ⟨base, false⟩).1 with e | _ <;> rw [hused] at hseen hspared
  · exact hspared (congrArg Except.error (Except.error.inj hseen))
  · cases hseen

theorem told_in_reset (hi : (lattices m).timeGrid.index t = .ok i) (hmarked : marked t (base.latest pass) = true) :
    ¬ LikeFresh lattices (picky true pass t) m t base false false := by
  have hfails := initializeOn_fails hi pass
  refine told hmarked [] ?_
  unfold session
  rw [Prog.run_bind]
  rcases hrun : initializeOn lattices (picky true pass t) m t ⟨.default, false⟩ with ⟨e | _, s⟩ <;> rw [hrun] at hfails
  · exact hfails
  · cases hfails

theorem told_in_rollback (hi : (lattices m).timeGrid.index t = .ok i) (hclose : ¬ Math.close t stop = true) (hlt : stop < t)
    {iTo : ℕ} (hTo : (lattices m).timeGrid.index stop = .ok iTo) (hiTo : iTo < i)
    (ht' : (lattices m).timeGrid.times[i - 1]? = some t') (hmarked : marked t' (base.latest pass) = true) :
    ¬ LikeFresh lattices (picky false pass t') m t base false false := by
  have hfails := rollback_fails hi hclose hlt hTo hiTo ht' pass
  refine told hmarked [stop] ?_
  unfold session rollbacks
  rw [Prog.run_bind, initializeOn_fresh hi, if_neg Bool.false_ne_true]
  change ((rollback lattices (picky false pass t') stop >>= fun _ => rollbacks lattices (picky false pass t') [])
    (started (lattices m) m t i)).1 = _
  rw [Prog.run_bind]
  rcases hrun : rollback lattices (picky false pass t') stop (started (lattices m) m t i) with ⟨e | _, s⟩ <;> rw [hrun] at hfails
  · exact hfails
  · cases hfails

/-! ## Re-initialisation -/

/-- **Re-initialisation.**  Whatever the lattice, the time and the base of a used asset: no session tells any asset that
adjusts in its reset from a freshly built one, exactly when no mark is close to the time; and none tells any asset at all,
exactly when in addition no mark is close to the node before, where some rollback goes past it. -/
theorem reinitialize_iff (lattices : L → Lattice K) (m : L) (base : DiscretizedAssetBase K L) (t : K) :
    ((∀ (S ε : Type) (terms : Terms K L S ε) (own own₀ : S), terms.adjusts = true → Overwrites terms m t base own own₀ →
        LikeFresh lattices terms m t base own own₀) ↔
      ∀ i, (lattices m).timeGrid.index t = .ok i → Unmarked base t) ∧
    ((∀ (S ε : Type) (terms : Terms K L S ε) (own own₀ : S), Overwrites terms m t base own own₀ →
        LikeFresh lattices terms m t base own own₀) ↔ ClearOf (lattices m) base t) := by
  have hovers : ∀ adjusts pass t', Overwrites (picky adjusts pass t' : Terms K L Bool Unit) m t base false false :=
    fun _ _ _ _ => rfl
  refine ⟨⟨fun h i hi pass => ?_, fun h S ε terms own own₀ hadjusts hover => likeFresh_of_adjusts hover hadjusts h⟩,
    fun h i hi => ⟨fun pass => ?_, fun stop iTo t' hclose hlt hTo hiTo ht' pass => ?_⟩,
    fun h S ε terms own own₀ hover => likeFresh_of_clear hover h⟩
  · exact Bool.eq_false_iff.2 (fun hmarked => told_in_reset hi hmarked (h Bool Unit _ _ _ rfl (hovers true pass t)))
  · exact Bool.eq_false_iff.2 (fun hmarked => told_in_reset hi hmarked (h Bool Unit _ _ _ (hovers true pass t)))
  · exact Bool.eq_false_iff.2 (fun hmarked =>
      told_in_rollback hi hclose hlt hTo hiTo ht' hmarked (h Bool Unit _ _ _ (hovers false pass t')))

/-- An option that is exercised at the time where it is put on the lattice, on a bond that pays there. -/
def atExpiry : Terms ℚ Unit (Asset ℚ Unit Unit) Empty :=
  DiscretizedOption.terms (fun _ => flat [0, 1]) discountBond ⟨.european, [1]⟩

/-- **The option put on the lattice once more is worth nothing**, where a freshly built one is exercised. -/
theorem reinitialised_option :
    ∃ bond, initializeOn (fun _ => flat [0, 1]) (discountBond (ε := Empty)) () 1 ⟨.default, ()⟩ = (.ok (), bond) ∧
    ∃ used, initializeOn (fun _ => flat [0, 1]) atExpiry () 1 ⟨.default, bond⟩ = (.ok (), used) ∧ used.base.values = [1] ∧
      (∃ again, initializeOn (fun _ => flat [0, 1]) atExpiry () 1 used = (.ok (), again) ∧ again.base.values = [0]) ∧
      (∃ fresh, initializeOn (fun _ => flat [0, 1]) atExpiry () 1 ⟨.default, used.own⟩ = (.ok (), fresh) ∧
        fresh.base.values = [1]) ∧
      ¬ LikeFresh (fun _ => flat [0, 1]) atExpiry () 1 used.base used.own used.own := by
  refine ⟨(initializeOn (fun _ => flat [0, 1]) (discountBond (ε := Empty)) () 1 ⟨.default, ()⟩).2,
    Prod.ext (by decide +kernel) rfl, _, Prod.ext (by decide +kernel) rfl, by decide +kernel,
    ⟨_, Prod.ext (by decide +kernel) rfl, by decide +kernel⟩, ⟨_, Prod.ext (by decide +kernel) rfl, by decide +kernel⟩, ?_⟩
  intro h
  exact absurd (h []) (by decide +kernel)

end Itofin.Discretized
