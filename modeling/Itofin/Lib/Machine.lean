/-!
# Machines — a partial step function, its runs and what a run preserves

A machine is a step function `step : σ → α → Option σ`: `none` says that the action is not enabled.  A run is a list of
actions, and whoever chooses the actions is the environment: a statement about every run is a statement about every
interleaving of the environment's choices.  `run_invariant` is the induction over a run, and `run_invariant_along` the
same induction for runs whose steps all meet a side condition (`along`).
-/
namespace Machine

variable {σ α : Type} {step : σ → α → Option σ}

/-- The state after the actions, `none` once an action is not enabled. -/
def run (step : σ → α → Option σ) : σ → List α → Option σ
  | s, []      => some s
  | s, a :: as => (step s a).bind (fun s' => run step s' as)

/-- **Every step of the run meets `ok`**, read at the state before it. -/
def along (step : σ → α → Option σ) (ok : σ → α → Prop) : σ → List α → Prop
  | _, []      => True
  | s, a :: as => ok s a ∧ match step s a with
    | none    => True
    | some s' => along step ok s' as

instance decidableAlong {ok : σ → α → Prop} [∀ s a, Decidable (ok s a)] :
    ∀ (s : σ) (as : List α), Decidable (along step ok s as)
  | _, []      => .isTrue trivial
  | s, a :: as => @instDecidableAnd _ _ _ (match step s a with
    | none    => .isTrue trivial
    | some s' => decidableAlong s' as)

theorem along_of_forall {ok : α → Prop} : ∀ (as : List α) (s : σ), (∀ a ∈ as, ok a) →
    along step (fun _ a => ok a) s as
  | [], _, _ => trivial
  | a :: as, s, h => by
    refine ⟨h a List.mem_cons_self, ?_⟩
    split
    · trivial
    · exact along_of_forall as _ (fun b hb => h b (List.mem_cons_of_mem _ hb))

theorem run_cons {s s' : σ} {a : α} {as : List α} :
    run step s (a :: as) = some s' ↔ ∃ m, step s a = some m ∧ run step m as = some s' := by
  simp only [run, Option.bind_eq_some_iff]

theorem run_concat : ∀ (as : List α) (a : α) (s : σ), run step s (as ++ [a]) = (run step s as).bind (fun m => step m a)
  | [], a, s      => by
    rw [List.nil_append, run, run, Option.bind_some]
    cases step s a <;> rfl
  | b :: as, a, s => by
    rw [List.cons_append, run, run, Option.bind_assoc]
    exact congrArg _ (funext (fun m => run_concat as a m))

/-- **What every enabled step preserves holds after every run.** -/
theorem run_invariant (I : σ → Prop) (hstep : ∀ s a s', I s → step s a = some s' → I s') :
    ∀ (as : List α) (s s' : σ), I s → run step s as = some s' → I s'
  | [], s, s', hi, h => by
    simp only [run, Option.some.injEq] at h
    rw [← h]; exact hi
  | a :: as, s, s', hi, h => by
    obtain ⟨m, hm, hr⟩ := run_cons.1 h
    exact run_invariant I hstep as m s' (hstep s a m hi hm) hr

/-- **What every enabled step that meets the side condition preserves holds after every run whose steps all do.** -/
theorem run_invariant_along (I : σ → Prop) (ok : σ → α → Prop)
    (hstep : ∀ s a s', I s → ok s a → step s a = some s' → I s') :
    ∀ (as : List α) (s s' : σ), I s → along step ok s as → run step s as = some s' → I s'
  | [], s, s', hi, _, h => by
    simp only [run, Option.some.injEq] at h
    rw [← h]; exact hi
  | a :: as, s, s', hi, hok, h => by
    obtain ⟨m, hm, hr⟩ := run_cons.1 h
    simp only [along, hm] at hok
    exact run_invariant_along I ok hstep as m s' (hstep s a m hi hok.1 hm) hok.2 hr

/-- **Where the side condition says exactly when a step preserves `I`**, it says so of a run: `I` holds in every state
of it exactly when every step meets the condition. -/
theorem always_iff_along (I : σ → Prop) (ok : σ → α → Prop)
    (hstep : ∀ s a s', I s → step s a = some s' → (I s' ↔ ok s a)) :
    ∀ (as : List α) (s s' : σ), I s → run step s as = some s' →
      ((∀ k w, run step s (as.take k) = some w → I w) ↔ along step ok s as)
  | [], s, s', hi, _ => by
    refine ⟨fun _ => trivial, fun _ k w h => ?_⟩
    rw [List.take_nil, run, Option.some.injEq] at h
    rwa [← h]
  | a :: as, s, s', hi, h => by
    obtain ⟨m, hm, hr⟩ := run_cons.1 h
    simp only [along, hm]
    have tail := always_iff_along I ok hstep as m s'
    constructor
    · intro hall
      have him : I m := hall 1 m (run_cons.2 ⟨m, hm, rfl⟩)
      refine ⟨(hstep s a m hi hm).1 him, (tail him hr).1 (fun k w hw => ?_)⟩
      exact hall (k + 1) w (run_cons.2 ⟨m, hm, hw⟩)
    · rintro ⟨hok, halong⟩ k w hw
      have him : I m := (hstep s a m hi hm).2 hok
      cases k with
      | zero => rwa [← Option.some.inj hw]
      | succ k =>
        obtain ⟨m', hm', hw⟩ := run_cons.1 hw
        rw [hm, Option.some.injEq] at hm'
        exact (tail him hr).2 halong k w (hm' ▸ hw)

/-- **A simulation**: what relates every enabled step to one of the other machine relates the runs. -/
theorem run_simulation {τ : Type} (step' : τ → α → Option τ) (R : σ → τ → Prop)
    (hstep : ∀ s t a s', R s t → step s a = some s' → ∃ t', step' t a = some t' ∧ R s' t') :
    ∀ (as : List α) (s s' : σ) (t : τ), R s t → run step s as = some s' → ∃ t', run step' t as = some t' ∧ R s' t'
  | [], s, s', t, hr, h => ⟨t, rfl, Option.some.inj h ▸ hr⟩
  | a :: as, s, s', t, hr, h => by
    obtain ⟨m, hm, h⟩ := run_cons.1 h
    obtain ⟨n, hn, hr⟩ := hstep s t a m hr hm
    obtain ⟨t', ht, hr⟩ := run_simulation step' R hstep as m s' n hr h
    exact ⟨t', run_cons.2 ⟨n, hn, ht⟩, hr⟩

end Machine
