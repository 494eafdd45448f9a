import Itofin.Math.Optimization
/-!
# Model — the arguments of a calibrated model and the writes of its parameters

`CalibratedModel` of `models/model.rs` and the trait of its holders.  `params` are the values of the arguments in order,
and `write_params` puts a vector back into the arguments with one running index, so that a vector of the wrong size is
found out on the way, or at the end.  A write leaves the vector laid over the values that were there (`overlay`).

A holder keeps state derived from its arguments: the trait regenerates it after the write, and two models check the
vector before it (`Holder`).
-/
namespace Itofin

open Effect

variable {K D W : Type}

/-- The fields of a `CalibratedModel`; an argument is the list of its values. -/
structure CalibratedModel (K : Type) where
  arguments          : List (List K)
  endCriteria        : EndCriteriaType
  problemValues      : List K
  functionEvaluation : ℤ

namespace CalibratedModel

def params (m : CalibratedModel K) : List K := m.arguments.flatten

/-- A turn of the outer loop of `write_params`: the values of one argument, from the running index on. -/
def writeArgument (params : List K) : List K → ℕ → List K × Except String ℕ
  | [], p      => ([], .ok p)
  | v :: vs, p => match params[p]? with
    | some x => (x :: (writeArgument params vs (p + 1)).1, (writeArgument params vs (p + 1)).2)
    | none   => (v :: vs, .error "parameter array too small")

/-- The loops of `write_params`. -/
def writeArguments (params : List K) : List (List K) → ℕ → List (List K) × Except String ℕ
  | [], p                    => ([], .ok p)
  | argument :: arguments, p => match writeArgument params argument p with
    | (argument, .ok p)    => (argument :: (writeArguments params arguments p).1, (writeArguments params arguments p).2)
    | (argument, .error e) => (argument :: arguments, .error e)

def writeParams (params : List K) : Prog (CalibratedModel K) String Unit := fun m =>
  match writeArguments params m.arguments 0 with
  | (arguments, .error e) => (.error e, { m with arguments := arguments })
  | (arguments, .ok p)    =>
    (if p = params.length then .ok () else .error "parameter array too big!", { m with arguments := arguments })

end CalibratedModel

/-! ## What a write leaves -/

/-- The values of a vector over those that were there, as far as it goes. -/
def overlay : List K → List K → List K
  | [], _           => []
  | v :: vs, []     => v :: vs
  | _ :: vs, x :: xs => x :: overlay vs xs

@[simp] theorem overlay_nil : ∀ (values : List K), overlay values [] = values
  | []     => rfl
  | _ :: _ => rfl

@[simp] theorem overlay_length : ∀ (values xs : List K), (overlay values xs).length = values.length
  | [], _            => by simp [overlay]
  | _ :: _, []       => by simp
  | _ :: vs, _ :: xs => by simp [overlay, overlay_length vs xs]

theorem overlay_of_length : ∀ {values xs : List K}, xs.length = values.length → overlay values xs = xs
  | [], xs, h            => by
    rw [List.length_nil, List.length_eq_zero_iff] at h
    simp [h]
  | _ :: _, [], h        => by simp at h
  | _ :: vs, x :: xs, h  => by
    have hxs : xs.length = vs.length := by simpa using h
    simp [overlay, overlay_of_length hxs]

theorem overlay_append : ∀ (a b xs : List K), overlay (a ++ b) xs = overlay a xs ++ overlay b (xs.drop a.length)
  | [], _, _            => by simp [overlay]
  | _ :: _, _, []       => by simp
  | _ :: a, b, _ :: xs  => by simp [overlay, overlay_append a b xs]

/-- Nothing changes exactly when the vector agrees with the values, as far as both go. -/
theorem overlay_eq_self : ∀ {values xs : List K},
    overlay values xs = values ↔ xs.take values.length = values.take xs.length
  | [], xs           => by simp [overlay]
  | _ :: _, []       => by simp
  | _ :: vs, _ :: xs => by
    simp only [overlay, List.cons.injEq, List.length_cons, List.take_succ_cons]
    exact and_congr_right (fun _ => overlay_eq_self)

namespace CalibratedModel

theorem writeArgument_eq (params : List K) : ∀ (values : List K) (p : ℕ), p ≤ params.length →
    writeArgument params values p = (overlay values (params.drop p),
      if p + values.length ≤ params.length then .ok (p + values.length) else .error "parameter array too small")
  | [], p, h      => by simp [writeArgument, overlay, h]
  | v :: vs, p, h => by
    by_cases hp : p < params.length
    · have hlen : p + (vs.length + 1) = p + 1 + vs.length := by omega
      rw [writeArgument, List.getElem?_eq_getElem hp, List.drop_eq_getElem_cons hp,
        writeArgument_eq params vs (p + 1) hp]
      simp [overlay, hlen]
    · have heq : p = params.length := by omega
      subst heq
      simp [writeArgument]

theorem writeArguments_eq (params : List K) : ∀ (arguments : List (List K)) (p : ℕ), p ≤ params.length →
    (writeArguments params arguments p).1.flatten = overlay arguments.flatten (params.drop p) ∧
    (writeArguments params arguments p).1.map List.length = arguments.map List.length ∧
    (writeArguments params arguments p).2 = if p + arguments.flatten.length ≤ params.length
      then .ok (p + arguments.flatten.length) else .error "parameter array too small"
  | [], p, h                    => by simp [writeArguments, overlay, h]
  | argument :: arguments, p, h => by
    rw [writeArguments, writeArgument_eq params argument p h, List.flatten_cons, overlay_append]
    by_cases hp : p + argument.length ≤ params.length
    · obtain ⟨hflat, hshape, hend⟩ := writeArguments_eq params arguments (p + argument.length) hp
      rw [if_pos hp]
      refine ⟨?_, ?_, ?_⟩
      · simp [hflat, List.drop_drop]
      · simp [hshape]
      · simp only [hend, List.length_append, Nat.add_assoc]
    · have hdrop : (params.drop p).drop argument.length = [] := by
        rw [List.drop_drop]
        exact List.drop_eq_nil_of_le (by omega)
      have hsum : ¬ p + (argument.length + arguments.flatten.length) ≤ params.length := by omega
      rw [if_neg hp, List.length_append, if_neg hsum, hdrop]
      simp

/-- **What `write_params` leaves**: the vector over the values that were there, in arguments of the same sizes.  It
succeeds exactly on a vector of the right size. -/
theorem writeParams_spec (params : List K) (m : CalibratedModel K) : ∃ r arguments,
    writeParams params m = (r, { m with arguments := arguments }) ∧ arguments.flatten = overlay m.params params ∧
      arguments.map List.length = m.arguments.map List.length ∧ (r = .ok () ↔ params.length = m.params.length) := by
  obtain ⟨hflat, hshape, hend⟩ := writeArguments_eq params m.arguments 0 (Nat.zero_le _)
  rw [List.drop_zero] at hflat
  rw [Nat.zero_add] at hend
  refine ⟨(writeParams params m).1, (writeArguments params m.arguments 0).1, ?_, hflat, hshape, ?_⟩
  · rw [writeParams]
    split <;> rename_i h <;> simp [h]
  · rw [writeParams, CalibratedModel.params]
    split <;> rename_i h <;> rw [h] at hend
    · refine iff_of_false (fun he => nomatch he) (fun hlen => ?_)
      rw [if_pos (Nat.le_of_eq hlen.symm)] at hend
      exact nomatch hend
    · split at hend
      · obtain rfl := Except.ok.inj hend
        by_cases hlen : m.arguments.flatten.length = params.length
        · exact iff_of_true (by rw [if_pos hlen]) hlen.symm
        · exact iff_of_false (by rw [if_neg hlen]; exact nofun) (Ne.symm hlen)
      · exact nomatch hend

end CalibratedModel

/-! ## The holders -/

/-- What the `set_params` of a holder does before it writes: nothing by default, a check of the parameters
(`BatesModel`), or the construction of the new derived state (`GjrGarchModel`). -/
inductive Setter (K D W : Type) where
  | standard
  | validated (validate : List K → Except String Unit)
  | rebuilt (rebuild : List K → D → W → Except String D)

/-- A `CalibratedModelHolder`: the derived state `D` is a function of the arguments and of the world outside, which also
has the observers. -/
structure Holder (K D W : Type) where
  setter            : Setter K D W
  generateArguments : List K → D → W → D
  observers         : W → W
  constraint        : List (List K) → List K → Bool

/-- A model, its derived state and the world outside. -/
structure ModelState (K D W : Type) where
  model     : CalibratedModel K
  derived   : D
  world     : W
  /-- The arguments that the derived state was last rebuilt from. -/
  generated : List (List K)
  /-- The arguments when the observers were last notified. -/
  notified  : List (List K)

/-- Neither the derived state nor the observers are out of date. -/
def ModelState.Current (s : ModelState K D W) : Prop :=
  s.generated = s.model.arguments ∧ s.notified = s.model.arguments

namespace Holder

variable (h : Holder K D W)

def writeParams (params : List K) : Prog (ModelState K D W) String Unit := fun s =>
  ((CalibratedModel.writeParams params s.model).1, { s with model := (CalibratedModel.writeParams params s.model).2 })

def regenerate (s : ModelState K D W) : ModelState K D W :=
  { s with derived := h.generateArguments s.model.params s.derived s.world, generated := s.model.arguments }

def notifyObservers (s : ModelState K D W) : ModelState K D W :=
  { s with world := h.observers s.world, notified := s.model.arguments }

/-- `set_params` of the trait and of the two models that have their own. -/
def setParams (params : List K) : Prog (ModelState K D W) String Unit :=
  match h.setter with
  | .standard           => do
    writeParams params
    Prog.modify h.regenerate
    Prog.modify h.notifyObservers
  | .validated validate => do
    Prog.lift (validate params)
    writeParams params
    Prog.modify h.regenerate
    Prog.modify h.notifyObservers
  | .rebuilt rebuild    => do
    let s ← Prog.get
    let derived ← Prog.lift (rebuild params s.derived s.world)
    writeParams params
    Prog.modify (fun s => { s with derived := derived, generated := s.model.arguments })
    Prog.modify h.notifyObservers

/-- The check before the write. -/
def check (params : List K) (s : ModelState K D W) : Except String Unit :=
  match h.setter with
  | .standard           => .ok ()
  | .validated validate => validate params
  | .rebuilt rebuild    => (rebuild params s.derived s.world).map (fun _ => ())

/-- A write, and after it a new derived state and the notification: the write may fail, and then it ends there. -/
theorem write_cases (derive : ModelState K D W → ModelState K D W) (hmodel : ∀ s, (derive s).model = s.model)
    (hgenerated : ∀ s, (derive s).generated = s.model.arguments) (params : List K) (s : ModelState K D W) :
    ∃ arguments, arguments.flatten = overlay s.model.params params ∧
      arguments.map List.length = s.model.arguments.map List.length ∧
      ((params.length ≠ s.model.params.length ∧
        ∃ e, (do writeParams params; Prog.modify derive; Prog.modify h.notifyObservers : Prog _ _ Unit) s =
          (.error e, { s with model := { s.model with arguments := arguments } })) ∨
      (params.length = s.model.params.length ∧
        ∃ s', (do writeParams params; Prog.modify derive; Prog.modify h.notifyObservers : Prog _ _ Unit) s =
          (.ok (), s') ∧ s'.model = { s.model with arguments := arguments } ∧ s'.Current)) := by
  obtain ⟨r, arguments, hwrite, hflat, hshape, hr⟩ := CalibratedModel.writeParams_spec params s.model
  refine ⟨arguments, hflat, hshape, ?_⟩
  cases r with
  | error e =>
    left
    refine ⟨(fun hlen => nomatch hr.2 hlen), e, ?_⟩
    simp [writeParams, hwrite]
  | ok u =>
    right
    let written : ModelState K D W := { s with model := { s.model with arguments := arguments } }
    refine ⟨hr.1 rfl, h.notifyObservers (derive written), ?_, ?_, ?_⟩
    · simp [writeParams, hwrite, written]
    · exact hmodel _
    · constructor <;> simp [notifyObservers, hmodel, hgenerated]

/-- **`set_params`** stops at its check, or writes; a write that fails ends there, and one that succeeds leaves nothing
out of date. -/
theorem setParams_cases (params : List K) (s : ModelState K D W) :
    (∃ e, h.check params s = .error e ∧ h.setParams params s = (.error e, s)) ∨
    (h.check params s = .ok () ∧ ∃ arguments, arguments.flatten = overlay s.model.params params ∧
      arguments.map List.length = s.model.arguments.map List.length ∧
      ((params.length ≠ s.model.params.length ∧
        ∃ e, h.setParams params s = (.error e, { s with model := { s.model with arguments := arguments } })) ∨
      (params.length = s.model.params.length ∧ ∃ s', h.setParams params s = (.ok (), s') ∧
        s'.model = { s.model with arguments := arguments } ∧ s'.Current))) := by
  unfold check setParams
  cases h.setter with
  | standard           =>
    right
    exact ⟨rfl, h.write_cases h.regenerate (fun _ => rfl) (fun _ => rfl) params s⟩
  | validated validate =>
    cases hv : validate params with
    | error e =>
      left
      exact ⟨e, by simp [hv], by simp [hv]⟩
    | ok u    =>
      right
      refine ⟨by simp [hv], ?_⟩
      simpa [hv] using h.write_cases h.regenerate (fun _ => rfl) (fun _ => rfl) params s
  | rebuilt rebuild    =>
    cases hr : rebuild params s.derived s.world with
    | error e => 
      left
      exact ⟨e, by simp [hr, Except.map], by simp [hr]⟩
    | ok d    =>
      right
      refine ⟨by simp [hr, Except.map], ?_⟩
      simpa [hr] using h.write_cases
        (fun s => { s with derived := d, generated := s.model.arguments }) (fun _ => rfl) (fun _ => rfl) params s

/-- What is asked of a write of the parameters: it succeeds and the parameters are the vector, or it fails and the
arguments are as they were; and nothing is left out of date. -/
def AllOrNothing (params : List K) (s : ModelState K D W) : Prop :=
  match h.setParams params s with
  | (.ok (), s')   => s'.model.params = params ∧ s'.Current
  | (.error _, s') => s'.model.arguments = s.model.arguments ∧ (s.Current → s'.Current)

/-- **A write of the parameters is all-or-nothing exactly when** the holder's check refuses the vector, or the vector
has the size of the parameters, or it repeats them as far as both go. -/
theorem allOrNothing_iff (params : List K) (s : ModelState K D W) :
    h.AllOrNothing params s ↔ (∃ e, h.check params s = .error e) ∨ params.length = s.model.params.length ∨
      params.take s.model.params.length = s.model.params.take params.length := by
  unfold AllOrNothing
  rcases h.setParams_cases params s with
    ⟨e, hc, hs⟩ | ⟨hc, arguments, hflat, hshape, ⟨hlen, e, hs⟩ | ⟨hlen, s', hs, hm, hcur⟩⟩
  · rw [hs]
    exact iff_of_true ⟨rfl, id⟩ (.inl ⟨e, hc⟩)
  · rw [hs]
    have hkeep : arguments = s.model.arguments ↔
        params.take s.model.params.length = s.model.params.take params.length := by
      rw [← overlay_eq_self, List.eq_iff_flatten_eq, hflat]
      simp [hshape, CalibratedModel.params]
    constructor
    · intro hall
      exact .inr (.inr (hkeep.1 hall.1))
    · rintro (⟨e', he⟩ | hl | ht)
      · rw [hc] at he
        exact nomatch he
      · exact absurd hl hlen
      · have hargs := hkeep.2 ht
        subst hargs
        exact ⟨rfl, id⟩
  · rw [hs]
    refine iff_of_true ⟨?_, hcur⟩ (.inr (.inl hlen))
    rw [hm, CalibratedModel.params, hflat, overlay_of_length hlen]

/-- A vector too short by one for two arguments of one value each: it fails with the first argument written. -/
theorem not_allOrNothing_short : ¬ ∀ (h : Holder ℕ Unit Unit) (params : List ℕ) (s : ModelState ℕ Unit Unit),
    h.AllOrNothing params s := by
  intro hall
  have := hall ⟨.standard, fun _ d _ => d, id, fun _ _ => true⟩ [3]
    ⟨⟨[[1], [2]], .none, [], 0⟩, (), (), [[1], [2]], [[1], [2]]⟩
  exact absurd this.1 (by decide)

end Holder
end Itofin
