import Mathlib.Data.List.Basic
import Mathlib.Tactic.Common
/-!
# Effect — programs on a state that can fail

A program reads and writes a state and ends with a value or an error; the state stays as it is after an error.  A triple
says what holds of the value and the state, or of the error and the state, when the program starts in a state that meets
the precondition.  Every construct has its rule, and the loop over a list is proved by an invariant on the number of
turns (`Triple.each`).
-/
namespace Effect

variable {σ ε ε' α β : Type}

theorem bind_eq_ok {x : Except ε α} {f : α → Except ε β} {b : β} :
    x >>= f = .ok b ↔ ∃ a, x = .ok a ∧ f a = .ok b := by
  cases x with
  | error e => exact iff_of_false (by rintro ⟨⟩) (by rintro ⟨_, ⟨⟩, _⟩)
  | ok a    => exact ⟨fun h => ⟨a, rfl, h⟩, by rintro ⟨_, ⟨⟩, h⟩; exact h⟩

theorem length_of_mapM_eq_ok {f : β → Except ε α} : ∀ {l : List β} {as : List α}, l.mapM f = .ok as → as.length = l.length
  | [], _, h      => by
    cases h
    rfl
  | b :: l, as, h => by
    rw [List.mapM_cons] at h
    obtain ⟨a, -, h⟩ := bind_eq_ok.1 h
    obtain ⟨as', has, h⟩ := bind_eq_ok.1 h
    cases h
    exact congrArg (· + 1) (length_of_mapM_eq_ok has)

theorem forall₂_of_mapM_eq_ok {f : β → Except ε α} : ∀ {l : List β} {as : List α}, l.mapM f = .ok as →
    List.Forall₂ (fun b a => f b = .ok a) l as
  | [], _, h      => by
    rw [List.mapM_nil] at h
    cases h
    exact .nil
  | b :: l, _, h => by
    rw [List.mapM_cons] at h
    obtain ⟨a, ha, h⟩ := bind_eq_ok.1 h
    obtain ⟨as, has, h⟩ := bind_eq_ok.1 h
    cases h
    exact .cons ha (forall₂_of_mapM_eq_ok has)

theorem map_eq_ok {x : Except ε α} {f : α → β} {b : β} : x.map f = .ok b ↔ ∃ a, x = .ok a ∧ f a = b := by
  cases x with
  | error e => exact iff_of_false (by rintro ⟨⟩) (by rintro ⟨_, ⟨⟩, _⟩)
  | ok a    => exact ⟨fun h => ⟨a, rfl, Except.ok.inj h⟩, by rintro ⟨_, ⟨⟩, rfl⟩; rfl⟩

theorem mapError_eq_ok {x : Except ε α} {f : ε → ε'} {a : α} : x.mapError f = .ok a ↔ x = .ok a := by
  cases x <;> simp [Except.mapError]

/-- A program: from a state, a value or an error, and the state after it. -/
def Prog (σ ε α : Type) : Type := σ → Except ε α × σ

namespace Prog

protected def bind (x : Prog σ ε α) (f : α → Prog σ ε β) : Prog σ ε β := fun s =>
  match x s with
  | (.ok a, s)    => f a s
  | (.error e, s) => (.error e, s)

instance : Monad (Prog σ ε) where
  pure a s := (.ok a, s)
  bind := Prog.bind

def fail (e : ε) : Prog σ ε α := fun s => (.error e, s)

def get : Prog σ ε σ := fun s => (.ok s, s)

def modify (f : σ → σ) : Prog σ ε Unit := fun s => (.ok (), f s)

def lift (x : Except ε α) : Prog σ ε α := fun s => (x, s)

def require (condition : Prop) [Decidable condition] (e : ε) : Prog σ ε Unit :=
  if condition then pure () else fail e

def mapError (f : ε → ε') (x : Prog σ ε α) : Prog σ ε' α := fun s => ((x s).1.mapError f, (x s).2)

/-- The value or the error, as a value. -/
def attempt (x : Prog σ ε α) : Prog σ ε' (Except ε α) := fun s => (.ok (x s).1, (x s).2)

theorem require_neg {condition : Prop} [Decidable condition] (h : ¬ condition) (e : ε) (f : Unit → Prog σ ε β) :
    (require condition e >>= f) = fail e := by
  rw [require, if_neg h]
  rfl

@[simp] theorem run_pure (a : α) (s : σ) : (pure a : Prog σ ε α) s = (.ok a, s) := rfl

@[simp] theorem run_get (s : σ) : (get : Prog σ ε σ) s = (.ok s, s) := rfl

@[simp] theorem run_modify (f : σ → σ) (s : σ) : (modify f : Prog σ ε Unit) s = (.ok (), f s) := rfl

@[simp] theorem run_lift (x : Except ε α) (s : σ) : lift x s = (x, s) := rfl

@[simp] theorem run_require (condition : Prop) [Decidable condition] (e : ε) (s : σ) :
    require condition e s = (if condition then .ok () else .error e, s) := by
  unfold require
  split <;> rfl

@[simp] theorem run_bind (x : Prog σ ε α) (f : α → Prog σ ε β) (s : σ) : (x >>= f) s = match x s with
    | (.ok a, s)    => f a s
    | (.error e, s) => (.error e, s) := rfl

theorem run_bind_eq_ok {x : Prog σ ε α} {f : α → Prog σ ε β} {s s' : σ} {b : β} :
    (x >>= f) s = (.ok b, s') ↔ ∃ a t, x s = (.ok a, t) ∧ f a t = (.ok b, s') := by
  rw [run_bind]
  rcases x s with ⟨e | a, t⟩
  · exact ⟨fun h => (by cases h), fun ⟨_, _, h, _⟩ => (by cases h)⟩
  · exact ⟨fun h => ⟨a, t, rfl, h⟩, fun ⟨_, _, h, h'⟩ => (by cases h; exact h')⟩

theorem lift_bind_eq_ok {x : Except ε α} {f : α → Prog σ ε β} {s s' : σ} {b : β} :
    (lift x >>= f) s = (.ok b, s') ↔ ∃ a, x = .ok a ∧ f a s = (.ok b, s') := by
  rw [run_bind_eq_ok]
  constructor
  · rintro ⟨a, t, h, h'⟩
    cases h
    exact ⟨a, rfl, h'⟩
  · rintro ⟨a, rfl, h'⟩
    exact ⟨a, s, rfl, h'⟩

protected theorem bind_pure (x : Prog σ ε α) : (x >>= fun a => pure a) = x := by
  funext s
  rw [run_bind]
  rcases x s with ⟨_ | _, _⟩ <;> rfl

protected theorem bind_assoc {γ : Type} (x : Prog σ ε α) (f : α → Prog σ ε β) (g : β → Prog σ ε γ) :
    x >>= f >>= g = x >>= fun a => f a >>= g := by
  funext s
  rw [run_bind, run_bind, run_bind]
  rcases x s with ⟨_ | _, _⟩ <;> rfl

/-- `for (i, b) in (i..).zip(bs) { f(i, b)?; }` -/
def each : ℕ → List β → (ℕ → β → Prog σ ε Unit) → Prog σ ε Unit
  | _, [], _      => pure ()
  | i, b :: bs, f => do
    f i b
    each (i + 1) bs f

/-- `for b in bs { done.push(f(b)?); }` -/
def collect (f : β → Prog σ ε α) : List β → Prog σ ε (List α)
  | []      => pure []
  | b :: bs => do
    let a ← f b
    let done ← collect f bs
    return a :: done

/-- A program that leaves no trace is worked out where it starts. -/
theorem collect_run {f : β → Prog σ ε α} {g : β → Except ε α} {s : σ} : ∀ {l : List β},
    (∀ b ∈ l, f b s = (g b, s)) → collect f l s = (l.mapM g, s)
  | [], _     => rfl
  | b :: l, h => by
    have hb := h b (by simp)
    have hl := collect_run (l := l) fun b hb => h b (by simp [hb])
    cases hx : g b <;> cases hrest : l.mapM g <;> simp [collect, hb, hl, hx, hrest] <;> rfl

/-- A program on a part of the state. -/
def zoom {τ : Type} (part : σ → τ) (put : τ → σ → σ) (x : Prog τ ε α) : Prog σ ε α := fun s =>
  ((x (part s)).1, put (x (part s)).2 s)

/-- `loop { .. }` with a bound on its turns: a turn ends the loop with a value, or leaves what the next one starts from.
`none` is that the turns did not do. -/
def loop (body : α → Prog σ ε (β ⊕ α)) : ℕ → α → Prog σ ε (Option β)
  | 0, _         => pure none
  | turns + 1, a => do
    match ← body a with
    | .inl b => return some b
    | .inr a => loop body turns a

end Prog

/-- From states that meet `P`, the program ends with a value and a state that meet `Q`, or with an error and a state that
meet `R`. -/
def Triple (P : σ → Prop) (x : Prog σ ε α) (Q : α → σ → Prop) (R : ε → σ → Prop) : Prop :=
  ∀ s, P s → match x s with
    | (.ok a, s)    => Q a s
    | (.error e, s) => R e s

namespace Triple

variable {P P' : σ → Prop} {Q Q' : α → σ → Prop} {R : ε → σ → Prop} {x : Prog σ ε α} {s s' : σ}

theorem of_keeps (h : ∀ s, P s → P (x s).2) : Triple P x (fun _ => P) (fun _ => P) := by
  intro s hs
  have := h s hs
  rcases hx : x s with ⟨e | a, s'⟩ <;> rwa [hx] at this

/-- The state after a program that ends alike with a value and with an error. -/
theorem after {Q : σ → Prop} (h : Triple P x (fun _ => Q) (fun _ => Q)) (hs : P s) : Q (x s).2 := by
  have := h s hs
  rcases hx : x s with ⟨e | a, s'⟩ <;> rwa [hx] at this

theorem pure (a : α) (h : ∀ s, P s → Q a s) : Triple P (Pure.pure a : Prog σ ε α) Q R := h

theorem fail (e : ε) (h : ∀ s, P s → R e s) : Triple P (Prog.fail e : Prog σ ε α) Q R := h

theorem bind {f : α → Prog σ ε β} {Q' : β → σ → Prop} (hx : Triple P x Q R) (hf : ∀ a, Triple (Q a) (f a) Q' R) :
    Triple P (x >>= f) Q' R := by
  intro s hs
  change match Prog.bind x f s with
    | (.ok b, s)    => Q' b s
    | (.error e, s) => R e s
  rw [Prog.bind]
  have := hx s hs
  rcases h : x s with ⟨e | a, s'⟩
  · rw [h] at this
    exact this
  · rw [h] at this
    exact hf a s' this

/-- What is run after a program matters only in the states that it leaves. -/
theorem bind_congr {f g : α → Prog σ ε β} (h : Triple P x Q R) (hs : P s) (hfg : ∀ a s, Q a s → f a s = g a s) :
    (x >>= f) s = (x >>= g) s := by
  have := h s hs
  rw [Prog.run_bind, Prog.run_bind]
  rcases hx : x s with ⟨e | a, s'⟩
  · rfl
  · rw [hx] at this
    exact hfg a s' this

theorem get (P : σ → Prop) : Triple P (Prog.get : Prog σ ε σ) (fun a s => a = s ∧ P s) R := fun _ hs => ⟨rfl, hs⟩

theorem modify {f : σ → σ} {Q : σ → Prop} (h : ∀ s, P s → Q (f s)) :
    Triple P (Prog.modify f : Prog σ ε Unit) (fun _ => Q) R := h

theorem lift {x : Except ε α} (hok : ∀ a s, x = .ok a → P s → Q a s) (herr : ∀ e s, x = .error e → P s → R e s) :
    Triple P (Prog.lift x : Prog σ ε α) Q R := by
  intro s hs
  cases x with
  | ok a    => exact hok a s rfl hs
  | error e => exact herr e s rfl hs

theorem lift_keeps (x : Except ε α) : Triple P (Prog.lift x : Prog σ ε α) (fun a s => P s ∧ x = .ok a) (fun _ => P) :=
  lift (fun _ _ h hs => ⟨hs, h⟩) (fun _ _ _ hs => hs)

theorem of_fact {c : Prop} (h : c → Triple P x Q R) : Triple (fun s => P s ∧ c) x Q R := fun s hs => h hs.2 s hs.1

theorem require {condition : Prop} [Decidable condition] {e : ε} (h : ¬ condition → ∀ s, P s → R e s) :
    Triple P (Prog.require condition e : Prog σ ε Unit) (fun _ s => condition ∧ P s) R := by
  intro s hs
  rw [Prog.require]
  by_cases hc : condition
  · rw [if_pos hc]
    exact ⟨hc, hs⟩
  · rw [if_neg hc]
    exact h hc s hs

theorem require_keeps (c : Prop) [Decidable c] (e : ε) :
    Triple P (Prog.require c e : Prog σ ε Unit) (fun _ s => P s ∧ c) (fun _ => P) := by
  intro s hs
  rw [Prog.require]
  by_cases hc : c
  · rw [if_pos hc]
    exact ⟨hs, hc⟩
  · rw [if_neg hc]
    exact hs

theorem mapError {f : ε → ε'} {R : ε' → σ → Prop} (h : Triple P x Q (fun e => R (f e))) :
    Triple P (x.mapError f) Q R := by
  intro s hs
  have := h s hs
  unfold Prog.mapError
  rcases hx : x s with ⟨e | a, s'⟩ <;> rw [hx] at this <;> exact this

theorem attempt {Q : α → σ → Prop} {R : ε → σ → Prop} {R' : ε' → σ → Prop} (h : Triple P x Q R) :
    Triple P (x.attempt : Prog σ ε' (Except ε α)) (fun r s => match r with
      | .ok a    => Q a s
      | .error e => R e s) R' := by
  intro s hs
  have := h s hs
  unfold Prog.attempt
  rcases hx : x s with ⟨e | a, s'⟩ <;> rw [hx] at this <;> exact this

theorem weaken (h : Triple P x Q R) (hP : ∀ s, P' s → P s) (hQ : ∀ a s, Q a s → Q' a s) : Triple P' x Q' R := by
  intro s hs
  have := h s (hP s hs)
  rcases hx : x s with ⟨e | a, s'⟩ <;> rw [hx] at this
  · exact this
  · exact hQ a s' this

theorem onError {R' : ε → σ → Prop} (h : Triple P x Q R) (hR : ∀ e s, R e s → R' e s) : Triple P x Q R' := by
  intro s hs
  have := h s hs
  rcases hx : x s with ⟨e | a, s'⟩ <;> rw [hx] at this
  · exact hR e s' this
  · exact this

theorem with_run (h : Triple P x Q R) : Triple P x (fun a s' => Q a s' ∧ ∃ s, x s = (.ok a, s')) R := by
  intro s hs
  have := h s hs
  rcases hx : x s with ⟨e | a, s'⟩ <;> rw [hx] at this
  · exact this
  · exact ⟨this, s, hx⟩

theorem with_run_from {s₀ : σ} (h : Triple (· = s₀) x Q R) :
    Triple (· = s₀) x (fun a s' => Q a s' ∧ x s₀ = (.ok a, s')) R := by
  rintro s rfl
  have := h s rfl
  rcases hx : x s with ⟨e | a, s'⟩ <;> rw [hx] at this
  · exact this
  · exact ⟨this, rfl⟩

/-- **The rule of the loop.** -/
theorem each (inv : ℕ → σ → Prop) : ∀ (bs : List β) (i k : ℕ) {f : ℕ → β → Prog σ ε Unit},
    (∀ n b, bs[n]? = some b → Triple (inv (k + n)) (f (i + n) b) (fun _ => inv (k + n + 1)) R) →
      Triple (inv k) (Prog.each i bs f) (fun _ => inv (k + bs.length)) R
  | [], _, _, _, _      => Triple.pure () (fun _ hs => hs)
  | b :: bs, i, k, f, h => by
    have ih := each inv bs (i + 1) (k + 1) (f := f) (fun n c hc => by
      have := h (n + 1) c (by rwa [List.getElem?_cons_succ])
      rwa [show i + (n + 1) = i + 1 + n by omega, show k + (n + 1) = k + 1 + n by omega] at this)
    rw [show k + 1 + bs.length = k + (b :: bs).length by rw [List.length_cons]; omega] at ih
    exact Triple.bind (h 0 b rfl) (fun _ => ih)

theorem ite {c : Prop} [Decidable c] {y : Prog σ ε α} (hx : c → Triple P x Q R) (hy : ¬ c → Triple P y Q R) :
    Triple P (if c then x else y) Q R := by
  split
  · rename_i h
    exact hx h
  · rename_i h
    exact hy h

theorem zoom {τ : Type} {part : σ → τ} {put : τ → σ → σ} {P : τ → Prop} {Q : α → τ → Prop} {R : ε → τ → Prop}
    {x : Prog τ ε α} (h : Triple P x Q R) (frame : σ → Prop) :
    Triple (fun s => P (part s) ∧ frame s) (x.zoom part put) (fun a s => ∃ s₀ t, s = put t s₀ ∧ Q a t ∧ frame s₀)
      (fun e s => ∃ s₀ t, s = put t s₀ ∧ R e t ∧ frame s₀) := by
  intro s hs
  have := h (part s) hs.1
  unfold Prog.zoom
  rcases hx : x (part s) with ⟨e | a, t⟩ <;> rw [hx] at this <;> exact ⟨s, t, rfl, this, hs.2⟩

/-- **The rule of the loop that counts**: a count that every turn raises and that stays under a limit ends the loop within as
many turns. -/
theorem loop {γ : Type} (limit : ℕ) (inv : ℕ → α → σ → Prop) {body : α → Prog σ ε (γ ⊕ α)} {Q : γ → σ → Prop}
    (hlimit : ∀ k a s, inv k a s → k < limit)
    (h : ∀ k a, Triple (inv k a) (body a) (fun r s => match r with
      | .inl b => Q b s
      | .inr a => inv (k + 1) a s) R) : ∀ (turns k : ℕ) (a : α), limit ≤ k + turns →
      Triple (inv k a) (Prog.loop body turns a) (fun r s => ∃ b, r = some b ∧ Q b s) R
  | 0, k, a, hle         => fun s hs => absurd (hlimit k a s hs) (Nat.not_lt.2 hle)
  | turns + 1, k, a, hle => by
    refine Triple.bind (h k a) (fun r => ?_)
    cases r with
    | inl b  => exact Triple.pure _ (fun _ hs => ⟨b, rfl, hs⟩)
    | inr a' => exact loop limit inv hlimit h turns (k + 1) a' (by omega)

/-- **The rule of the loop, however many its turns.** -/
theorem loop_always {γ : Type} (inv : α → σ → Prop) {body : α → Prog σ ε (γ ⊕ α)} {Q : γ → σ → Prop}
    (h : ∀ a, Triple (inv a) (body a) (fun r s => match r with
      | .inl b => Q b s
      | .inr a => inv a s) R) : ∀ (turns : ℕ) (a : α),
      Triple (inv a) (Prog.loop body turns a) (fun r s => match r with
        | some b => Q b s
        | none   => ∃ a, inv a s) R
  | 0, a         => Triple.pure _ (fun _ hs => ⟨a, hs⟩)
  | turns + 1, a => by
    refine Triple.bind (h a) (fun r => ?_)
    cases r with
    | inl b  => exact Triple.pure _ (fun _ hs => hs)
    | inr a' => exact loop_always inv h turns a'

/-- **The rule of the loop that carries a value.** -/
theorem foldlM (inv : β → σ → Prop) {f : β → α → Prog σ ε β} : ∀ (l : List α) (b : β),
    (∀ b, ∀ a ∈ l, Triple (inv b) (f b a) inv R) → Triple (inv b) (l.foldlM f b) inv R
  | [], b, _     => Triple.pure b (fun _ hs => hs)
  | a :: l, b, h => by
    rw [List.foldlM_cons]
    refine Triple.bind (h b a List.mem_cons_self) (fun b' => ?_)
    exact foldlM inv l b' (fun b a ha => h b a (List.mem_cons_of_mem _ ha))

/-- **The rule of the loop that collects**: the invariant is on what has been collected. -/
theorem collect {f : β → Prog σ ε α} : ∀ (l : List β) (inv : List α → σ → Prop),
    (∀ done, ∀ b ∈ l, Triple (inv done) (f b) (fun a => inv (done ++ [a])) R) →
      Triple (inv []) (Prog.collect f l) (fun done s => done.length = l.length ∧ inv done s) R
  | [], _, _       => Triple.pure _ (fun _ hs => ⟨rfl, hs⟩)
  | b :: l, inv, h => by
    refine Triple.bind (h [] b List.mem_cons_self) (fun a => ?_)
    refine Triple.bind (collect l (fun done => inv (a :: done))
      (fun done c hc => h (a :: done) c (List.mem_cons_of_mem _ hc))) (fun done => ?_)
    exact Triple.pure _ (fun s hs => ⟨congrArg (· + 1) hs.1, hs.2⟩)

theorem of_exists {ι : Type} {P : ι → σ → Prop} (h : ∀ i, Triple (P i) x Q R) : Triple (fun s => ∃ i, P i s) x Q R :=
  fun s ⟨i, hs⟩ => h i s hs

end Triple

/-! ## Two programs side by side -/

/-- From states that `P` relates, the programs end alike: with the same value, in states that `Q` relates, or with the same
error. -/
def Relates {τ : Type} (P : σ → τ → Prop) (x : Prog σ ε α) (y : Prog τ ε α) (Q : σ → τ → Prop) : Prop :=
  ∀ s t, P s t → (x s).1 = (y t).1 ∧ ∀ a, (x s).1 = .ok a → Q (x s).2 (y t).2

namespace Relates

variable {τ : Type} {P Q R : σ → τ → Prop} {x : Prog σ ε α} {y : Prog τ ε α}

theorem pure (a : α) : Relates P (Pure.pure a) (Pure.pure a : Prog τ ε α) P := fun _ _ h => ⟨rfl, fun _ _ => h⟩

theorem fail (e : ε) : Relates P (Prog.fail e : Prog σ ε α) (Prog.fail e) Q := fun _ _ _ => ⟨rfl, fun _ h => by cases h⟩

theorem modify {f : σ → σ} {g : τ → τ} (h : ∀ s t, P s t → Q (f s) (g t)) :
    Relates P (Prog.modify f : Prog σ ε Unit) (Prog.modify g) Q := fun s t hst => ⟨rfl, fun _ _ => h s t hst⟩

theorem lift_bind {v : Except ε α} {f : α → Prog σ ε β} {g : α → Prog τ ε β}
    (h : ∀ a, v = .ok a → Relates P (f a) (g a) Q) : Relates P (Prog.lift v >>= f) (Prog.lift v >>= g) Q := by
  cases v with
  | error e => exact fail e
  | ok a    => exact h a rfl

theorem require_bind {c : Prop} [Decidable c] {e : ε} {f : Unit → Prog σ ε β} {g : Unit → Prog τ ε β}
    (h : c → Relates P (f ()) (g ()) Q) : Relates P (Prog.require c e >>= f) (Prog.require c e >>= g) Q := by
  by_cases hc : c
  · rw [Prog.require, Prog.require, if_pos hc, if_pos hc]
    exact h hc
  · rw [Prog.require_neg hc, Prog.require_neg hc]
    exact fail e

theorem bind {f : α → Prog σ ε β} {g : α → Prog τ ε β} (h : Relates P x y Q) (hf : ∀ a, Relates Q (f a) (g a) R) :
    Relates P (x >>= f) (y >>= g) R := by
  intro s t hst
  obtain ⟨heq, hQ⟩ := h s t hst
  rw [Prog.run_bind, Prog.run_bind]
  rcases hx : x s with ⟨e | a, s'⟩ <;> rcases hy : y t with ⟨e' | b, t'⟩ <;> rw [hx, hy] at heq <;> cases heq
  · exact ⟨rfl, fun _ h => by cases h⟩
  · rw [hx, hy] at hQ
    exact hf a s' t' (hQ a rfl)

theorem get_bind {f : σ → Prog σ ε β} {g : τ → Prog τ ε β}
    (h : ∀ s t, P s t → Relates (fun s' t' => s' = s ∧ t' = t) (f s) (g t) R) :
    Relates P (Prog.get >>= f) (Prog.get >>= g) R := fun s t hst => h s t hst s t ⟨rfl, rfl⟩

theorem ite {c : Prop} [Decidable c] {x' : Prog σ ε α} {y' : Prog τ ε α} (h : c → Relates P x y Q)
    (h' : ¬ c → Relates P x' y' Q) : Relates P (if c then x else x') (if c then y else y') Q := by
  split
  · rename_i hc
    exact h hc
  · rename_i hc
    exact h' hc

theorem weaken {P' Q' : σ → τ → Prop} (h : Relates P x y Q) (hP : ∀ s t, P' s t → P s t) (hQ : ∀ s t, Q s t → Q' s t) :
    Relates P' x y Q' := by
  intro s t hst
  obtain ⟨heq, hq⟩ := h s t (hP s t hst)
  exact ⟨heq, fun a ha => hQ _ _ (hq a ha)⟩

theorem refl (x : Prog σ ε α) : Relates (· = ·) x x (· = ·) := by
  rintro s t rfl
  exact ⟨rfl, fun _ _ => rfl⟩

theorem of_ok {s s' : σ} {t : τ} {a : α} (h : Relates P x y Q) (hst : P s t) (hx : x s = (.ok a, s')) :
    ∃ t', y t = (.ok a, t') ∧ Q s' t' := by
  obtain ⟨heq, hQ⟩ := h s t hst
  rw [hx] at heq hQ
  exact ⟨(y t).2, Prod.ext heq.symm rfl, hQ a rfl⟩

end Relates

/-! ## Programs that keep a property of the state -/

/-- From states that meet `P` the program ends in one, with a value or an error. -/
def Keeps (P : σ → Prop) (x : Prog σ ε α) : Prop := ∀ s, P s → P (x s).2

namespace Keeps

variable {P : σ → Prop} {x : Prog σ ε α}

theorem pure (a : α) : Keeps P (Pure.pure a : Prog σ ε α) := fun _ hs => hs

theorem get : Keeps P (Prog.get : Prog σ ε σ) := fun _ hs => hs

theorem lift (x : Except ε α) : Keeps P (Prog.lift x : Prog σ ε α) := fun _ hs => hs

theorem modify {f : σ → σ} (h : ∀ s, P s → P (f s)) : Keeps P (Prog.modify f : Prog σ ε Unit) := h

theorem require (c : Prop) [Decidable c] (e : ε) : Keeps P (Prog.require c e : Prog σ ε Unit) := by
  intro s hs
  rwa [Prog.run_require]

theorem bind {f : α → Prog σ ε β} (hx : Keeps P x) (hf : ∀ a, Keeps P (f a)) : Keeps P (x >>= f) := by
  intro s hs
  have := hx s hs
  rw [Prog.run_bind]
  rcases h : x s with ⟨e | a, s'⟩ <;> rw [h] at this
  · exact this
  · exact hf a s' this

theorem triple (h : Keeps P x) : Triple P x (fun _ => P) (fun _ => P) := Triple.of_keeps h

theorem of_triple (h : Triple P x (fun _ => P) (fun _ => P)) : Keeps P x := fun _ hs => h.after hs

theorem ite {c : Prop} [Decidable c] {y : Prog σ ε α} (hx : Keeps P x) (hy : Keeps P y) : Keeps P (if c then x else y) := by
  split
  · exact hx
  · exact hy

theorem fail (e : ε) : Keeps P (Prog.fail e : Prog σ ε α) := fun _ hs => hs

theorem zoom {τ : Type} {part : σ → τ} {put : τ → σ → σ} {x : Prog τ ε α} (Q : τ → Prop) (hpart : ∀ s, P s → Q (part s))
    (hx : Keeps Q x) (hput : ∀ s t, P s → Q t → P (put t s)) : Keeps P (x.zoom part put) :=
  fun s hs => hput s _ hs (hx _ (hpart s hs))

theorem collect {f : β → Prog σ ε α} : ∀ (l : List β), (∀ b ∈ l, Keeps P (f b)) → Keeps P (Prog.collect f l)
  | [], _     => pure []
  | b :: l, h => by
    refine bind (h b List.mem_cons_self) (fun a => ?_)
    exact bind (collect l (fun c hc => h c (List.mem_cons_of_mem _ hc))) (fun _ => pure _)

theorem foldlM {f : β → α → Prog σ ε β} (h : ∀ b a, Keeps P (f b a)) : ∀ (l : List α) (b : β), Keeps P (l.foldlM f b)
  | [], b     => pure b
  | a :: l, b => by
    rw [List.foldlM_cons]
    exact bind (h b a) (fun b' => foldlM h l b')

theorem loop {γ : Type} {body : α → Prog σ ε (γ ⊕ α)} (h : ∀ a, Keeps P (body a)) : ∀ (turns : ℕ) (a : α),
    Keeps P (Prog.loop body turns a)
  | 0, _         => pure none
  | turns + 1, a => by
    refine bind (h a) (fun r => ?_)
    cases r with
    | inl b  => exact pure (some b)
    | inr a' => exact loop h turns a'

end Keeps

/-! ## The errors of a program -/

/-- From every state the program ends with a value or with an error that meets `R`. -/
def Raises (R : ε → Prop) (x : Prog σ ε α) : Prop := ∀ s e, (x s).1 = .error e → R e

namespace Raises

variable {R : ε → Prop} {x : Prog σ ε α}

theorem pure (a : α) : Raises R (Pure.pure a : Prog σ ε α) := nofun

theorem get : Raises R (Prog.get : Prog σ ε σ) := nofun

theorem modify (f : σ → σ) : Raises R (Prog.modify f : Prog σ ε Unit) := nofun

theorem require (c : Prop) [Decidable c] {e : ε} (h : R e) : Raises R (Prog.require c e : Prog σ ε Unit) := by
  intro s e' he
  rw [Prog.run_require] at he
  split at he
  · cases he
  · cases he
    exact h

theorem bind {f : α → Prog σ ε β} (hx : Raises R x) (hf : ∀ a, Raises R (f a)) : Raises R (x >>= f) := by
  intro s e he
  rw [Prog.run_bind] at he
  have hxe := hx s
  rcases h : x s with ⟨e' | a, s'⟩ <;> simp only [h] at he hxe
  · cases he
    exact hxe e rfl
  · exact hf a s' e he

theorem mapError {f : ε → ε'} {R : ε' → Prop} (x : Prog σ ε α) (h : ∀ e, R (f e)) : Raises R (x.mapError f) := by
  intro s e he
  change (x s).1.mapError f = .error e at he
  cases hx : (x s).1 with
  | ok a     =>
    rw [hx] at he
    cases he
  | error e' =>
    rw [hx] at he
    cases he
    exact h e'

theorem ite {c : Prop} [Decidable c] {y : Prog σ ε α} (hx : Raises R x) (hy : Raises R y) : Raises R (if c then x else y) := by
  split
  · exact hx
  · exact hy

theorem loop {γ : Type} {body : α → Prog σ ε (γ ⊕ α)} (h : ∀ a, Raises R (body a)) : ∀ (turns : ℕ) (a : α),
    Raises R (Prog.loop body turns a)
  | 0, _         => pure none
  | turns + 1, a => by
    refine bind (h a) (fun r => ?_)
    cases r with
    | inl b  => exact pure (some b)
    | inr a' => exact loop h turns a'

end Raises
end Effect
