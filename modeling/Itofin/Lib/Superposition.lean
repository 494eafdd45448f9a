import Itofin.Lib.Effect
import Mathlib.LinearAlgebra.Prod
/-!
# Superposition — programs that are linear in a part of their state

A state in two parts, of which the second is a vector.  `Linear` says that how a program ends, and the first part it leaves,
depend on the first part alone, and that the second part it leaves is a linear function of the second part and of what the
program is given.  Programs that run one after the other keep it (`Linear.bind`).

It is a class of programs that is closed under what programs are made of (`Closed`), as the programs that keep a property
are, and what is shown for closed classes is shown of both.
-/
namespace Effect

/-! ## Classes of programs -/

/-- A class of programs that has the plain ones and those made of its own. -/
structure Closed {σ ε : Type} (C : ∀ {α : Type}, Prog σ ε α → Prop) : Prop where
  pure : ∀ {α : Type} (a : α), C (Pure.pure a : Prog σ ε α)
  fail : ∀ {α : Type} (e : ε), C (Prog.fail e : Prog σ ε α)
  bind : ∀ {α β : Type} {x : Prog σ ε α} {f : α → Prog σ ε β}, C x → (∀ a, C (f a)) → C (x >>= f)

namespace Closed

variable {σ ε α ι : Type} {C : ∀ {α : Type}, Prog σ ε α → Prop}

theorem require (hC : Closed C) (c : Prop) [Decidable c] (e : ε) : C (Prog.require c e : Prog σ ε Unit) := by
  unfold Prog.require
  split
  · exact hC.pure ()
  · exact hC.fail e

theorem foldlM (hC : Closed C) {f : α → ι → Prog σ ε α} (h : ∀ v i, C (f v i)) : ∀ (l : List ι) (v : α), C (l.foldlM f v)
  | [], v     => hC.pure v
  | i :: l, v => hC.bind (h v i) fun v' => hC.foldlM h l v'

theorem keeps (P : σ → Prop) : Closed (fun {_} (x : Prog σ ε _) => Keeps P x) where
  pure a := .pure a
  fail e := .fail e
  bind   := .bind

end Closed

namespace Superposition

variable {K M V W ε α β : Type} [Ring K] [AddCommGroup V] [Module K V] [AddCommGroup W] [Module K W]

variable (K) in
/-- From a first part that meets `I`, which is kept. -/
def Linear (I : M → Prop) (x : W → Prog (M × V) ε α) : Prop :=
  ∀ m, I m → ∃ (r : Except ε α) (m' : M) (L : W × V →ₗ[K] V), I m' ∧ ∀ w a, x w (m, a) = (r, m', L (w, a))

variable {I : M → Prop} {x : W → Prog (M × V) ε α}

theorem Linear.pure (v : α) : Linear K I (fun _ : W => (Pure.pure v : Prog (M × V) ε α)) :=
  fun m hm => ⟨.ok v, m, .snd K W V, hm, fun _ _ => rfl⟩

theorem Linear.fail (e : ε) : Linear K I (fun _ : W => (Prog.fail e : Prog (M × V) ε α)) :=
  fun m hm => ⟨.error e, m, .snd K W V, hm, fun _ _ => rfl⟩

/-- **One after the other.** -/
theorem Linear.bind {f : α → W → Prog (M × V) ε β} (hx : Linear K I x) (hf : ∀ v, Linear K I (f v)) :
    Linear K I fun w => x w >>= fun v => f v w := by
  intro m hm
  obtain ⟨r, m', L, hm', hL⟩ := hx m hm
  cases r with
  | error e =>
    refine ⟨.error e, m', L, hm', fun w a => ?_⟩
    simp [Prog.run_bind, hL]
  | ok v    =>
    obtain ⟨r', m'', L', hm'', hL'⟩ := hf v m' hm'
    refine ⟨r', m'', L' ∘ₗ (LinearMap.fst K W V).prod L, hm'', fun w a => ?_⟩
    simp [Prog.run_bind, hL, hL']

variable (K W I) in
theorem Linear.closed : Closed (fun {_} (x : Prog (M × V) ε _) => Linear K I fun _ : W => x) where
  pure := .pure
  fail := .fail
  bind := .bind

theorem Linear.mapError {ε' : Type} (f : ε → ε') (hx : Linear K I x) : Linear K I fun w => Prog.mapError f (x w) := by
  intro m hm
  obtain ⟨r, m', L, hm', hL⟩ := hx m hm
  refine ⟨r.mapError f, m', L, hm', fun w a => ?_⟩
  have hwa := hL w a
  simp only [Prog.mapError, hwa]

/-- A change of the first part, which may fail. -/
def onFirst (f : M → Except ε M) : Prog (M × V) ε Unit := fun s => match f s.1 with
  | .ok m    => (.ok (), m, s.2)
  | .error e => (.error e, s)

/-- What is read of the state, or an error. -/
def reading (f : M → V → Except ε α) : Prog (M × V) ε α := fun s => (f s.1 s.2, s)

/-- A change of the second part, which may fail. -/
def onSecond (f : M → V → Except ε V) : Prog (M × V) ε Unit := fun s => match f s.1 s.2 with
  | .ok a    => (.ok (), s.1, a)
  | .error e => (.error e, s)

theorem Linear.onFirst {f : M → Except ε M} (hf : ∀ m m', I m → f m = .ok m' → I m') :
    Linear K I fun _ : W => (Superposition.onFirst f : Prog (M × V) ε Unit) := by
  intro m hm
  cases h : f m with
  | error e => exact ⟨.error e, m, .snd K W V, hm, fun w a => by simp [Superposition.onFirst, h]⟩
  | ok m'   => exact ⟨.ok (), m', .snd K W V, hf m m' hm h, fun w a => by simp [Superposition.onFirst, h]⟩

/-- A change of both parts. -/
theorem Linear.modify {f : M × V → M × V}
    (hf : ∀ m, I m → ∃ (m' : M) (L : V →ₗ[K] V), I m' ∧ ∀ a, f (m, a) = (m', L a)) :
    Linear K I fun _ : W => (Prog.modify f : Prog (M × V) ε Unit) := by
  intro m hm
  obtain ⟨m', L, hm', hL⟩ := hf m hm
  refine ⟨.ok (), m', L ∘ₗ LinearMap.snd K W V, hm', fun w a => ?_⟩
  simp [hL]

/-- A function that fails or not whatever it is given, and is linear. -/
def LinearFn {X Y : Type} [AddCommGroup X] [Module K X] [AddCommGroup Y] [Module K Y] (f : X → Except ε Y) : Prop :=
  (∃ e, ∀ x, f x = .error e) ∨ ∃ L : X →ₗ[K] Y, ∀ x, f x = .ok (L x)

variable {X Y Z : Type} [AddCommGroup X] [Module K X] [AddCommGroup Y] [Module K Y] [AddCommGroup Z] [Module K Z]

theorem LinearFn.ok (L : X →ₗ[K] Y) : LinearFn (K := K) (fun x => (.ok (L x) : Except ε Y)) := .inr ⟨L, fun _ => rfl⟩

theorem LinearFn.comp {g : Y → Except ε Z} (hg : LinearFn (K := K) g) (L : X →ₗ[K] Y) : LinearFn (K := K) fun x => g (L x) := by
  rcases hg with ⟨e, hg⟩ | ⟨L', hg⟩
  · exact .inl ⟨e, fun x => hg _⟩
  · exact .inr ⟨L' ∘ₗ L, fun x => hg _⟩

theorem LinearFn.bind {f : X → Except ε Y} {g : X → Y → Except ε Z} (hf : LinearFn (K := K) f)
    (hg : LinearFn (K := K) fun p : X × Y => g p.1 p.2) : LinearFn (K := K) fun x => f x >>= g x := by
  rcases hf with ⟨e, hf⟩ | ⟨L, hf⟩
  · exact .inl ⟨e, fun x => by dsimp only; rw [hf]; rfl⟩
  · rcases hg with ⟨e, hg⟩ | ⟨L', hg⟩
    · exact .inl ⟨e, fun x => by dsimp only; rw [hf]; exact hg (x, L x)⟩
    · exact .inr ⟨L' ∘ₗ (LinearMap.id (R := K) (M := X)).prod L, fun x => by dsimp only; rw [hf]; exact hg (x, L x)⟩

theorem LinearFn.mapError {ε' : Type} {f : X → Except ε Y} (hf : LinearFn (K := K) f) (g : ε → ε') :
    LinearFn (K := K) fun x => (f x).mapError g := by
  rcases hf with ⟨e, hf⟩ | ⟨L, hf⟩
  · exact .inl ⟨g e, fun x => by dsimp only; rw [hf]; rfl⟩
  · exact .inr ⟨L, fun x => by dsimp only; rw [hf]; rfl⟩

theorem Linear.onSecond {f : W → M → V → Except ε V} (hf : ∀ m, I m → LinearFn (K := K) fun p : W × V => f p.1 m p.2) :
    Linear K I fun w => Superposition.onSecond (f w) := by
  intro m hm
  rcases hf m hm with ⟨e, he⟩ | ⟨L, hL⟩
  · refine ⟨.error e, m, .snd K W V, hm, fun w a => ?_⟩
    have hwa : f w m a = .error e := he (w, a)
    simp [Superposition.onSecond, hwa]
  · refine ⟨.ok (), m, L, hm, fun w a => ?_⟩
    have hwa : f w m a = .ok (L (w, a)) := hL (w, a)
    simp [Superposition.onSecond, hwa]

/-- What was read is given to the rest, beside what the program was given. -/
theorem Linear.reading_bind {f : M → V → Except ε X} {y : W → X → Prog (M × V) ε β}
    (hf : ∀ m, I m → LinearFn (K := K) (f m)) (hy : Linear K I fun p : W × X => y p.1 p.2) :
    Linear K I fun w : W => reading f >>= y w := by
  intro m hm
  rcases hf m hm with ⟨e, he⟩ | ⟨L, hL⟩
  · refine ⟨.error e, m, .snd K W V, hm, fun w a => ?_⟩
    simp [Prog.run_bind, reading, he]
  · obtain ⟨r, m', L', hm', hL'⟩ := hy m hm
    refine ⟨r, m', L' ∘ₗ ((LinearMap.fst K W V).prod (L ∘ₗ LinearMap.snd K W V)).prod (LinearMap.snd K W V), hm', fun w a => ?_⟩
    have hwa : y w (L a) (m, a) = (r, m', L' ((w, L a), a)) := hL' (w, L a) a
    simp [Prog.run_bind, reading, hL, hwa]

/-! ## Programs that succeed -/

section Ok

variable {M V ε α β : Type} {m : M} {a : V} {b : β} {s : M × V}

theorem onFirst_bind_eq_ok {f : M → Except ε M} {y : Unit → Prog (M × V) ε β}
    (h : (onFirst f >>= y) (m, a) = (.ok b, s)) : ∃ m', f m = .ok m' ∧ y () (m', a) = (.ok b, s) := by
  rw [Prog.run_bind, onFirst] at h
  cases hf : f m <;> simp only [hf] at h
  · cases h
  · exact ⟨_, rfl, h⟩

theorem onSecond_bind_eq_ok {f : M → V → Except ε V} {y : Unit → Prog (M × V) ε β}
    (h : (onSecond f >>= y) (m, a) = (.ok b, s)) : ∃ a', f m a = .ok a' ∧ y () (m, a') = (.ok b, s) := by
  rw [Prog.run_bind, onSecond] at h
  cases hf : f m a <;> simp only [hf] at h
  · cases h
  · exact ⟨_, rfl, h⟩

theorem reading_bind_eq_ok {f : M → V → Except ε α} {y : α → Prog (M × V) ε β}
    (h : (reading f >>= y) (m, a) = (.ok b, s)) : ∃ w, f m a = .ok w ∧ y w (m, a) = (.ok b, s) := by
  rw [Prog.run_bind, reading] at h
  cases hf : f m a <;> simp only [hf] at h
  · cases h
  · exact ⟨_, rfl, h⟩

end Ok

/-! ## What is kept of the second part -/

section Keeps

variable {M V ε α : Type} {P : V → Prop}

/-- Of the second part alone. -/
def Second (P : V → Prop) (s : M × V) : Prop := P s.2

theorem keeps_onFirst (f : M → Except ε M) : Keeps (Second P) (onFirst f) := by
  rintro ⟨m, a⟩ h
  unfold onFirst
  split <;> exact h

theorem keeps_onSecond {f : M → V → Except ε V} (h : ∀ m a y, P a → f m a = .ok y → P y) :
    Keeps (Second P) (onSecond f) := by
  rintro ⟨m, a⟩ ha
  unfold onSecond
  split
  · rename_i y hy
    exact h m a y ha hy
  · exact ha

theorem keeps_reading_bind {β : Type} {f : M → V → Except ε α} {y : α → Prog (M × V) ε β}
    (h : ∀ m a w, P a → f m a = .ok w → Keeps (Second P) (y w)) :
    Keeps (Second P) (reading f >>= y) := by
  rintro ⟨m, a⟩ ha
  rw [Prog.run_bind]
  unfold reading
  dsimp only
  cases hf : f m a with
  | error e => exact ha
  | ok w    => exact h m a w ha hf (m, a) ha

end Keeps

end Superposition
end Effect
