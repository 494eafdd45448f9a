import Mathlib.Data.List.FinRange
import Mathlib.Data.List.Range
import Mathlib.Tactic.Common
/-!
# Loop — counted loops that can fail

`for k in 0..n { .. }` over a state, where a turn can fail: a fold over `List.range n`.  An invariant that every turn
keeps, from the number of turns done to one more, holds after the loop, which does not fail (`loop_ok`); the same holds of
a loop over indices (`foldlM_finRange`).  A loop that writes a value at a key for each item of a list leaves them there
(`foldl_set`).
-/
namespace Loop

variable {ε σ : Type} {n : ℕ} {f : σ → ℕ → Except ε σ}

theorem bind_ok {α β : Type} (a : α) (f : α → Except ε β) : (Except.ok a >>= f) = f a := rfl

/-- `for k in 0..n { s = f(s, k)?; }` -/
def loop (n : ℕ) (f : σ → ℕ → Except ε σ) (s : σ) : Except ε σ := (List.range n).foldlM f s

theorem loop_succ (n : ℕ) (f : σ → ℕ → Except ε σ) (s : σ) : loop (n + 1) f s = (loop n f s).bind (fun s => f s n) := by
  rw [loop, List.range_succ, List.foldlM_append, loop]
  refine congrArg _ (funext (fun s' => ?_))
  change (f s' n).bind .ok = f s' n
  cases f s' n <;> rfl

/-- **The rule of the loop.** -/
theorem loop_ok (inv : ℕ → σ → Prop) : ∀ (n : ℕ) {s : σ}, inv 0 s →
    (∀ k, k < n → ∀ s, inv k s → ∃ s', f s k = .ok s' ∧ inv (k + 1) s') → ∃ s', loop n f s = .ok s' ∧ inv n s'
  | 0, s, h, _         => ⟨s, rfl, h⟩
  | n + 1, s, h, hstep => by
    obtain ⟨m, hm, hi⟩ := loop_ok inv n h (fun k hk => hstep k (Nat.lt_succ_of_lt hk))
    obtain ⟨s', hs, hi⟩ := hstep n (Nat.lt_succ_self n) m hi
    refine ⟨s', ?_, hi⟩
    rw [loop_succ, hm]
    exact hs

theorem loop_eq (s : ℕ → σ) (h : ∀ k, k < n → f (s k) k = .ok (s (k + 1))) : loop n f (s 0) = .ok (s n) := by
  obtain ⟨_, hm, rfl⟩ := loop_ok (fun k m => m = s k) n rfl (fun k hk m hm => ⟨s (k + 1), hm ▸ h k hk, rfl⟩)
  exact hm

/-- **A loop whose turns fail by their number.** -/
theorem loop_cases (inv : ℕ → σ → Prop) (fails : ℕ → Prop) (e : ε) : ∀ (n : ℕ) {s : σ}, inv 0 s →
    (∀ k, k < n → ∀ s, inv k s → (fails k ∧ f s k = .error e) ∨ (¬ fails k ∧ ∃ s', f s k = .ok s' ∧ inv (k + 1) s')) →
    ((∃ k, k < n ∧ fails k) ∧ loop n f s = .error e) ∨
      ((∀ k, k < n → ¬ fails k) ∧ ∃ s', loop n f s = .ok s' ∧ inv n s')
  | 0, s, h, _         => .inr ⟨nofun, s, rfl, h⟩
  | n + 1, s, h, hstep => by
    rw [loop_succ]
    rcases loop_cases inv fails e n h (fun k hk => hstep k (Nat.lt_succ_of_lt hk)) with
      ⟨⟨k, hk, hf⟩, hrun⟩ | ⟨hf, m, hrun, hi⟩
    · rw [hrun]
      exact .inl ⟨⟨k, Nat.lt_succ_of_lt hk, hf⟩, rfl⟩
    · rw [hrun]
      rcases hstep n (Nat.lt_succ_self n) m hi with ⟨hn, hturn⟩ | ⟨hn, s', hturn, hi'⟩
      · exact .inl ⟨⟨n, Nat.lt_succ_self n, hn⟩, hturn⟩
      · refine .inr ⟨fun k hk => ?_, s', hturn, hi'⟩
        rcases Nat.lt_succ_iff_lt_or_eq.1 hk with hk | rfl
        · exact hf k hk
        · exact hn

/-- A value that meets `Q`, or an error that meets `R`. -/
def Yields {α : Type} (x : Except ε α) (Q : α → Prop) (R : ε → Prop) : Prop := match x with
  | .ok a    => Q a
  | .error e => R e

namespace Yields

variable {α β : Type} {x : Except ε α} {Q : α → Prop} {R : ε → Prop}

theorem bind {g : α → Except ε β} {Q' : β → Prop} (hx : Yields x Q R) (hg : ∀ a, Q a → Yields (g a) Q' R) :
    Yields (x >>= g) Q' R := by
  cases x with
  | ok a    => exact hg a hx
  | error e => exact hx

theorem weaken {Q' : α → Prop} (h : Yields x Q R) (hQ : ∀ a, Q a → Q' a) : Yields x Q' R := by
  cases x with
  | ok a    => exact hQ a h
  | error e => exact h

theorem of_ok (hok : ∀ a, x = .ok a → Q a) (herror : ∀ e, x = .error e → R e) : Yields x Q R := by
  cases x with
  | ok a    => exact hok a rfl
  | error e => exact herror e rfl

theorem loop (inv : ℕ → σ → Prop) {f : σ → ℕ → Except ε σ} : ∀ (n : ℕ) {s : σ}, inv 0 s →
    (∀ k, k < n → ∀ s, inv k s → Yields (f s k) (inv (k + 1)) R) → Yields (loop n f s) (inv n) R
  | 0, _, h, _         => h
  | n + 1, s, h, hstep => by
    rw [loop_succ]
    exact bind (loop inv n h (fun k hk => hstep k (Nat.lt_succ_of_lt hk))) (hstep n n.lt_succ_self)

end Yields

/-- An entry of a list with one more is one of before, or the last. -/
theorem of_getElem?_push {α : Type} {l : List α} {a b : α} {i : ℕ} (h : (l ++ [a])[i]? = some b) :
    l[i]? = some b ∨ i = l.length ∧ b = a := by
  rcases lt_or_ge i l.length with hlt | hge
  · rw [List.getElem?_append_left hlt] at h
    exact .inl h
  · rw [List.getElem?_append_right hge] at h
    rcases hd : i - l.length with _ | n
    · rw [hd] at h
      exact .inr ⟨by omega, (Option.some.inj h).symm⟩
    · rw [hd] at h
      cases h

/-- **The rule of a loop over indices.** -/
theorem foldlM_finRange {σ : Type} : ∀ (n : ℕ) (inv : ℕ → σ → Prop) {f : σ → Fin n → Option σ} {s : σ}, inv 0 s →
    (∀ (k : Fin n) s, inv k s → ∃ s', f s k = some s' ∧ inv (k + 1) s') →
    ∃ s', (List.finRange n).foldlM f s = some s' ∧ inv n s'
  | 0, _, _, s, h, _             => ⟨s, rfl, h⟩
  | n + 1, inv, f, s, h, hstep => by
    obtain ⟨s₁, hs₁, h₁⟩ := hstep 0 s h
    obtain ⟨s', hs', h'⟩ := foldlM_finRange n (fun k => inv (k + 1)) (f := fun s k => f s k.succ) h₁ (fun k => hstep k.succ)
    refine ⟨s', ?_, h'⟩
    rw [List.finRange_succ, List.foldlM_cons, hs₁]
    exact List.foldlM_map.trans hs'

/-- The loop that writes a value at a key for each item, all keys different. -/
theorem foldl_set {α R : Type} (key : α → ℕ) (val : α → R) (d : R) : ∀ (items : List α) (l : List R), (items.map key).Nodup →
    (∀ a ∈ items, key a < l.length) →
    (∀ a ∈ items, (items.foldl (fun l a => l.set (key a) (val a)) l).getD (key a) d = val a) ∧
      (∀ k, k ∉ items.map key → (items.foldl (fun l a => l.set (key a) (val a)) l).getD k d = l.getD k d) ∧
      (items.foldl (fun l a => l.set (key a) (val a)) l).length = l.length
  | [], l, _, _            => ⟨nofun, fun _ _ => rfl, rfl⟩
  | a :: items, l, hn, hk => by
    obtain ⟨hna, hn⟩ := List.nodup_cons.1 hn
    obtain ⟨hmem, hother, hlen⟩ := foldl_set key val d items (l.set (key a) (val a)) hn
      (fun b hb => by simpa using hk b (List.mem_cons_of_mem a hb))
    refine ⟨fun b hb => ?_, fun k hk' => ?_, ?_⟩
    · rcases List.mem_cons.1 hb with rfl | hb
      · rw [List.foldl_cons, hother _ hna]
        simp [hk b List.mem_cons_self]
      · exact hmem b hb
    · rw [List.map_cons, List.mem_cons, not_or] at hk'
      rw [List.foldl_cons, hother k hk'.2]
      simp [List.getD_eq_getElem?_getD, List.getElem?_set_ne (Ne.symm hk'.1)]
    · rw [List.foldl_cons, hlen, List.length_set]

end Loop
