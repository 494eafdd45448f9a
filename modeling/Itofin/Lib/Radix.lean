import Mathlib.Algebra.BigOperators.Group.List.Basic
import Mathlib.Data.List.GetD
import Mathlib.Tactic.Ring
/-!
# Radix — the points of a grid and their flat indices

The coordinates of a point are a list of digits, one below each extent; `value` is the index that counts the first
dimension fastest.  It tells the points apart (`value_inj`), below the product of the extents (`value_lt`), and `next` is
the odometer that walks through them (`value_next`).  The same index is the product of the coordinates and the strides
(`dot_strides`).  `swapHead` exchanges the first dimension with another, the same for the coordinates, the extents and
the strides (`dot_swapHead`).
-/
namespace Radix

/-- The coordinates of a point in a grid of these extents. -/
def Digits (cs ds : List ℕ) : Prop := List.Forall₂ (· < ·) cs ds

/-- The index of a point, the first dimension fastest. -/
def value : List ℕ → List ℕ → ℕ
  | c :: cs, d :: ds => c + d * value cs ds
  | _, _             => 0

/-- The odometer. -/
def next : List ℕ → List ℕ → List ℕ
  | c :: cs, d :: ds => if c + 1 = d then 0 :: next cs ds else (c + 1) :: cs
  | cs, _            => cs

/-- The running product of the extents, from a first stride on. -/
def strides : ℕ → List ℕ → List ℕ
  | _, []      => []
  | s, d :: ds => s :: strides (s * d) ds

def dot (cs ss : List ℕ) : ℕ := (List.zipWith (· * ·) cs ss).sum

@[simp] theorem dot_cons (c s : ℕ) (cs ss : List ℕ) : dot (c :: cs) (s :: ss) = c * s + dot cs ss := by
  simp [dot]

theorem dot_strides : ∀ (s : ℕ) {cs ds : List ℕ}, cs.length = ds.length → dot cs (strides s ds) = s * value cs ds
  | _, [], [], _          => by simp [dot, value]
  | s, c :: cs, d :: ds, h => by
    rw [strides, dot_cons, dot_strides (s * d) (Nat.succ.inj h), value]
    ring

@[simp] theorem strides_length : ∀ (s : ℕ) (ds : List ℕ), (strides s ds).length = ds.length
  | _, []      => rfl
  | s, d :: ds => congrArg (· + 1) (strides_length (s * d) ds)

theorem value_lt {cs ds : List ℕ} (h : Digits cs ds) : value cs ds < ds.prod := by
  induction h with
  | nil                          => simp [value]
  | @cons c d cs ds hc _ ih =>
    rw [value, List.prod_cons]
    calc c + d * value cs ds < d + d * value cs ds := Nat.add_lt_add_right hc _
      _ = d * (value cs ds + 1) := by ring
      _ ≤ d * ds.prod := Nat.mul_le_mul_left d ih

/-- **Points with the same index are the same.** -/
theorem value_inj {cs cs' ds : List ℕ} (h : Digits cs ds) (h' : Digits cs' ds) (he : value cs ds = value cs' ds) :
    cs = cs' := by
  induction h generalizing cs' with
  | nil                          =>
    cases h'
    rfl
  | @cons c d cs ds hc _ ih =>
    obtain ⟨c', cs', hc', hcs', rfl⟩ := List.forall₂_cons_right_iff.1 h'
    rw [value, value] at he
    have hmod := congrArg (· % d) he
    have hdiv := congrArg (· / d) he
    have hd : 0 < d := Nat.zero_lt_of_lt hc
    simp only [Nat.add_mul_mod_self_left, Nat.mod_eq_of_lt hc, Nat.mod_eq_of_lt hc'] at hmod
    simp only [Nat.add_mul_div_left _ _ hd, Nat.div_eq_of_lt hc, Nat.div_eq_of_lt hc', Nat.zero_add] at hdiv
    rw [hmod, ih hcs' hdiv]

theorem next_digits {cs ds : List ℕ} (h : Digits cs ds) : Digits (next cs ds) ds := by
  induction h with
  | nil                          => exact .nil
  | @cons c d cs ds hc htail ih =>
    rw [next]
    split
    · exact .cons (Nat.zero_lt_of_lt hc) ih
    · exact .cons (by omega) htail

/-- **The odometer counts**, up to the last point. -/
theorem value_next {cs ds : List ℕ} (h : Digits cs ds) (hlast : value cs ds + 1 < ds.prod) :
    value (next cs ds) ds = value cs ds + 1 := by
  induction h with
  | nil                          => simp [value] at hlast
  | @cons c d cs ds hc _ ih =>
    rw [value, List.prod_cons] at hlast
    rw [next]
    split
    · rename_i hcd
      have hvalue : value cs ds + 1 < ds.prod := by
        by_contra hcon
        have := Nat.mul_le_mul_left d (Nat.le_of_not_lt hcon)
        rw [Nat.mul_add, Nat.mul_one] at this
        omega
      rw [value, ih hvalue, value]
      rw [← hcd]
      ring
    · rw [value, value]
      ring

/-! ## The first dimension exchanged with another -/

def swapHead {α : Type} : List α → ℕ → List α
  | x :: xs, i + 1 => match xs[i]? with
    | some y => y :: xs.set i x
    | none   => x :: xs
  | xs, _          => xs

variable {α β : Type}

@[simp] theorem swapHead_zero (l : List α) : swapHead l 0 = l := by
  cases l <;> rfl

theorem swapHead_succ (x : α) {xs : List α} {i : ℕ} (h : i < xs.length) :
    swapHead (x :: xs) (i + 1) = xs[i] :: xs.set i x := by
  rw [swapHead, List.getElem?_eq_getElem h]

@[simp] theorem swapHead_length (l : List α) (i : ℕ) : (swapHead l i).length = l.length := by
  cases l with
  | nil       => cases i <;> rfl
  | cons x xs =>
    cases i with
    | zero   => rfl
    | succ i =>
      rw [swapHead]
      split
      · simp
      · rfl

theorem swapHead_swapHead (l : List α) {i : ℕ} (h : i < l.length) : swapHead (swapHead l i) i = l := by
  cases l with
  | nil       => simp at h
  | cons x xs =>
    cases i with
    | zero   => rfl
    | succ i =>
      have hi : i < xs.length := Nat.lt_of_succ_lt_succ h
      rw [swapHead_succ x hi, swapHead_succ _ (by simpa using hi)]
      simp

theorem swapHead_head (l : List α) {i : ℕ} (h : i < l.length) : (swapHead l i).head? = l[i]? := by
  cases l with
  | nil       => simp at h
  | cons x xs =>
    cases i with
    | zero   => rfl
    | succ i =>
      have hi : i < xs.length := Nat.lt_of_succ_lt_succ h
      rw [swapHead_succ x hi]
      simp [hi]

theorem forall₂_set {R : α → β → Prop} {as : List α} {bs : List β} (h : List.Forall₂ R as bs) {a : α} {b : β}
    (hab : R a b) (i : ℕ) : List.Forall₂ R (as.set i a) (bs.set i b) := by
  induction h generalizing i with
  | nil               => exact .nil
  | cons hr htail ih =>
    cases i with
    | zero   => exact .cons hab htail
    | succ i => exact .cons hr (ih i)

theorem swapHead_digits {cs ds : List ℕ} (h : Digits cs ds) (i : ℕ) : Digits (swapHead cs i) (swapHead ds i) := by
  cases h with
  | nil                       => exact .nil
  | @cons c d cs ds hc htail =>
    cases i with
    | zero   => exact .cons hc htail
    | succ i =>
      have hlen := htail.length_eq
      by_cases hi : i < cs.length
      · rw [swapHead_succ c hi, swapHead_succ d (hlen ▸ hi)]
        exact .cons (htail.get hi (hlen ▸ hi)) (forall₂_set htail hc i)
      · have hcs : cs[i]? = none := List.getElem?_eq_none (Nat.le_of_not_lt hi)
        have hds : ds[i]? = none := List.getElem?_eq_none (hlen ▸ Nat.le_of_not_lt hi)
        simp only [swapHead, hcs, hds]
        exact .cons hc htail

theorem dot_set : ∀ {cs ss : List ℕ} {i : ℕ} (_ : i < cs.length) (_ : i < ss.length) (c s : ℕ),
    dot (cs.set i c) (ss.set i s) + cs.getD i 0 * ss.getD i 0 = dot cs ss + c * s
  | a :: cs, b :: ss, 0, _, _, c, s        => by
    simp only [List.set_cons_zero, dot_cons, List.getD_cons_zero]
    ring
  | a :: cs, b :: ss, i + 1, hc, hs, c, s => by
    have := dot_set (i := i) (Nat.lt_of_succ_lt_succ hc) (Nat.lt_of_succ_lt_succ hs) c s
    simp only [List.set_cons_succ, dot_cons, List.getD_cons_succ]
    omega

/-- **Coordinates and strides exchanged alike give the same index.** -/
theorem dot_swapHead {cs ss : List ℕ} (h : cs.length = ss.length) (i : ℕ) :
    dot (swapHead cs i) (swapHead ss i) = dot cs ss := by
  cases cs with
  | nil       =>
    rw [List.length_nil, eq_comm, List.length_eq_zero_iff] at h
    subst h
    cases i <;> rfl
  | cons c cs =>
    cases ss with
    | nil       => simp at h
    | cons s ss =>
      cases i with
      | zero   => rfl
      | succ i =>
        have hlen : cs.length = ss.length := Nat.succ.inj h
        by_cases hi : i < cs.length
        · have := dot_set hi (hlen ▸ hi) c s
          rw [swapHead_succ c hi, swapHead_succ s (hlen ▸ hi), dot_cons, dot_cons]
          rw [List.getD_eq_getElem _ _ hi, List.getD_eq_getElem _ _ (hlen ▸ hi)] at this
          omega
        · have hcs : cs[i]? = none := List.getElem?_eq_none (Nat.le_of_not_lt hi)
          have hss : ss[i]? = none := List.getElem?_eq_none (hlen ▸ Nat.le_of_not_lt hi)
          simp only [swapHead, hcs, hss]

theorem prod_set : ∀ {ds : List ℕ} {i : ℕ} (_ : i < ds.length) (d : ℕ),
    (ds.set i d).prod * ds.getD i 0 = ds.prod * d
  | a :: ds, 0, _, d      => by
    simp only [List.set_cons_zero, List.prod_cons, List.getD_cons_zero]
    ring
  | a :: ds, i + 1, hi, d => by
    have := prod_set (i := i) (Nat.lt_of_succ_lt_succ hi) d
    simp only [List.set_cons_succ, List.prod_cons, List.getD_cons_succ]
    rw [mul_assoc, this, mul_assoc]

theorem prod_swapHead (ds : List ℕ) (i : ℕ) : (swapHead ds i).prod = ds.prod := by
  cases ds with
  | nil       => cases i <;> rfl
  | cons d ds =>
    cases i with
    | zero   => rfl
    | succ i =>
      by_cases hi : i < ds.length
      · have := prod_set hi d
        rw [List.getD_eq_getElem _ _ hi] at this
        rw [swapHead_succ d hi, List.prod_cons, List.prod_cons, mul_comm, this, mul_comm]
      · have hds : ds[i]? = none := List.getElem?_eq_none (Nat.le_of_not_lt hi)
        simp only [swapHead, hds]

/-- A coordinate changed before the exchange is the first one changed after it. -/
theorem swapHead_set (l : List α) {i : ℕ} (h : i < l.length) (x : α) :
    swapHead (l.set i x) i = (swapHead l i).set 0 x := by
  cases l with
  | nil       => simp at h
  | cons y ys =>
    cases i with
    | zero   => simp
    | succ i =>
      have hi : i < ys.length := Nat.lt_of_succ_lt_succ h
      rw [List.set_cons_succ, swapHead_succ y (by simpa using hi), swapHead_succ y hi]
      simp

theorem value_set_zero {cs ds : List ℕ} (h : Digits cs ds) (hne : cs ≠ []) (c : ℕ) :
    value (cs.set 0 c) ds + cs.getD 0 0 = value cs ds + c := by
  cases h with
  | nil        => exact absurd rfl hne
  | cons hc ht =>
    simp only [List.set_cons_zero, value, List.getD_cons_zero]
    ring

end Radix
