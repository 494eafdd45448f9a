import Itofin.TermStructures.BootstrapTraits
/-!
# GlobalBootstrapVars — quotes as additional variables

`SimpleQuoteVariables` of `termstructures/globalbootstrapvars.rs`.  The quotes are cells of the world outside the curve, by
their numbers; the same quote may stand twice.
-/
namespace Itofin

open Effect

/-- The world outside a curve: the values of the quotes, and the rest. -/
structure Quoted (K X : Type) where
  quotes : ℕ → Option K
  rest : X

structure SimpleQuoteVariables (K : Type) where
  quotes : List ℕ
  initialGuesses : List K
  lowerBounds : List K
  guesses_le : initialGuesses.length ≤ quotes.length
  bounds_le : lowerBounds.length ≤ quotes.length

namespace SimpleQuoteVariables

variable {K X : Type}

def new (quotes : List ℕ) (initialGuesses lowerBounds : List K) : Except String (SimpleQuoteVariables K) :=
  if hg : initialGuesses.length ≤ quotes.length then
    if hb : lowerBounds.length ≤ quotes.length then .ok ⟨quotes, initialGuesses, lowerBounds, hg, hb⟩
    else .error ("too many lowerBounds (" ++ toString lowerBounds.length ++ ") for " ++ toString quotes.length ++ " quotes")
  else .error ("too many initialGuesses (" ++ toString initialGuesses.length ++ ") for " ++ toString quotes.length ++
    " quotes")

/-- `set_value` -/
def setValue (quote : ℕ) (value : K) (w : Quoted K X) : Quoted K X :=
  { w with quotes := fun q => if q = quote then some value else w.quotes q }

@[simp] theorem setValue_quotes (quote q : ℕ) (value : K) (w : Quoted K X) :
    (setValue quote value w).quotes q = if q = quote then some value else w.quotes q := rfl

variable [ExpFloats K] (vars : SimpleQuoteVariables K)

def transformDirect (x : K) (i : ℕ) : K :=
  match vars.lowerBounds[i]? with
  | some lowerBound => ExpFloats.exp x + lowerBound
  | none            => x

def transformInverse (x : K) (i : ℕ) : K :=
  match vars.lowerBounds[i]? with
  | some lowerBound => ExpFloats.ln (x - lowerBound)
  | none            => x

/-- The guess of a quote: its value on valid data, or else the initial guess, which is written into it. -/
def guess (validData : Bool) (i quote : ℕ) : Prog (Quoted K X) Stop K :=
  if validData then do
    let w ← Prog.get
    match w.quotes quote with
    | some value => pure value
    | none       => Prog.fail (.error "invalid SimpleQuote")
  else do
    let initial := vars.initialGuesses.getD i 0
    Prog.modify (setValue quote initial)
    pure initial

/-- `initialize`, counted from a quote. -/
def initializeFrom (validData : Bool) : ℕ → List ℕ → Prog (Quoted K X) Stop (List K)
  | _, []           => pure []
  | i, quote :: qs => do
    let guess ← vars.guess validData i quote
    let guesses ← initializeFrom validData (i + 1) qs
    return vars.transformInverse guess i :: guesses

/-- The writes of `update`, counted from a quote. -/
def write : ℕ → List ℕ → List K → Quoted K X → Quoted K X
  | i, quote :: qs, x :: xs, w => write (i + 1) qs xs (setValue quote (vars.transformDirect x i) w)
  | _, _, _, w                 => w

def update (x : List K) : Prog (Quoted K X) Stop Unit := do
  Prog.require (x.length ≤ vars.quotes.length)
    (.error ("trial point of size " ++ toString x.length ++ " for " ++ toString vars.quotes.length ++ " quotes"))
  Prog.modify (vars.write 0 vars.quotes x)

def toVariables : AdditionalBootstrapVariables K (Quoted K X) where
  initializeGuesses validData := vars.initializeFrom validData 0 vars.quotes
  update := vars.update

/-- The quotes have the transforms of the coordinates; a quote that stands for several has the last of them. -/
structure Holds (vars : SimpleQuoteVariables K) (x : List K) (w : Quoted K X) : Prop where
  length : x.length ≤ vars.quotes.length
  values : ∀ i quote coordinate, vars.quotes[i]? = some quote → x[i]? = some coordinate →
    (∀ j, i < j → j < x.length → vars.quotes[j]? ≠ some quote) → w.quotes quote = some (vars.transformDirect coordinate i)

/-- The values of the quotes that a first point is made of. -/
def StartsAt (vars : SimpleQuoteVariables K) (validData : Bool) (w : Quoted K X) (i quote : ℕ) (value : K) : Prop :=
  if validData then w.quotes quote = some value else vars.initialGuesses.getD i 0 = value

theorem write_other (quote : ℕ) : ∀ (i : ℕ) (qs : List ℕ) (xs : List K) (w : Quoted K X),
    (∀ j, j < xs.length → qs[j]? ≠ some quote) → (vars.write i qs xs w).quotes quote = w.quotes quote
  | _, [], _, _, _                => by simp only [write]
  | _, _ :: _, [], _, _           => by simp only [write]
  | i, q :: qs, x :: xs, w, h     => by
    have hq : quote ≠ q := fun he => h 0 (Nat.succ_pos _) (by rw [he]; rfl)
    have hrest : ∀ j, j < xs.length → qs[j]? ≠ some quote := fun j hj => h (j + 1) (Nat.succ_lt_succ hj)
    rw [write, write_other quote (i + 1) qs xs _ hrest, setValue_quotes, if_neg hq]

theorem write_at : ∀ (i : ℕ) (qs : List ℕ) (xs : List K) (w : Quoted K X) (k quote : ℕ) (x : K),
    qs[k]? = some quote → xs[k]? = some x → (∀ j, k < j → j < xs.length → qs[j]? ≠ some quote) →
      (vars.write i qs xs w).quotes quote = some (vars.transformDirect x (i + k))
  | _, [], _, _, _, _, _, hq, _, _                        => by simp at hq
  | _, _ :: _, [], _, _, _, _, _, hx, _                   => by simp at hx
  | i, q :: qs, x :: xs, w, 0, quote, _, hq, hx, h     => by
    cases hq
    cases hx
    have hrest : ∀ j, j < xs.length → qs[j]? ≠ some q := fun j hj => h (j + 1) (Nat.succ_pos j) (Nat.succ_lt_succ hj)
    rw [write, write_other vars q (i + 1) qs xs _ hrest, setValue_quotes, if_pos rfl, Nat.add_zero]
  | i, _ :: qs, _ :: xs, w, k + 1, quote, x, hq, hx, h => by
    have hrest : ∀ j, k < j → j < xs.length → qs[j]? ≠ some quote :=
      fun j hk hj => h (j + 1) (Nat.succ_lt_succ hk) (Nat.succ_lt_succ hj)
    rw [write, write_at (i + 1) qs xs _ k quote x hq hx hrest, Nat.add_right_comm, Nat.add_assoc]

theorem update_eq_ok {x : List K} {w w' : Quoted K X} (h : vars.update x w = (.ok (), w')) : vars.Holds x w' := by
  unfold update at h
  obtain ⟨_, t, hrequire, hmodify⟩ := Prog.run_bind_eq_ok.1 h
  rw [Prog.run_require] at hrequire
  split_ifs at hrequire with hle
  · cases hrequire
    cases hmodify
    refine ⟨hle, fun i quote coordinate hquote hcoordinate hlast => ?_⟩
    rw [write_at vars 0 _ _ _ i quote coordinate hquote hcoordinate hlast, Nat.zero_add]
  · cases hrequire

/-- One guess, and what is left of the world where the data is valid. -/
theorem guess_eq_ok {validData : Bool} {i quote : ℕ} {w w' : Quoted K X} {value : K}
    (h : vars.guess validData i quote w = (.ok value, w')) :
    vars.StartsAt validData w i quote value ∧ (validData = true → w' = w) := by
  unfold guess at h
  unfold StartsAt
  cases validData with
  | false =>
    cases h
    exact ⟨rfl, nofun⟩
  | true  =>
    simp only [if_true, Prog.run_bind, Prog.run_get] at h
    cases hq : w.quotes quote with
    | none   =>
      rw [hq] at h
      cases h
    | some v =>
      rw [hq] at h
      cases h
      exact ⟨rfl, fun _ => rfl⟩

theorem initializeFrom_eq_ok {validData : Bool} : ∀ {i : ℕ} {qs : List ℕ} {w w' : Quoted K X} {guesses : List K},
    vars.initializeFrom validData i qs w = (.ok guesses, w') → guesses.length = qs.length ∧
      ∀ k quote, qs[k]? = some quote → ∃ value, vars.StartsAt validData w (i + k) quote value ∧
        guesses[k]? = some (vars.transformInverse value (i + k))
  | _, [], _, _, _, h        => by
    cases h
    exact ⟨rfl, nofun⟩
  | i, quote :: qs, w, w', _, h => by
    obtain ⟨value, t, hguess, h⟩ := Prog.run_bind_eq_ok.1 h
    obtain ⟨guesses, t', hrest, h⟩ := Prog.run_bind_eq_ok.1 h
    cases h
    obtain ⟨hvalue, hkept⟩ := guess_eq_ok vars hguess
    obtain ⟨hlength, hguesses⟩ := initializeFrom_eq_ok hrest
    refine ⟨congrArg (· + 1) hlength, fun k q hq => ?_⟩
    cases k with
    | zero   =>
      cases hq
      exact ⟨value, hvalue, rfl⟩
    | succ k =>
      obtain ⟨value', hvalue', hg⟩ := hguesses k q hq
      rw [Nat.add_right_comm, Nat.add_assoc] at hvalue' hg
      refine ⟨value', ?_, hg⟩
      cases validData with
      | false => exact hvalue'
      | true  => rwa [hkept rfl] at hvalue'

end SimpleQuoteVariables

end Itofin
