import Mathlib.Algebra.Order.Ring.Rat
import Mathlib.Data.List.Nodup
import Itofin.Lib.Effect
import Itofin.Types
/-!
# LongstaffSchwartz — least-squares pricing of early exercise

`LongstaffSchwartzPathPricer` of `methods/montecarlo/longstaffschwartzpathpricer.rs`.  Until it is calibrated the pricer keeps
the paths it is shown; `calibrate` goes through the exercise dates backwards with all of them together and fits the value of
going on at each date; afterwards a path is priced alone, over all dates, against these fits.  The regression is any function,
and what the operations on machine numbers compute does not matter.

A turn of the calibration does to every path what a turn of the pricing does to it with the same coefficients
(`turn_rolls`), and the coefficients of a date are not touched by the dates before it; so the two inductions give the same
values (`induction_rolls`).
-/
namespace Itofin

open Effect

namespace LongstaffSchwartz

/-- An exercise value, the state to regress on and the basis, for paths of any kind. -/
structure EarlyExercisePathPricer (P X F : Type) where
  value       : P → ℕ → F
  state       : P → ℕ → X
  basisSystem : List (X → F)

inductive LsError (E : Type) where
  /-- "at least two exercise times required" -/
  | tooFewTimes
  /-- An error of the term structure or of the regression. -/
  | inner (e : E)
  /-- An index out of range. -/
  | outOfRange
deriving DecidableEq

/-- `GeneralLinearLeastSquares::new(x, y, v)?.coefficients()` -/
def Regression (X F E : Type) : Type := List X → List F → List (X → F) → Except E (List F)

/-- The times number `len`, today and maturity among them, and `df[i]` is the discount from the one after time `i`. -/
structure LongstaffSchwartzPathPricer (P X F : Type) where
  pathPricer : EarlyExercisePathPricer P X F
  v          : List (X → F)
  df         : List F
  len        : ℕ
  two_le     : 2 ≤ len
  df_length  : df.length + 1 = len

/-- What calibration and pricing change; `exercised` is what `exercise_probability` is the mean of. -/
structure PricerState (P F : Type) where
  calibrationPhase : Bool
  coeff            : List (List F)
  paths            : List P
  exercised        : List Bool

/-- A path in the money at a date: its number, its state and exercise value, and its discounted price. -/
structure InTheMoney (X F : Type) where
  j        : ℕ
  state    : X
  exercise : F
  y        : F

variable {P X F E : Type} [Floats F]

/-- `array[i]` -/
def read {α : Type} (array : List α) (i : ℕ) : Except (LsError E) α :=
  match array[i]? with
  | some a => .ok a
  | none   => .error .outOfRange

/-- `P(times[i + 1]) / P(times[i])` -/
def discounts {T : Type} (discount : T → Except E F) (times : List T) : Except (LsError E) (List F) :=
  (times.zip times.tail).mapM fun step => do
    let ahead ← (discount step.2).mapError .inner
    let here ← (discount step.1).mapError .inner
    pure (ahead / here)

theorem discounts_length {T : Type} {discount : T → Except E F} {times : List T} {df : List F}
    (h : discounts discount times = .ok df) : df.length = times.length - 1 := by
  have := length_of_mapM_eq_ok h
  rw [this, List.length_zip, List.length_tail]
  omega

def new {T : Type} (times : List T) (pathPricer : EarlyExercisePathPricer P X F) (discount : T → Except E F) :
    Except (LsError E) (LongstaffSchwartzPathPricer P X F × PricerState P F) :=
  if hlen : times.length < 2 then .error .tooFewTimes
  else match hdf : discounts discount times with
    | .error e => .error e
    | .ok df   => .ok (⟨pathPricer, pathPricer.basisSystem, df, times.length, Nat.le_of_not_lt hlen, by
        have := discounts_length hdf
        omega⟩, ⟨true, List.replicate (times.length - 2) [], [], []⟩)

namespace LongstaffSchwartzPathPricer

variable (self : LongstaffSchwartzPathPricer P X F) (regression : Regression X F E)

/-- `(1..self.len - 1).rev()` -/
def dates : List ℕ := (List.range' 1 (self.len - 2)).reverse

def continuation (coeff : List F) (state : X) : Except (LsError E) F :=
  if coeff.length < self.v.length then .error .outOfRange
  else .ok ((List.zipWith (fun c f => c * f state) coeff self.v).foldl (· + ·) 0)

/-! ## Calibration -/

/-- The paths in the money at the date `i`. -/
def itm (i : ℕ) (df : F) (paths : List P) (prices : List F) : List (InTheMoney X F) :=
  (paths.zip prices).zipIdx.filterMap fun p =>
    let exercise := self.pathPricer.value p.1.1 i
    if Floats.lt 0 exercise then some ⟨p.2, self.pathPricer.state p.1.1 i, exercise, df * p.1.2⟩ else none

def fit (itm : List (InTheMoney X F)) : Except (LsError E) (List F) :=
  if self.v.length ≤ itm.length then
    (regression (itm.map InTheMoney.state) (itm.map InTheMoney.y) self.v).mapError .inner
  else .ok (List.replicate self.v.length 0)

/-- `if continuation(..) < exercise { prices[j] = exercise; }` -/
def exerciseOne (fit : List F) (prices : List F) (p : InTheMoney X F) : Except (LsError E) (List F) := do
  let continuation ← self.continuation fit p.state
  pure (if Floats.lt continuation p.exercise then prices.set p.j p.exercise else prices)

/-- `self.coeff.borrow_mut()[i - 1] = fit` -/
def storeFit (i : ℕ) (fit : List F) : Prog (PricerState P F) (LsError E) Unit := fun s =>
  if i - 1 < s.coeff.length then (.ok (), { s with coeff := s.coeff.set (i - 1) fit }) else (.error .outOfRange, s)

/-- The turn of the date `i`. -/
def turn (paths : List P) (prices : List F) (i : ℕ) : Prog (PricerState P F) (LsError E) (List F) := do
  let df ← Prog.lift (read self.df i)
  let itm := self.itm i df paths prices
  let fit ← Prog.lift (self.fit regression itm)
  let prices ← Prog.lift (itm.foldlM (self.exerciseOne fit) (prices.map (· * df)))
  storeFit i fit
  pure prices

/-- The backward induction over all paths together, with the prices that it leaves. -/
def induction (paths : List P) : Prog (PricerState P F) (LsError E) (List F) :=
  self.dates.foldlM (self.turn regression paths) (paths.map fun path => self.pathPricer.value path (self.len - 1))

def calibrate : Prog (PricerState P F) (LsError E) Unit := do
  let s ← Prog.get
  Prog.modify fun s => { s with paths := [] }
  let _ ← self.induction regression s.paths
  Prog.modify fun s => { s with calibrationPhase := false }

/-! ## Pricing -/

/-- The turn of the date `i` for one path: its price, and whether it has been exercised. -/
def priceTurn (coeff : List (List F)) (path : P) (p : F × Bool) (i : ℕ) : Except (LsError E) (F × Bool) := do
  let df ← read self.df i
  let exercise := self.pathPricer.value path i
  if Floats.lt 0 exercise then do
    let coefficients ← read coeff (i - 1)
    let continuation ← self.continuation coefficients (self.pathPricer.state path i)
    pure (if Floats.lt continuation exercise then (exercise, true) else (p.1 * df, p.2))
  else pure (p.1 * df, p.2)

def price (path : P) : Prog (PricerState P F) (LsError E) F := do
  let s ← Prog.get
  if s.calibrationPhase then do
    Prog.modify fun s => { s with paths := s.paths ++ [path] }
    pure 0
  else do
    let last := self.pathPricer.value path (self.len - 1)
    let p ← Prog.lift (self.dates.foldlM (self.priceTurn s.coeff path) (last, Floats.lt 0 last))
    Prog.modify fun s => { s with exercised := s.exercised ++ [p.2] }
    let df ← Prog.lift (read self.df 0)
    pure (p.1 * df)

/-! ## The two inductions -/

section Rolls

variable {self regression} {paths : List P} {prices prices' : List F} {s s' : PricerState P F} {df : F} {i : ℕ}

theorem itm_nodup : ((self.itm i df paths prices).map InTheMoney.j).Nodup := by
  have hidx : (paths.zip prices).zipIdx.Pairwise fun p q => p.2 ≠ q.2 := by
    have hnodup : (List.range' 0 (paths.zip prices).length).Nodup := List.nodup_range'
    rw [← List.zipIdx_map_snd] at hnodup
    exact List.pairwise_map.1 hnodup
  refine List.pairwise_map.2 (List.pairwise_filterMap.2 (hidx.imp fun {p q} hne x hx y hy => ?_))
  dsimp only at hx hy
  split at hx
  · split at hy
    · cases hx
      cases hy
      exact hne
    · cases hy
  · cases hx

theorem mem_itm {p : InTheMoney X F} : p ∈ self.itm i df paths prices ↔ ∃ path price, paths[p.j]? = some path ∧
    prices[p.j]? = some price ∧ Floats.lt 0 (self.pathPricer.value path i) = true ∧
    p = ⟨p.j, self.pathPricer.state path i, self.pathPricer.value path i, df * price⟩ := by
  rw [itm, List.mem_filterMap]
  constructor
  · rintro ⟨⟨⟨path, price⟩, j⟩, hmem, hp⟩
    have hget := List.mem_zipIdx_iff_getElem?.1 hmem
    rw [List.getElem?_zip_eq_some] at hget
    dsimp only at hp
    split at hp
    · rename_i hpos
      cases hp
      exact ⟨path, price, hget.1, hget.2, hpos, rfl⟩
    · cases hp
  · rintro ⟨path, price, hpath, hprice, hpos, hp⟩
    refine ⟨⟨⟨path, price⟩, p.j⟩, List.mem_zipIdx_iff_getElem?.2 (List.getElem?_zip_eq_some.2 ⟨hpath, hprice⟩), ?_⟩
    dsimp only
    rw [if_pos hpos, ← hp]

/-- The paths in the money are decided one by one, each on its own price. -/
theorem exerciseOne_fold {fit : List F} : ∀ (itm : List (InTheMoney X F)) {prices : List F},
    (itm.map InTheMoney.j).Nodup → itm.foldlM (self.exerciseOne fit (E := E)) prices = .ok prices' →
    prices'.length = prices.length ∧ (∀ j, j ∉ itm.map InTheMoney.j → prices'[j]? = prices[j]?) ∧
      ∀ p ∈ itm, ∃ c, self.continuation (E := E) fit p.state = .ok c ∧ ∀ price, prices[p.j]? = some price →
        prices'[p.j]? = some (if Floats.lt c p.exercise then p.exercise else price)
  | [], prices, _, h            => by
    cases h
    exact ⟨rfl, fun _ _ => rfl, fun p hp => by cases hp⟩
  | p :: itm, prices, hnodup, h => by
    obtain ⟨hout, hnodup⟩ := List.nodup_cons.1 hnodup
    rw [List.foldlM_cons] at h
    obtain ⟨prices₁, hone, h⟩ := bind_eq_ok.1 h
    obtain ⟨c, hc, hone⟩ := bind_eq_ok.1 hone
    obtain ⟨hlen, hother, hitm⟩ := exerciseOne_fold itm hnodup h
    have hset : prices₁ = if Floats.lt c p.exercise then prices.set p.j p.exercise else prices := (Except.ok.inj hone).symm
    have hne : ∀ j, j ≠ p.j → prices₁[j]? = prices[j]? := by
      intro j hj
      rw [hset]
      split
      · exact List.getElem?_set_ne hj.symm
      · rfl
    refine ⟨hlen.trans ?_, fun j hj => ?_, fun q hq => ?_⟩
    · rw [hset]
      split
      · exact List.length_set
      · rfl
    · rw [List.map_cons, List.mem_cons, not_or] at hj
      rw [hother j hj.2, hne j hj.1]
    · rcases List.mem_cons.1 hq with rfl | hq
      · refine ⟨c, hc, fun price hprice => ?_⟩
        rw [hother _ hout, hset]
        split
        · exact List.getElem?_set_self (List.getElem?_eq_some_iff.1 hprice).1
        · exact hprice
      · obtain ⟨d, hd, hq'⟩ := hitm q hq
        refine ⟨d, hd, fun price hprice => hq' price ?_⟩
        rw [hne q.j (fun he => hout (he ▸ List.mem_map_of_mem hq)), hprice]

/-- **A turn of the calibration rolls every path** as a turn of the pricing does with the coefficients that it stores. -/
theorem turn_rolls (hlen : prices.length = paths.length) (h : self.turn regression paths prices i s = (.ok prices', s')) :
    ∃ fit, i - 1 < s.coeff.length ∧ s' = { s with coeff := s.coeff.set (i - 1) fit } ∧ prices'.length = paths.length ∧
      ∀ (j : ℕ) path price (coeff : List (List F)) b, paths[j]? = some path → prices[j]? = some price →
        coeff[i - 1]? = some fit →
        ∃ price' b', self.priceTurn (E := E) coeff path (price, b) i = .ok (price', b') ∧ prices'[j]? = some price' := by
  unfold turn at h
  obtain ⟨df, hdf, h⟩ := Prog.lift_bind_eq_ok.1 h
  obtain ⟨fit, _, h⟩ := Prog.lift_bind_eq_ok.1 h
  obtain ⟨decided, hfold, h⟩ := Prog.lift_bind_eq_ok.1 h
  obtain ⟨_, t, hstore, h⟩ := Prog.run_bind_eq_ok.1 h
  cases h
  obtain ⟨hcount, hother, hitm⟩ := exerciseOne_fold _ itm_nodup hfold
  have hstored : i - 1 < s.coeff.length ∧ s' = { s with coeff := s.coeff.set (i - 1) fit } := by
    unfold storeFit at hstore
    split at hstore
    · rename_i hlt
      cases hstore
      exact ⟨hlt, rfl⟩
    · cases hstore
  refine ⟨fit, hstored.1, hstored.2, by rw [hcount, List.length_map, hlen], fun j path price coeff b hpath hprice hfit => ?_⟩
  have hdiscounted : (prices.map (· * df))[j]? = some (price * df) := by rw [List.getElem?_map, hprice]; rfl
  unfold priceTurn
  rw [hdf]
  change ∃ price' b', (if Floats.lt 0 (self.pathPricer.value path i) then _ else _) = _ ∧ _
  by_cases hpos : Floats.lt 0 (self.pathPricer.value path i) = true
  · obtain ⟨c, hc, hdecided⟩ := hitm ⟨j, _, _, _⟩ (mem_itm.2 ⟨path, price, hpath, hprice, hpos, rfl⟩)
    have hread : read (E := E) coeff (i - 1) = .ok fit := by
      unfold read
      rw [hfit]
    dsimp only at hc
    refine ⟨if Floats.lt c (self.pathPricer.value path i) then self.pathPricer.value path i else price * df,
      if Floats.lt c (self.pathPricer.value path i) then true else b, ?_, hdecided _ hdiscounted⟩
    rw [if_pos hpos, hread]
    change (self.continuation fit (self.pathPricer.state path i) >>= fun continuation => _) = _
    rw [hc]
    change Except.ok (if Floats.lt c (self.pathPricer.value path i) then _ else _) = _
    split <;> rfl
  · have hout : j ∉ (self.itm i df paths prices).map InTheMoney.j := by
      intro hj
      obtain ⟨p, hp, rfl⟩ := List.mem_map.1 hj
      obtain ⟨path', _, hpath', _, hpos', _⟩ := mem_itm.1 hp
      rw [hpath] at hpath'
      cases hpath'
      exact hpos hpos'
    refine ⟨price * df, b, ?_, by rw [hother j hout, hdiscounted]⟩
    rw [if_neg hpos]
    rfl

/-- **The induction over all paths rolls each of them** as pricing does with the coefficients that it leaves. -/
theorem induction_rolls : ∀ (dates : List ℕ) {prices : List F} {s : PricerState P F}, (dates.map (· - 1)).Nodup →
    prices.length = paths.length → dates.foldlM (self.turn regression paths) prices s = (.ok prices', s') →
    s' = { s with coeff := s'.coeff } ∧ (∀ k, k ∉ dates.map (· - 1) → s'.coeff[k]? = s.coeff[k]?) ∧
      prices'.length = paths.length ∧ ∀ (j : ℕ) path price b, paths[j]? = some path → prices[j]? = some price →
        ∃ price' b', dates.foldlM (self.priceTurn (E := E) s'.coeff path) (price, b) = .ok (price', b') ∧
          prices'[j]? = some price'
  | [], prices, s, _, hlen, h              => by
    cases h
    exact ⟨rfl, fun _ _ => rfl, hlen, fun j path price b _ hprice => ⟨price, b, rfl, hprice⟩⟩
  | i :: dates, prices, s, hnodup, hlen, h => by
    obtain ⟨hout, hnodup⟩ := List.nodup_cons.1 hnodup
    rw [List.foldlM_cons] at h
    obtain ⟨prices₁, s₁, hturn, h⟩ := Prog.run_bind_eq_ok.1 h
    obtain ⟨fit, hlt, hs₁, hlen₁, hroll⟩ := turn_rolls hlen hturn
    obtain ⟨hs', hkept, hlen', hrolls⟩ := induction_rolls dates hnodup hlen₁ h
    have hfit : s'.coeff[i - 1]? = some fit := by
      rw [hkept _ hout, hs₁]
      exact List.getElem?_set_self hlt
    refine ⟨?_, fun k hk => ?_, hlen', fun j path price b hpath hprice => ?_⟩
    · rw [hs', hs₁]
    · rw [List.map_cons, List.mem_cons, not_or] at hk
      rw [hkept k hk.2, hs₁]
      exact List.getElem?_set_ne (Ne.symm hk.1)
    · obtain ⟨price₁, b₁, hprice₁, hget₁⟩ := hroll j path price s'.coeff b hpath hprice hfit
      obtain ⟨price', b', hrest, hget'⟩ := hrolls j path price₁ b₁ hpath hget₁
      refine ⟨price', b', ?_, hget'⟩
      rw [List.foldlM_cons, hprice₁]
      exact hrest

omit [Floats F] in
theorem dates_nodup : (self.dates.map (· - 1)).Nodup := by
  have hpos : ∀ i ∈ self.dates, 1 ≤ i := by
    intro i hi
    rw [dates, List.mem_reverse, List.mem_range'_1] at hi
    exact hi.1
  refine List.Nodup.map_on (fun i hi k hk he => ?_) (List.nodup_reverse.2 (List.nodup_range' (h := Nat.one_pos)))
  have := hpos i hi
  have := hpos k hk
  omega

end Rolls

/-- `df[0]` -/
def firstDiscount : F := self.df.get ⟨0, by have := self.two_le; have := self.df_length; omega⟩

/-- **After calibration a path of the calibration is priced as the induction left it**, discounted over the first step, as
long as the fits are those of the calibration. -/
theorem price_calibrated {s s₁ : PricerState P F} (h : self.calibrate regression s = (.ok (), s₁)) :
    ∃ prices s₂, self.induction regression s.paths { s with paths := [] } = (.ok prices, s₂) ∧
      prices.length = s.paths.length ∧ s₁ = { s₂ with calibrationPhase := false } ∧
      ∀ (j : ℕ) path value, s.paths[j]? = some path → prices[j]? = some value →
        ∀ s₃ : PricerState P F, s₃.calibrationPhase = false → s₃.coeff = s₁.coeff →
          (self.price (E := E) path s₃).1 = .ok (value * self.firstDiscount) := by
  unfold calibrate at h
  obtain ⟨_, _, hget, h⟩ := Prog.run_bind_eq_ok.1 h
  cases hget
  obtain ⟨_, _, hmodify, h⟩ := Prog.run_bind_eq_ok.1 h
  cases hmodify
  obtain ⟨prices, s₂, hinduction, h⟩ := Prog.run_bind_eq_ok.1 h
  cases h
  obtain ⟨_, _, hlen, hrolls⟩ := induction_rolls self.dates dates_nodup (List.length_map _) hinduction
  refine ⟨prices, s₂, hinduction, hlen, rfl, fun j path value hpath hvalue s₃ hphase hcoeff => ?_⟩
  obtain ⟨price, b, hprice, hget⟩ := hrolls j path (self.pathPricer.value path (self.len - 1))
    (Floats.lt 0 (self.pathPricer.value path (self.len - 1))) hpath (by rw [List.getElem?_map, hpath]; rfl)
  rw [hvalue] at hget
  cases hget
  have hdf : read (E := E) self.df 0 = .ok self.firstDiscount := by
    unfold read
    rw [List.getElem?_eq_getElem (by have := self.two_le; have := self.df_length; omega)]
    rfl
  simp [price, hphase, hcoeff, hprice, hdf]

/-! ## A put of three dates -/

section Put

local instance rationals : Floats ℚ where
  lt a b     := a < b
  le a b     := a ≤ b
  isFinite _ := true
  abs a      := max a (-a)
  max a b    := max a b
  ofNat n    := n
  nan        := 0

/-- A put struck at 100, regressed on the constant. -/
def put : EarlyExercisePathPricer (List ℚ) ℚ ℚ := ⟨fun path t => max (100 - path.getD t 0) 0, fun path t => path.getD t 0, [fun _ => 1]⟩

def putPricer : LongstaffSchwartzPathPricer (List ℚ) ℚ ℚ := ⟨put, put.basisSystem, [9 / 10, 9 / 10], 3, by decide, by decide⟩

/-- The regression on the constant is the mean. -/
def meanFit : Regression ℚ ℚ Empty := fun _ y _ => .ok [y.sum / y.length]

/-- Two paths, both in the money at the first date. -/
def shown : PricerState (List ℚ) ℚ := ⟨true, [[]], [[100, 90, 80], [100, 95, 120]], []⟩

theorem price_calibrated_put : ∃ value,
    (putPricer.price (E := Empty) [100, 95, 120] (putPricer.calibrate meanFit shown).2).1 = .ok (value * (9 / 10)) := by
  have hrun : putPricer.calibrate meanFit shown = (.ok (), (putPricer.calibrate meanFit shown).2) :=
    Prod.ext (by decide +kernel) rfl
  obtain ⟨prices, s₂, _, hlen, hs₁, h⟩ := price_calibrated putPricer meanFit hrun
  have hlt : 1 < prices.length := by rw [hlen]; decide
  exact ⟨prices.get ⟨1, hlt⟩, h 1 [100, 95, 120] _ rfl (List.getElem?_eq_getElem hlt) _ (by rw [hs₁]) rfl⟩

end Put

end LongstaffSchwartzPathPricer

end LongstaffSchwartz

end Itofin
