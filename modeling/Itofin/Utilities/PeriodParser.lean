import Mathlib.Tactic.FinCases
import Itofin.Lib.Text
import Itofin.Time.Period.Sum
/-!
# PeriodParser — which texts are read as periods

`Display` of `time/period.rs`, and `parse_one_period` and `parse_period` of `utilities/dataparsers.rs`, on texts as lists
of characters, where positions count bytes.  A text is split after each unit letter, every piece is read, and the
periods are added up.

`Denotes` is the grammar: integers, each followed by a unit letter, whose partial sums are representable.  The parser
meets it (`denotes_of_readAs`, `readAs_of_denotes`) unless an addition overflows, a component is not representable by
itself, or something stands before a number, which the parser skips.
-/
namespace Itofin

open Text

namespace TimeUnit

/-- `Display` -/
def name : TimeUnit → String
  | .days         => "Days"
  | .weeks        => "Weeks"
  | .months       => "Months"
  | .years        => "Years"
  | .hours        => "Hours"
  | .minutes      => "Minutes"
  | .seconds      => "Seconds"
  | .milliseconds => "Milliseconds"
  | .microseconds => "Microseconds"

end TimeUnit

namespace Period

/-- The unit in the short format. -/
def unit : TimeUnit → List Char
  | .days         => ['D']
  | .weeks        => ['W']
  | .months       => ['M']
  | .years        => ['Y']
  | .hours        => ['h']
  | .minutes      => ['m']
  | .seconds      => ['s']
  | .milliseconds => ['m', 's']
  | .microseconds => ['u', 's']

/-- `Display`, the short format. -/
def display (p : Period) : List Char := Text.display p.length ++ unit p.units

end Period

namespace DataParsers

/-- A text that is refused, or a panic. -/
inductive Failure where
  | error (message : String)
  | panic
deriving DecidableEq

def require (condition : Prop) [Decidable condition] (message : String) : Except Failure Unit :=
  if condition then .ok () else .error (.error message)

def orPanic {α : Type} : Option α → Except Failure α
  | some a => .ok a
  | none   => .error .panic

/-- `parse::<Integer>` -/
def parseInteger (s : List Char) : Option ℤ := parseInt (-2147483648) 2147483647 s

def isUnitLetter (x : Char) : Bool := ['D', 'd', 'W', 'w', 'M', 'm', 'Y', 'y'].contains x

def startsNumber (x : Char) : Bool := x == '-' || x == '+' || x.isDigit

/-- `to_ascii_uppercase` -/
def toAsciiUppercase (b : UInt8) : UInt8 := if 97 ≤ b ∧ b ≤ 122 then b - 32 else b

/-- `match byte.to_ascii_uppercase() { b'D' => .., b'W' => .., b'M' => .., _ => .. }` -/
def unitOfByte (b : UInt8) : TimeUnit :=
  if toAsciiUppercase b = 68 then .days
  else if toAsciiUppercase b = 87 then .weeks
  else if toAsciiUppercase b = 77 then .months
  else .years

/-- The second half of `parse_one_period`: the number before the unit letter. -/
def parseNumber (s : List Char) (iPos : ℕ) (units : TimeUnit) : Except Failure Period := do
  let name := units.name
  let nPos ← (match (find startsNumber s).filter (· < iPos) with
    | some p => .ok p
    | none   => .error (.error s!"no numbers of {name} provided"))
  let number ← orPanic (slice s nPos iPos)
  match parseInteger number with
  | some n => .ok ⟨n, units⟩
  | none   =>
    let text := String.ofList s
    .error (.error s!"unable to parse the number of units of {name} in '{text}'")

def parseOnePeriod (s : List Char) : Except Failure Period := do
  require (1 < size s) "single period require a string of at least 2 characters"
  let iPos ← (match (find isUnitLetter s).filter (· = size s - 1) with
    | some p => .ok p
    | none   => do
      let last ← orPanic s.getLast?
      .error (.error s!"unknown '{last}' unit"))
  let byte ← orPanic (asBytes s)[iPos]?
  parseNumber s iPos (unitOfByte byte)

def isSummable (acc incoming : Period) : Bool :=
  acc.length = 0 || incoming.length = 0 || acc.units = incoming.units ||
    match acc.units, incoming.units with
    | .years, .months | .months, .years | .weeks, .days | .days, .weeks => true
    | _, _                                                              => false

/-- A turn of the loop over the characters: after a unit letter, a segment ends and the next one starts. -/
def cut (s : List Char) (state : List (List Char) × ℕ) (item : ℕ × Char) : Except Failure (List (List Char) × ℕ) :=
  if isUnitLetter item.2 then do
    let segment ← orPanic (slice s state.2 (item.1 + 1))
    .ok (state.1 ++ [segment], item.1 + 1)
  else .ok state

/-- The segments, and where the last one ends. -/
def segments (s : List Char) : Except Failure (List (List Char) × ℕ) := (charIndices 0 s).foldlM (cut s) ([], 0)

/-- A turn of the loop over the other segments. -/
def addSegment (result : Period) (seg : List Char) : Except Failure Period := do
  let next ← parseOnePeriod seg
  let resultText := String.ofList result.display
  let nextText := String.ofList next.display
  require (isSummable result next) s!"impossible addition between {resultText} and {nextText}"
  orPanic (result.addAssign next)

def parsePeriod (s : List Char) : Except Failure Period := do
  require (1 < size s) "period string length must be at least 2"
  let (segments, start) ← segments s
  let text := String.ofList s
  require (start = size s) s!"unknown '{text}' unit"
  match segments with
  | []            => .error .panic
  | first :: rest => do
    let result ← parseOnePeriod first
    rest.foldlM addSegment result

/-! ## One period -/

variable {s t cur : List Char} {u x : Char} {p q r : Period} {head : List Char × Char}
  {xs : List (List Char × Char)} {ps : List Period}

theorem require_bind {β : Type} (condition : Prop) [Decidable condition] (message : String)
    (f : Unit → Except Failure β) :
    (require condition message >>= f) = if condition then f () else .error (.error message) := by
  unfold require
  split <;> rfl

theorem ok_bind {α β : Type} (a : α) (f : α → Except Failure β) : (Except.ok a >>= f) = f a := rfl

theorem orPanic_bind {α β : Type} (a : α) (f : α → Except Failure β) : (orPanic (some a) >>= f) = f a := rfl

def unitOf (x : Char) : TimeUnit := unitOfByte (UInt8.ofNat x.toNat)

/-- From the first sign or digit on. -/
def number (t : List Char) : List Char := t.dropWhile (fun x => !startsNumber x)

/-- What the parser reads in a text before a unit letter. -/
def reading (piece : List Char × Char) : Option Period :=
  (parseInteger (number piece.1)).map (fun n => ⟨n, unitOf piece.2⟩)

theorem unitLetter_spec (h : isUnitLetter x = true) :
    x.toNat < 128 ∧ x.utf8Size = 1 ∧ startsNumber x = false ∧ Period.isCalendarUnit (unitOf x) = true := by
  have hmem : x ∈ ['D', 'd', 'W', 'w', 'M', 'm', 'Y', 'y'] := List.contains_iff_mem.mp h
  fin_cases hmem <;> decide

theorem number_split : ∀ t : List Char, ∃ junk, t = junk ++ number t ∧ (∀ x ∈ junk, startsNumber x = false) ∧
    (number t = [] ∨ ∃ x ds, number t = x :: ds ∧ startsNumber x = true)
  | []     => ⟨[], rfl, fun _ h => absurd h List.not_mem_nil, .inl rfl⟩
  | x :: t => by
    cases hx : startsNumber x with
    | true  =>
      have hnum : number (x :: t) = x :: t := List.dropWhile_cons_of_neg (by rw [hx]; decide)
      exact ⟨[], hnum.symm, fun _ h => absurd h List.not_mem_nil, .inr ⟨x, t, hnum, hx⟩⟩
    | false =>
      have hnum : number (x :: t) = number t := List.dropWhile_cons_of_pos (by rw [hx]; decide)
      obtain ⟨junk, ht, hjunk, h⟩ := number_split t
      refine ⟨x :: junk, ?_, List.forall_mem_cons.mpr ⟨hx, hjunk⟩, by rwa [hnum]⟩
      rw [hnum, List.cons_append, ← ht]

def refuse {α : Type} (message : String) : Option α → Except Failure α
  | some a => .ok a
  | none   => .error (.error message)

theorem parseNumber_segment (hu : isUnitLetter u = true) :
    ∃ message, parseNumber (t ++ [u]) (size t) (unitOf u) = refuse message (reading (t, u)) := by
  obtain ⟨-, -, hstart, -⟩ := unitLetter_spec hu
  rw [parseNumber, reading]
  dsimp only
  obtain ⟨junk, htj, hjunk, hnum | ⟨x, ds, hnum, hx⟩⟩ := number_split t
  · have hnone : ∀ x ∈ t ++ [u], startsNumber x = false := by
      rw [htj, hnum, List.append_nil]
      exact List.forall_mem_append.mpr ⟨hjunk, List.forall_mem_singleton.mpr hstart⟩
    rw [find_eq_none.mpr hnone, hnum]
    exact ⟨_, rfl⟩
  · have hpos : (find startsNumber (t ++ [u])).filter (· < size t) = some (size junk) := by
      have hlt := x.utf8Size_pos
      rw [htj, hnum, List.append_assoc, List.cons_append, find_append hjunk hx]
      exact Option.filter_some_pos (by rw [size_append, size_cons]; simp only [decide_eq_true_eq]; omega)
    have hslice : slice (t ++ [u]) (size junk) (size t) = some (number t) := by
      have := slice_append junk (number t) [u]
      rwa [← htj, ← size_append, ← htj] at this
    rw [hpos]
    dsimp only
    rw [ok_bind, hslice, orPanic_bind]
    cases parseInteger (number t) with
    | some n => exact ⟨"", rfl⟩
    | none   => exact ⟨_, rfl⟩

/-- **A segment is read or refused**, never with a panic. -/
theorem parseOnePeriod_segment (ht : ∀ x ∈ t, isUnitLetter x = false) (hu : isUnitLetter u = true) :
    ∃ message, parseOnePeriod (t ++ [u]) = refuse message (reading (t, u)) := by
  obtain ⟨hascii, hsize, -, -⟩ := unitLetter_spec hu
  have hlen : size (t ++ [u]) = size t + 1 := by rw [size_append, size_cons, hsize, size_nil]
  rw [parseOnePeriod, require_bind]
  by_cases hnil : t = []
  · subst hnil
    rw [if_neg (by rw [hlen, size_nil]; decide)]
    exact ⟨_, rfl⟩
  have hne := size_eq_zero.not.mpr hnil
  have hpos : (find isUnitLetter (t ++ [u])).filter (· = size (t ++ [u]) - 1) = some (size t) := by
    rw [find_append ht hu, hlen]
    exact Option.filter_some_pos (by simp)
  rw [if_pos (by omega), hpos]
  dsimp only
  rw [ok_bind, asBytes_ascii hascii, orPanic_bind]
  exact parseNumber_segment hu

/-! ## The segments -/

/-- A text cut after its unit letters, and what is left; a text without any stands before it. -/
def pieces : List Char → List Char → List (List Char × Char) × List Char
  | cur, []     => ([], cur)
  | cur, x :: s =>
    if isUnitLetter x then ((cur, x) :: (pieces [] s).1, (pieces [] s).2) else pieces (cur ++ [x]) s

def segment (piece : List Char × Char) : List Char := piece.1 ++ [piece.2]

/-- A piece ends in its only unit letter. -/
def IsPiece (piece : List Char × Char) : Prop :=
  (∀ x ∈ piece.1, isUnitLetter x = false) ∧ isUnitLetter piece.2 = true

theorem pieces_letter (hx : isUnitLetter x = true) :
    pieces cur (x :: s) = ((cur, x) :: (pieces [] s).1, (pieces [] s).2) := by rw [pieces, if_pos hx]

theorem pieces_other (hx : isUnitLetter x = false) : pieces cur (x :: s) = pieces (cur ++ [x]) s := by
  rw [pieces, hx, if_neg (by decide)]

theorem pieces_append : ∀ t cur : List Char, (∀ x ∈ t, isUnitLetter x = false) →
    pieces cur (t ++ s) = pieces (cur ++ t) s
  | [], cur, _     => by rw [List.nil_append, List.append_nil]
  | x :: t, cur, h => by
    rw [List.cons_append, pieces_other (h x List.mem_cons_self),
      pieces_append t (cur ++ [x]) (fun y hy => h y (List.mem_cons_of_mem x hy)), List.append_assoc,
      List.singleton_append]

theorem pieces_join : ∀ s cur : List Char, (pieces cur s).1.flatMap segment ++ (pieces cur s).2 = cur ++ s
  | [], cur     => by rw [pieces, List.flatMap_nil, List.nil_append, List.append_nil]
  | x :: s, cur => by
    cases hx : isUnitLetter x with
    | true  =>
      rw [pieces_letter hx, List.flatMap_cons, List.append_assoc, pieces_join s [], segment, List.nil_append,
        List.append_assoc, List.singleton_append]
    | false =>
      rw [pieces_other hx, pieces_join s (cur ++ [x]), List.append_assoc, List.singleton_append]

theorem pieces_spec : ∀ s cur : List Char, (∀ x ∈ cur, isUnitLetter x = false) →
    ∀ piece ∈ (pieces cur s).1, IsPiece piece
  | [], _, _, _, h          => absurd h List.not_mem_nil
  | x :: s, cur, h, piece, hp => by
    cases hx : isUnitLetter x with
    | true  =>
      rw [pieces_letter hx] at hp
      rcases List.mem_cons.mp hp with rfl | hp
      · exact ⟨h, hx⟩
      · exact pieces_spec s [] (fun _ h => absurd h List.not_mem_nil) piece hp
    | false =>
      rw [pieces_other hx] at hp
      exact pieces_spec s (cur ++ [x]) (List.forall_mem_append.mpr ⟨h, List.forall_mem_singleton.mpr hx⟩) piece hp

/-- The loop cuts the text into its pieces, when it is cut up to a position and the current piece starts there. -/
theorem cut_loop (text : List Char) : ∀ (s done cur : List Char) (segs : List (List Char)), text = done ++ cur ++ s →
    (charIndices (size (done ++ cur)) s).foldlM (cut text) (segs, size done) =
      .ok (segs ++ (pieces cur s).1.map segment, size (done ++ (pieces cur s).1.flatMap segment))
  | [], done, cur, segs, _     => by
    rw [pieces, charIndices, List.map_nil, List.flatMap_nil, List.append_nil, List.append_nil]
    rfl
  | x :: s, done, cur, segs, h => by
    rw [charIndices, List.foldlM_cons, cut]
    cases hx : isUnitLetter x with
    | true  =>
      have hsize := (unitLetter_spec hx).2.1
      have hend : size (done ++ cur) + 1 = size (done ++ (cur ++ [x])) := by
        rw [← List.append_assoc, size_append _ [x], size_cons, hsize, size_nil]
      have hslice : slice text (size done) (size (done ++ cur) + 1) = some (cur ++ [x]) := by
        have := slice_append done (cur ++ [x]) s
        rw [← size_append, ← hend] at this
        rwa [h, show done ++ cur ++ x :: s = done ++ (cur ++ [x]) ++ s by simp only [List.append_assoc, List.cons_append,
          List.nil_append]]
      have ih := cut_loop text s (done ++ (cur ++ [x])) [] (segs ++ [cur ++ [x]]) (by
        rw [h]
        simp only [List.append_assoc, List.cons_append, List.nil_append])
      rw [List.append_nil] at ih
      rw [pieces_letter hx, List.map_cons, List.flatMap_cons, segment, ← List.append_assoc done, List.append_cons segs,
        ← ih]
      dsimp only
      rw [if_pos rfl, hslice, orPanic_bind, ok_bind, hsize, hend]
    | false =>
      have ih := cut_loop text s done (cur ++ [x]) segs (by
        rw [h]
        simp only [List.append_assoc, List.cons_append, List.nil_append])
      rw [pieces_other hx, if_neg (by decide), ← ih, ← List.append_assoc, size_append _ [x], size_cons, size_nil,
        Nat.add_zero]
      rfl

theorem segments_eq (s : List Char) :
    segments s = .ok ((pieces [] s).1.map segment, size ((pieces [] s).1.flatMap segment)) :=
  cut_loop s s [] [] [] rfl

/-! ## The sum of the segments -/

/-- The sum of the periods, in exact arithmetic. -/
def sumFrom : Period → List Period → Option Period
  | acc, []      => some acc
  | acc, p :: ps => (acc.plus p).bind (fun sum => sumFrom sum ps)

/-- The pieces that are read as the periods. -/
def Reads (xs : List (List Char × Char)) (ps : List Period) : Prop := List.Forall₂ (fun x p => reading x = some p) xs ps

/-- An addition overflows before a piece is refused. -/
def overflows : Period → List (List Char × Char) → Prop
  | _, []        => False
  | acc, x :: xs => ∃ next sum, reading x = some next ∧ acc.plus next = some sum ∧
    (¬ acc.SumFits next ∨ overflows sum xs)

/-- **An addition overflows** while the pieces of the text are added up. -/
def Overflows (s : List Char) : Prop :=
  (pieces [] s).2 = [] ∧ ∃ x xs p, (pieces [] s).1 = x :: xs ∧ reading x = some p ∧ overflows p xs

/-- The sum of what is read in the pieces of the text. -/
def ReadAs (s : List Char) (p : Period) : Prop :=
  (pieces [] s).2 = [] ∧ ∃ first rest, Reads (pieces [] s).1 (first :: rest) ∧ sumFrom first rest = some p

theorem isSummable_eq (p q : Period) : isSummable p q = (p.plus q).isSome := by
  obtain ⟨m, u⟩ := p
  obtain ⟨n, v⟩ := q
  unfold isSummable Period.plus
  by_cases hm : m = 0
  · simp [hm]
  by_cases hn : n = 0
  · by_cases hu : u = v
    · simp [hm, hu]
    · cases u <;> cases v <;> simp [hm, hn]
  · cases u <;> cases v <;> simp [hm, hn]

/-- **A turn** adds what is read in a piece. -/
theorem addSegment_segment {piece : List Char × Char} (h : IsPiece piece) (acc : Period) :
    ∃ message, addSegment acc (segment piece) = match reading piece with
      | none      => .error (.error message)
      | some next => match acc.plus next with
        | none     => .error (.error message)
        | some sum => if acc.SumFits next then .ok sum else .error .panic := by
  obtain ⟨message, hm⟩ := parseOnePeriod_segment h.1 h.2
  rw [addSegment, segment, hm]
  cases reading piece with
  | none      => exact ⟨message, rfl⟩
  | some next =>
    rw [refuse, ok_bind, require_bind, isSummable_eq, Period.addAssign_eq]
    dsimp only
    cases acc.plus next with
    | none     => exact ⟨_, rfl⟩
    | some sum =>
      refine ⟨message, ?_⟩
      rw [if_pos (by rw [Option.isSome_some])]
      by_cases hfits : acc.SumFits next
      · rw [if_pos hfits]
        exact (if_pos hfits).symm
      · rw [if_neg hfits]
        exact (if_neg hfits).symm

theorem not_reads_cons (h : reading head = none) : ¬ Reads (head :: xs) ps := by
  intro hreads
  cases hreads with
  | cons hr _ => cases h.symm.trans hr

theorem reads_cons_iff (h : reading head = some p) : Reads (head :: xs) ps ↔ ∃ qs, ps = p :: qs ∧ Reads xs qs := by
  constructor
  · intro hreads
    cases hreads with
    | cons hr hreads =>
      cases h.symm.trans hr
      exact ⟨_, rfl, hreads⟩
  · rintro ⟨qs, rfl, hreads⟩
    exact .cons h hreads

theorem not_overflows_unread (h : reading head = none) : ¬ overflows p (head :: xs) := by
  rintro ⟨next, sum, hr, -⟩
  cases h.symm.trans hr

theorem not_overflows_refused (h : reading head = some q) (hplus : p.plus q = none) : ¬ overflows p (head :: xs) := by
  rintro ⟨next, sum, hr, hs, -⟩
  cases h.symm.trans hr
  cases hplus.symm.trans hs

theorem overflows_cons_iff (h : reading head = some q) (hplus : p.plus q = some r) :
    overflows p (head :: xs) ↔ ¬ p.SumFits q ∨ overflows r xs := by
  constructor
  · rintro ⟨next, sum, hr, hs, ho⟩
    cases h.symm.trans hr
    cases hplus.symm.trans hs
    exact ho
  · exact fun ho => ⟨q, r, h, hplus, ho⟩

/-- **The loop over the segments** adds up what is read in the pieces, or panics where an addition overflows. -/
theorem addSegments_spec : ∀ (xs : List (List Char × Char)) (acc : Period), (∀ x ∈ xs, IsPiece x) →
    ((xs.map segment).foldlM addSegment acc = .error .panic ↔ overflows acc xs) ∧
      ∀ p, (xs.map segment).foldlM addSegment acc = .ok p ↔
        ¬ overflows acc xs ∧ ∃ ps, Reads xs ps ∧ sumFrom acc ps = some p
  | [], acc, _      => by
    refine ⟨iff_of_false (fun h => by cases h) id, fun p => ?_⟩
    constructor
    · intro h
      cases h
      exact ⟨id, [], .nil, rfl⟩
    · rintro ⟨-, ps, hreads, hsum⟩
      cases hreads
      cases hsum
      rfl
  | x :: xs, acc, h => by
    obtain ⟨message, hx⟩ := addSegment_segment (h x List.mem_cons_self) acc
    rw [List.map_cons, List.foldlM_cons, hx]
    cases hread : reading x with
    | none      =>
      refine ⟨iff_of_false (fun h => by cases h) (not_overflows_unread hread), fun p => ?_⟩
      refine iff_of_false (fun h => by cases h) ?_
      rintro ⟨-, ps, hreads, -⟩
      exact not_reads_cons hread hreads
    | some next =>
      dsimp only
      cases hplus : acc.plus next with
      | none     =>
        refine ⟨iff_of_false (fun h => by cases h) (not_overflows_refused hread hplus), fun p => ?_⟩
        refine iff_of_false (fun h => by cases h) ?_
        rintro ⟨-, ps, hreads, hsum⟩
        obtain ⟨qs, rfl, -⟩ := (reads_cons_iff hread).mp hreads
        rw [sumFrom, hplus] at hsum
        cases hsum
      | some sum =>
        dsimp only
        rw [overflows_cons_iff hread hplus]
        by_cases hfits : acc.SumFits next
        · obtain ⟨hpanic, hok⟩ := addSegments_spec xs sum (fun y hy => h y (List.mem_cons_of_mem x hy))
          rw [if_pos hfits, ok_bind, hpanic, or_iff_right (not_not.mpr hfits)]
          refine ⟨Iff.rfl, fun p => (hok p).trans (and_congr_right (fun _ => ?_))⟩
          constructor
          · rintro ⟨ps, hreads, hs⟩
            exact ⟨next :: ps, .cons hread hreads, by rwa [sumFrom, hplus]⟩
          · rintro ⟨ps, hreads, hs⟩
            obtain ⟨qs, rfl, htail⟩ := (reads_cons_iff hread).mp hreads
            rw [sumFrom, hplus] at hs
            exact ⟨qs, htail, hs⟩
        · rw [if_neg hfits]
          refine ⟨iff_of_true rfl (.inl hfits), fun p => iff_of_false (fun h => by cases h) ?_⟩
          exact fun h => h.1 (.inl hfits)

theorem one_lt_size {x : List Char × Char} (hp : (pieces [] s).1 = x :: xs) (hread : reading x = some p) :
    1 < size s := by
  have hjoin := congrArg size (pieces_join s [])
  rw [hp, List.flatMap_cons, segment, List.append_assoc, size_append, size_append, size_cons, List.nil_append] at hjoin
  have hletter := x.2.utf8Size_pos
  have hnil : x.1 ≠ [] := by
    intro h
    rw [reading, h] at hread
    cases hread
  have := size_eq_zero.not.mpr hnil
  omega

theorem readAs_iff (hrest : (pieces [] s).2 = []) (hp : (pieces [] s).1 = head :: xs) :
    ReadAs s p ↔ ∃ first rest, reading head = some first ∧ Reads xs rest ∧ sumFrom first rest = some p := by
  rw [ReadAs, hp]
  constructor
  · rintro ⟨-, first, rest, hreads, hsum⟩
    cases hreads with
    | cons hread hreads => exact ⟨first, rest, hread, hreads, hsum⟩
  · rintro ⟨first, rest, hread, hreads, hsum⟩
    exact ⟨hrest, first, rest, .cons hread hreads, hsum⟩

theorem overflows_iff (hrest : (pieces [] s).2 = []) (hp : (pieces [] s).1 = head :: xs) :
    Overflows s ↔ ∃ p, reading head = some p ∧ overflows p xs := by
  constructor
  · rintro ⟨-, y, ys, p, hq, h⟩
    cases hp.symm.trans hq
    exact ⟨p, h⟩
  · rintro ⟨p, h⟩
    exact ⟨hrest, head, xs, p, hp, h⟩

/-- A text that ends in a unit letter is cut, and its pieces are added up. -/
theorem parsePeriod_eq (hsize : 1 < size s) (hrest : (pieces [] s).2 = []) (hp : (pieces [] s).1 = head :: xs) :
    parsePeriod s = parseOnePeriod (segment head) >>= (xs.map segment).foldlM addSegment := by
  have hjoin : (pieces [] s).1.flatMap segment ++ (pieces [] s).2 = s := pieces_join s []
  rw [hrest, List.append_nil] at hjoin
  rw [parsePeriod, require_bind, if_pos hsize, segments_eq, ok_bind]
  dsimp only
  rw [require_bind, if_pos (by rw [hjoin]), hp]
  rfl

/-- A text that is too short, or that ends in no unit letter, is refused. -/
theorem parsePeriod_refuses (h : ¬ (1 < size s ∧ (pieces [] s).2 = [])) :
    ∃ message, parsePeriod s = .error (.error message) := by
  by_cases hsize : 1 < size s
  · have hrest : (pieces [] s).2 ≠ [] := fun hrest => h ⟨hsize, hrest⟩
    have hjoin : (pieces [] s).1.flatMap segment ++ (pieces [] s).2 = s := pieces_join s []
    rw [parsePeriod, require_bind, if_pos hsize, segments_eq, ok_bind]
    dsimp only
    rw [require_bind, if_neg]
    · exact ⟨_, rfl⟩
    · intro hcut
      have hlen := congrArg size hjoin
      rw [size_append, hcut] at hlen
      exact hrest (size_eq_zero.mp (by omega))
  · exact ⟨_, by rw [parsePeriod, require_bind, if_neg hsize]⟩

/-- **What the parser does**: it adds up what it reads in the pieces of a text that ends in a unit letter. -/
theorem parsePeriod_spec (s : List Char) : (parsePeriod s = .error .panic ↔ Overflows s) ∧
    ∀ p, parsePeriod s = .ok p ↔ ¬ Overflows s ∧ ReadAs s p := by
  have hpiece := pieces_spec s [] (fun _ h => absurd h List.not_mem_nil)
  by_cases hcut : 1 < size s ∧ (pieces [] s).2 = []
  case neg =>
    obtain ⟨message, h⟩ := parsePeriod_refuses hcut
    rw [h]
    refine ⟨iff_of_false (fun h => by cases h) ?_, fun p => iff_of_false (fun h => by cases h) ?_⟩
    · rintro ⟨hrest, x, xs, p, hp, hread, -⟩
      exact hcut ⟨one_lt_size hp hread, hrest⟩
    · rintro ⟨-, hread⟩
      cases hp : (pieces [] s).1 with
      | nil       =>
        obtain ⟨-, first, rest, hreads, -⟩ := hread
        rw [hp] at hreads
        cases hreads
      | cons x xs =>
        obtain ⟨first, rest, hx, -⟩ := (readAs_iff hread.1 hp).mp hread
        exact hcut ⟨one_lt_size hp hx, hread.1⟩
  obtain ⟨hsize, hrest⟩ := hcut
  cases hp : (pieces [] s).1 with
  | nil       =>
    have hjoin : (pieces [] s).1.flatMap segment ++ (pieces [] s).2 = s := pieces_join s []
    rw [hp, hrest] at hjoin
    rw [← hjoin] at hsize
    exact absurd hsize (by decide)
  | cons x xs =>
    rw [hp] at hpiece
    obtain ⟨message, hx⟩ := parseOnePeriod_segment (hpiece x List.mem_cons_self).1 (hpiece x List.mem_cons_self).2
    rw [overflows_iff hrest hp, parsePeriod_eq hsize hrest hp, segment, hx]
    cases hread : reading x with
    | none       =>
      refine ⟨iff_of_false (fun h => by cases h) ?_, fun p => iff_of_false (fun h => by cases h) ?_⟩
      · rintro ⟨p, hr, -⟩
        cases hr
      · rw [readAs_iff hrest hp, hread]
        rintro ⟨-, first, rest, hr, -⟩
        cases hr
    | some first =>
      obtain ⟨hpanic, hok⟩ := addSegments_spec xs first (fun y hy => hpiece y (List.mem_cons_of_mem x hy))
      have hover : (∃ p, some first = some p ∧ overflows p xs) ↔ overflows first xs :=
        ⟨fun ⟨p, hr, h⟩ => Option.some.inj hr ▸ h, fun h => ⟨first, rfl, h⟩⟩
      rw [refuse, ok_bind, hpanic, hover]
      refine ⟨Iff.rfl, fun p => (hok p).trans (and_congr_right (fun _ => ?_))⟩
      rw [readAs_iff hrest hp, hread]
      constructor
      · rintro ⟨ps, hreads, hsum⟩
        exact ⟨first, ps, rfl, hreads, hsum⟩
      · rintro ⟨first', rest, hr, hreads, hsum⟩
        cases hr
        exact ⟨rest, hreads, hsum⟩

/-! ## The grammar -/

/-- The letters of the units, in either case. -/
def letterUnit : Char → Option TimeUnit
  | 'D' | 'd' => some .days
  | 'W' | 'w' => some .weeks
  | 'M' | 'm' => some .months
  | 'Y' | 'y' => some .years
  | _         => none

/-- **A component**: an integer and a unit letter. -/
structure Component where
  text : List Char
  letter : Char
  period : Period
  integer : IsInteger text period.length
  unit : letterUnit letter = some period.units

/-- The sum of the periods, when every partial sum is representable. -/
def totalFrom : Period → List Period → Option Period
  | acc, []      => if isI32 acc.length then some acc else none
  | acc, p :: ps => if isI32 acc.length then (acc.plus p).bind (fun sum => totalFrom sum ps) else none

def total : List Period → Option Period
  | []      => none
  | p :: ps => totalFrom p ps

def Component.piece (c : Component) : List Char × Char := (c.text, c.letter)

/-- **The grammar**: the text consists of components, and the period is their sum. -/
def Denotes (s : List Char) (p : Period) : Prop :=
  ∃ cs : List Component, s = cs.flatMap (fun c => c.text ++ [c.letter]) ∧ total (cs.map Component.period) = some p

theorem letterUnit_eq_some_iff {v : TimeUnit} : letterUnit x = some v ↔ isUnitLetter x = true ∧ unitOf x = v := by
  constructor
  · intro h
    unfold letterUnit at h
    split at h <;> cases h <;> decide
  · rintro ⟨hx, rfl⟩
    have hmem : x ∈ ['D', 'd', 'W', 'w', 'M', 'm', 'Y', 'y'] := List.contains_iff_mem.mp hx
    fin_cases hmem <;> decide

theorem integer_spec {n : ℤ} (h : IsInteger t n) : number t = t ∧ ∀ x ∈ t, isUnitLetter x = false := by
  obtain ⟨x, ds, rfl, hx, hds⟩ := h.cons
  have hstart : startsNumber x = true := by
    rcases hx with rfl | rfl | hx
    · rfl
    · rfl
    · rw [startsNumber, hx, Bool.or_true]
  have hletter : ∀ y, startsNumber y = true → isUnitLetter y = false := fun y hy => by
    cases hl : isUnitLetter y with
    | true  => rw [(unitLetter_spec hl).2.2.1] at hy; cases hy
    | false => rfl
  refine ⟨List.dropWhile_cons_of_neg (by rw [hstart]; decide),
    List.forall_mem_cons.mpr ⟨hletter x hstart, fun y hy => ?_⟩⟩
  exact hletter y (by rw [startsNumber, hds y hy, Bool.or_true])

/-- **The pieces of a text of components** are the components. -/
theorem pieces_components : ∀ cs : List Component,
    pieces [] (cs.flatMap (fun c => c.text ++ [c.letter])) = (cs.map Component.piece, [])
  | []      => rfl
  | c :: cs => by
    obtain ⟨hu, -⟩ := letterUnit_eq_some_iff.mp c.unit
    rw [List.flatMap_cons, List.append_assoc, List.singleton_append, pieces_append _ _ (integer_spec c.integer).2,
      pieces_letter hu, pieces_components cs, List.nil_append]
    rfl

theorem reading_component (c : Component) :
    reading c.piece = if isI32 c.period.length then some c.period else none := by
  obtain ⟨-, hunit⟩ := letterUnit_eq_some_iff.mp c.unit
  have hparse (n : ℤ) : parseInteger c.text = some n ↔ n = c.period.length ∧ isI32 n := by
    rw [parseInteger, parseInt_eq_some_iff (by decide) (by decide), ← integer_eq_some_iff,
      integer_eq_some_iff.mpr c.integer, Option.some.injEq, eq_comm]
    rfl
  rw [reading, Component.piece]
  dsimp only
  rw [(integer_spec c.integer).1, hunit]
  by_cases hc : isI32 c.period.length
  · rw [if_pos hc, (hparse _).mpr ⟨rfl, hc⟩, Option.map_some]
  · rw [if_neg hc, Option.map_eq_none_iff, Option.eq_none_iff_forall_ne_some]
    intro n hn
    obtain ⟨rfl, hn⟩ := (hparse n).mp hn
    exact hc hn

/-! ## Round trip -/

/-- **A period that is displayed is read back**, its length and its units. -/
theorem parsePeriod_display (hunits : Period.isCalendarUnit p.units = true) (hlength : isI32 p.length) :
    parsePeriod p.display = .ok p := by
  obtain ⟨n, v⟩ := p
  obtain ⟨u, hu, hunit⟩ : ∃ u, Period.unit v = [u] ∧ letterUnit u = some v := by
    cases v <;> first | exact ⟨_, rfl, rfl⟩ | cases hunits
  let c : Component := ⟨Text.display n, u, ⟨n, v⟩, isInteger_display n, hunit⟩
  have hs : Period.display ⟨n, v⟩ = [c].flatMap (fun c => c.text ++ [c.letter]) := by
    rw [Period.display, hu, List.flatMap_singleton]
  have hpieces := pieces_components [c]
  rw [← hs] at hpieces
  refine ((parsePeriod_spec _).2 _).mpr ⟨?_, by rw [hpieces], ⟨n, v⟩, [], ?_, rfl⟩
  · rintro ⟨-, x, xs, p, hp, -, h⟩
    rw [hpieces] at hp
    cases hp
    exact h
  · rw [hpieces]
    exact .cons ((reading_component c).trans (if_pos hlength)) .nil

theorem parsePeriod_display_min : parsePeriod (Period.display ⟨-2147483648, .weeks⟩) = .ok ⟨-2147483648, .weeks⟩ :=
  parsePeriod_display rfl (by decide)

/-! ## What the parser accepts -/

/-- **The contract** for a text: the parser does not panic, and it accepts what the grammar does, as the sum. -/
structure Contract (s : List Char) : Prop where
  no_panic : parsePeriod s ≠ .error .panic
  accepts : ∀ p, parsePeriod s = .ok p ↔ Denotes s p

/-- **Something stands before a number**, in a text that is read. -/
def Littered (s : List Char) : Prop := (∃ p, ReadAs s p) ∧ ∃ x ∈ (pieces [] s).1, number x.1 ≠ x.1

/-- **A component is not representable** by itself, in a text of the grammar. -/
def Oversized (s : List Char) : Prop :=
  ∃ cs : List Component, s = cs.flatMap (fun c => c.text ++ [c.letter]) ∧
    (∃ p, total (cs.map Component.period) = some p) ∧ ∃ c ∈ cs, ¬ isI32 c.period.length

/-- What is read without anything before the number is a component. -/
theorem component_of_reading {x : List Char × Char} (hu : isUnitLetter x.2 = true) (hnum : number x.1 = x.1)
    (hread : reading x = some p) : ∃ c : Component, c.piece = x ∧ c.period = p ∧ isI32 p.length := by
  rw [reading, hnum] at hread
  obtain ⟨n, hn, rfl⟩ := Option.map_eq_some_iff.mp hread
  rw [parseInteger, parseInt_eq_some_iff (by decide) (by decide)] at hn
  exact ⟨⟨x.1, x.2, ⟨n, unitOf x.2⟩, hn.1, letterUnit_eq_some_iff.mpr ⟨hu, rfl⟩⟩, rfl, rfl, hn.2⟩

theorem components_of_reads : ∀ {xs : List (List Char × Char)} {ps : List Period}, (∀ x ∈ xs, IsPiece x) →
    (∀ x ∈ xs, number x.1 = x.1) → Reads xs ps → ∃ cs : List Component, cs.map Component.piece = xs ∧
      cs.map Component.period = ps ∧ ∀ p ∈ ps, isI32 p.length
  | _, _, _, _, .nil                 => ⟨[], rfl, rfl, fun _ h => absurd h List.not_mem_nil⟩
  | x :: xs, p :: ps, hp, hn, .cons hread hreads => by
    obtain ⟨c, hc, hcp, hr⟩ := component_of_reading (hp x List.mem_cons_self).2 (hn x List.mem_cons_self) hread
    obtain ⟨cs, hcs, hcps, hrs⟩ := components_of_reads (fun y hy => hp y (List.mem_cons_of_mem x hy))
      (fun y hy => hn y (List.mem_cons_of_mem x hy)) hreads
    exact ⟨c :: cs, by rw [List.map_cons, hc, hcs], by rw [List.map_cons, hcp, hcps], List.forall_mem_cons.mpr ⟨hr, hrs⟩⟩

theorem reads_components : ∀ {cs : List Component}, (∀ c ∈ cs, isI32 c.period.length) →
    Reads (cs.map Component.piece) (cs.map Component.period)
  | [], _     => .nil
  | c :: _, h => .cons ((reading_component c).trans (if_pos (h c List.mem_cons_self)))
    (reads_components (fun d hd => h d (List.mem_cons_of_mem c hd)))

theorem sumFrom_of_totalFrom : ∀ {ps : List Period} {acc : Period}, totalFrom acc ps = some p → sumFrom acc ps = some p
  | [], acc, h      => by
    rw [totalFrom] at h
    split at h
    · exact h
    · cases h
  | q :: ps, acc, h => by
    rw [totalFrom] at h
    split at h
    · obtain ⟨sum, hs, h⟩ := Option.bind_eq_some_iff.mp h
      rw [sumFrom, hs]
      exact sumFrom_of_totalFrom h
    · cases h

/-- Where no addition overflows, the partial sums are representable. -/
theorem totalFrom_of_sumFrom : ∀ {xs : List (List Char × Char)} {ps : List Period} {acc : Period}, isI32 acc.length →
    (∀ q ∈ ps, isI32 q.length) → Reads xs ps → ¬ overflows acc xs → sumFrom acc ps = some p → totalFrom acc ps = some p
  | _, _, acc, hacc, _, .nil, _, h => by
    rw [totalFrom, if_pos hacc]
    exact h
  | x :: xs, q :: ps, acc, hacc, hps, .cons hread hreads, hno, h => by
    rw [sumFrom] at h
    obtain ⟨sum, hs, h⟩ := Option.bind_eq_some_iff.mp h
    have hfits : acc.SumFits q := not_not.mp (fun hf => hno ⟨q, sum, hread, hs, .inl hf⟩)
    have hsum := Period.isI32_plus hacc (hps q List.mem_cons_self) hfits hs
    rw [totalFrom, if_pos hacc, hs, Option.bind_some]
    exact totalFrom_of_sumFrom hsum (fun r hr => hps r (List.mem_cons_of_mem q hr)) hreads
      (fun ho => hno ⟨q, sum, hread, hs, .inr ho⟩) h

theorem exists_reading : ∀ {xs : List (List Char × Char)} {ps : List Period}, Reads xs ps →
    ∀ x ∈ xs, ∃ q, reading x = some q
  | _, _, .nil, _, h                   => absurd h List.not_mem_nil
  | _ :: _, q :: _, .cons hread hreads, y, h => by
    rcases List.mem_cons.mp h with rfl | h
    · exact ⟨q, hread⟩
    · exact exists_reading hreads y h

/-- Where no addition overflows and nothing stands before a number, what is read is the sum of components. -/
theorem denotes_of_readAs (hno : ¬ Overflows s) (hclean : ¬ Littered s) (h : ReadAs s p) : Denotes s p := by
  have hpiece := pieces_spec s [] (fun _ h => absurd h List.not_mem_nil)
  have hnum : ∀ x ∈ (pieces [] s).1, number x.1 = x.1 := fun x hx => not_not.mp (fun hn => hclean ⟨⟨p, h⟩, x, hx, hn⟩)
  obtain ⟨hrest, first, rest, hreads, hsum⟩ := h
  obtain ⟨cs, hcs, hps, hfits⟩ := components_of_reads hpiece hnum hreads
  have hjoin := pieces_join s []
  rw [hrest, List.append_nil, List.nil_append, ← hcs, List.flatMap_map] at hjoin
  refine ⟨cs, hjoin.symm, ?_⟩
  rw [hps]
  cases hp : (pieces [] s).1 with
  | nil       => rw [hp] at hreads; cases hreads
  | cons x xs =>
    rw [hp] at hreads
    cases hreads with
    | cons hread hreads =>
      exact totalFrom_of_sumFrom (hfits first List.mem_cons_self) (fun q hq => hfits q (List.mem_cons_of_mem first hq))
        hreads (fun ho => hno ⟨hrest, x, xs, first, hp, hread, ho⟩) hsum

/-- Where every component is representable, the sum is what is read. -/
theorem readAs_of_denotes (hsize : ¬ Oversized s) (h : Denotes s p) : ReadAs s p := by
  obtain ⟨cs, rfl, hsum⟩ := h
  have hfits : ∀ c ∈ cs, isI32 c.period.length := fun c hc =>
    not_not.mp (fun hn => hsize ⟨cs, rfl, ⟨p, hsum⟩, c, hc, hn⟩)
  rw [ReadAs, pieces_components]
  refine ⟨rfl, ?_⟩
  have hreads := reads_components hfits
  cases cs with
  | nil       => cases hsum
  | cons c cs => exact ⟨c.period, cs.map Component.period, hreads, sumFrom_of_totalFrom hsum⟩

/-- **The parser meets its contract** unless an addition overflows, something stands before a number, or a component is
not representable by itself. -/
theorem contract_iff (s : List Char) : Contract s ↔ ¬ Overflows s ∧ ¬ Littered s ∧ ¬ Oversized s := by
  obtain ⟨hpanic, hok⟩ := parsePeriod_spec s
  constructor
  · rintro ⟨hno_panic, haccepts⟩
    have hno : ¬ Overflows s := fun h => hno_panic (hpanic.mpr h)
    refine ⟨hno, ?_, ?_⟩
    · rintro ⟨⟨p, hread⟩, x, hx, hnum⟩
      obtain ⟨cs, rfl, -⟩ := (haccepts p).mp ((hok p).mpr ⟨hno, hread⟩)
      rw [pieces_components] at hx
      obtain ⟨c, -, rfl⟩ := List.mem_map.mp hx
      exact hnum (integer_spec c.integer).1
    · rintro ⟨cs, rfl, ⟨p, hsum⟩, c, hc, hsize⟩
      obtain ⟨-, -, first, rest, hreads, -⟩ := (hok p).mp ((haccepts p).mpr ⟨cs, rfl, hsum⟩)
      rw [pieces_components] at hreads
      obtain ⟨q, hq⟩ := exists_reading hreads c.piece (List.mem_map_of_mem hc)
      rw [reading_component, if_neg hsize] at hq
      cases hq
  · rintro ⟨hno, hclean, hsize⟩
    refine ⟨fun h => hno (hpanic.mp h), fun p => ?_⟩
    rw [hok]
    exact ⟨fun h => denotes_of_readAs hno hclean h.2, fun h => ⟨hno, readAs_of_denotes hsize h⟩⟩

theorem not_contract : ¬ Contract ['x', '6', 'M'] ∧
    ¬ Contract ['2', '1', '4', '7', '4', '8', '3', '6', '4', '7', 'D', '1', 'D'] := by
  refine ⟨fun h => ?_, fun h => h.no_panic rfl⟩
  obtain ⟨cs, hs, -⟩ := (h.accepts ⟨6, .months⟩).mp rfl
  have hpieces := pieces_components cs
  rw [← hs] at hpieces
  have hmem : (['x', '6'], 'M') ∈ cs.map Component.piece := by
    rw [← (Prod.mk.inj hpieces).1]
    exact List.mem_cons_self
  obtain ⟨c, -, hc⟩ := List.mem_map.mp hmem
  have hinteger := c.integer
  rw [show c.text = ['x', '6'] from congrArg Prod.fst hc] at hinteger
  exact absurd (integer_spec hinteger).1 (by decide)

end DataParsers
end Itofin
