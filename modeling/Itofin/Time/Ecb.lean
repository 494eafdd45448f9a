import Mathlib.Data.Finset.Max
import Mathlib.Data.List.Pairwise
import Itofin.Time.Futures
/-!
# Ecb — the dates of the reserve maintenance periods

`time/ecb.rs`.  The known dates are a set, read in ascending order from a bound on (`firstKnownDate_eq_ok`).  A code is
the month and the last two digits of the year; the reference date gives the century.  It is read as the first known date
of its month or later, which is the date it was written for when no other is known in the month.
-/
namespace Itofin

open Text

/-- The known dates, a `BTreeSet`. -/
@[ext] structure Ecb where
  knownDates : Finset Date

namespace Ecb

def monthNames : List (List Char) :=
  [['J', 'A', 'N'], ['F', 'E', 'B'], ['M', 'A', 'R'], ['A', 'P', 'R'], ['M', 'A', 'Y'], ['J', 'U', 'N'],
    ['J', 'U', 'L'], ['A', 'U', 'G'], ['S', 'E', 'P'], ['O', 'C', 'T'], ['N', 'O', 'V'], ['D', 'E', 'C']]

def knownDateSerials : List ℤ :=
  [
    38371, 38391, 38420, 38455, 38483, 38511, 38546, 38574, 38602, 38637, 38665, 38692, 38735, 38756, 38784, 38819,
    38847, 38883, 38910, 38938, 38966, 39001, 39029, 39064, 39099, 39127, 39155, 39190, 39217, 39246, 39274, 39302,
    39337, 39365, 39400, 39428, 39463, 39491, 39519, 39554, 39582, 39610, 39638, 39673, 39701, 39729, 39764, 39792,
    39834, 39855, 39883, 39911, 39946, 39974, 40002, 40037, 40065, 40100, 40128, 40155, 40198, 40219, 40247, 40282,
    40310, 40345, 40373, 40401, 40429, 40464, 40492, 40520, 40562, 40583, 40611, 40646, 40674, 40709, 40737, 40765,
    40800, 40828, 40856, 40891, 40926, 40954, 40982, 41010, 41038, 41073, 41101, 41129, 41164, 41192, 41227, 41255,
    41290, 41318, 41346, 41374, 41402, 41437, 41465, 41493, 41528, 41556, 41591, 41619, 41654, 41682, 41710, 41738,
    41773, 41801, 41829, 41864, 41892, 41920, 41955, 41983, 42032, 42074, 42116, 42165, 42207, 42256, 42305, 42347,
    42396, 42445, 42487, 42529, 42578, 42627, 42669, 42718, 42760, 42809, 42858, 42900, 42942, 42991, 43040, 43089,
    43131, 43167, 43216, 43265, 43307, 43356, 43398, 43447, 43495, 43537, 43572, 43628, 43677, 43726, 43768, 43817,
    43859, 43908, 43957, 43992, 44034, 44090, 44139, 44181, 44223, 44272, 44314, 44363, 44405, 44454, 44503, 44552,
    44601, 44636, 44671, 44727, 44769, 44818, 44867, 44916, 44965, 45007, 45056, 45098, 45140, 45189, 45231, 45280,
    45322, 45364, 45399, 45455, 45497, 45553, 45588, 45644]

inductive EcbError where
  | notADate (date : Date)
  | notACode (code : List Char)
  | invalidMonth (code : List Char)
  | unknownAfter (last : Date)
  | noneKnown
  | panic
deriving DecidableEq

/-- `Default`, the published table. -/
def published : Ecb := ⟨(knownDateSerials.filterMap Date.fromSerial).toFinset⟩

def addDate (self : Ecb) (date : Date) : Ecb := ⟨insert date self.knownDates⟩

def removeDate (self : Ecb) (date : Date) : Ecb := ⟨self.knownDates.erase date⟩

def isEcbDate (self : Ecb) (date : Date) : Bool := date ∈ self.knownDates

/-- The month whose name is the three bytes, in either case. -/
def monthFromCode (code : List UInt8) : Option Month :=
  (monthNames.findIdx? (fun name => asBytes name == code.map DataParsers.toAsciiUppercase)).bind
    (fun index => Month.fromOrdinal (index + 1))

def isEcbCode (code : List Char) : Bool :=
  match asBytes code with
  | [b0, b1, b2, b3, b4] =>
    (monthFromCode [b0, b1, b2]).isSome && FuturesRule.isAsciiDigit b3 && FuturesRule.isAsciiDigit b4 &&
      FuturesRule.isAsciiDigit b4
  | _                    => false

/-- The first element in the order of the set. -/
def next (s : Finset Date) : Option Date := WithTop.recTopCoe (C := fun _ => Option Date) none some s.min

def nextBack (s : Finset Date) : Option Date := WithBot.recBotCoe (C := fun _ => Option Date) none some s.max

/-- `first_known_date`: the first known date in the range that begins with the bound. -/
def firstKnownDate (self : Ecb) (range : Date → Bool) : Except EcbError Date :=
  match next (self.knownDates.filter (fun x => range x)) with
  | some next => .ok next
  | none      =>
    match nextBack self.knownDates with
    | some last => .error (.unknownAfter last)
    | none      => .error .noneKnown

def nextDate (self : Ecb) (date : Date) : Except EcbError Date := self.firstKnownDate (fun x => date < x)

def date (self : Ecb) (code : List Char) (referenceDate : Date) : Except EcbError Date :=
  if isEcbCode code then
    match asBytes code with
    | [b0, b1, b2, b3, b4] =>
      match monthFromCode [b0, b1, b2] with
      | some m =>
        let y : ℤ := (b3.toNat - 48) * 10 + (b4.toNat - 48)
        let y := y + (referenceDate.year - referenceDate.year % 100)
        if y < 1901 then self.nextDate ⟨367, by decide⟩
        else match Date.new 1 m y with
          | some first => self.firstKnownDate (fun x => first ≤ x)
          | none       => .error .panic
      | none   => .error (.invalidMonth code)
    | _                    => .error .panic
  else .error (.notACode code)

def code (self : Ecb) (date : Date) : Except EcbError (List Char) :=
  if self.isEcbDate date then
    .ok (monthNames.getD (date.month.ordinal - 1).toNat [] ++ displayPadded 2 (date.year % 100))
  else .error (.notADate date)

/-- No two known dates lie in one month. -/
def OneAMonth (self : Ecb) : Prop :=
  ∀ x ∈ self.knownDates, ∀ y ∈ self.knownDates, x.monthIndex = y.monthIndex → x = y

variable {self : Ecb} {d r : Date} {range : Date → Bool}

theorem next_eq_some {s : Finset Date} : next s = some r ↔ IsLeast {x | x ∈ s} r := by
  rcases s.eq_empty_or_nonempty with rfl | hne
  · exact ⟨fun h => absurd h.symm (Option.some_ne_none r), fun h => absurd h.1 (Finset.notMem_empty r)⟩
  · obtain ⟨m, hm⟩ := Finset.min_of_nonempty hne
    have hleast : IsLeast {x | x ∈ s} m := ⟨Finset.mem_of_min hm, fun x hx => Finset.min_le_of_eq hx hm⟩
    rw [next, hm]
    exact ⟨fun h => Option.some.inj h ▸ hleast, fun h => congrArg some (hleast.unique h)⟩

/-- **The first known date of a range** is its least. -/
theorem firstKnownDate_eq_ok :
    self.firstKnownDate range = .ok r ↔ IsLeast {x | x ∈ self.knownDates ∧ range x = true} r := by
  have hleast := next_eq_some (r := r) (s := self.knownDates.filter (fun x => range x))
  simp only [Finset.mem_filter] at hleast
  rw [← hleast, firstKnownDate]
  cases next (self.knownDates.filter (fun x => range x)) with
  | some x => simp
  | none   =>
    simp only [reduceCtorEq, iff_false]
    cases nextBack self.knownDates <;> simp

theorem nextDate_eq_ok : self.nextDate d = .ok r ↔ IsLeast {x | x ∈ self.knownDates ∧ d < x} r := by
  rw [nextDate, firstKnownDate_eq_ok]
  simp only [decide_eq_true_eq]

/-- **A month with one known date leads to it** from its first day. -/
theorem firstKnownDate_month (h : self.OneAMonth) (hd : d ∈ self.knownDates) {first : Date}
    (hf : Date.new 1 d.month d.year = some first) (hn : d ≠ Date.null) :
    self.firstKnownDate (fun x => first ≤ x) = .ok d := by
  obtain ⟨hfn, fd, fm, fy⟩ := Date.new_spec hf
  have hi : first.monthIndex = d.monthIndex := Date.monthIndex_eq_iff.mpr ⟨fm, fy⟩
  have hle : first ≤ d := by
    have := Date.serialNumber_sub fm fy
    have := (Date.day_spec hn).1
    rw [Date.le_iff]
    omega
  rw [firstKnownDate_eq_ok]
  refine ⟨⟨hd, decide_eq_true hle⟩, fun x hx => ?_⟩
  rcases lt_or_ge x d with hlt | hge
  · -- an earlier date from the first on would lie in the month
    have h₁ := Date.monthIndex_mono (of_decide_eq_true hx.2)
    have h₂ := Date.monthIndex_mono hlt.le
    exact (h x hx.1 d hd (by omega)).ge
  · exact hge

/-! ## Codes -/

def monthName (m : Month) : List Char := monthNames.getD (m.ordinal - 1).toNat []

theorem asBytes_displayPadded : ∀ k : Fin 100, asBytes (displayPadded 2 ((k : ℕ) : ℤ)) =
    [UInt8.ofNat (48 + k / 10), UInt8.ofNat (48 + k % 10)] := by
  decide +kernel

theorem monthName_spec (m : Month) : ∃ b0 b1 b2, asBytes (monthName m) = [b0, b1, b2] ∧
    monthFromCode [b0, b1, b2] = some m := by
  cases m <;> exact ⟨_, _, _, rfl, by decide⟩

theorem digit_spec {k : ℕ} (h : k < 10) :
    (UInt8.ofNat (48 + k)).toNat = 48 + k ∧ FuturesRule.isAsciiDigit (UInt8.ofNat (48 + k)) = true := by
  interval_cases k <;> decide

/-- **A code is read back** for every reference date of the century. -/
theorem date_code (h : self.OneAMonth) (hd : d ∈ self.knownDates) (hn : d ≠ Date.null) {ref : Date}
    (hc : ref.year / 100 = d.year / 100) : ∃ text, self.code d = .ok text ∧ self.date text ref = .ok d := by
  obtain ⟨lo, hi, -⟩ := Date.year_spec hn
  obtain ⟨k, hk⟩ : ∃ k : Fin 100, d.year % 100 = ((k : ℕ) : ℤ) := ⟨⟨(d.year % 100).toNat, by omega⟩, by simp; omega⟩
  obtain ⟨b0, b1, b2, hb, hm⟩ := monthName_spec d.month
  obtain ⟨n₃, d₃⟩ := digit_spec (k := k / 10) (by omega)
  obtain ⟨n₄, d₄⟩ := digit_spec (k := k % 10) (by omega)
  have hbytes : asBytes (monthName d.month ++ displayPadded 2 (d.year % 100)) =
      [b0, b1, b2, UInt8.ofNat (48 + k / 10), UInt8.ofNat (48 + k % 10)] := by
    rw [asBytes_append, hb, hk, asBytes_displayPadded]
    rfl
  obtain ⟨first, hf⟩ := FuturesRule.exists_first d.month lo hi
  refine ⟨monthName d.month ++ displayPadded 2 (d.year % 100), if_pos (decide_eq_true hd), ?_⟩
  have hcode : isEcbCode (monthName d.month ++ displayPadded 2 (d.year % 100)) = true := by
    rw [isEcbCode, hbytes]
    simp only [hm, d₃, d₄, Option.isSome_some, Bool.and_self]
  have hy : (((48 + (k : ℕ) / 10 : ℕ) : ℤ) - 48) * 10 + (((48 + (k : ℕ) % 10 : ℕ) : ℤ) - 48) +
      (ref.year - ref.year % 100) = d.year := by
    push_cast
    omega
  rw [date, if_pos hcode, hbytes]
  simp only [hm, n₃, n₄, hy]
  rw [if_neg (by omega), hf]
  exact firstKnownDate_month h hd hf hn

/-- **The published table** is of dates in the supported range, one a month. -/
theorem published_spec : (∀ n ∈ knownDateSerials, (Date.fromSerial n).isSome = true) ∧ published.OneAMonth := by
  refine ⟨by decide +kernel, ?_⟩
  have hchain : ((knownDateSerials.filterMap Date.fromSerial).map Date.monthIndex).IsChain (· < ·) := by
    decide +kernel
  have h := List.pairwise_map.mp (List.isChain_iff_pairwise.mp hchain)
  have sym : Std.Symm (fun x y : Date => x.monthIndex = y.monthIndex → x = y) := ⟨fun _ _ h he => (h he.symm).symm⟩
  intro x hx y hy
  rw [published, List.mem_toFinset] at hx hy
  exact List.Pairwise.forall_of_forall (R := fun x y : Date => x.monthIndex = y.monthIndex → x = y) (fun _ _ _ => rfl)
    (h.imp (fun hlt he => absurd he hlt.ne)) hx hy

/-- **Codes and dates of the reserve maintenance periods.**  Whatever the known dates are, with no two in a month: the
code of a known date is read back as it for every reference date of the century, and `next_date` is the least known date
that comes after. -/
theorem ecb_spec (self : Ecb) (h : self.OneAMonth) :
    (∀ d ref, d ∈ self.knownDates → d ≠ Date.null → ref ≠ Date.null → ref.year / 100 = d.year / 100 →
      ∃ text, self.code d = .ok text ∧ self.date text ref = .ok d) ∧
    ∀ d r, self.nextDate d = .ok r ↔ IsLeast {x | x ∈ self.knownDates ∧ d < x} r :=
  ⟨fun _ _ hd hn _ hc => date_code h hd hn hc, fun _ _ => nextDate_eq_ok⟩

/-- The code of the published date of January 2007 is read back in 2010. -/
theorem ecb_spec_january : ∃ text, published.code ⟨39099, by decide⟩ = .ok text ∧
    published.date text ⟨40179, by decide⟩ = .ok ⟨39099, by decide⟩ := by
  obtain ⟨hcode, -⟩ := ecb_spec published published_spec.2
  refine hcode _ _ ?_ (by decide) (by decide) (by decide +kernel)
  rw [published, List.mem_toFinset]
  decide +kernel

end Ecb
end Itofin
