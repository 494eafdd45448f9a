import Mathlib.Data.Int.Order.Basic
import Mathlib.Order.Lattice
import Mathlib.Tactic.Common
import Mathlib.Tactic.IntervalCases
/-!
# Date — serial numbers, years and months

The dates of `time/date.rs`: a serial number in the supported range, or the null date.  A function that panics in the
source is an `Option` here; integers are unbounded, and an `i32` that would overflow leaves the supported range.

The tables are those of the source.  `year_spec`, `month_spec` and `day_spec` say what the inspectors find: the year and
month whose first and last serial numbers bracket the date; `monthIndex` and `halfMonthIndex` number months and half
months through the years, in the order of the dates.
-/
namespace Itofin

inductive Month where
  | january | february | march | april | may | june | july | august | september | october | november | december
deriving DecidableEq, Repr

namespace Month

/-- `from_ordinal`, which panics outside `1..=12`. -/
def fromOrdinal : ℤ → Option Month
  | 1  => some january
  | 2  => some february
  | 3  => some march
  | 4  => some april
  | 5  => some may
  | 6  => some june
  | 7  => some july
  | 8  => some august
  | 9  => some september
  | 10 => some october
  | 11 => some november
  | 12 => some december
  | _  => none

def ordinal : Month → ℤ
  | january   => 1
  | february  => 2
  | march     => 3
  | april     => 4
  | may       => 5
  | june      => 6
  | july      => 7
  | august    => 8
  | september => 9
  | october   => 10
  | november  => 11
  | december  => 12

theorem fromOrdinal_ordinal (m : Month) : fromOrdinal m.ordinal = some m := by cases m <;> rfl

theorem ordinal_bounds (m : Month) : 1 ≤ m.ordinal ∧ m.ordinal ≤ 12 := by cases m <;> decide

theorem ordinal_injective {m m' : Month} (h : m.ordinal = m'.ordinal) : m = m' :=
  Option.some.inj (by rw [← fromOrdinal_ordinal m, ← fromOrdinal_ordinal m', h])

end Month

inductive Weekday where
  | sunday | monday | tuesday | wednesday | thursday | friday | saturday
deriving DecidableEq, Repr

def Weekday.ordinal : Weekday → ℤ
  | sunday    => 1
  | monday    => 2
  | tuesday   => 3
  | wednesday => 4
  | thursday  => 5
  | friday    => 6
  | saturday  => 7

/-! ## The tables -/

def yearIsLeap : List Bool :=
  [
    true, false, false, false, true, false, false, false, true, false, false, false, true, false, false, false,
    true, false, false, false, true, false, false, false, true, false, false, false, true, false, false, false,
    true, false, false, false, true, false, false, false, true, false, false, false, true, false, false, false,
    true, false, false, false, true, false, false, false, true, false, false, false, true, false, false, false,
    true, false, false, false, true, false, false, false, true, false, false, false, true, false, false, false,
    true, false, false, false, true, false, false, false, true, false, false, false, true, false, false, false,
    true, false, false, false, true, false, false, false, true, false, false, false, true, false, false, false,
    true, false, false, false, true, false, false, false, true, false, false, false, true, false, false, false,
    true, false, false, false, true, false, false, false, true, false, false, false, true, false, false, false,
    true, false, false, false, true, false, false, false, true, false, false, false, true, false, false, false,
    true, false, false, false, true, false, false, false, true, false, false, false, true, false, false, false,
    true, false, false, false, true, false, false, false, true, false, false, false, true, false, false, false,
    true, false, false, false, true, false, false, false, false, false, false, false, true, false, false, false,
    true, false, false, false, true, false, false, false, true, false, false, false, true, false, false, false,
    true, false, false, false, true, false, false, false, true, false, false, false, true, false, false, false,
    true, false, false, false, true, false, false, false, true, false, false, false, true, false, false, false,
    true, false, false, false, true, false, false, false, true, false, false, false, true, false, false, false,
    true, false, false, false, true, false, false, false, true, false, false, false, true, false, false, false,
    true, false, false, false, true, false, false, false, true, false, false, false, false]

def yearOffsets : List ℤ :=
  [
    0, 366, 731, 1096, 1461, 1827, 2192, 2557, 2922, 3288, 3653, 4018, 4383, 4749,
    5114, 5479, 5844, 6210, 6575, 6940, 7305, 7671, 8036, 8401, 8766, 9132, 9497, 9862,
    10227, 10593, 10958, 11323, 11688, 12054, 12419, 12784, 13149, 13515, 13880, 14245, 14610, 14976,
    15341, 15706, 16071, 16437, 16802, 17167, 17532, 17898, 18263, 18628, 18993, 19359, 19724, 20089,
    20454, 20820, 21185, 21550, 21915, 22281, 22646, 23011, 23376, 23742, 24107, 24472, 24837, 25203,
    25568, 25933, 26298, 26664, 27029, 27394, 27759, 28125, 28490, 28855, 29220, 29586, 29951, 30316,
    30681, 31047, 31412, 31777, 32142, 32508, 32873, 33238, 33603, 33969, 34334, 34699, 35064, 35430,
    35795, 36160, 36525, 36891, 37256, 37621, 37986, 38352, 38717, 39082, 39447, 39813, 40178, 40543,
    40908, 41274, 41639, 42004, 42369, 42735, 43100, 43465, 43830, 44196, 44561, 44926, 45291, 45657,
    46022, 46387, 46752, 47118, 47483, 47848, 48213, 48579, 48944, 49309, 49674, 50040, 50405, 50770,
    51135, 51501, 51866, 52231, 52596, 52962, 53327, 53692, 54057, 54423, 54788, 55153, 55518, 55884,
    56249, 56614, 56979, 57345, 57710, 58075, 58440, 58806, 59171, 59536, 59901, 60267, 60632, 60997,
    61362, 61728, 62093, 62458, 62823, 63189, 63554, 63919, 64284, 64650, 65015, 65380, 65745, 66111,
    66476, 66841, 67206, 67572, 67937, 68302, 68667, 69033, 69398, 69763, 70128, 70494, 70859, 71224,
    71589, 71955, 72320, 72685, 73050, 73415, 73780, 74145, 74510, 74876, 75241, 75606, 75971, 76337,
    76702, 77067, 77432, 77798, 78163, 78528, 78893, 79259, 79624, 79989, 80354, 80720, 81085, 81450,
    81815, 82181, 82546, 82911, 83276, 83642, 84007, 84372, 84737, 85103, 85468, 85833, 86198, 86564,
    86929, 87294, 87659, 88025, 88390, 88755, 89120, 89486, 89851, 90216, 90581, 90947, 91312, 91677,
    92042, 92408, 92773, 93138, 93503, 93869, 94234, 94599, 94964, 95330, 95695, 96060, 96425, 96791,
    97156, 97521, 97886, 98252, 98617, 98982, 99347, 99713, 100078, 100443, 100808, 101174, 101539, 101904,
    102269, 102635, 103000, 103365, 103730, 104096, 104461, 104826, 105191, 105557, 105922, 106287, 106652, 107018,
    107383, 107748, 108113, 108479, 108844, 109209, 109574]

/-- Whether the year is leap, from 1900 (in agreement with a spreadsheet's mistake, itself leap) to 2200. -/
def isLeap (y : ℤ) : Bool := yearIsLeap.getD (y - 1900).toNat false

def monthLength (m : Month) (leapYear : Bool) : ℤ :=
  (if leapYear then [31, 29, 31, 30, 31, 30, 31, 31, 30, 31, 30, 31]
    else [31, 28, 31, 30, 31, 30, 31, 31, 30, 31, 30, 31]).getD (m.ordinal - 1).toNat 0

/-- Days before the start of the month; the 13th ordinal gives the length of the year. -/
def monthOffset (m : ℤ) (leapYear : Bool) : ℤ :=
  (if leapYear then [0, 31, 60, 91, 121, 152, 182, 213, 244, 274, 305, 335, 366]
    else [0, 31, 59, 90, 120, 151, 181, 212, 243, 273, 304, 334, 365]).getD (m - 1).toNat 0

/-- The serial number of December 31st of the preceding year. -/
def yearOffset (y : ℤ) : ℤ := yearOffsets.getD (y - 1900).toNat 0

def minimumSerialNumber : ℤ := 367

def maximumSerialNumber : ℤ := 109574

/-! ## Dates -/

/-- A date: a serial number in the supported range, or the null date. -/
@[ext] structure Date where
  serialNumber : ℤ
  inRange : serialNumber = 0 ∨ (minimumSerialNumber ≤ serialNumber ∧ serialNumber ≤ maximumSerialNumber)
deriving DecidableEq, Repr

namespace Date

def null : Date := ⟨0, Or.inl rfl⟩

instance : LinearOrder Date := LinearOrder.lift' serialNumber (fun _ _ h => Date.ext h)

theorem le_iff {d d' : Date} : d ≤ d' ↔ d.serialNumber ≤ d'.serialNumber := Iff.rfl

theorem lt_iff {d d' : Date} : d < d' ↔ d.serialNumber < d'.serialNumber := Iff.rfl

/-- `from_serial`, which panics outside the supported range. -/
def fromSerial (n : ℤ) : Option Date :=
  if h : minimumSerialNumber ≤ n ∧ n ≤ maximumSerialNumber then some ⟨n, Or.inr h⟩ else none

/-- `Date + SerialNumber`, and with a negative number `Date - SerialNumber`. -/
def addDays (d : Date) (days : ℤ) : Option Date := fromSerial (d.serialNumber + days)

/-- `Date::new`, which panics when the year, or the day in its month, is out of range. -/
def new (d : ℤ) (m : Month) (y : ℤ) : Option Date :=
  if 1900 < y ∧ y < 2200 ∧ d ≤ monthLength m (isLeap y) ∧ 0 < d then
    fromSerial (d + monthOffset m.ordinal (isLeap y) + yearOffset y)
  else none

def weekday (d : Date) : Weekday :=
  match d.serialNumber % 7 with
  | 1 => .sunday
  | 2 => .monday
  | 3 => .tuesday
  | 4 => .wednesday
  | 5 => .thursday
  | 6 => .friday
  | _ => .saturday

def year (d : Date) : ℤ :=
  let y := d.serialNumber / 365 + 1900
  if d.serialNumber ≤ yearOffset y then y - 1 else y

def dayOfYear (d : Date) : ℤ := d.serialNumber - yearOffset d.year

/-- `while d <= month_offset(m, leap) { m -= 1; }` -/
def monthDown (d : ℤ) (leap : Bool) : ℕ → ℤ → ℤ
  | 0, m        => m
  | fuel + 1, m => if d ≤ monthOffset m leap then monthDown d leap fuel (m - 1) else m

/-- `while d > month_offset(m + 1, leap) { m += 1; }` -/
def monthUp (d : ℤ) (leap : Bool) : ℕ → ℤ → ℤ
  | 0, m        => m
  | fuel + 1, m => if monthOffset (m + 1) leap < d then monthUp d leap fuel (m + 1) else m

/-- The ordinal `Date::month` finds for a day of the year; twelve turns are enough for each loop. -/
def monthOrdinal (d : ℤ) (leap : Bool) : ℤ := monthUp d leap 12 (monthDown d leap 12 (d / 30 + 1))

/-- `Date::month`; the default is never reached (`month_spec`). -/
def month (d : Date) : Month := (Month.fromOrdinal (monthOrdinal d.dayOfYear (isLeap d.year))).getD .january

def dayOfMonth (d : Date) : ℤ := d.dayOfYear - monthOffset d.month.ordinal (isLeap d.year)

def startOfMonth (d : Date) : Option Date := new 1 d.month d.year

def endOfMonth (d : Date) : Option Date := new (monthLength d.month (isLeap d.year)) d.month d.year

def isEndOfMonth (d : Date) : Bool := d.dayOfMonth = monthLength d.month (isLeap d.year)

/-- `nth_weekday`, which panics unless `n` is from one to five. -/
def nthWeekday (n : ℤ) (w : Weekday) (m : Month) (y : ℤ) : Option Date :=
  if 0 < n ∧ n < 6 then
    (new 1 m y).bind (fun first =>
      let first := first.weekday.ordinal
      let skip := n - if w.ordinal ≥ first then 1 else 0
      new ((1 + w.ordinal + skip * 7) - first) m y)
  else none

/-! ## The tables agree -/

theorem yearOffsets_tail : yearOffsets.tail =
    List.zipWith (fun o leap => o + if leap then 366 else 365) (yearOffsets.take 300) yearIsLeap := by
  decide +kernel

theorem yearOffsets_length : yearOffsets.length = 301 := by decide +kernel

theorem yearIsLeap_length : yearIsLeap.length = 301 := by decide +kernel

theorem yearOffsets_bounds : ∀ p ∈ yearOffsets.zipIdx, 365 * (p.2 : ℤ) ≤ p.1 ∧ p.1 ≤ 365 * (p.2 : ℤ) + 76 := by
  decide +kernel

theorem yearOffset_succ {y : ℤ} (h₁ : 1900 ≤ y) (h₂ : y < 2200) :
    yearOffset (y + 1) = yearOffset y + if isLeap y then 366 else 365 := by
  obtain ⟨i, hi, rfl⟩ : ∃ i : ℕ, i < 300 ∧ y = 1900 + i := ⟨(y - 1900).toNat, by omega, by omega⟩
  have h := congrArg (fun l => l.getD i 0) yearOffsets_tail
  have ho : i < yearOffsets.length := by rw [yearOffsets_length]; omega
  have hl : i < yearIsLeap.length := by rw [yearIsLeap_length]; omega
  simp only [List.getD_eq_getElem?_getD, List.getElem?_tail, List.getElem?_zipWith, List.getElem?_take_of_lt hi,
    List.getElem?_eq_getElem ho, List.getElem?_eq_getElem hl, Option.getD_some] at h
  rw [yearOffset, yearOffset, isLeap, show (1900 + (i : ℤ) + 1 - 1900).toNat = i + 1 by omega,
    show (1900 + (i : ℤ) - 1900).toNat = i by omega]
  simp only [List.getD_eq_getElem?_getD, h, List.getElem?_eq_getElem ho, List.getElem?_eq_getElem hl,
    Option.getD_some]

theorem yearOffset_bounds {y : ℤ} (h₁ : 1900 ≤ y) (h₂ : y ≤ 2200) :
    365 * (y - 1900) ≤ yearOffset y ∧ yearOffset y ≤ 365 * (y - 1900) + 76 := by
  obtain ⟨i, hi, rfl⟩ : ∃ i : ℕ, i ≤ 300 ∧ y = 1900 + i := ⟨(y - 1900).toNat, by omega, by omega⟩
  have ho : i < yearOffsets.length := by rw [yearOffsets_length]; omega
  have h := yearOffsets_bounds (yearOffsets[i], i)
    (List.mk_mem_zipIdx_iff_getElem?.mpr (List.getElem?_eq_getElem ho))
  rw [yearOffset, show (1900 + (i : ℤ) - 1900).toNat = i by omega, List.getD_eq_getElem?_getD,
    List.getElem?_eq_getElem ho, Option.getD_some, show 1900 + (i : ℤ) - 1900 = i by omega]
  exact h

theorem yearOffset_lt {y y' : ℤ} (h₁ : 1900 ≤ y) (h : y < y') (h₂ : y' ≤ 2200) : yearOffset y < yearOffset y' := by
  have b := yearOffset_bounds h₁ (by omega)
  have b' := yearOffset_bounds (by omega : 1900 ≤ y') h₂
  omega

theorem monthOffset_succ (m : Month) (leap : Bool) :
    monthOffset (m.ordinal + 1) leap = monthOffset m.ordinal leap + monthLength m leap := by
  cases m <;> cases leap <;> rfl

theorem monthLength_bounds (m : Month) (leap : Bool) : 28 ≤ monthLength m leap ∧ monthLength m leap ≤ 31 := by
  cases m <;> cases leap <;> decide

theorem monthOffset_le {m m' : Month} (leap : Bool) (h : m.ordinal < m'.ordinal) :
    monthOffset (m.ordinal + 1) leap ≤ monthOffset m'.ordinal leap := by
  cases m <;> cases m' <;> cases leap <;> revert h <;> decide

theorem monthOffset_end (leap : Bool) : monthOffset 13 leap = if leap then 366 else 365 := by cases leap <;> rfl

/-! ## Serial numbers -/

theorem serial_bounds {d : Date} (h : d ≠ null) : 367 ≤ d.serialNumber ∧ d.serialNumber ≤ 109574 := by
  rcases d.inRange with h₀ | h₀
  · exact absurd (Date.ext h₀) h
  · exact h₀

theorem null_le (d : Date) : null ≤ d := by
  rw [le_iff]
  rcases d.inRange with h | h
  · exact h.ge
  · exact le_trans (by decide) h.1

theorem serial_nonneg (d : Date) : 0 ≤ d.serialNumber := null_le d

theorem serial_le (d : Date) : d.serialNumber ≤ 109574 := by
  rcases d.inRange with h | h
  · omega
  · exact h.2

instance : WellFoundedLT Date := by
  refine StrictMono.wellFoundedLT (f := fun d : Date => d.serialNumber.toNat) (fun d d' h => ?_)
  have := serial_nonneg d
  rw [lt_iff] at h
  change d.serialNumber.toNat < d'.serialNumber.toNat
  omega

instance : WellFoundedGT Date := by
  refine StrictAnti.wellFoundedGT (f := fun d : Date => (109574 - d.serialNumber).toNat) (fun d d' h => ?_)
  have := serial_le d'
  rw [lt_iff] at h
  change (109574 - d'.serialNumber).toNat < (109574 - d.serialNumber).toNat
  omega

theorem fromSerial_eq_some {n : ℤ} {r : Date} : fromSerial n = some r ↔ r ≠ null ∧ r.serialNumber = n := by
  unfold fromSerial
  by_cases h : minimumSerialNumber ≤ n ∧ n ≤ maximumSerialNumber
  · rw [dif_pos h, Option.some.injEq]
    refine ⟨?_, fun hr => Date.ext hr.2.symm⟩
    rintro rfl
    refine ⟨fun h₀ => ?_, rfl⟩
    rw [show n = 0 from congrArg serialNumber h₀] at h
    exact absurd h.1 (by decide)
  · rw [dif_neg h]
    refine ⟨fun h₀ => absurd h₀.symm (Option.some_ne_none r), fun hr => absurd ?_ h⟩
    rw [← hr.2]
    exact serial_bounds hr.1

theorem fromSerial_eq_none {n : ℤ} : fromSerial n = none ↔ n < 367 ∨ 109574 < n := by
  unfold fromSerial minimumSerialNumber maximumSerialNumber
  split
  · exact ⟨fun h => absurd h (Option.some_ne_none _), fun h => by omega⟩
  · exact ⟨fun _ => by omega, fun _ => rfl⟩

theorem fromSerial_serialNumber {d : Date} (h : d ≠ null) : fromSerial d.serialNumber = some d :=
  fromSerial_eq_some.mpr ⟨h, rfl⟩

theorem addDays_eq_some {d r : Date} {k : ℤ} :
    d.addDays k = some r ↔ r ≠ null ∧ r.serialNumber = d.serialNumber + k := fromSerial_eq_some

theorem addDays_eq_none {d : Date} {k : ℤ} :
    d.addDays k = none ↔ d.serialNumber + k < 367 ∨ 109574 < d.serialNumber + k := fromSerial_eq_none

theorem addDays_one_covBy {d r : Date} (h : d.addDays 1 = some r) : d ⋖ r := by
  have h₁ := (addDays_eq_some.mp h).2
  refine ⟨by rw [lt_iff]; omega, fun x hx hxr => ?_⟩
  rw [lt_iff] at hx hxr
  omega

theorem addDays_neg_one_covBy {d r : Date} (h : d.addDays (-1) = some r) : r ⋖ d := by
  have h₁ := (addDays_eq_some.mp h).2
  refine ⟨by rw [lt_iff]; omega, fun x hx hxr => ?_⟩
  rw [lt_iff] at hx hxr
  omega

/-! ## Inspectors -/

/-- **The year of a date.**  The serial numbers of its year bracket it. -/
theorem year_spec {d : Date} (h : d ≠ null) :
    1901 ≤ d.year ∧ d.year ≤ 2199 ∧ yearOffset d.year < d.serialNumber ∧
      d.serialNumber ≤ yearOffset (d.year + 1) := by
  obtain ⟨lo, hi⟩ := serial_bounds h
  obtain ⟨q, hq⟩ : ∃ q, q = d.serialNumber / 365 := ⟨_, rfl⟩
  have hy : d.year = if d.serialNumber ≤ yearOffset (q + 1900) then q + 1900 - 1 else q + 1900 := by rw [hq]; rfl
  have first : yearOffset 1901 = 366 := rfl
  have last : yearOffset 2200 = 109574 := rfl
  by_cases hs : d.serialNumber ≤ yearOffset (q + 1900)
  · rw [if_pos hs] at hy
    have h₁ : q ≠ 1 := fun h₁ => by rw [h₁] at hs; change _ ≤ yearOffset 1901 at hs; omega
    have b := yearOffset_bounds (y := q + 1900 - 1) (by omega) (by omega)
    rw [hy, show q + 1900 - 1 + 1 = q + 1900 by omega]
    exact ⟨by omega, by omega, by omega, hs⟩
  · rw [if_neg hs] at hy
    have h₁ : q ≠ 300 := fun h₁ => by rw [h₁] at hs; change ¬ _ ≤ yearOffset 2200 at hs; omega
    have b := yearOffset_bounds (y := q + 1900 + 1) (by omega) (by omega)
    rw [hy]
    exact ⟨by omega, by omega, by omega, by omega⟩

theorem dayOfYear_bounds {d : Date} (h : d ≠ null) :
    0 < d.dayOfYear ∧ d.dayOfYear ≤ monthOffset 13 (isLeap d.year) := by
  obtain ⟨lo, hi, h₁, h₂⟩ := year_spec h
  rw [yearOffset_succ (by omega) (by omega)] at h₂
  rw [monthOffset_end]
  unfold dayOfYear
  constructor <;> omega

/-- The first loop stops at a month that starts before the day: January does. -/
theorem monthDown_spec {d : ℤ} (leap : Bool) (hd : 0 < d) : ∀ (fuel : ℕ) (m : ℤ), 1 ≤ m → m ≤ fuel + 1 →
    1 ≤ monthDown d leap fuel m ∧ monthDown d leap fuel m ≤ m ∧ monthOffset (monthDown d leap fuel m) leap < d
  | 0, m, h₁, h₂        => by
      obtain rfl : m = 1 := by push_cast at h₂; omega
      exact ⟨le_rfl, le_rfl, by cases leap <;> exact hd⟩
  | fuel + 1, m, h₁, h₂ => by
      rw [monthDown]
      by_cases hm : d ≤ monthOffset m leap
      · rw [if_pos hm]
        have h₃ : m ≠ 1 := fun h₃ => by
          rw [h₃] at hm
          have : monthOffset 1 leap = 0 := by cases leap <;> rfl
          omega
        obtain ⟨l, u, o⟩ := monthDown_spec leap hd fuel (m - 1) (by omega) (by push_cast at h₂; omega)
        exact ⟨l, by omega, o⟩
      · rw [if_neg hm]
        exact ⟨h₁, le_rfl, by omega⟩

/-- The second loop stops at a month that ends on or after the day: December does. -/
theorem monthUp_spec {d : ℤ} {leap : Bool} (hd : d ≤ monthOffset 13 leap) : ∀ (fuel : ℕ) (m : ℤ), 12 ≤ m + fuel →
    1 ≤ m → m ≤ 12 → monthOffset m leap < d →
    1 ≤ monthUp d leap fuel m ∧ monthUp d leap fuel m ≤ 12 ∧ monthOffset (monthUp d leap fuel m) leap < d ∧
      d ≤ monthOffset (monthUp d leap fuel m + 1) leap
  | 0, m, h₁, h₂, h₃, h₄        => by
      obtain rfl : m = 12 := by push_cast at h₁; omega
      exact ⟨h₂, h₃, h₄, hd⟩
  | fuel + 1, m, h₁, h₂, h₃, h₄ => by
      rw [monthUp]
      by_cases hm : monthOffset (m + 1) leap < d
      · rw [if_pos hm]
        have h₅ : m ≠ 12 := fun h₅ => by rw [h₅] at hm; exact absurd hd (not_le.mpr hm)
        exact monthUp_spec hd fuel (m + 1) (by push_cast at h₁; omega) (by omega) (by omega) hm
      · rw [if_neg hm]
        exact ⟨h₂, h₃, h₄, not_lt.mp hm⟩

theorem monthOrdinal_spec {d : ℤ} {leap : Bool} (h₁ : 0 < d) (h₂ : d ≤ monthOffset 13 leap) :
    1 ≤ monthOrdinal d leap ∧ monthOrdinal d leap ≤ 12 ∧ monthOffset (monthOrdinal d leap) leap < d ∧
      d ≤ monthOffset (monthOrdinal d leap + 1) leap := by
  have hd : d ≤ 366 := by rw [monthOffset_end] at h₂; split at h₂ <;> omega
  obtain ⟨l, u, o⟩ := monthDown_spec leap h₁ 12 (d / 30 + 1) (by omega) (by push_cast; omega)
  refine monthUp_spec h₂ 12 _ (by push_cast; omega) l ?_ o
  by_contra h₃
  have : monthDown d leap 12 (d / 30 + 1) = 13 := by omega
  rw [this] at o
  omega

theorem ordinal_fromOrdinal {n : ℤ} (h₁ : 1 ≤ n) (h₂ : n ≤ 12) : ((Month.fromOrdinal n).getD .january).ordinal = n := by
  interval_cases n <;> rfl

/-- **The month of a date.**  The days of its month bracket the day of the year. -/
theorem month_spec {d : Date} (h : d ≠ null) :
    monthOffset d.month.ordinal (isLeap d.year) < d.dayOfYear ∧
      d.dayOfYear ≤ monthOffset (d.month.ordinal + 1) (isLeap d.year) := by
  obtain ⟨h₁, h₂⟩ := dayOfYear_bounds h
  obtain ⟨lo, hi, o₁, o₂⟩ := monthOrdinal_spec h₁ h₂
  rw [month, ordinal_fromOrdinal lo hi]
  exact ⟨o₁, o₂⟩

/-- **The day of a date** is one of its month. -/
theorem day_spec {d : Date} (h : d ≠ null) :
    1 ≤ d.dayOfMonth ∧ d.dayOfMonth ≤ monthLength d.month (isLeap d.year) := by
  obtain ⟨h₁, h₂⟩ := month_spec h
  rw [monthOffset_succ] at h₂
  unfold dayOfMonth
  constructor <;> omega

theorem serialNumber_eq (d : Date) :
    d.serialNumber = d.dayOfMonth + monthOffset d.month.ordinal (isLeap d.year) + yearOffset d.year := by
  unfold dayOfMonth dayOfYear
  omega

theorem year_eq {d : Date} {y : ℤ} (h : d ≠ null) (h₁ : 1900 ≤ y) (h₂ : y < 2200) (lo : yearOffset y < d.serialNumber)
    (hi : d.serialNumber ≤ yearOffset (y + 1)) : d.year = y := by
  obtain ⟨b, b', lo', hi'⟩ := year_spec h
  rcases lt_trichotomy d.year y with hlt | heq | hgt
  · rcases eq_or_lt_of_le (show d.year + 1 ≤ y by omega) with he | hl
    · rw [he] at hi'; omega
    · have := yearOffset_lt (by omega) hl (by omega)
      omega
  · exact heq
  · rcases eq_or_lt_of_le (show y + 1 ≤ d.year by omega) with he | hl
    · rw [he] at hi; omega
    · have := yearOffset_lt (by omega) hl (by omega)
      omega

theorem month_eq {d : Date} {m : Month} (h : d ≠ null) (lo : monthOffset m.ordinal (isLeap d.year) < d.dayOfYear)
    (hi : d.dayOfYear ≤ monthOffset (m.ordinal + 1) (isLeap d.year)) : d.month = m := by
  obtain ⟨lo', hi'⟩ := month_spec h
  rcases lt_trichotomy d.month.ordinal m.ordinal with hlt | heq | hgt
  · have := monthOffset_le (isLeap d.year) hlt
    omega
  · exact Month.ordinal_injective heq
  · have := monthOffset_le (isLeap d.year) hgt
    omega

theorem monthOffset_bounds (m : Month) (leap : Bool) : 0 ≤ monthOffset m.ordinal leap ∧
    monthOffset (m.ordinal + 1) leap ≤ monthOffset 13 leap := by
  cases m <;> cases leap <;> decide

/-- **A date is made of its day, month and year.** -/
theorem new_spec {day : ℤ} {m : Month} {y : ℤ} {r : Date} (h : new day m y = some r) :
    r ≠ null ∧ r.dayOfMonth = day ∧ r.month = m ∧ r.year = y := by
  unfold new at h
  split at h
  · rename_i hc
    obtain ⟨h₁, h₂, h₃, h₄⟩ := hc
    obtain ⟨hr, hs⟩ := fromSerial_eq_some.mp h
    have hb := monthOffset_bounds m (isLeap y)
    have hl := monthOffset_succ m (isLeap y)
    rw [monthOffset_end] at hb
    have hy : r.year = y := year_eq hr h₁.le h₂ (by omega) (by rw [yearOffset_succ h₁.le h₂]; omega)
    have hd : r.dayOfYear = day + monthOffset m.ordinal (isLeap y) := by rw [dayOfYear, hy]; omega
    have hm : r.month = m := month_eq hr (by rw [hd, hy]; omega) (by rw [hd, hy]; omega)
    exact ⟨hr, by rw [dayOfMonth, hd, hm, hy]; omega, hm, hy⟩
  · exact absurd h.symm (Option.some_ne_none r)

theorem new_eq_some_iff {day : ℤ} {m : Month} {y : ℤ} {r : Date} :
    new day m y = some r ↔ r ≠ null ∧ r.dayOfMonth = day ∧ r.month = m ∧ r.year = y := by
  refine ⟨new_spec, ?_⟩
  rintro ⟨h, rfl, rfl, rfl⟩
  obtain ⟨h₁, h₂, -⟩ := year_spec h
  obtain ⟨h₃, h₄⟩ := day_spec h
  rw [new, if_pos ⟨by omega, by omega, h₄, h₃⟩, ← serialNumber_eq, fromSerial_serialNumber h]

theorem exists_new {day : ℤ} {m : Month} {y : ℤ} (h₁ : 1900 < y) (h₂ : y < 2200) (h₃ : 0 < day)
    (h₄ : day ≤ monthLength m (isLeap y)) : ∃ r, new day m y = some r := by
  have hb := monthOffset_bounds m (isLeap y)
  have hl := monthOffset_succ m (isLeap y)
  have hs := yearOffset_succ h₁.le h₂
  rw [← monthOffset_end] at hs
  have lo : 366 ≤ yearOffset y := by
    rcases eq_or_lt_of_le (show 1901 ≤ y by omega) with rfl | h
    · exact le_rfl
    · exact (yearOffset_lt (y := 1901) (by omega) h h₂.le).le
  have hi : yearOffset (y + 1) ≤ 109574 := by
    rcases eq_or_lt_of_le (show y + 1 ≤ 2200 by omega) with h | h
    · rw [h]
      exact le_rfl
    · exact (yearOffset_lt (by omega) h le_rfl).le
  rw [new, if_pos ⟨h₁, h₂, h₄, h₃⟩, fromSerial, dif_pos (by unfold minimumSerialNumber maximumSerialNumber; omega)]
  exact ⟨_, rfl⟩

/-! ## Months and half months through the years -/

def monthIndex (d : Date) : ℤ := 12 * d.year + d.month.ordinal

/-- The number of the date's half month, which ends on the 15th or with the month. -/
def halfMonthIndex (d : Date) : ℤ := 2 * d.monthIndex + if 15 < d.dayOfMonth then 1 else 0

theorem monthIndex_eq_iff {d d' : Date} : d.monthIndex = d'.monthIndex ↔ d.month = d'.month ∧ d.year = d'.year := by
  have b := d.month.ordinal_bounds
  have b' := d'.month.ordinal_bounds
  unfold monthIndex
  constructor
  · intro h
    have hy : d.year = d'.year := by omega
    exact ⟨Month.ordinal_injective (by omega), hy⟩
  · rintro ⟨hm, hy⟩
    rw [hm, hy]

theorem year_mono {d d' : Date} (h : d ≠ null) (h' : d' ≠ null) (hle : d ≤ d') : d.year ≤ d'.year := by
  obtain ⟨lo, hi, h₁, h₂⟩ := year_spec h
  obtain ⟨lo', hi', h₁', h₂'⟩ := year_spec h'
  rw [le_iff] at hle
  by_contra hlt
  rcases eq_or_lt_of_le (show d'.year + 1 ≤ d.year by omega) with he | hl
  · rw [he] at h₂'; omega
  · have := yearOffset_lt (by omega) hl (by omega)
    omega

theorem monthIndex_mono {d d' : Date} (hle : d ≤ d') : d.monthIndex ≤ d'.monthIndex := by
  by_cases h : d = null
  · subst h
    by_cases h' : d' = null
    · rw [h']
    have b := d'.month.ordinal_bounds
    have y := (year_spec h').1
    have n : null.monthIndex = 12 * 1899 + 1 := by decide +kernel
    rw [n]
    unfold monthIndex
    omega
  have h' : d' ≠ null := fun h' => h (le_antisymm (h' ▸ hle) (null_le d))
  have b := d.month.ordinal_bounds
  have b' := d'.month.ordinal_bounds
  unfold monthIndex
  rcases eq_or_lt_of_le (year_mono h h' hle) with hy | hy
  · by_contra hlt
    have hm := monthOffset_le (isLeap d.year) (show d'.month.ordinal < d.month.ordinal by omega)
    have h₁ := (month_spec h).1
    have h₂ := (month_spec h').2
    rw [le_iff] at hle
    unfold dayOfYear at h₁ h₂
    rw [← hy] at h₂
    omega
  · omega

theorem halfMonthIndex_mono {d d' : Date} (hle : d ≤ d') : d.halfMonthIndex ≤ d'.halfMonthIndex := by
  unfold halfMonthIndex
  rcases eq_or_lt_of_le (monthIndex_mono hle) with hm | hm
  · obtain ⟨hm₁, hy⟩ := monthIndex_eq_iff.mp hm
    have e := serialNumber_eq d
    have e' := serialNumber_eq d'
    rw [le_iff] at hle
    rw [hm₁, hy] at e
    split <;> split <;> omega
  · split <;> split <;> omega

theorem lt_of_monthIndex {d d' : Date} (h : d.monthIndex < d'.monthIndex) : d < d' :=
  lt_of_not_ge (fun hle => not_lt.mpr (monthIndex_mono hle) h)

/-- The dates lie in one month of one year. -/
def SameMonth (d d' : Date) : Prop := d.month = d'.month ∧ d.year = d'.year

instance (d d' : Date) : Decidable (d.SameMonth d') := inferInstanceAs (Decidable (_ ∧ _))

/-- The dates lie in one half, up to the 15th or after it, of one month. -/
def SameHalfMonth (d d' : Date) : Prop := d.SameMonth d' ∧ (d.dayOfMonth ≤ 15 ↔ d'.dayOfMonth ≤ 15)

theorem sameMonth_iff {d d' : Date} : d.SameMonth d' ↔ d.monthIndex = d'.monthIndex := monthIndex_eq_iff.symm

theorem sameHalfMonth_iff {d d' : Date} : d.SameHalfMonth d' ↔ d.halfMonthIndex = d'.halfMonthIndex := by
  rw [SameHalfMonth, sameMonth_iff]
  unfold halfMonthIndex
  split <;> split <;> omega

end Date
end Itofin
