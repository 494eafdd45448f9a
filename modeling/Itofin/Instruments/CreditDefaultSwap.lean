import Itofin.Time.Advance
import Itofin.Time.Period.Order
import Itofin.Time.Schedule
/-!
# CreditDefaultSwap — the maturity of a standard contract

`cds_maturity` of `instruments/creditdefaultswap.rs`.  Its dates are all twentieths, so it is an arithmetic of month
indices: the anchor is the last multiple of three whose twentieth is not after the trade date (`previousTwentieth_eq`),
the half-yearly roll moves a multiple of six a quarter back, and the maturity is that plus the tenor and a quarter
(`cdsMaturity_eq`).
-/
namespace Itofin.CreditDefaultSwap

open Date Schedule

inductive CdsMaturityError where
  /-- "cds_maturity should only be used with date generation rule CDS2015, CDS or OldCDS" -/
  | rule
  /-- "cds_maturity expects a tenor that is a multiple of 3 months." -/
  | notQuarterly
  /-- "A tenor of 0M is not supported for OldCDS." -/
  | zeroTenor
  /-- "error calculating CDS maturity. Tenor is {tenor}, trade date is {trade_date} generating a maturity of {maturity}
  <= trade date." -/
  | notAfterTrade (tenor : Period) (tradeDate maturity : Date)
deriving DecidableEq

/-- The checks made before any date is formed. -/
def requireArguments (tenor : Period) (rule : DateGeneration) : Except CdsMaturityError Unit :=
  if rule ∉ [.cds2015, .cds, .oldCDS] then .error .rule
  else if ¬ (tenor.units = .years ∨ tenor.units = .months ∧ tenor.length.tmod 3 = 0) then .error .notQuarterly
  else if rule = .oldCDS ∧ tenor.partialCmp ⟨0, .months⟩ = some (some .eq) then .error .zeroTenor
  else .ok ()

/-- `anchor_date` is 20 December or 20 June. -/
def isHalfYearly (anchorDate : Date) : Bool :=
  Date.new 20 .december anchorDate.year = some anchorDate || Date.new 20 .june anchorDate.year = some anchorDate

def maturityFrom (tradeDate : Date) (tenor : Period) (anchorDate : Date) :
    Option (Except CdsMaturityError (Option Date)) :=
  ((anchorDate.addPeriod tenor).bind (·.addPeriod ⟨3, .months⟩)).map fun maturity =>
    if tradeDate < maturity then .ok (some maturity) else .error (.notAfterTrade tenor tradeDate maturity)

/-- `cds_maturity`, or `none` when a date leaves the supported range, which panics. -/
def cdsMaturity (tradeDate : Date) (tenor : Period) (rule : DateGeneration) :
    Option (Except CdsMaturityError (Option Date)) :=
  match requireArguments tenor rule with
  | .error e => some (.error e)
  | .ok ()   => (previousTwentieth tradeDate rule).bind fun anchorDate =>
    if rule = .cds2015 ∧ isHalfYearly anchorDate then
      if tenor.length = 0 then some (.ok none)
      else (anchorDate.subPeriod ⟨3, .months⟩).bind (maturityFrom tradeDate tenor)
    else maturityFrom tradeDate tenor anchorDate

/-! ## Month indices -/

variable {d d' m m' : Date} {tenor tenor' : Period} {rule : DateGeneration} {i j : ℤ}

/-- The month of the last twentieth not after the date. -/
def twentiethIndex (d : Date) : ℤ := if d.dayOfMonth < 20 then d.monthIndex - 1 else d.monthIndex

/-- The last of these that ends a quarter. -/
def anchorIndex (d : Date) : ℤ := twentiethIndex d - twentiethIndex d % 3

/-- The anchor after the roll. -/
def rolledIndex (d : Date) (rule : DateGeneration) : ℤ :=
  if rule = .cds2015 ∧ anchorIndex d % 6 = 0 then anchorIndex d - 3 else anchorIndex d

def maturityIndex (d : Date) (tenor : Period) (rule : DateGeneration) : ℤ :=
  rolledIndex d rule + tenor.measure + 3

/-- The contract has already matured. -/
def Matured (d : Date) (tenor : Period) (rule : DateGeneration) : Prop :=
  (rule = .cds2015 ∧ anchorIndex d % 6 = 0) ∧ tenor.length = 0

instance : Decidable (Matured d tenor rule) := inferInstanceAs (Decidable ((_ ∧ _) ∧ _))

theorem onMonth_twentieth (h : onMonth i 20 = some d) : d ≠ null ∧ d.monthIndex = i ∧ d.dayOfMonth = 20 := by
  obtain ⟨hd, hi, hday⟩ := onMonth_eq_some.1 h
  have hl := monthLength_bounds d.month (isLeap d.year)
  exact ⟨hd, hi, by omega⟩

theorem advance_twentieth (h : onMonth i 20 = some d) : d.advance j .months = onMonth (i + j) 20 := by
  obtain ⟨-, hi, hday⟩ := onMonth_twentieth h
  rw [advance_months_eq, hi, hday]

theorem exists_twentieth (h : MonthInRange i) : ∃ r, onMonth i 20 = some r := (onMonth_isSome (by norm_num)).2 h

theorem onMonth_none (h : ¬ MonthInRange i) : onMonth i 20 = none := by
  rw [Option.eq_none_iff_forall_ne_some]
  exact fun r hr => h ((onMonth_isSome (by norm_num)).1 ⟨r, hr⟩)

/-- **The anchor**: the last quarterly twentieth not after the trade date. -/
theorem previousTwentieth_eq_of_ne_null (hd : d ≠ null) (hrule : rule.isTwentiethIMM = true) :
    previousTwentieth d rule = onMonth (anchorIndex d) 20 := by
  obtain ⟨result, hresult⟩ := exists_twentieth (monthIndex_inRange hd)
  have hnew : Date.new 20 d.month d.year = some result := by
    have hl := monthLength_bounds d.month (isLeap d.year)
    rwa [monthIndex, onMonth_eq rfl, min_eq_left (by omega)] at hresult
  have hlt : d < result ↔ d.dayOfMonth < 20 := by
    obtain ⟨-, hday, hm, hy⟩ := new_spec hnew
    have e := serialNumber_eq d
    have e' := serialNumber_eq result
    rw [hm, hy, hday] at e'
    rw [lt_iff]
    omega
  have hback : (if d < result then result.subPeriod ⟨1, .months⟩ else some result) = onMonth (twentiethIndex d) 20 := by
    unfold twentiethIndex
    by_cases h : d.dayOfMonth < 20
    · rw [if_pos (hlt.2 h), if_pos h]
      exact advance_twentieth hresult
    · rw [if_neg (hlt.not.2 h), if_neg h, hresult]
  rw [previousTwentieth, hnew, Option.bind_eq_bind, Option.bind_some, hback]
  cases hmonth : onMonth (twentiethIndex d) 20 with
  | none        =>
    -- a quarter before an unsupported month is unsupported
    have hrange : ¬ MonthInRange (twentiethIndex d) := fun h => by
      obtain ⟨r, hr⟩ := exists_twentieth h
      rw [hmonth] at hr
      cases hr
    have htop := (monthIndex_inRange hd).2
    refine (onMonth_none fun h => hrange ⟨?_, ?_⟩).symm
    · unfold MonthInRange anchorIndex at h
      omega
    · unfold twentiethIndex
      split_ifs <;> omega
  | some result =>
    obtain ⟨-, hi, -⟩ := onMonth_twentieth hmonth
    have hmod : result.month.ordinal % 3 = twentiethIndex d % 3 := by
      rw [← hi, monthIndex]
      omega
    simp only [Option.bind_some, hrule, true_and, hmod]
    by_cases h : twentiethIndex d % 3 = 0
    · rw [if_neg (not_not.2 h), ← hmonth, anchorIndex, h, sub_zero]
    · rw [if_pos h]
      exact (advance_twentieth hmonth).trans (by rw [anchorIndex, ← sub_eq_add_neg])

theorem previousTwentieth_eq (d : Date) (hrule : rule.isTwentiethIMM = true) :
    previousTwentieth d rule = onMonth (anchorIndex d) 20 := by
  by_cases hd : d = null
  · subst hd
    rw [onMonth_none (by decide +kernel)]
    cases rule <;> decide +kernel
  · exact previousTwentieth_eq_of_ne_null hd hrule

theorem eq_zeroMonths : tenor.partialCmp ⟨0, .months⟩ = some (some .eq) ↔ tenor.length = 0 := by
  by_cases h : tenor.length = 0
  · simp [Period.partialCmp, Period.less, Period.ordering, h]
  · by_cases hneg : tenor.length < 0
    · simp [Period.partialCmp, Period.less, Period.ordering, h, hneg]
    · simp [Period.partialCmp, Period.less, Period.ordering, h, hneg, show 0 < tenor.length by omega]

theorem requireArguments_ok : requireArguments tenor rule = .ok () ↔
    rule ∈ [.cds2015, .cds, .oldCDS] ∧ (tenor.units = .years ∨ tenor.units = .months ∧ tenor.length % 3 = 0) ∧
      (rule = .oldCDS → tenor.length ≠ 0) := by
  unfold requireArguments
  rw [← Int.dvd_iff_emod_eq_zero, Int.dvd_iff_tmod_eq_zero]
  split_ifs with h₁ h₂ h₃
  · exact iff_of_false nofun fun h => h.2.2 h₃.1 (eq_zeroMonths.1 h₃.2)
  · exact iff_of_true rfl ⟨h₁, h₂, fun h h' => h₃ ⟨h, eq_zeroMonths.2 h'⟩⟩
  · exact iff_of_false nofun fun h => h₂ h.2.1
  · exact iff_of_false nofun fun h => h₁ h.1

/-- What a tenor that is accepted and not negative measures, in months. -/
theorem measure_spec (h : requireArguments tenor rule = .ok ()) (hpos : 0 ≤ tenor.length) :
    tenor.measure % 3 = 0 ∧ 0 ≤ tenor.measure ∧ (tenor.measure = 0 ↔ tenor.length = 0) := by
  obtain ⟨-, hunits, -⟩ := requireArguments_ok.1 h
  unfold Period.measure
  rcases hunits with hy | ⟨hm, hmod⟩
  · simp only [hy]
    omega
  · simp only [hm]
    exact ⟨hmod, hpos, trivial⟩

theorem addPeriod_twentieth (h : requireArguments tenor rule = .ok ()) (hd : onMonth i 20 = some d) :
    d.addPeriod tenor = onMonth (i + tenor.measure) 20 := by
  obtain ⟨-, hunits, -⟩ := requireArguments_ok.1 h
  obtain ⟨hnull, hi, hday⟩ := onMonth_twentieth hd
  unfold Date.addPeriod Period.measure
  rcases hunits with hy | ⟨hm, -⟩
  · simp only [hy]
    rw [advance_years_eq hnull, hi, hday]
  · simp only [hm]
    exact advance_twentieth hd

/-- An anchor of the roll is one whose month is a multiple of six. -/
theorem isHalfYearly_iff (hd : onMonth i 20 = some d) : isHalfYearly d = true ↔ i % 6 = 0 := by
  obtain ⟨hnull, hi, hday⟩ := onMonth_twentieth hd
  rw [isHalfYearly, Bool.or_eq_true, decide_eq_true_iff, decide_eq_true_iff, new_eq_some_iff, new_eq_some_iff]
  rw [← hi, monthIndex]
  have hmonth : d.month.ordinal % 6 = 0 ↔ d.month = .december ∨ d.month = .june := by
    cases d.month <;> decide
  have hmod : (12 * d.year + d.month.ordinal) % 6 = d.month.ordinal % 6 := by omega
  rw [hmod, hmonth]
  simp only [hnull, hday, ne_eq, not_false_eq_true, true_and, and_true]

/-- Every twentieth from the anchor's quarter on is after the trade date. -/
theorem lt_of_anchorIndex (hm : onMonth i 20 = some m) (h : anchorIndex d + 3 ≤ i) : d < m := by
  obtain ⟨-, hi, hday⟩ := onMonth_twentieth hm
  by_contra hle
  rcases le_cases (not_lt.1 hle) with hlt | ⟨heq, hdays⟩
  · unfold anchorIndex twentiethIndex at h
    split_ifs at h <;> omega
  · unfold anchorIndex twentiethIndex at h
    split_ifs at h <;> omega

theorem onMonth_inRange (h : onMonth i 20 = some d) : MonthInRange i := (onMonth_isSome (by norm_num)).1 ⟨d, h⟩

theorem maturityFrom_eq (h : requireArguments tenor rule = .ok ()) (hpos : 0 ≤ tenor.length)
    (hanchor : onMonth i 20 = some d') (hlater : anchorIndex d ≤ i + tenor.measure) :
    maturityFrom d tenor d' = (onMonth (i + tenor.measure + 3) 20).map (fun m => .ok (some m)) := by
  have hadd : (d'.addPeriod tenor).bind (·.addPeriod ⟨3, .months⟩) = onMonth (i + tenor.measure + 3) 20 := by
    rw [addPeriod_twentieth h hanchor]
    cases hmonth : onMonth (i + tenor.measure) 20 with
    | none   =>
      refine (onMonth_none fun hr => ?_).symm
      have hi := (onMonth_inRange hanchor).1
      have hmeasure := (measure_spec h hpos).2.1
      obtain ⟨r, hr⟩ := exists_twentieth (i := i + tenor.measure) ⟨by omega, by
        have := hr.2
        omega⟩
      rw [hmonth] at hr
      cases hr
    | some r => exact advance_twentieth (j := 3) hmonth
  rw [maturityFrom, hadd]
  cases hmonth : onMonth (i + tenor.measure + 3) 20 with
  | none   => rfl
  | some m => exact congrArg some (if_pos (lt_of_anchorIndex hmonth (by omega)))

/-- **The maturity of a standard contract**, in month indices. -/
theorem cdsMaturity_eq (h : requireArguments tenor rule = .ok ()) (hpos : 0 ≤ tenor.length) :
    cdsMaturity d tenor rule =
      if ¬ MonthInRange (anchorIndex d) then none
      else if Matured d tenor rule then some (.ok none)
      else (onMonth (maturityIndex d tenor rule) 20).map (fun m => .ok (some m)) := by
  obtain ⟨hrule, -⟩ := requireArguments_ok.1 h
  have himm : rule.isTwentiethIMM = true := by
    revert hrule
    cases rule <;> decide
  obtain ⟨hmod, hmeasure, hzero⟩ := measure_spec h hpos
  rw [cdsMaturity, h]
  simp only
  rw [previousTwentieth_eq d himm]
  by_cases hrange : MonthInRange (anchorIndex d)
  · obtain ⟨anchorDate, hanchor⟩ := exists_twentieth hrange
    rw [hanchor, Option.bind_some, if_neg (not_not.2 hrange)]
    simp only [isHalfYearly_iff hanchor, maturityIndex, rolledIndex]
    by_cases hroll : rule = .cds2015 ∧ anchorIndex d % 6 = 0
    · rw [if_pos hroll, if_pos hroll]
      by_cases hlength : tenor.length = 0
      · rw [if_pos hlength, if_pos ⟨hroll, hlength⟩]
      · rw [if_neg hlength, if_neg fun h => hlength h.2]
        -- the quarter before a supported June or December is supported
        obtain ⟨hlow, hhigh⟩ := hrange
        obtain ⟨rolled, hrolled⟩ := exists_twentieth (i := anchorIndex d - 3) ⟨by omega, by omega⟩
        have hsub : anchorDate.subPeriod ⟨3, .months⟩ = some rolled := by
          rw [← hrolled, sub_eq_add_neg]
          exact advance_twentieth hanchor
        rw [hsub, Option.bind_some]
        have hne := hzero.not.2 hlength
        exact maturityFrom_eq h hpos hrolled (by omega)
    · rw [if_neg hroll, if_neg hroll, if_neg fun h => hroll h.1]
      exact maturityFrom_eq h hpos hanchor (by omega)
  · rw [onMonth_none hrange, if_pos hrange, Option.bind_none]

theorem cdsMaturity_some (h : requireArguments tenor rule = .ok ()) (hpos : 0 ≤ tenor.length) :
    cdsMaturity d tenor rule = some (.ok (some m)) ↔
      MonthInRange (anchorIndex d) ∧ ¬ Matured d tenor rule ∧ onMonth (maturityIndex d tenor rule) 20 = some m := by
  rw [cdsMaturity_eq h hpos]
  by_cases hrange : MonthInRange (anchorIndex d)
  · rw [if_neg (not_not.2 hrange)]
    by_cases hmatured : Matured d tenor rule
    · simp [hmatured]
    · simp [hmatured, hrange]
  · simp [hrange]

theorem twentiethIndex_mono (h : d ≤ d') : twentiethIndex d ≤ twentiethIndex d' := by
  unfold twentiethIndex
  rcases le_cases h with hlt | ⟨heq, hdays⟩ <;> split_ifs <;> omega

theorem anchorIndex_mono (h : d ≤ d') : anchorIndex d ≤ anchorIndex d' := by
  have := twentiethIndex_mono h
  unfold anchorIndex
  omega

/-- The roll is monotone: it is the last multiple of six and three not after the anchor. -/
theorem rolledIndex_mono (h : d ≤ d') (rule : DateGeneration) : rolledIndex d rule ≤ rolledIndex d' rule := by
  have hle := anchorIndex_mono h
  have hd : anchorIndex d % 3 = 0 := by
    unfold anchorIndex
    omega
  have hd' : anchorIndex d' % 3 = 0 := by
    unfold anchorIndex
    omega
  unfold rolledIndex
  split_ifs <;> grind

/-! ## The maturities of a rule -/

/-- A tenor that the rule accepts, and that is not negative. -/
def Accepts (rule : DateGeneration) (tenor : Period) : Prop := requireArguments tenor rule = .ok () ∧ 0 ≤ tenor.length

/-- **What a rule promises of its maturities**, whatever the trade date and the tenors it accepts. -/
structure Matures (rule : DateGeneration) : Prop where
  noError    : ∀ d tenor e, Accepts rule tenor → cdsMaturity d tenor rule ≠ some (.error e)
  /-- It panics only where a date leaves the supported range. -/
  returns    : ∀ d tenor, Accepts rule tenor → (cdsMaturity d tenor rule = none ↔
    ¬ (MonthInRange (anchorIndex d) ∧ (Matured d tenor rule ∨ MonthInRange (maturityIndex d tenor rule))))
  afterTrade : ∀ d tenor m, Accepts rule tenor → cdsMaturity d tenor rule = some (.ok (some m)) → d < m
  quarterly  : ∀ d tenor m, Accepts rule tenor → cdsMaturity d tenor rule = some (.ok (some m)) →
    m.dayOfMonth = 20 ∧ m.month ∈ [.march, .june, .september, .december] ∧
      (rule = .cds2015 → tenor.measure % 6 = 0 → m.month ∈ [.june, .december])
  monotone   : ∀ d d' tenor m m', Accepts rule tenor → d ≤ d' → cdsMaturity d tenor rule = some (.ok (some m)) →
    cdsMaturity d' tenor rule = some (.ok (some m')) → m ≤ m'
  strict     : ∀ d tenor tenor' m m', Accepts rule tenor → Accepts rule tenor' → tenor.measure < tenor'.measure →
    cdsMaturity d tenor rule = some (.ok (some m)) → cdsMaturity d tenor' rule = some (.ok (some m')) → m < m'

theorem month_of_index (h : onMonth i 20 = some m) :
    (i % 3 = 0 → m.month ∈ [.march, .june, .september, .december]) ∧ (i % 6 = 0 → m.month ∈ [.june, .december]) := by
  obtain ⟨-, hi, -⟩ := onMonth_twentieth h
  have h₃ : i % 3 = m.month.ordinal % 3 := by
    rw [← hi, monthIndex]
    omega
  have h₆ : i % 6 = m.month.ordinal % 6 := by
    rw [← hi, monthIndex]
    omega
  rw [h₃, h₆]
  cases m.month <;> decide

/-- The maturity is a quarter, and a half-year for a tenor of half-years under the roll. -/
theorem maturityIndex_mod (h : Accepts rule tenor) :
    maturityIndex d tenor rule % 3 = 0 ∧
      (rule = .cds2015 → tenor.measure % 6 = 0 → maturityIndex d tenor rule % 6 = 0) := by
  have hmod := (measure_spec h.1 h.2).1
  have hanchor : anchorIndex d % 3 = 0 := by
    unfold anchorIndex
    omega
  unfold maturityIndex rolledIndex
  split_ifs with hroll
  · exact ⟨by omega, fun _ _ => by omega⟩
  · refine ⟨by omega, fun hrule _ => ?_⟩
    have hodd : anchorIndex d % 6 ≠ 0 := fun h => hroll ⟨hrule, h⟩
    omega

theorem cdsMaturity_matures (rule : DateGeneration) : Matures rule where
  noError d tenor e h := by
    rw [cdsMaturity_eq h.1 h.2]
    split_ifs
    · exact nofun
    · intro he
      obtain ⟨m, -, hm⟩ := Option.map_eq_some_iff.1 he
      cases hm
    · exact nofun
  returns d tenor h := by
    rw [cdsMaturity_eq h.1 h.2]
    split_ifs with hrange hmatured
    · simp [hrange, hmatured]
    · rw [Option.map_eq_none_iff, Option.eq_none_iff_forall_ne_some, ← not_exists, onMonth_isSome (by norm_num)]
      simp [hrange, hmatured]
    · simp [hrange]
  afterTrade d tenor m h hm := by
    obtain ⟨hrange, hmatured, hm⟩ := (cdsMaturity_some h.1 h.2).1 hm
    obtain ⟨hmod, hpos, hzero⟩ := measure_spec h.1 h.2
    apply lt_of_anchorIndex hm
    unfold maturityIndex rolledIndex
    split_ifs with hroll
    · have hne : tenor.measure ≠ 0 := fun h => hmatured ⟨hroll, hzero.1 h⟩
      omega
    · omega
  quarterly d tenor m h hm := by
    obtain ⟨-, -, hm⟩ := (cdsMaturity_some h.1 h.2).1 hm
    obtain ⟨h₃, h₆⟩ := maturityIndex_mod (d := d) h
    exact ⟨(onMonth_twentieth hm).2.2, (month_of_index hm).1 h₃,
      fun hrule hmeasure => (month_of_index hm).2 (h₆ hrule hmeasure)⟩
  monotone d d' tenor m m' h hle hm hm' := by
    obtain ⟨-, -, hm⟩ := (cdsMaturity_some h.1 h.2).1 hm
    obtain ⟨-, -, hm'⟩ := (cdsMaturity_some h.1 h.2).1 hm'
    have hindex : maturityIndex d tenor rule ≤ maturityIndex d' tenor rule :=
      add_le_add_left (add_le_add_left (rolledIndex_mono hle rule) _) _
    exact onMonth_mono ((lt_or_eq_of_le hindex).imp_right fun h => ⟨h, le_rfl⟩) hm hm'
  strict d tenor tenor' m m' h h' hlt hm hm' := by
    obtain ⟨-, -, hm⟩ := (cdsMaturity_some h.1 h.2).1 hm
    obtain ⟨-, -, hm'⟩ := (cdsMaturity_some h'.1 h'.2).1 hm'
    apply lt_of_monthIndex
    rw [(onMonth_twentieth hm).2.1, (onMonth_twentieth hm').2.1]
    unfold maturityIndex
    omega

/-- On a roll date, 20 June, six months lead to the next December, and no month to no date. -/
example : (Date.new 20 .june 2016).bind (fun d => cdsMaturity d ⟨6, .months⟩ .cds2015) =
    some (.ok (Date.new 20 .december 2016)) ∧
      (Date.new 20 .june 2016).bind (fun d => cdsMaturity d ⟨0, .months⟩ .cds2015) = some (.ok none) := by
  decide +kernel

end Itofin.CreditDefaultSwap
