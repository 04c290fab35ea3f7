import TronDB.Core.Temporal
import TronDB.Lib.Calendar
import TronDB.Lib.Checked
import Mathlib.Tactic.Linarith

/-! The days of a date, computed in machine integers: exact on the calendar. -/
namespace TronDB.Core
open Checked Calendar

def dayOfYearChecked (m d : UInt32) : Option UInt32 := do
  let month ← (if 2 < m then checkedSub m 3 else checkedAdd m 9)
  checkedSub (← checkedAdd ((← checkedAdd (← checkedMul 153 month) 2) / 5) d) 1

def dayOfEraChecked (yoe doy : UInt32) : Option UInt32 := do
  let leaps ← checkedAdd (← checkedMul yoe 365) (yoe / 4)
  checkedAdd (← checkedSub leaps (yoe / 100)) doy

/-- `daysFromCivil` where an overflow is an error. -/
def daysFromCivilChecked (y : Int64) (m d : UInt32) : Option Int64 := do
  let y ← (if m ≤ 2 then checkedSub y 1 else some y)
  let era := (← (if 0 ≤ y then some y else checkedSub y 399)) / 400
  let yoe := (← checkedSub y (← checkedMul era 400)).toUInt64.toUInt32
  let doy ← dayOfYearChecked m d
  let doe ← dayOfEraChecked yoe doy
  checkedSub (← checkedAdd (← checkedMul era 146097) doe.toUInt64.toInt64) 719468

/-- The formula over all integers; years begin in March, and days and months run over. -/
def civilDays (y m d : Int) : Int :=
  let year := if m ≤ 2 then y - 1 else y
  let month := if 2 < m then m - 3 else m + 9
  365 * year + year / 4 - year / 100 + year / 400 + (153 * month + 2) / 5 + d - 719469

/-! ### The steps of the computation -/

theorem bind_of_some {α β : Type} {x : Option α} {a : α} (found : x = some a) (f : α → Option β) :
    (x >>= f) = f a := by
  rw [found]
  rfl

theorem era_eq {y : Int64} (above : -2 ^ 62 ≤ y.toInt) :
    ∃ num : Int64, (if 0 ≤ y then some y else checkedSub y 399) = some num ∧
      (num / 400).toInt = y.toInt / 400 := by
  have positive : (0 : Int) < (400 : Int64).toInt := by decide
  have divisor : (400 : Int64).toInt = 400 := by decide
  have zero : (0 : Int64) ≤ y ↔ 0 ≤ y.toInt := Int64.le_iff_toInt_le
  by_cases nonneg : 0 ≤ y.toInt
  · refine ⟨y, if_pos (zero.mpr nonneg), ?_⟩
    rw [toInt_div _ _ positive, divisor, Int.tdiv_eq_ediv_of_nonneg nonneg]
  · have high := y.toInt_lt
    obtain ⟨num, found, value⟩ := int64_checked (n := y.toInt - 399) (by omega) (by omega)
    refine ⟨num, (if_neg (mt zero.mp nonneg)).trans found, ?_⟩
    rw [toInt_div _ _ positive, divisor, value]
    have flipped := Int.neg_tdiv (-(y.toInt - 399)) 400
    rw [Int.neg_neg] at flipped
    rw [flipped, Int.tdiv_eq_ediv_of_nonneg (by omega)]
    omega

theorem marchYear_eq {y : Int64} {m : UInt32} (above : 0 ≤ y.toInt) :
    ∃ year : Int64, (if m ≤ 2 then checkedSub y 1 else some y) = some year ∧
      year.toInt = if (m.toNat : Int) ≤ 2 then y.toInt - 1 else y.toInt := by
  have two : m ≤ 2 ↔ (m.toNat : Int) ≤ 2 := by
    rw [UInt32.le_iff_toNat_le]
    exact Int.ofNat_le.symm
  by_cases early : (m.toNat : Int) ≤ 2
  · have high := y.toInt_lt
    obtain ⟨year, found, value⟩ := int64_checked (n := y.toInt - 1) (by omega) (by omega)
    exact ⟨year, (if_pos (two.mpr early)).trans found, value.trans (if_pos early).symm⟩
  · exact ⟨y, if_neg (mt two.mp early), (if_neg early).symm⟩

theorem marchMonth_eq {m : UInt32} (below : m.toNat < 10 ^ 9) :
    ∃ month : UInt32, (if 2 < m then checkedSub m 3 else checkedAdd m 9) = some month ∧
      (month.toNat : Int) = if (2 : Int) < m.toNat then (m.toNat : Int) - 3 else m.toNat + 9 := by
  have two : 2 < m ↔ (2 : Int) < m.toNat := by
    rw [UInt32.lt_iff_toNat_lt]
    exact Int.ofNat_lt.symm
  by_cases late : (2 : Int) < m.toNat
  · obtain ⟨month, found, value⟩ := uint32_checkedSub (a := m) (b := 3)
      (show 3 ≤ m.toNat by omega)
    refine ⟨month, (if_pos (two.mpr late)).trans found, ?_⟩
    have three : (3 : UInt32).toNat = 3 := rfl
    rw [if_pos late, value, three]
    omega
  · have nine : (9 : UInt32).toNat = 9 := rfl
    obtain ⟨month, found, value⟩ := uint32_checkedAdd (a := m) (b := 9) (by omega)
    refine ⟨month, (if_neg (mt two.mp late)).trans found, ?_⟩
    rw [if_neg late, value, nine]
    omega

/-- The months and days whose day of the year is computed without an overflow. -/
def MonthFits (m d : Nat) : Prop := 153 * (m - 3) + 2 < 2 ^ 32 ∧ ¬ (m = 3 ∧ d = 0)

theorem dayOfYear_some {m d : UInt32} (months : m.toNat < 10 ^ 9) (days : d.toNat < 10 ^ 9)
    (fits : MonthFits m.toNat d.toNat) :
    ∃ doy, dayOfYearChecked m d = some doy ∧ doy.toNat < 2 * 10 ^ 9 ∧
      (doy.toNat : Int) =
        (153 * (if (2 : Int) < m.toNat then (m.toNat : Int) - 3 else m.toNat + 9) + 2) / 5 +
          d.toNat - 1 := by
  obtain ⟨month, found, value⟩ := marchMonth_eq months
  obtain ⟨low, positive⟩ := fits
  have factor : (153 : UInt32).toNat = 153 := rfl
  have two : (2 : UInt32).toNat = 2 := rfl
  have five : (5 : UInt32).toNat = 5 := rfl
  have one : (1 : UInt32).toNat = 1 := rfl
  have small : 153 * month.toNat + 2 < 2 ^ 32 := by
    split at value <;> omega
  obtain ⟨product, found1, value1⟩ := uint32_checkedMul (a := 153) (b := month) (by rw [factor]; omega)
  rw [factor] at value1
  obtain ⟨sum, found2, value2⟩ := uint32_checkedAdd (a := product) (b := 2) (by omega)
  have quotient : (sum / 5).toNat = sum.toNat / 5 := UInt32.toNat_div _ _
  obtain ⟨day, found3, value3⟩ := uint32_checkedAdd (a := sum / 5) (b := d) (by omega)
  have atLeast : 1 ≤ day.toNat := by
    split at value <;> omega
  obtain ⟨doy, found4, value4⟩ := uint32_checkedSub (a := day) (b := 1) atLeast
  refine ⟨doy, ?_, by omega, ?_⟩
  · unfold dayOfYearChecked
    rw [bind_of_some found, bind_of_some found1, bind_of_some found2, bind_of_some found3, found4]
  · rw [← value]
    omega

theorem dayOfYear_none {m d : UInt32} (months : m.toNat < 10 ^ 9) (days : d.toNat < 10 ^ 9)
    (not : ¬ MonthFits m.toNat d.toNat) : dayOfYearChecked m d = none := by
  obtain ⟨month, found, value⟩ := marchMonth_eq months
  have factor : (153 : UInt32).toNat = 153 := rfl
  have two : (2 : UInt32).toNat = 2 := rfl
  have five : (5 : UInt32).toNat = 5 := rfl
  have one : (1 : UInt32).toNat = 1 := rfl
  unfold dayOfYearChecked
  rw [bind_of_some found]
  by_cases large : 2 ^ 32 ≤ 153 * month.toNat
  · rw [uint32_checkedMul_high (by rw [factor]; exact large)]
    rfl
  · obtain ⟨product, found1, value1⟩ := uint32_checkedMul (a := 153) (b := month) (by rw [factor]; omega)
    rw [factor] at value1
    obtain ⟨sum, found2, value2⟩ := uint32_checkedAdd (a := product) (b := 2) (by omega)
    have quotient : (sum / 5).toNat = sum.toNat / 5 := UInt32.toNat_div _ _
    obtain ⟨day, found3, value3⟩ := uint32_checkedAdd (a := sum / 5) (b := d) (by omega)
    rw [bind_of_some found1, bind_of_some found2, bind_of_some found3]
    have march : m.toNat = 3 ∧ d.toNat = 0 := by
      unfold MonthFits at not
      split at value <;> omega
    refine uint32_checkedSub_low ?_
    split at value <;> omega

theorem dayOfEra_some (yoe : UInt32) {doy : UInt32} (year : yoe.toNat < 400)
    (day : doy.toNat < 2 * 10 ^ 9) :
    ∃ doe, dayOfEraChecked yoe doy = some doe ∧
      doe.toNat = 365 * yoe.toNat + yoe.toNat / 4 - yoe.toNat / 100 + doy.toNat := by
  have days : (365 : UInt32).toNat = 365 := rfl
  have fourth : (yoe / 4).toNat = yoe.toNat / 4 := UInt32.toNat_div _ _
  have century : (yoe / 100).toNat = yoe.toNat / 100 := UInt32.toNat_div _ _
  obtain ⟨product, found, value⟩ := uint32_checkedMul (a := yoe) (b := 365) (by rw [days]; omega)
  rw [days] at value
  obtain ⟨leaps, found1, value1⟩ := uint32_checkedAdd (a := product) (b := yoe / 4) (by omega)
  obtain ⟨whole, found2, value2⟩ := uint32_checkedSub (a := leaps) (b := yoe / 100) (by omega)
  obtain ⟨doe, found3, value3⟩ := uint32_checkedAdd (a := whole) (b := doy) (by omega)
  refine ⟨doe, ?_, by omega⟩
  unfold dayOfEraChecked
  rw [bind_of_some found, bind_of_some found1, bind_of_some found2, found3]

/-! ### The days -/

section Days
variable {y : Int64} {m d : UInt32} (nonneg : 0 ≤ y.toInt) (years : y.toInt < 10 ^ 9)
include nonneg years

theorem era_some : ∃ year num product rest : Int64,
    (if m ≤ 2 then checkedSub y 1 else some y) = some year ∧
      (if 0 ≤ year then some year else checkedSub year 399) = some num ∧
      checkedMul (num / 400) 400 = some product ∧ checkedSub year product = some rest ∧
      year.toInt = (if (m.toNat : Int) ≤ 2 then y.toInt - 1 else y.toInt) ∧
      (num / 400).toInt = year.toInt / 400 ∧
      (rest.toUInt64.toUInt32.toNat : Int) = year.toInt % 400 := by
  obtain ⟨year, found, value⟩ := marchYear_eq (m := m) nonneg
  have inside : -1 ≤ year.toInt ∧ year.toInt < 10 ^ 9 := by
    split at value <;> omega
  obtain ⟨num, found1, value1⟩ := era_eq (y := year) (by omega)
  have divisor : (400 : Int64).toInt = 400 := by decide
  obtain ⟨product, found2, value2⟩ :=
    int64_checkedMul (a := num / 400) divisor (by omega) (by omega)
  obtain ⟨rest, found3, value3⟩ :=
    int64_checked (n := year.toInt - product.toInt) (by omega) (by omega)
  have remainder : rest.toInt = year.toInt % 400 := by omega
  refine ⟨year, num, product, rest, found, found1, found2, found3, value, value1, ?_⟩
  rw [toNat_toUInt32 (by omega) (by omega), remainder]

omit nonneg years in
theorem leaps_of_era (year : Int) : year / 4 = 100 * (year / 400) + year % 400 / 4 ∧
    year / 100 = 4 * (year / 400) + year % 400 / 100 := by
  omega

theorem daysFromCivil_some (months : m.toNat < 10 ^ 9) (days : d.toNat < 10 ^ 9)
    (fits : MonthFits m.toNat d.toNat) :
    ∃ r, daysFromCivilChecked y m d = some r ∧ r.toInt = civilDays y.toInt m.toNat d.toNat := by
  obtain ⟨year, num, product, rest, found, found1, found2, found3, value, value1, value2⟩ :=
    era_some (m := m) nonneg years
  have inside : -1 ≤ year.toInt ∧ year.toInt < 10 ^ 9 := by
    split at value <;> omega
  obtain ⟨doy, found4, small, value4⟩ := dayOfYear_some months days fits
  obtain ⟨doe, found5, value5⟩ := dayOfEra_some rest.toUInt64.toUInt32 (by omega) small
  have cast := toInt_toInt64 doe
  have era : (146097 : Int64).toInt = 146097 := by decide
  have shift : (719468 : Int64).toInt = 719468 := by decide
  obtain ⟨eras, found6, value6⟩ :=
    int64_checkedMul (a := num / 400) era (by omega) (by omega)
  obtain ⟨sum, found7, value7⟩ :=
    int64_checked (n := eras.toInt + doe.toUInt64.toInt64.toInt) (by omega) (by omega)
  obtain ⟨r, found8, value8⟩ :=
    int64_checked (n := sum.toInt - (719468 : Int64).toInt) (by omega) (by omega)
  refine ⟨r, ?_, ?_⟩
  · unfold daysFromCivilChecked
    rw [bind_of_some found, bind_of_some found1, bind_of_some found2, bind_of_some found3,
      bind_of_some found4, bind_of_some found5]
    exact (bind_of_some found6 _).trans ((bind_of_some found7 _).trans found8)
  · obtain ⟨fourths, centuries⟩ := leaps_of_era year.toInt
    have whole : year.toInt = 400 * (year.toInt / 400) + year.toInt % 400 := by omega
    have doeValue : (doe.toNat : Int) = 365 * (year.toInt % 400) + year.toInt % 400 / 4 -
        year.toInt % 400 / 100 + doy.toNat := by
      omega
    unfold civilDays
    rw [← value]
    generalize (if (2 : Int) < m.toNat then (m.toNat : Int) - 3 else m.toNat + 9) = month at *
    simp only
    linarith

theorem daysFromCivil_none (months : m.toNat < 10 ^ 9) (days : d.toNat < 10 ^ 9)
    (not : ¬ MonthFits m.toNat d.toNat) : daysFromCivilChecked y m d = none := by
  obtain ⟨year, num, product, rest, found, found1, found2, found3, -⟩ :=
    era_some (m := m) nonneg years
  unfold daysFromCivilChecked
  rw [bind_of_some found, bind_of_some found1, bind_of_some found2, bind_of_some found3,
    dayOfYear_none months days not]
  rfl

end Days

/-- Without an overflow, the wrapping computation is the checked one. -/
theorem daysFromCivil_of_checked {y r : Int64} {m d : UInt32}
    (found : daysFromCivilChecked y m d = some r) : daysFromCivil y m d = r := by
  unfold daysFromCivilChecked dayOfYearChecked dayOfEraChecked at found
  simp only [Option.bind_eq_bind, Option.bind_eq_some_iff] at found
  obtain ⟨year, found, num, found1, product, found2, rest, found3, doy, ⟨month, found4, days,
    found5, sum, found6, day, found7, found8⟩, doe, ⟨leap, found9, leaps, found10, whole, found11,
    found12⟩, eras, found13, total, found14, found15⟩ := found
  have sameYear : (if m ≤ 2 then y - 1 else y) = year := by
    split at found
    · rw [if_pos (by assumption), wrapping_of_checked.2.1 found]
    · rw [if_neg (by assumption), Option.some.inj found]
  have sameNum : (if 0 ≤ year then year else year - 399) = num := by
    split at found1
    · rw [if_pos (by assumption), Option.some.inj found1]
    · rw [if_neg (by assumption), wrapping_of_checked.2.1 found1]
  have sameMonth : (if 2 < m then m - 3 else m + 9) = month := by
    split at found4
    · rw [if_pos (by assumption), wrapping_of_checked.2.1 found4]
    · rw [if_neg (by assumption), wrapping_of_checked.1 found4]
  unfold daysFromCivil
  simp only [sameYear, sameNum, sameMonth]
  rw [wrapping_of_checked.2.2 found2, wrapping_of_checked.2.1 found3,
    wrapping_of_checked.2.2 found5, wrapping_of_checked.1 found6, wrapping_of_checked.1 found7,
    wrapping_of_checked.2.1 found8, wrapping_of_checked.2.2 found9, wrapping_of_checked.1 found10,
    wrapping_of_checked.2.1 found11, wrapping_of_checked.1 found12, wrapping_of_checked.2.2 found13,
    wrapping_of_checked.1 found14, wrapping_of_checked.2.1 found15]

/-! ### Dates -/

theorem civilDays_early (date : Date) (early : date.month ≤ 2) :
    civilDays date.year date.month date.day = date.daysSinceEpoch := by
  have years := daysBeforeYear_eq date.year
  have months := daysBeforeMonth_eq date.year date.month_pos (Nat.le_succ_of_le date.month_le)
  have positive := date.month_pos
  have day := date.day_pos
  have fourths : ((date.year : Int) - 1) / 4 = ((date.year + 3) / 4 : Nat) - 1 := by omega
  have centuries : ((date.year : Int) - 1) / 100 = ((date.year + 99) / 100 : Nat) - 1 := by omega
  have eras : ((date.year : Int) - 1) / 400 = ((date.year + 399) / 400 : Nat) - 1 := by omega
  have march : (153 * ((date.month : Int) + 9) + 2) / 5 = 31 * date.month + 275 := by omega
  have notLate : ¬ (2 : Int) < date.month := by omega
  rw [if_pos early] at months
  unfold Date.daysSinceEpoch civilDays
  rw [Date.daysBefore_epoch, if_pos (by omega), if_neg notLate]
  unfold Date.daysBefore
  simp only
  rw [fourths, centuries, eras, march]
  omega

theorem civilDays_late (date : Date) (late : 2 < date.month) :
    civilDays date.year date.month date.day = date.daysSinceEpoch := by
  have years := daysBeforeYear_eq date.year
  have months := daysBeforeMonth_eq date.year date.month_pos (Nat.le_succ_of_le date.month_le)
  have day := date.day_pos
  have leaps := leap_add date.year
  have fourths : (date.year + 3) / 4 + (if date.year % 4 = 0 then 1 else 0) = date.year / 4 + 1 := by
    split_ifs <;> omega
  have centuries : (date.year + 99) / 100 + (if date.year % 100 = 0 then 1 else 0) =
      date.year / 100 + 1 := by
    split_ifs <;> omega
  have eras : (date.year + 399) / 400 + (if date.year % 400 = 0 then 1 else 0) =
      date.year / 400 + 1 := by
    split_ifs <;> omega
  have march : (153 * ((date.month : Int) - 3) + 2) / 5 = ((153 * (date.month - 3) + 2) / 5 : Nat) := by
    omega
  rw [if_neg (Nat.not_le_of_lt late)] at months
  unfold Date.daysSinceEpoch civilDays
  rw [Date.daysBefore_epoch, if_neg (by omega), if_pos (by omega)]
  unfold Date.daysBefore
  simp only
  rw [march]
  omega

theorem civilDays_date (date : Date) :
    civilDays date.year date.month date.day = date.daysSinceEpoch := by
  rcases Nat.lt_or_ge 2 date.month with late | early
  · exact civilDays_late date late
  · exact civilDays_early date early

/-- The days of a date as the source computes them. -/
def computedDays (date : Date) : Int64 :=
  daysFromCivil (Int64.ofNat date.year) (UInt32.ofNat date.month) (UInt32.ofNat date.day)

theorem computedDays_eq {date : Date} (inYears : date.year ≤ 9999) :
    daysFromCivilChecked (Int64.ofNat date.year) (UInt32.ofNat date.month) (UInt32.ofNat date.day) =
        some (computedDays date) ∧
      (computedDays date).toInt = date.daysSinceEpoch := by
  have short := date.day_le
  have month := date.month_le
  have positive := date.day_pos
  have length : monthLength date.year date.month ≤ 31 := by
    unfold monthLength
    split_ifs <;> decide
  have year : (Int64.ofNat date.year).toInt = date.year := Int64.toInt_ofNat_of_lt (by omega)
  have months : (UInt32.ofNat date.month).toNat = date.month :=
    UInt32.toNat_ofNat_of_lt' (Nat.lt_of_le_of_lt month (by decide))
  have days : (UInt32.ofNat date.day).toNat = date.day :=
    UInt32.toNat_ofNat_of_lt' (Nat.lt_of_le_of_lt (Nat.le_trans short length) (by decide))
  have fits : MonthFits date.month date.day := ⟨by omega, by omega⟩
  obtain ⟨r, found, value⟩ := daysFromCivil_some (y := Int64.ofNat date.year)
    (m := UInt32.ofNat date.month) (d := UInt32.ofNat date.day) (by omega) (by omega) (by omega)
    (by omega) (by rw [months, days]; exact fits)
  have same : computedDays date = r := daysFromCivil_of_checked found
  rw [same]
  refine ⟨found, ?_⟩
  rw [value, year, months, days, civilDays_date]

/-- The days of a date are computed without an overflow, and they are the days from 1970-01-01 on:
they grow with the date, by one from each date to the next. -/
theorem computedDays_exact (date : Date) (inYears : date.year ≤ 9999) :
    daysFromCivilChecked (Int64.ofNat date.year) (UInt32.ofNat date.month) (UInt32.ofNat date.day) =
        some (computedDays date) ∧
      (computedDays date).toInt = date.daysSinceEpoch ∧
      (∀ later : Date, later.year ≤ 9999 → date < later → computedDays date < computedDays later) ∧
      (date.next.year ≤ 9999 → (computedDays date.next).toInt = (computedDays date).toInt + 1) := by
  obtain ⟨found, value⟩ := computedDays_eq inYears
  refine ⟨found, value, fun later inYears' order => ?_, fun inYears' => ?_⟩
  · rw [Int64.lt_iff_toInt_lt, value, (computedDays_eq inYears').2]
    exact (Date.daysSinceEpoch_lt_iff date later).mpr order
  · rw [(computedDays_eq inYears').2, value, Date.daysSinceEpoch_next]

def leapDay : Date := ⟨2024, 2, 29, by decide, by decide, by decide, by decide⟩

theorem computedDays_exact_leapDay :
    leapDay.year ≤ 9999 ∧ (computedDays leapDay).toInt = leapDay.daysSinceEpoch :=
  ⟨by decide, (computedDays_exact leapDay (by decide)).2.1⟩

end TronDB.Core
