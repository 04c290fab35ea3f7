import Mathlib.Algebra.BigOperators.Intervals
import Mathlib.Algebra.Order.BigOperators.Group.Finset
import Mathlib.Tactic.IntervalCases
import Mathlib.Tactic.Linarith

/-! The proleptic Gregorian calendar from the year 0 on: dates, their order and the days between
them, counted month by month and year by year. -/
namespace Calendar

def Leap (year : Nat) : Prop := year % 4 = 0 ∧ (year % 100 = 0 → year % 400 = 0)

instance (year : Nat) : Decidable (Leap year) := inferInstanceAs (Decidable (_ ∧ _))

def monthLength (year month : Nat) : Nat :=
  if month = 2 then if Leap year then 29 else 28
  else if month = 4 ∨ month = 6 ∨ month = 9 ∨ month = 11 then 30
  else 31

def daysBeforeMonth (year month : Nat) : Nat := ∑ m ∈ Finset.Ico 1 month, monthLength year m

def yearLength (year : Nat) : Nat := daysBeforeMonth year 13

/-- The days before a year, from the beginning of the year 0. -/
def daysBeforeYear (year : Nat) : Nat := ∑ y ∈ Finset.range year, yearLength y

@[ext]
structure Date where
  year : Nat
  month : Nat
  day : Nat
  month_pos : 1 ≤ month
  month_le : month ≤ 12
  day_pos : 1 ≤ day
  day_le : day ≤ monthLength year month
  deriving DecidableEq

namespace Date

/-- Earlier dates are smaller. -/
instance : LT Date where
  lt a b := a.year < b.year ∨
    a.year = b.year ∧ (a.month < b.month ∨ a.month = b.month ∧ a.day < b.day)

def epoch : Date := ⟨1970, 1, 1, by decide, by decide, by decide, by decide⟩

theorem monthLength_pos (year month : Nat) : 1 ≤ monthLength year month := by
  unfold monthLength
  split_ifs <;> decide

def next (date : Date) : Date :=
  if within : date.day < monthLength date.year date.month then
    { date with day := date.day + 1, day_pos := by omega, day_le := within }
  else if within : date.month < 12 then
    ⟨date.year, date.month + 1, 1, by omega, within, by decide, monthLength_pos _ _⟩
  else ⟨date.year + 1, 1, 1, by decide, by decide, by decide, monthLength_pos _ _⟩

/-- The days before a date, from the beginning of the year 0. -/
def daysBefore (date : Date) : Nat :=
  daysBeforeYear date.year + daysBeforeMonth date.year date.month + (date.day - 1)

def daysSinceEpoch (date : Date) : Int := (daysBefore date : Int) - daysBefore epoch

end Date

/-! ### Months and years -/

theorem daysBeforeMonth_succ (year : Nat) {month : Nat} (positive : 1 ≤ month) :
    daysBeforeMonth year (month + 1) = daysBeforeMonth year month + monthLength year month :=
  Finset.sum_Ico_succ_top positive _

theorem daysBeforeMonth_mono (year : Nat) {month month' : Nat} (le : month ≤ month') :
    daysBeforeMonth year month ≤ daysBeforeMonth year month' :=
  Finset.sum_le_sum_of_subset (Finset.Ico_subset_Ico_right le)

theorem daysBeforeYear_succ (year : Nat) :
    daysBeforeYear (year + 1) = daysBeforeYear year + yearLength year :=
  Finset.sum_range_succ _ year

theorem daysBeforeYear_mono {year year' : Nat} (le : year ≤ year') :
    daysBeforeYear year ≤ daysBeforeYear year' :=
  Finset.sum_le_sum_of_subset (Finset.range_subset_range.mpr le)

theorem daysBeforeMonth_eq (year : Nat) {month : Nat} (positive : 1 ≤ month) (le : month ≤ 13) :
    daysBeforeMonth year month =
      if month ≤ 2 then 31 * (month - 1)
      else 59 + (if Leap year then 1 else 0) + (153 * (month - 3) + 2) / 5 := by
  unfold daysBeforeMonth
  by_cases leap : Leap year <;> interval_cases month <;>
    simp [Finset.sum_Ico_succ_top, monthLength, leap]

theorem yearLength_eq (year : Nat) : yearLength year = 365 + if Leap year then 1 else 0 := by
  unfold yearLength
  rw [daysBeforeMonth_eq year (by decide) (by decide)]
  simp only [Nat.reduceLeDiff, if_false]
  omega

theorem quotient_succ (year p : Nat) : (year + 1 + p) / (p + 1) =
    (year + p) / (p + 1) + if year % (p + 1) = 0 then 1 else 0 := by
  have whole : p + 1 ∣ year + p + 1 ↔ year % (p + 1) = 0 := by
    rw [Nat.add_assoc, Nat.dvd_add_self_right, Nat.dvd_iff_mod_eq_zero]
  rw [Nat.add_right_comm, Nat.succ_div, if_congr whole rfl rfl]

theorem leap_add (year : Nat) : (if Leap year then 1 else 0) + (if year % 100 = 0 then 1 else 0) =
    (if year % 4 = 0 then 1 else 0) + if year % 400 = 0 then 1 else 0 := by
  have centuryFourth : year % 100 = 0 → year % 4 = 0 := by omega
  have eraCentury : year % 400 = 0 → year % 100 = 0 := by omega
  unfold Leap
  by_cases inFourth : year % 4 = 0
  · by_cases inCentury : year % 100 = 0
    · simp [inFourth, inCentury, Nat.add_comm]
    · simp [inFourth, inCentury, mt eraCentury inCentury]
  · have notCentury := mt centuryFourth inFourth
    simp [inFourth, notCentury, mt eraCentury notCentury]

theorem daysBeforeYear_eq (year : Nat) :
    daysBeforeYear year + (year + 99) / 100 = 365 * year + (year + 3) / 4 + (year + 399) / 400 := by
  induction year with
  | zero => rfl
  | succ year ih =>
    have fours : (year + 1 + 3) / 4 = (year + 3) / 4 + if year % 4 = 0 then 1 else 0 :=
      quotient_succ year 3
    have hundreds : (year + 1 + 99) / 100 = (year + 99) / 100 + if year % 100 = 0 then 1 else 0 :=
      quotient_succ year 99
    have cycles : (year + 1 + 399) / 400 = (year + 399) / 400 + if year % 400 = 0 then 1 else 0 :=
      quotient_succ year 399
    have leaps := leap_add year
    rw [daysBeforeYear_succ, yearLength_eq, fours, hundreds, cycles]
    linarith

/-! ### The days of consecutive dates -/

namespace Date

theorem dayOfYear_lt (date : Date) :
    daysBeforeMonth date.year date.month + (date.day - 1) < yearLength date.year := by
  have inMonth := date.day_le
  have positive := date.day_pos
  have upTo := daysBeforeMonth_succ date.year date.month_pos
  have inYear := daysBeforeMonth_mono date.year
    (show date.month + 1 ≤ 13 from Nat.add_le_add_right date.month_le 1)
  unfold yearLength
  omega

theorem daysBefore_newYear (date : Date) (january : date.month = 1) (first : date.day = 1) :
    daysBefore date = daysBeforeYear date.year := by
  unfold daysBefore daysBeforeMonth
  rw [january, first, Finset.Ico_self, Finset.sum_empty]
  rfl

theorem daysBefore_epoch : daysBefore epoch = 719528 := by
  have years := daysBeforeYear_eq epoch.year
  rw [← daysBefore_newYear epoch rfl rfl] at years
  have year : epoch.year = 1970 := rfl
  omega

theorem daysBefore_next (date : Date) : daysBefore date.next = daysBefore date + 1 := by
  have positive := date.day_pos
  have inMonth := date.day_le
  have ended := daysBeforeMonth_succ date.year date.month_pos
  unfold next daysBefore
  split_ifs with within withinYear
  · dsimp only
    omega
  · dsimp only
    omega
  · have last : date.month = 12 := Nat.le_antisymm date.month_le (Nat.le_of_not_lt withinYear)
    have first : daysBeforeMonth (date.year + 1) 1 = 0 := rfl
    have whole : yearLength date.year = daysBeforeMonth date.year (date.month + 1) := by
      rw [last]
      rfl
    have years := daysBeforeYear_succ date.year
    dsimp only
    omega

theorem daysSinceEpoch_next (date : Date) : daysSinceEpoch date.next = daysSinceEpoch date + 1 := by
  unfold daysSinceEpoch
  rw [daysBefore_next]
  omega

theorem daysBefore_lt {a b : Date} (earlier : a < b) : daysBefore a < daysBefore b := by
  have inYear := dayOfYear_lt a
  have inMonth := a.day_le
  have positive := a.day_pos
  have positive' := b.day_pos
  unfold daysBefore
  rcases earlier with years | ⟨sameYear, months | ⟨sameMonth, days⟩⟩
  · have upTo := daysBeforeYear_succ a.year
    have after := daysBeforeYear_mono (Nat.add_one_le_iff.mpr years)
    omega
  · have upTo := daysBeforeMonth_succ a.year a.month_pos
    have after := daysBeforeMonth_mono a.year (Nat.add_one_le_iff.mpr months)
    rw [← sameYear]
    omega
  · rw [← sameYear, ← sameMonth]
    omega

theorem lt_or_eq_or_gt (a b : Date) : a < b ∨ a = b ∨ b < a := by
  have parts : a < b ∨ (a.year = b.year ∧ a.month = b.month ∧ a.day = b.day) ∨ b < a := by
    change (_ ∨ _) ∨ _ ∨ (_ ∨ _)
    omega
  rcases parts with earlier | ⟨years, months, days⟩ | later
  · exact .inl earlier
  · exact .inr (.inl (Date.ext years months days))
  · exact .inr (.inr later)

theorem daysSinceEpoch_lt_iff (a b : Date) : daysSinceEpoch a < daysSinceEpoch b ↔ a < b := by
  unfold daysSinceEpoch
  constructor
  · intro days
    rcases lt_or_eq_or_gt a b with earlier | rfl | later
    · exact earlier
    · omega
    · have := daysBefore_lt later
      omega
  · intro earlier
    have := daysBefore_lt earlier
    omega

end Date
end Calendar
