import TronDB.Core.CivilDays
import TronDB.Lib.Splitting

/-! Temporal timestamps: which texts are accepted, and whether they denote an instant. -/
namespace TronDB.Core
open Checked Calendar Splitting

/-! ### The components of a text -/

structure CivilTime where
  year : Int64
  month : UInt32
  day : UInt32
  hour : UInt32
  minute : UInt32
  second : UInt32
  deriving DecidableEq, Repr

/-- `YYYY-MM-DDTHH:MM:SSZ`, with any of the separators at each place. -/
def civilOfDateTime (s : String) : Option CivilTime :=
  if s.utf8ByteSize = 20 ∧ s.toList.getLast? = some 'Z' then
    match splitParts (fun c => c = '-' || c = 'T' || c = ':') s.toList.dropLast with
    | [y, m, d, hh, mm, ss] => do
      some ⟨← parseI64 y, ← parseU32 m, ← parseU32 d, ← parseU32 hh, ← parseU32 mm, ← parseU32 ss⟩
    | _ => none
  else none

def civilOfDate (s : String) : Option CivilTime :=
  if s.utf8ByteSize = 10 then
    match splitParts (fun c => c = '-') s.toList with
    | [y, m, d] => do some ⟨← parseI64 y, ← parseU32 m, ← parseU32 d, 0, 0, 0⟩
    | _ => none
  else none

/-- What is written in a text that has the shape of a date. -/
def written (s : String) : Option CivilTime :=
  if (parseI64 s).isSome then none else civilOfDateTime s <|> civilOfDate s

namespace CivilTime

def dateTimeMillis (c : CivilTime) : Option Int64 := do
  let days ← daysFromCivilChecked c.year c.month c.day
  let hours ← checkedMul c.hour.toUInt64.toInt64 3600
  let minutes ← checkedMul c.minute.toUInt64.toInt64 60
  let secs ← checkedAdd (← checkedAdd (← checkedAdd (← checkedMul days 86400) hours) minutes)
    c.second.toUInt64.toInt64
  checkedMul secs 1000

def dateMillis (c : CivilTime) : Option Int64 := do
  let days ← daysFromCivilChecked c.year c.month c.day
  checkedMul (← checkedMul days 86400) 1000

end CivilTime

/-- `parseTemporalTimestamp` where an overflow is an error of its own. -/
def parseTemporalTimestampChecked (s : String) : Option (Except EngineError Int64) :=
  match parseI64 s with
  | some ms => some (temporalRange s ms)
  | none =>
    match civilOfDateTime s with
    | some c => c.dateTimeMillis.map (temporalRange s)
    | none =>
      match civilOfDate s with
      | some c => c.dateMillis.map (temporalRange s)
      | none => some (.error (.invalidQuery s!"cannot parse temporal timestamp: '{s}'"))

/-! ### Numbers out of few characters -/

theorem length_le_bytes (cs : List Char) : cs.length ≤ (String.ofList cs).utf8ByteSize := by
  induction cs with
  | nil => exact Nat.zero_le _
  | cons c cs ih =>
    have joined : String.ofList (c :: cs) = String.singleton c ++ String.ofList cs := by
      rw [← List.singleton_append, String.ofList_append]
      rfl
    have positive := c.utf8Size_pos
    rw [joined, String.utf8ByteSize_append, String.utf8ByteSize_singleton, List.length_cons]
    omega

theorem digit_lt {c : Char} (digit : c.isDigit = true) : c.toNat - '0'.toNat < 10 := by
  unfold Char.isDigit at digit
  rw [Bool.and_eq_true, decide_eq_true_eq, decide_eq_true_eq] at digit
  have high : c.toNat ≤ '9'.toNat := digit.2
  have nine : '9'.toNat = 57 := rfl
  have zero : '0'.toNat = 48 := rfl
  omega

theorem digits_lt {s : List Char} (digits : s.all Char.isDigit = true) (start : Nat) :
    s.foldl (fun n c => 10 * n + (c.toNat - '0'.toNat)) start < 10 ^ s.length * (start + 1) := by
  induction s generalizing start with
  | nil => simp
  | cons c s ih =>
    rw [List.all_cons, Bool.and_eq_true] at digits
    have digit := digit_lt digits.1
    have rest := ih digits.2 (10 * start + (c.toNat - '0'.toNat))
    have step : 10 * start + (c.toNat - '0'.toNat) + 1 ≤ 10 * (start + 1) := by omega
    rw [List.foldl_cons, List.length_cons]
    calc _ < 10 ^ s.length * (10 * start + (c.toNat - '0'.toNat) + 1) := rest
      _ ≤ 10 ^ s.length * (10 * (start + 1)) := Nat.mul_le_mul_left _ step
      _ = 10 ^ (s.length + 1) * (start + 1) := by rw [Nat.pow_succ, Nat.mul_assoc]

theorem parseDigits_lt {s : List Char} {n : Nat} (parsed : parseDigits s = some n) :
    s ≠ [] ∧ n < 10 ^ s.length := by
  unfold parseDigits at parsed
  split at parsed
  · rename_i digits
    cases parsed
    have bound := digits_lt digits.2 0
    rw [Nat.zero_add, Nat.mul_one] at bound
    exact ⟨digits.1, bound⟩
  · cases parsed

theorem pow_lt_of_sign {n : Nat} {digits : List Char} (sign : Char)
    (bound : n < 10 ^ digits.length) : n < 10 ^ (sign :: digits).length :=
  Nat.lt_of_lt_of_le bound (Nat.pow_le_pow_right (by decide) (Nat.le_succ _))

theorem parseU32_lt {s : String} {n : UInt32} (parsed : parseU32 s = some n) :
    s.toList ≠ [] ∧ n.toNat < 10 ^ s.toList.length := by
  unfold parseU32 at parsed
  dsimp only at parsed
  split at parsed
  · rename_i k found
    split at parsed
    · rename_i small
      cases parsed
      rw [UInt32.toNat_ofNat_of_lt' small]
      split at found
      · rename_i digits chars
        rw [chars]
        exact ⟨by simp, pow_lt_of_sign '+' (parseDigits_lt found).2⟩
      · exact parseDigits_lt found
    · cases parsed
  · cases parsed

theorem parseDigits_of_map {digits : List Char} {k : Int}
    (found : ((do let n ← parseDigits digits; pure (n : Int)).map fun n => n) = some k) :
    ∃ n, parseDigits digits = some n ∧ (n : Int) = k := by
  cases parsed : parseDigits digits with
  | none =>
    rw [parsed] at found
    cases found
  | some n =>
    rw [parsed] at found
    exact ⟨n, rfl, Option.some.inj found⟩

theorem parseI64_lt {s : String} {n : Int64} (parsed : parseI64 s = some n)
    (plain : ∀ c ∈ s.toList, c ≠ '-') :
    s.toList ≠ [] ∧ ∃ k : Nat, n.toInt = k ∧ k < 10 ^ s.toList.length := by
  unfold parseI64 at parsed
  dsimp only at parsed
  split at parsed
  · rename_i k found
    split at parsed
    · rename_i inside
      cases parsed
      rw [Int64.toInt_ofInt_of_le inside.1 inside.2]
      split at found
      · rename_i digits chars
        rw [chars] at plain
        exact absurd rfl (plain '-' List.mem_cons_self)
      · rename_i digits chars
        obtain ⟨value, decimal, rfl⟩ := parseDigits_of_map found
        have bound := pow_lt_of_sign '+' (parseDigits_lt decimal).2
        rw [chars]
        exact ⟨by simp, value, rfl, bound⟩
      · obtain ⟨value, decimal, rfl⟩ := parseDigits_of_map found
        obtain ⟨nonempty, bound⟩ := parseDigits_lt decimal
        exact ⟨nonempty, value, rfl, bound⟩
    · cases parsed
  · cases parsed

/-! ### The bounds of the components -/

/-- Nine digits are enough for each component of a text of 20 bytes. -/
structure CivilTime.Short (c : CivilTime) : Prop where
  nonneg : 0 ≤ c.year.toInt
  year : c.year.toInt < 10 ^ 9
  month : c.month.toNat < 10 ^ 9
  day : c.day.toNat < 10 ^ 9
  hour : c.hour.toNat < 10 ^ 9
  minute : c.minute.toNat < 10 ^ 9
  second : c.second.toNat < 10 ^ 9

theorem parts_short {isSeparator : Char → Bool} {cs : List Char} {parts : List String}
    (split : splitParts isSeparator cs = parts) :
    ((parts.map fun part => part.toList.length).sum + parts.length = cs.length + 1) ∧
      ∀ part ∈ parts, ∀ c ∈ part.toList, isSeparator c = false := by
  subst split
  unfold splitParts
  constructor
  · rw [List.map_map, List.length_map]
    have lengths : (fun part : String => part.toList.length) ∘ String.ofList = List.length := by
      funext part
      simp
    rw [lengths]
    exact length_splitOnP isSeparator cs
  · intro part listed
    obtain ⟨chars, there, rfl⟩ := List.mem_map.mp listed
    rw [String.toList_ofList]
    exact splitOnP_plain isSeparator cs chars there

theorem lt_of_digits {n length : Nat} (bound : n < 10 ^ length) (short : length ≤ 9) : n < 10 ^ 9 :=
  Nat.lt_of_lt_of_le bound (Nat.pow_le_pow_right (by decide) short)

theorem civilOfDateTime_short {s : String} {c : CivilTime} (found : civilOfDateTime s = some c) :
    c.Short := by
  unfold civilOfDateTime at found
  split at found
  · rename_i shape
    split at found
    · rename_i y m d hh mm ss parts
      simp only [Option.bind_eq_bind, Option.bind_eq_some_iff] at found
      obtain ⟨year, foundYear, month, foundMonth, day, foundDay, hour, foundHour, minute,
        foundMinute, second, foundSecond, same⟩ := found
      cases same
      obtain ⟨lengths, plain⟩ := parts_short parts
      have chars := length_le_bytes s.toList
      rw [String.ofList_toList, shape.1] at chars
      rw [List.length_dropLast] at lengths
      simp only [List.map_cons, List.map_nil, List.sum_cons, List.sum_nil, List.length_cons,
        List.length_nil] at lengths
      obtain ⟨nonempty, k, value, yearBound⟩ := parseI64_lt foundYear fun c there minus => by
        have apart := plain y List.mem_cons_self c there
        simp [minus] at apart
      have month' := parseU32_lt foundMonth
      have day' := parseU32_lt foundDay
      have hour' := parseU32_lt foundHour
      have minute' := parseU32_lt foundMinute
      have second' := parseU32_lt foundSecond
      have positive (part : String) (nonempty : part.toList ≠ []) : 0 < part.toList.length :=
        List.length_pos_iff.mpr nonempty
      have := positive y nonempty
      have := positive m month'.1
      have := positive d day'.1
      have := positive hh hour'.1
      have := positive mm minute'.1
      have := positive ss second'.1
      exact {
        nonneg := value ▸ Int.natCast_nonneg k
        year := value ▸ Int.ofNat_lt.mpr (lt_of_digits yearBound (by omega))
        month := lt_of_digits month'.2 (by omega)
        day := lt_of_digits day'.2 (by omega)
        hour := lt_of_digits hour'.2 (by omega)
        minute := lt_of_digits minute'.2 (by omega)
        second := lt_of_digits second'.2 (by omega) }
    · cases found
  · cases found

theorem civilOfDate_short {s : String} {c : CivilTime} (found : civilOfDate s = some c) :
    c.Short ∧ c.hour = 0 ∧ c.minute = 0 ∧ c.second = 0 := by
  unfold civilOfDate at found
  split at found
  · rename_i shape
    split at found
    · rename_i y m d parts
      simp only [Option.bind_eq_bind, Option.bind_eq_some_iff] at found
      obtain ⟨year, foundYear, month, foundMonth, day, foundDay, same⟩ := found
      cases same
      obtain ⟨lengths, plain⟩ := parts_short parts
      have chars := length_le_bytes s.toList
      rw [String.ofList_toList, shape] at chars
      simp only [List.map_cons, List.map_nil, List.sum_cons, List.sum_nil, List.length_cons,
        List.length_nil] at lengths
      obtain ⟨nonempty, k, value, yearBound⟩ := parseI64_lt foundYear fun c there minus => by
        have apart := plain y List.mem_cons_self c there
        simp [minus] at apart
      have month' := parseU32_lt foundMonth
      have day' := parseU32_lt foundDay
      have zero : (0 : UInt32).toNat < 10 ^ 9 := by decide
      refine ⟨?_, rfl, rfl, rfl⟩
      exact {
        nonneg := value ▸ Int.natCast_nonneg k
        year := value ▸ Int.ofNat_lt.mpr (lt_of_digits yearBound (by omega))
        month := lt_of_digits month'.2 (by omega)
        day := lt_of_digits day'.2 (by omega)
        hour := zero
        minute := zero
        second := zero }
    · cases found
  · cases found

/-! ### The instant -/

namespace CivilTime

/-- The seconds from 1970 on, over all integers; every component may run over. -/
def seconds (c : CivilTime) : Int :=
  86400 * civilDays c.year.toInt c.month.toNat c.day.toNat + 3600 * c.hour.toNat +
    60 * c.minute.toNat + c.second.toNat

def Fits (c : CivilTime) : Prop :=
  MonthFits c.month.toNat c.day.toNat ∧ 1000 * c.seconds < 2 ^ 63

def InYears (c : CivilTime) : Prop :=
  -62167219200000 ≤ 1000 * c.seconds ∧ 1000 * c.seconds ≤ 253402300799999

/-- A date of the calendar and a time of the day. -/
structure Real (c : CivilTime) : Prop where
  month_pos : 1 ≤ c.month.toNat
  month_le : c.month.toNat ≤ 12
  day_pos : 1 ≤ c.day.toNat
  day_le : c.day.toNat ≤ monthLength c.year.toInt.toNat c.month.toNat
  hour : c.hour.toNat < 24
  minute : c.minute.toNat < 60
  second : c.second.toNat < 60

theorem days_bounds {c : CivilTime} (short : c.Short) :
    -800000 ≤ civilDays c.year.toInt c.month.toNat c.day.toNat ∧
      civilDays c.year.toInt c.month.toNat c.day.toNat < 400 * 10 ^ 9 := by
  obtain ⟨nonneg, year, month, day, -, -, -⟩ := short
  unfold civilDays
  dsimp only
  split_ifs <;> omega

theorem dateTimeMillis_eq {c : CivilTime} (short : c.Short)
    (fits : MonthFits c.month.toNat c.day.toNat) :
    ∃ secs : Int64, c.dateTimeMillis = checkedMul secs 1000 ∧ secs.toInt = c.seconds := by
  obtain ⟨low, high⟩ := days_bounds short
  obtain ⟨nonneg, year, month, day, hour, minute, second⟩ := short
  obtain ⟨days, found, value⟩ := daysFromCivil_some nonneg year month day fits
  have cast := toInt_toInt64 c.hour
  have cast1 := toInt_toInt64 c.minute
  have cast2 := toInt_toInt64 c.second
  have perDay : (86400 : Int64).toInt = 86400 := by decide
  have perHour : (3600 : Int64).toInt = 3600 := by decide
  have perMinute : (60 : Int64).toInt = 60 := by decide
  obtain ⟨hours, found1, value1⟩ :=
    int64_checkedMul (a := c.hour.toUInt64.toInt64) perHour (by omega) (by omega)
  obtain ⟨minutes, found2, value2⟩ :=
    int64_checkedMul (a := c.minute.toUInt64.toInt64) perMinute (by omega) (by omega)
  obtain ⟨whole, found3, value3⟩ := int64_checkedMul (a := days) perDay (by omega) (by omega)
  obtain ⟨sum, found4, value4⟩ :=
    int64_checked (n := whole.toInt + hours.toInt) (by omega) (by omega)
  obtain ⟨sum', found5, value5⟩ :=
    int64_checked (n := sum.toInt + minutes.toInt) (by omega) (by omega)
  obtain ⟨secs, found6, value6⟩ :=
    int64_checked (n := sum'.toInt + c.second.toUInt64.toInt64.toInt) (by omega) (by omega)
  refine ⟨secs, ?_, ?_⟩
  · unfold dateTimeMillis
    rw [bind_of_some found, bind_of_some found1, bind_of_some found2, bind_of_some found3]
    exact (bind_of_some found4 _).trans ((bind_of_some found5 _).trans (bind_of_some found6 _))
  · unfold seconds
    omega

theorem dateMillis_eq {c : CivilTime} (short : c.Short) (midnight : c.hour = 0 ∧ c.minute = 0 ∧ c.second = 0)
    (fits : MonthFits c.month.toNat c.day.toNat) :
    ∃ secs : Int64, c.dateMillis = checkedMul secs 1000 ∧ secs.toInt = c.seconds := by
  obtain ⟨low, high⟩ := days_bounds short
  obtain ⟨nonneg, year, month, day, -, -, -⟩ := short
  obtain ⟨days, found, value⟩ := daysFromCivil_some nonneg year month day fits
  have perDay : (86400 : Int64).toInt = 86400 := by decide
  obtain ⟨secs, found1, value1⟩ := int64_checkedMul (a := days) perDay (by omega) (by omega)
  refine ⟨secs, ?_, ?_⟩
  · unfold dateMillis
    rw [bind_of_some found, bind_of_some found1]
  · have zero : (0 : UInt32).toNat = 0 := rfl
    unfold seconds
    rw [midnight.1, midnight.2.1, midnight.2.2]
    omega

theorem millis_of_seconds {c : CivilTime} (short : c.Short) {millis : Option Int64}
    (computed : MonthFits c.month.toNat c.day.toNat →
      ∃ secs : Int64, millis = checkedMul secs 1000 ∧ secs.toInt = c.seconds)
    (overflows : ¬ MonthFits c.month.toNat c.day.toNat → millis = none) :
    (c.Fits → ∃ ms, millis = some ms ∧ ms.toInt = 1000 * c.seconds) ∧ (¬ c.Fits → millis = none) := by
  have perSecond : (1000 : Int64).toInt = 1000 := by decide
  obtain ⟨low, high⟩ := days_bounds short
  constructor
  · rintro ⟨fits, small⟩
    obtain ⟨secs, same, value⟩ := computed fits
    have above : -10 ^ 15 ≤ c.seconds := by
      unfold seconds
      omega
    obtain ⟨ms, found, product⟩ :=
      int64_checkedMul (a := secs) perSecond (by omega) (by omega)
    exact ⟨ms, same.trans found, by omega⟩
  · intro not
    by_cases fits : MonthFits c.month.toNat c.day.toNat
    · obtain ⟨secs, same, value⟩ := computed fits
      have large : 2 ^ 63 ≤ 1000 * c.seconds := Int.not_lt.mp fun small => not ⟨fits, small⟩
      exact same.trans (int64_checkedMul_high perSecond (by omega))
    · exact overflows fits

theorem dateTimeMillis_none {c : CivilTime} (short : c.Short)
    (not : ¬ MonthFits c.month.toNat c.day.toNat) : c.dateTimeMillis = none := by
  unfold dateTimeMillis
  rw [daysFromCivil_none short.nonneg short.year short.month short.day not]
  rfl

theorem dateMillis_none {c : CivilTime} (short : c.Short)
    (not : ¬ MonthFits c.month.toNat c.day.toNat) : c.dateMillis = none := by
  unfold dateMillis
  rw [daysFromCivil_none short.nonneg short.year short.month short.day not]
  rfl

def Writes (c : CivilTime) (date : Date) : Prop :=
  c.year.toInt = date.year ∧ c.month.toNat = date.month ∧ c.day.toNat = date.day

theorem real_iff {c : CivilTime} (short : c.Short) :
    c.Real ↔ (∃ date, c.Writes date) ∧ c.hour.toNat < 24 ∧ c.minute.toNat < 60 ∧
      c.second.toNat < 60 := by
  have year : (c.year.toInt.toNat : Int) = c.year.toInt := Int.toNat_of_nonneg short.nonneg
  constructor
  · rintro ⟨month_pos, month_le, day_pos, day_le, hour, minute, second⟩
    exact ⟨⟨⟨_, _, _, month_pos, month_le, day_pos, day_le⟩, year.symm, rfl, rfl⟩,
      hour, minute, second⟩
  · rintro ⟨⟨date, sameYear, sameMonth, sameDay⟩, hour, minute, second⟩
    have years : c.year.toInt.toNat = date.year := by omega
    exact {
      month_pos := sameMonth ▸ date.month_pos
      month_le := sameMonth ▸ date.month_le
      day_pos := sameDay ▸ date.day_pos
      day_le := by
        rw [years, sameMonth, sameDay]
        exact date.day_le
      hour := hour
      minute := minute
      second := second }

theorem seconds_of_writes {c : CivilTime} {date : Date} (writes : c.Writes date) :
    c.seconds = 86400 * date.daysSinceEpoch + 3600 * c.hour.toNat + 60 * c.minute.toNat +
      c.second.toNat := by
  unfold seconds
  rw [writes.1, writes.2.1, writes.2.2, civilDays_date]

end CivilTime

/-! ### Texts -/

theorem parse_written {s : String} {c : CivilTime} (shape : written s = some c) :
    c.Short ∧ ∃ millis : Option Int64,
      parseTemporalTimestampChecked s = millis.map (temporalRange s) ∧
        (c.Fits → ∃ ms, millis = some ms ∧ ms.toInt = 1000 * c.seconds) ∧
          (¬ c.Fits → millis = none) := by
  unfold written at shape
  unfold parseTemporalTimestampChecked
  cases integer : parseI64 s with
  | some n => simp [integer] at shape
  | none =>
    rw [integer] at shape
    cases dateTime : civilOfDateTime s with
    | some c' =>
      rw [dateTime] at shape
      cases shape
      have short := civilOfDateTime_short dateTime
      exact ⟨short, _, rfl, CivilTime.millis_of_seconds short
        (CivilTime.dateTimeMillis_eq short) (CivilTime.dateTimeMillis_none short)⟩
    | none =>
      rw [dateTime] at shape
      cases date : civilOfDate s with
      | none => simp [date] at shape
      | some c' =>
        rw [date] at shape
        cases shape
        obtain ⟨short, midnight⟩ := civilOfDate_short date
        exact ⟨short, _, rfl, CivilTime.millis_of_seconds short
          (CivilTime.dateMillis_eq short midnight) (CivilTime.dateMillis_none short)⟩

theorem parse_unwritten {s : String} (shape : written s = none) :
    parseTemporalTimestampChecked s ≠ none := by
  unfold written at shape
  unfold parseTemporalTimestampChecked
  cases integer : parseI64 s with
  | some n => simp
  | none =>
    rw [integer] at shape
    cases dateTime : civilOfDateTime s with
    | some c => simp [dateTime] at shape
    | none =>
      cases date : civilOfDate s with
      | some c => simp [dateTime, date] at shape
      | none => simp

theorem temporalRange_ok (s : String) (ms ms' : Int64) :
    temporalRange s ms = .ok ms' ↔
      (-62167219200000 ≤ ms.toInt ∧ ms.toInt ≤ 253402300799999) ∧ ms' = ms := by
  have low : (-62167219200000 : Int64) ≤ ms ↔ -62167219200000 ≤ ms.toInt := Int64.le_iff_toInt_le
  have high : ms ≤ 253402300799999 ↔ ms.toInt ≤ 253402300799999 := Int64.le_iff_toInt_le
  rw [← low, ← high]
  unfold temporalRange
  split
  · rename_i inside
    constructor
    · exact fun same => ⟨inside, (Except.ok.inj same).symm⟩
    · exact fun same => congrArg _ same.2.symm
  · rename_i outside
    constructor
    · exact fun same => nomatch same
    · exact fun same => absurd same.1 outside

theorem parseDateTime_eq (s : String) : parseDateTime s = (civilOfDateTime s).map fun c =>
    (daysFromCivil c.year c.month c.day * 86400 + c.hour.toUInt64.toInt64 * 3600 +
      c.minute.toUInt64.toInt64 * 60 + c.second.toUInt64.toInt64) * 1000 := by
  unfold parseDateTime civilOfDateTime
  split
  · generalize splitParts _ s.toList.dropLast = parts
    rcases parts with _ | ⟨y, _ | ⟨m, _ | ⟨d, _ | ⟨hh, _ | ⟨mm, _ | ⟨ss, _ | ⟨more, rest⟩⟩⟩⟩⟩⟩⟩
    case cons.cons.cons.cons.cons.cons.nil =>
      change (parseI64 y).bind _ = ((parseI64 y).bind _).map _
      rcases parseI64 y with _ | year
      · rfl
      rcases parseU32 m with _ | month
      · rfl
      rcases parseU32 d with _ | day
      · rfl
      rcases parseU32 hh with _ | hour
      · rfl
      rcases parseU32 mm with _ | minute
      · rfl
      rcases parseU32 ss with _ | second
      · rfl
      · rfl
    all_goals rfl
  · rfl

theorem parseDate_eq (s : String) : parseDate s = (civilOfDate s).map fun c =>
    daysFromCivil c.year c.month c.day * 86400 * 1000 := by
  unfold parseDate civilOfDate
  split
  · generalize splitParts _ s.toList = parts
    rcases parts with _ | ⟨y, _ | ⟨m, _ | ⟨d, _ | ⟨more, rest⟩⟩⟩⟩
    case cons.cons.cons.nil =>
      change (parseI64 y).bind _ = ((parseI64 y).bind _).map _
      rcases parseI64 y with _ | year
      · rfl
      rcases parseU32 m with _ | month
      · rfl
      rcases parseU32 d with _ | day
      · rfl
      · rfl
    all_goals rfl
  · rfl

theorem dateTimeMillis_wrapping {c : CivilTime} {ms : Int64} (found : c.dateTimeMillis = some ms) :
    (daysFromCivil c.year c.month c.day * 86400 + c.hour.toUInt64.toInt64 * 3600 +
      c.minute.toUInt64.toInt64 * 60 + c.second.toUInt64.toInt64) * 1000 = ms := by
  unfold CivilTime.dateTimeMillis at found
  simp only [Option.bind_eq_bind, Option.bind_eq_some_iff] at found
  obtain ⟨days, found, hours, found1, minutes, found2, whole, found3, sum, found4, sum', found5,
    secs, found6, found7⟩ := found
  rw [daysFromCivil_of_checked found, wrapping_of_checked.2.2 found1,
    wrapping_of_checked.2.2 found2, wrapping_of_checked.2.2 found3, wrapping_of_checked.1 found4,
    wrapping_of_checked.1 found5, wrapping_of_checked.1 found6, wrapping_of_checked.2.2 found7]

theorem dateMillis_wrapping {c : CivilTime} {ms : Int64} (found : c.dateMillis = some ms) :
    daysFromCivil c.year c.month c.day * 86400 * 1000 = ms := by
  unfold CivilTime.dateMillis at found
  simp only [Option.bind_eq_bind, Option.bind_eq_some_iff] at found
  obtain ⟨days, found, whole, found1, found2⟩ := found
  rw [daysFromCivil_of_checked found, wrapping_of_checked.2.2 found1,
    wrapping_of_checked.2.2 found2]

/-- Without an overflow, the source has the result of the checked computation. -/
theorem parse_of_checked {s : String} {result : Except EngineError Int64}
    (found : parseTemporalTimestampChecked s = some result) :
    parseTemporalTimestamp s = result := by
  unfold parseTemporalTimestampChecked at found
  unfold parseTemporalTimestamp
  rw [parseDateTime_eq, parseDate_eq]
  cases integer : parseI64 s with
  | some n =>
    rw [integer] at found
    exact Option.some.inj found
  | none =>
    rw [integer] at found
    cases dateTime : civilOfDateTime s with
    | some c =>
      rw [dateTime] at found
      obtain ⟨ms, computed, rfl⟩ := Option.map_eq_some_iff.mp found
      exact congrArg (temporalRange s) (dateTimeMillis_wrapping computed)
    | none =>
      rw [dateTime] at found
      cases date : civilOfDate s with
      | some c =>
        rw [date] at found
        obtain ⟨ms, computed, rfl⟩ := Option.map_eq_some_iff.mp found
        exact congrArg (temporalRange s) (dateMillis_wrapping computed)
      | none =>
        rw [date] at found
        exact Option.some.inj found

/-- No operation overflows, and the instant of an accepted text with the shape of a date is that of
a date of the calendar and a time of the day, those that are written. -/
structure DenotesInstant (s : String) : Prop where
  noOverflow : parseTemporalTimestampChecked s ≠ none
  instant : ∀ c ms, written s = some c → parseTemporalTimestamp s = .ok ms →
    ∃ date, c.Writes date ∧ c.hour.toNat < 24 ∧ c.minute.toNat < 60 ∧ c.second.toNat < 60 ∧
      ms.toInt = 1000 * (86400 * date.daysSinceEpoch + 3600 * c.hour.toNat +
        60 * c.minute.toNat + c.second.toNat)

/-- What has the shape of a date has to fit, and to be a date unless it is out of range. -/
theorem denotesInstant_iff (s : String) :
    DenotesInstant s ↔ ∀ c, written s = some c → c.Fits ∧ (c.Real ∨ ¬ c.InYears) := by
  constructor
  · rintro ⟨noOverflow, instant⟩ c shape
    obtain ⟨short, millis, parsed, fits, overflows⟩ := parse_written shape
    have inside : c.Fits := by
      by_contra not
      rw [overflows not] at parsed
      exact noOverflow parsed
    refine ⟨inside, or_iff_not_imp_right.mpr fun inYears => ?_⟩
    obtain ⟨ms, computed, value⟩ := fits inside
    have range : temporalRange s ms = .ok ms :=
      (temporalRange_ok s ms ms).mpr ⟨by rw [value]; exact not_not.mp inYears, rfl⟩
    rw [computed, Option.map_some, range] at parsed
    obtain ⟨date, writes, hour, minute, second, -⟩ := instant c ms shape (parse_of_checked parsed)
    exact (CivilTime.real_iff short).mpr ⟨⟨date, writes⟩, hour, minute, second⟩
  · intro allowed
    constructor
    · cases shape : written s with
      | none => exact parse_unwritten shape
      | some c =>
        obtain ⟨short, millis, parsed, fits, -⟩ := parse_written shape
        obtain ⟨ms, computed, -⟩ := fits (allowed c shape).1
        rw [parsed, computed]
        simp
    · intro c ms shape accepted
      obtain ⟨short, millis, parsed, fits, -⟩ := parse_written shape
      obtain ⟨inside, real⟩ := allowed c shape
      obtain ⟨ms', computed, value⟩ := fits inside
      rw [computed] at parsed
      rw [parse_of_checked parsed, temporalRange_ok] at accepted
      obtain ⟨range, rfl⟩ := accepted
      have inYears : c.InYears := by
        unfold CivilTime.InYears
        rw [← value]
        exact range
      obtain ⟨⟨date, writes⟩, hour, minute, second⟩ :=
        (CivilTime.real_iff short).mp (real.resolve_right (not_not.mpr inYears))
      exact ⟨date, writes, hour, minute, second,
        by rw [value, CivilTime.seconds_of_writes writes]⟩

/-- The zeroth of March underflows. -/
example : parseTemporalTimestampChecked "2024-03-00" = none := by decide

/-- The 31st of February is accepted; it is the 2nd of March. -/
theorem february_accepted :
    parseTemporalTimestamp "2024-02-31" = .ok 1709337600000 ∧ ¬ DenotesInstant "2024-02-31" := by
  have accepted : parseTemporalTimestamp "2024-02-31" = .ok 1709337600000 := by decide
  refine ⟨accepted, fun denotes => ?_⟩
  have shape : written "2024-02-31" = some ⟨2024, 2, 31, 0, 0, 0⟩ := by decide
  obtain ⟨date, ⟨year, month, day⟩, -⟩ := denotes.instant _ _ shape accepted
  have length := date.day_le
  have february : date.month = 2 := month.symm
  have late : date.day = 31 := day.symm
  unfold monthLength at length
  rw [if_pos february] at length
  split at length <;> omega

end TronDB.Core
