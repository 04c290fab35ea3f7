import TronDB.Core.Types

/-! Temporal clauses and the timestamps they are written with. -/
namespace TronDB.Core

inductive TemporalClause where
  | asOf (timestamp : String)
  | validDuring (rangeStart rangeEnd : String)
  | asOfTransaction (lsn : Nat)
  deriving DecidableEq, Repr

def parseDigits (s : List Char) : Option Nat :=
  if s ≠ [] ∧ s.all Char.isDigit then
    some (s.foldl (fun n c => 10 * n + (c.toNat - '0'.toNat)) 0)
  else none

def parseI64 (s : String) : Option Int64 :=
  let signed : Option Int :=
    match s.toList with
    | '-' :: digits => (parseDigits digits).map fun n => -(n : Int)
    | '+' :: digits => (parseDigits digits).map fun n => (n : Int)
    | digits => (parseDigits digits).map fun n => (n : Int)
  match signed with
  | some n => if -2 ^ 63 ≤ n ∧ n < 2 ^ 63 then some (Int64.ofInt n) else none
  | none => none

def parseU32 (s : String) : Option UInt32 :=
  let digits := match s.toList with
    | '+' :: digits => digits
    | digits => digits
  match parseDigits digits with
  | some n => if n < 2 ^ 32 then some (UInt32.ofNat n) else none
  | none => none

/-- Days since 1970-01-01. The machine arithmetic wraps. -/
def daysFromCivil (y : Int64) (m d : UInt32) : Int64 :=
  let y := if m ≤ 2 then y - 1 else y
  let era := (if 0 ≤ y then y else y - 399) / 400
  let yoe := (y - era * 400).toUInt64.toUInt32
  let doy := (153 * (if 2 < m then m - 3 else m + 9) + 2) / 5 + d - 1
  let doe := yoe * 365 + yoe / 4 - yoe / 100 + doy
  era * 146097 + doe.toUInt64.toInt64 - 719468

def splitParts (isSeparator : Char → Bool) (s : List Char) : List String :=
  (s.splitOnP isSeparator).map String.ofList

def temporalRange (s : String) (ms : Int64) : Except EngineError Int64 :=
  if -62167219200000 ≤ ms ∧ ms ≤ 253402300799999 then .ok ms
  else .error (.invalidQuery s!"temporal timestamp out of range (years 0-9999): '{s}'")

/-- The value of `YYYY-MM-DDTHH:MM:SSZ`. The length is in bytes, and cutting off the last
byte is cutting off the `Z`. -/
def parseDateTime (s : String) : Option Int64 :=
  if s.utf8ByteSize = 20 ∧ s.toList.getLast? = some 'Z' then
    match splitParts (fun c => c = '-' || c = 'T' || c = ':') s.toList.dropLast with
    | [y, m, d, hh, mm, ss] => do
      let days := daysFromCivil (← parseI64 y) (← parseU32 m) (← parseU32 d)
      let secs := days * 86400 + (← parseU32 hh).toUInt64.toInt64 * 3600 +
        (← parseU32 mm).toUInt64.toInt64 * 60 + (← parseU32 ss).toUInt64.toInt64
      some (secs * 1000)
    | _ => none
  else none

def parseDate (s : String) : Option Int64 :=
  if s.utf8ByteSize = 10 then
    match splitParts (fun c => c = '-') s.toList with
    | [y, m, d] => do
      some (daysFromCivil (← parseI64 y) (← parseU32 m) (← parseU32 d) * 86400 * 1000)
    | _ => none
  else none

/-- Milliseconds since the epoch, written as an integer, a date with a time, or a date. -/
def parseTemporalTimestamp (s : String) : Except EngineError Int64 :=
  match (parseI64 s <|> parseDateTime s) <|> parseDate s with
  | some ms => temporalRange s ms
  | none => .error (.invalidQuery s!"cannot parse temporal timestamp: '{s}'")

def parseOptional : Option String → Except EngineError (Option Int64)
  | none => .ok none
  | some s => (parseTemporalTimestamp s).map some

def entityPassesTemporalFilter (e : Entity) : TemporalClause → Except EngineError Bool
  | .asOf ts => do
    let point ← parseTemporalTimestamp ts
    let fromOk := e.validFrom.all fun start => start ≤ point
    let toOk := e.validTo.all fun stop => point < stop
    .ok (fromOk && toOk)
  | .validDuring rangeStart rangeEnd => do
    let rangeStart ← parseTemporalTimestamp rangeStart
    let rangeEnd ← parseTemporalTimestamp rangeEnd
    let entityStart := e.validFrom.getD Int64.minValue
    let entityEnd := e.validTo.getD Int64.maxValue
    .ok (entityStart < rangeEnd && rangeStart < entityEnd)
  | .asOfTransaction lsn => .ok (e.txTime ≤ lsn)

/-- The readers take a clause that cannot be evaluated as not met. -/
def Entity.visible (e : Entity) (temporal : Option TemporalClause) : Bool :=
  match temporal with
  | some clause =>
    match entityPassesTemporalFilter e clause with
    | .ok passes => passes
    | .error _ => false
  | none => true

example : parseTemporalTimestamp "2024-02-29" = .ok 1709164800000 := by decide

end TronDB.Core
