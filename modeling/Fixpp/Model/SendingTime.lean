import Fixpp.Model.Prelude

/-!
# SendingTime stamps

`utc_time_to_fix_string` writes a clock value, the nanoseconds since the epoch, as a FIX
UTCTimestamp with integer arithmetic alone, and `stamp_sending_time` calls it for the session's
clock. The 32 characters of a stamp hold every precision.
-/

namespace Fixpp.Model

inductive FixTimePrecision
  | seconds
  | millis
  | micros
  | nanos
  deriving DecidableEq, Repr

/-- The last `width` decimal digits of a value. -/
def writeDigits (value : ℕ) : ℕ → Bytes
  | 0 => []
  | width + 1 => writeDigits (value / 10) width ++ [UInt8.ofNat (48 + value % 10)]

structure Date where
  year : ℤ
  month : ℕ
  day : ℕ
  deriving DecidableEq, Repr

def isLeap (y : ℤ) : Bool := y.tmod 4 = 0 ∧ y.tmod 100 ≠ 0 ∨ y.tmod 400 = 0

def daysInMonth (year : ℤ) (month : ℕ) : ℕ :=
  if month = 2 ∧ isLeap year then 29
  else [0, 31, 28, 31, 30, 31, 30, 31, 31, 30, 31, 30, 31].getD month 0

/-- The civil date of a day since the epoch. -/
def daysToDate (days : ℤ) : Date :=
  let z := days + 719468
  let era := (if z ≥ 0 then z else z - 146096).tdiv 146097
  let doe := (z - era * 146097).toNat
  let yoe := (doe - doe / 1460 + doe / 36524 - doe / 146096) / 365
  let y := (yoe : ℤ) + era * 400
  let doy := doe - (365 * yoe + yoe / 4 - yoe / 100)
  let mp := (5 * doy + 2) / 153
  let d := doy - (153 * mp + 2) / 5 + 1
  let m := if mp < 10 then mp + 3 else mp - 9
  { year := if m ≤ 2 then y + 1 else y, month := m, day := d }

/-- `date_to_days`, for a day of at least 1. -/
def dateToDays (y : ℤ) (m d : ℕ) : ℤ :=
  let y := if m ≤ 2 then y - 1 else y
  let era := (if y ≥ 0 then y else y - 399).tdiv 400
  let yoe := (y - era * 400).toNat
  let doy := (153 * (if m > 2 then m - 3 else m + 9) + 2) / 5 + d - 1
  let doe := yoe * 365 + yoe / 4 - yoe / 100 + doy
  era * 146097 + doe - 719468

/-- `utc_time_to_fix_string`. The years a 64-bit count of nanoseconds reaches are
positive. -/
def utcTimeToFixString (ns : ℤ) (prec : FixTimePrecision) : Bytes :=
  let secTotal := ns.fdiv 1000000000
  let rem := ns.tmod 1000000000
  let nsRem := (if rem < 0 then rem + 1000000000 else rem).toNat
  let dayCount := secTotal.tdiv 86400
  let left := secTotal.tmod 86400
  let timeOfDay := (if left < 0 then left + 86400 else left).toNat
  let date := daysToDate (if left < 0 then dayCount - 1 else dayCount)
  writeDigits date.year.toNat 4 ++ writeDigits date.month 2 ++ writeDigits date.day 2 ++
    ascii "-" ++ writeDigits (timeOfDay / 3600) 2 ++ ascii ":" ++
    writeDigits (timeOfDay % 3600 / 60) 2 ++ ascii ":" ++ writeDigits (timeOfDay % 60) 2 ++
    match prec with
    | .seconds => []
    | .millis => ascii "." ++ writeDigits (nsRem / 1000000) 3
    | .micros => ascii "." ++ writeDigits (nsRem / 1000) 6
    | .nanos => ascii "." ++ writeDigits nsRem 9

/-- `stamp_sending_time` for the session's clock; a session without one stamps an empty
value. -/
def stampSendingTime (clock : Option ℤ) (prec : FixTimePrecision) : Bytes :=
  match clock with
  | none => []
  | some now => utcTimeToFixString now prec

example : stampSendingTime (some 1700000000123456789) .millis = ascii "20231114-22:13:20.123" := by
  decide +kernel

example : stampSendingTime (some (-1)) .nanos = ascii "19691231-23:59:59.999999999" := by
  decide +kernel

end Fixpp.Model
