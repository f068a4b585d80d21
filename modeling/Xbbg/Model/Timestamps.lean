import Xbbg.Library.Calendar

/-! Texts of dates and timestamps (`engine/state/value_utils.rs`). -/

namespace Xbbg.Timestamps

open Library

/-! ### Days of dates

The decoding of dates, from `datetime.rs` and `element.rs` of the core crate. -/

/-- A result of a machine operation, if it fits in `i64`. -/
def i64 (x : ℤ) : Option ℤ :=
  if -9223372036854775808 ≤ x ∧ x < 9223372036854775808 then some x else none

/-- A result of a machine operation, if it fits in `u32`. -/
def u32 (x : ℤ) : Option ℤ := if 0 ≤ x ∧ x < 4294967296 then some x else none

def daysFromYmd (y m d : ℤ) : Option ℤ := do
  let y ← i64 (y - if m ≤ 2 then 1 else 0)
  let era := y / 400
  let yoe := y % 400
  let mp ← u32 (if m > 2 then m - 3 else m + 9)
  let doy ← u32 ((← u32 ((← u32 (153 * mp)) + 2)) / 5 + d)
  let doy ← u32 (doy - 1)
  let doe ← u32 ((← u32 ((← u32 (yoe * 365)) + yoe / 4)) - yoe / 100)
  let doe ← u32 (doe + doy)
  i64 ((← i64 ((← i64 (era * 146097)) + doe)) - 719468)

/-- The parts of a datetime of the SDK. -/
structure HighPrecisionDatetime where
  parts : ℕ
  hours : ℕ
  minutes : ℕ
  seconds : ℕ
  milliseconds : ℕ
  month : ℕ
  day : ℕ
  year : ℕ
  offset : ℤ
  picoseconds : ℕ

namespace HighPrecisionDatetime

def toTimeMicros (dt : HighPrecisionDatetime) : Option ℤ := do
  let time ← i64 ((← i64 (dt.hours * 3600000000)) + (← i64 (dt.minutes * 60000000)))
  let time ← i64 (time + (← i64 (dt.seconds * 1000000)))
  let time ← i64 (time + (← i64 (dt.milliseconds * 1000)))
  i64 (time + dt.picoseconds / 1000000)

def offsetMicros (dt : HighPrecisionDatetime) : Option ℤ :=
  if dt.parts &&& 8 = 8 then i64 (dt.offset * 60000000) else some 0

def toMicros (dt : HighPrecisionDatetime) : Option ℤ := do
  let days ← daysFromYmd dt.year dt.month dt.day
  let us ← dt.toTimeMicros
  i64 ((← i64 ((← i64 (days * 86400000000)) + us)) - (← dt.offsetMicros))

/-- `get_date32`; the cast wraps. -/
def getDate32 (dt : HighPrecisionDatetime) : Option ℤ :=
  dt.toMicros.map fun micros => (micros.tdiv 86400000000).bmod (2 ^ 32)

end HighPrecisionDatetime

/-- A date as the SDK gives it: its parts are the year, the month and the day. -/
def dateOnly (date : CivilDate) : HighPrecisionDatetime :=
  ⟨7, 0, 0, 0, 0, date.month, date.day, date.year.toNat, 0, 0⟩

/-! ### Dates -/

/-- Divisions truncate, as those of the machine do. -/
def civilFromDays (days : ℤ) : ℤ × ℕ × ℕ :=
  let z := days + 719468
  let era := (if z ≥ 0 then z else z - 146096).tdiv 146097
  let doe := z - era * 146097
  let yoe := (doe - doe.tdiv 1460 + doe.tdiv 36524 - doe.tdiv 146096).tdiv 365
  let y := yoe + era * 400
  let doy := doe - (365 * yoe + yoe.tdiv 4 - yoe.tdiv 100)
  let mp := (5 * doy + 2).tdiv 153
  let day := doy - (153 * mp + 2).tdiv 5 + 1
  let month := mp + if mp < 10 then 3 else -9
  let year := y + if month ≤ 2 then 1 else 0
  (year.bmod (2 ^ 32), (month % 2 ^ 32).toNat, (day % 2 ^ 32).toNat)

/-- `civil_from_days` with the result of every operation checked. -/
def civilFromDaysChecked (days : ℤ) : Option (ℤ × ℕ × ℕ) := do
  let z ← i64 (days + 719468)
  let era := (← i64 (if z ≥ 0 then z else z - 146096)).tdiv 146097
  let doe ← i64 (z - (← i64 (era * 146097)))
  let yoe ← i64 ((← i64 (doe - doe.tdiv 1460)) + doe.tdiv 36524)
  let yoe := (← i64 (yoe - doe.tdiv 146096)).tdiv 365
  let y ← i64 (yoe + (← i64 (era * 400)))
  let start ← i64 ((← i64 ((← i64 (365 * yoe)) + yoe.tdiv 4)) - yoe.tdiv 100)
  let doy ← i64 (doe - start)
  let mp := (← i64 ((← i64 (5 * doy)) + 2)).tdiv 153
  let day ← i64 ((← i64 (doy - (← i64 ((← i64 (153 * mp)) + 2)).tdiv 5)) + 1)
  let month ← i64 (mp + if mp < 10 then 3 else -9)
  let year ← i64 (y + if month ≤ 2 then 1 else 0)
  some (year.bmod (2 ^ 32), (month % 2 ^ 32).toNat, (day % 2 ^ 32).toNat)

def pushPaddedU64 (out : String) (value width : ℕ) : String :=
  let digits := toString value
  out ++ String.ofList (List.replicate (width - digits.length) '0') ++ digits

def pushPaddedI64 (out : String) (value : ℤ) (width : ℕ) : String :=
  if value < 0 then pushPaddedU64 (out.push '-') value.natAbs width
  else pushPaddedU64 out value.toNat width

def pushDate (out : String) (days : ℤ) : String :=
  let (year, month, day) := civilFromDays days
  let out := (pushPaddedI64 out year 4).push '-'
  let out := (pushPaddedU64 out month 2).push '-'
  pushPaddedU64 out day 2

/-! ### Dates and times of the chrono library -/

/-- What the library documents of `DateTime::from_timestamp` and of the format
`%Y-%m-%dT%H:%M:%S%.6fZ`. Seconds out of its range are refused, which ones is left open. -/
structure Chrono where
  DateTime : Type
  fromTimestamp (secs : ℤ) (nsecs : ℕ) : Option DateTime
  format : DateTime → String
  /-- The nanoseconds of a leap second exceed a second, those of no time reach two. -/
  fromTimestamp_of_le : ∀ {secs : ℤ} {nsecs : ℕ}, 2000000000 ≤ nsecs →
    fromTimestamp secs nsecs = none
  /-- From the year 10000 on, years are written with a sign. -/
  toList_format : ∀ {secs : ℤ} {micro : ℕ} {dt : DateTime} {t : Timestamp},
    fromTimestamp secs (micro * 1000) = some dt → micro < 1000000 →
    t.toMicros = secs * 1000000 + micro → t.date.year ≤ 9999 → (format dt).toList = t.text

/-! ### Timestamps -/

def formatTimestampMicrosFallback (chrono : Chrono) (micros : ℤ) : String :=
  let secs := micros.tdiv 1000000
  -- The cast to an unsigned number wraps a negative fraction.
  let nanos := (micros.tmod 1000000 * 1000 % 2 ^ 32).toNat
  match chrono.fromTimestamp secs nanos with
  | some dt => chrono.format dt
  | none => toString micros ++ "us"

def formatTimestampMicros (chrono : Chrono) (micros : ℤ) : String :=
  if micros < 0 then formatTimestampMicrosFallback chrono micros
  else
    let secs := micros.tdiv 1000000
    let fracUs := (micros.tmod 1000000).toNat
    let days := secs.tdiv 86400
    let secondsOfDay := secs.tmod 86400
    let h := secondsOfDay.tdiv 3600
    let m := (secondsOfDay.tmod 3600).tdiv 60
    let s := secondsOfDay.tmod 60
    let out := (pushDate "" days).push 'T'
    let out := (pushPaddedI64 out h 2).push ':'
    let out := (pushPaddedI64 out m 2).push ':'
    let out := (pushPaddedI64 out s 2).push '.'
    (pushPaddedU64 out fracUs 6).push 'Z'

end Xbbg.Timestamps
