import Triage.Text

/-!
Points in time, as seconds since 1970-01-01 00:00:00 UTC, and their written forms.

The calendar is the Gregorian one, extended to all years. Days are counted from the first of March
of a year divisible by 400, so that a leap day ends its year, its four years, and its cycle.
The clock counts nanoseconds in a signed 64-bit word, which holds the years 1678 to 2261.
-/

namespace Triage

namespace Time

/-! ## The clock -/

def nanoseconds (seconds : Int) : Int := Int.bmod (seconds * 1000000000) UInt64.size

/-- The second that the clock holds after it was set to `seconds`: the same second as long as the
nanoseconds fit. -/
def onClock (seconds : Int) : Int := (nanoseconds seconds).tdiv 1000000000

/-! ## The calendar -/

/-- A date and a time of day. The fields of a date read from text need not be in range. -/
structure Stamp where
  year : Int
  month : Int
  day : Int
  hour : Int
  minute : Int
  second : Int
  deriving DecidableEq, Repr

/-- The days from 1 March of year 0 to 1970-01-01. -/
def epochDay : Int := 719468

/-- The day number of a date, counted from 1970-01-01. Months and days beyond their range run on
into the following or preceding months and years. -/
def dayNumber (year month day : Int) : Int :=
  let months := 12 * year + (month - 3)
  let y := months.fdiv 12
  let m := months.fmod 12
  365 * y + y.fdiv 4 - y.fdiv 100 + y.fdiv 400 + (153 * m + 2).fdiv 5 + (day - 1) - epochDay

def dateOf (dayNumber : Int) : Int × Int × Int :=
  let n := dayNumber + epochDay
  let cycle := n.fdiv 146097
  let n := n.fmod 146097
  let century := min (n.fdiv 36524) 3
  let n := n - 36524 * century
  let four := n.fdiv 1461
  let n := n.fmod 1461
  let single := min (n.fdiv 365) 3
  let n := n - 365 * single
  let m := (5 * n + 2).fdiv 153
  let day := n - (153 * m + 2).fdiv 5 + 1
  let year := 400 * cycle + 100 * century + 4 * four + single
  if m < 10 then (year, m + 3, day) else (year + 1, m - 9, day)

def stampOf (seconds : Int) : Stamp :=
  let (year, month, day) := dateOf (seconds.fdiv 86400)
  let rest := seconds.fmod 86400
  ⟨year, month, day, rest.fdiv 3600, (rest.fmod 3600).fdiv 60, rest.fmod 60⟩

/-- The second of a date and time; fields beyond their range run on. -/
def Stamp.seconds (s : Stamp) : Int :=
  86400 * dayNumber s.year s.month s.day + 3600 * s.hour + 60 * s.minute + s.second

/-! ## Written forms -/

def field (width : Nat) (n : Int) : Text := Text.padNat width n.toNat

/-- The form `2024-01-31T12:00:00Z`. -/
def iso (seconds : Int) : Text :=
  let s := stampOf seconds
  field 4 s.year ++ "-".ascii ++ field 2 s.month ++ "-".ascii ++ field 2 s.day ++ "T".ascii ++
    field 2 s.hour ++ ":".ascii ++ field 2 s.minute ++ ":".ascii ++ field 2 s.second ++ "Z".ascii

/-- The form `20240131T120000Z`, used in names of report files. -/
def compact (seconds : Int) : Text :=
  let s := stampOf seconds
  field 4 s.year ++ field 2 s.month ++ field 2 s.day ++ "T".ascii ++
    field 2 s.hour ++ field 2 s.minute ++ field 2 s.second ++ "Z".ascii

/-- The form `20240131_120000`, which starts the ids of items. -/
def idStamp (seconds : Int) : Text :=
  let s := stampOf seconds
  field 4 s.year ++ field 2 s.month ++ field 2 s.day ++ "_".ascii ++
    field 2 s.hour ++ field 2 s.minute ++ field 2 s.second

/-! ## Reading -/

/-- A number of at most `width` bytes, a sign included, after any white space; and what follows. -/
def number? (width : Nat) (s : Text) : Option (Int × Text) :=
  let s := s.dropWhile Byte.isSpace
  let (sign, negative) := match s with
    | 43 :: _ => (1, false)
    | 45 :: _ => (1, true)
    | _ => (0, false)
  let digits := ((s.take width).drop sign).takeWhile Byte.isDigit
  if digits.isEmpty then none
  else
    let value : Int := Text.digitsValue digits
    some (if negative then -value else value, s.drop (sign + digits.length))

/-- A number, and a mark right after it. -/
def numberThen? (width : Nat) (mark : UInt8) (s : Text) : Option (Int × Text) :=
  match number? width s with
  | some (n, b :: rest) => if b == mark then some (n, rest) else none
  | _ => none

/-- Reads the form that `iso` writes. White space before a number, signs and missing leading zeros
are accepted, and nothing after the seconds is looked at; a text ends at its first zero byte. -/
def stamp? (s : Text) : Option Stamp := do
  let (year, s) ← numberThen? 4 '-'.ascii (Text.before 0 s)
  let (month, s) ← numberThen? 2 '-'.ascii s
  let (day, s) ← numberThen? 2 'T'.ascii s
  let (hour, s) ← numberThen? 2 ':'.ascii s
  let (minute, s) ← numberThen? 2 ':'.ascii s
  let (second, _) ← number? 2 s
  pure ⟨year, month, day, hour, minute, second⟩

/-- The second that a written time denotes. The last second before 1970 cannot be told from a
failure and counts as one. -/
def parse? (s : Text) : Option Int :=
  match stamp? s with
  | none => none
  | some stamp => if stamp.seconds == -1 then none else some (onClock stamp.seconds)

end Time

end Triage
