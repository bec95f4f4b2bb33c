import Chronicle.Bytes

/-!
The proleptic Gregorian calendar and the text of an instant.

An instant is a number of milliseconds since the start of 1970 in universal time. To find the date of
a day, years are taken to start in March, so that a leap day is the last day of its year: a span of
400 years always has 146097 days and is split into centuries, these into spans of four years, these
into years. Only the last part of each split can be longer than the others.
-/

namespace Chronicle.Time

structure Date where
  year : Int
  month : Nat
  day : Nat
  deriving DecidableEq, Repr

/-- Days from the first of March of year 0 to the start of 1970. -/
def epoch : Int := 719468

/-- The lengths of the months from March on; February has its leap day. -/
def monthLengths : List Nat := [31, 30, 31, 30, 31, 31, 30, 31, 30, 31, 31, 29]

/-- The month, counted from March as 0, and the day of the month, counted from 0. -/
def splitMonth : List Nat → Nat → Nat × Nat
  | [], day => (0, day)
  | length :: lengths, day =>
    if day < length then (0, day)
    else
      let (month, rest) := splitMonth lengths (day - length)
      (month + 1, rest)

/-- The date of a day counted from the start of 1970. -/
def dateOfDay (day : Int) : Date :=
  let shifted := day + epoch
  let era := shifted.fdiv 146097
  let inEra := (shifted.fmod 146097).toNat
  let century := min 3 (inEra / 36524)
  let inCentury := inEra - century * 36524
  let span := inCentury / 1461
  let inSpan := inCentury - span * 1461
  let year := min 3 (inSpan / 365)
  let inYear := inSpan - year * 365
  let (month, dayOfMonth) := splitMonth monthLengths inYear
  let marchYear := era * 400 + (century * 100 + span * 4 + year : Nat)
  if month < 10 then ⟨marchYear, month + 3, dayOfMonth + 1⟩
  else ⟨marchYear + 1, month - 9, dayOfMonth + 1⟩

/-- The fields of an instant. -/
structure Fields where
  date : Date
  hour : Nat
  minute : Nat
  second : Nat
  /-- Negative before 1970: an instant is cut to seconds toward 1970. -/
  millisecond : Int
  deriving DecidableEq, Repr

def fieldsOf (instant : Int) : Fields :=
  let seconds := instant.tdiv 1000
  let ofDay := (seconds.fmod 86400).toNat
  { date := dateOfDay (seconds.fdiv 86400)
    hour := ofDay / 3600
    minute := ofDay % 3600 / 60
    second := ofDay % 60
    millisecond := instant.tmod 1000 }

def twoDigits (n : Nat) : Bytes := Bytes.zeroPadded 2 (Bytes.decimal n)

/-- The year is written without padding, the other parts with two digits. -/
def Date.text (date : Date) : Bytes :=
  Bytes.signedDecimal date.year ++ utf8 "-" ++ twoDigits date.month ++ utf8 "-" ++
    twoDigits date.day

/-- Date and time with milliseconds in a field of width three, in universal time. -/
def text (instant : Int) : Bytes :=
  let fields := fieldsOf instant
  fields.date.text ++ utf8 "T" ++ twoDigits fields.hour ++ utf8 ":" ++ twoDigits fields.minute ++
    utf8 ":" ++ twoDigits fields.second ++ utf8 "." ++
    Bytes.zeroPadded 3 (Bytes.signedDecimal fields.millisecond) ++ utf8 "Z"

end Chronicle.Time
