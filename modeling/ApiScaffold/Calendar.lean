import ApiScaffold.Text.Classes

/-!
# Dates, times and instants

The proleptic Gregorian calendar of the years 1 to 9999. A date has a day number, counted
from the first of January of year 1, and a moment with its offset has an instant in
microseconds from that midnight in UTC; both can be turned back. A moment without an offset
is read as UTC.
-/
namespace ApiScaffold

open Text

structure Date where
  year : Nat
  month : Nat
  day : Nat
  deriving DecidableEq, Repr

namespace Date

def isLeapYear (year : Nat) : Bool :=
  year % 4 == 0 && (year % 100 != 0 || year % 400 == 0)

/-- The lengths of the twelve months. -/
def monthLengths (year : Nat) : List Nat :=
  [31, if isLeapYear year then 29 else 28, 31, 30, 31, 30, 31, 31, 30, 31, 30, 31]

def daysInMonth (year month : Nat) : Nat := (monthLengths year).getD (month - 1) 0

def daysInYear (year : Nat) : Nat := if isLeapYear year then 366 else 365

/-- The days of the years before the given one. -/
def daysBefore (year : Nat) : Nat :=
  let y := year - 1
  y * 365 + y / 4 - y / 100 + y / 400

def valid (d : Date) : Bool :=
  1 ≤ d.year && d.year ≤ 9999 && 1 ≤ d.month && d.month ≤ 12 &&
    1 ≤ d.day && d.day ≤ daysInMonth d.year d.month

/-- Days since the first of January of year 1. -/
def dayNumber (d : Date) : Nat :=
  daysBefore d.year + ((monthLengths d.year).take (d.month - 1)).foldr (· + ·) 0 + (d.day - 1)

/-- The month and day of a day counted from zero within the months still ahead. -/
def locate (month : Nat) : List Nat → Nat → Nat × Nat
  | [], n => (month, n + 1)
  | length :: rest, n => if n < length then (month, n + 1) else locate (month + 1) rest (n - length)

/-- The year that a day falls in, by cycles of 400, 100, 4 and 1 years. The last day of a
long cycle belongs to the cycle before it. -/
def yearOf (n : Nat) : Nat :=
  let n400 := n / 146097
  let r400 := n % 146097
  let n100 := min (r400 / 36524) 3
  let r100 := r400 - n100 * 36524
  let n4 := r100 / 1461
  let r4 := r100 % 1461
  let n1 := min (r4 / 365) 3
  n400 * 400 + n100 * 100 + n4 * 4 + n1 + 1

def ofDayNumber (n : Nat) : Date :=
  let year := yearOf n
  let (month, day) := locate 1 (monthLengths year) (n - daysBefore year)
  ⟨year, month, day⟩

/-- The number of days of the calendar. -/
def calendarDays : Nat := daysBefore 10000

/-- Year, month and day with hyphens, the year in four digits. -/
def text (d : Date) : Text :=
  ofNatPadded 4 d.year ++ "-" ++ ofNatPadded 2 d.month ++ "-" ++ ofNatPadded 2 d.day

end Date

structure Moment where
  date : Date
  hour : Nat
  minute : Nat
  second : Nat
  microsecond : Nat
  /-- Local time less UTC, in microseconds. -/
  offset : Option Int := none
  deriving DecidableEq, Repr

namespace Moment

def microsecondsPerDay : Nat := 86400000000

/-- Microseconds since midnight. -/
def timeOfDay (m : Moment) : Nat :=
  ((m.hour * 60 + m.minute) * 60 + m.second) * 1000000 + m.microsecond

/-- Microseconds since the start of the calendar, in UTC. -/
def instant (m : Moment) : Int :=
  (m.date.dayNumber * microsecondsPerDay + m.timeOfDay : Nat) - m.offset.getD 0

/-- The UTC moment of an instant, as long as the calendar covers it. -/
def ofInstant? (i : Int) : Option Moment :=
  if 0 ≤ i ∧ i < (Date.calendarDays * microsecondsPerDay : Nat) then
    let n := i.toNat
    let time := n % microsecondsPerDay
    let seconds := time / 1000000
    some { date := Date.ofDayNumber (n / microsecondsPerDay), hour := seconds / 3600,
           minute := seconds / 60 % 60, second := seconds % 60,
           microsecond := time % 1000000, offset := some 0 }
  else none

/-- The same instant in UTC. -/
def toUtc? (m : Moment) : Option Moment := ofInstant? m.instant

/-- The time of day with six places after the second. -/
def clockText (m : Moment) : Text :=
  ofNatPadded 2 m.hour ++ ":" ++ ofNatPadded 2 m.minute ++ ":" ++ ofNatPadded 2 m.second ++
    "." ++ ofNatPadded 6 m.microsecond

/-- The timestamp of a moment in UTC. The year has as many digits as it needs; there is no
timestamp when the calendar does not cover the moment. -/
def timestamp? (m : Moment) : Option Text :=
  m.toUtc?.map fun u =>
    ofNat u.date.year ++ "-" ++ ofNatPadded 2 u.date.month ++ "-" ++
      ofNatPadded 2 u.date.day ++ "T" ++ u.clockText ++ "Z"

private def offsetText (offset : Int) : Text :=
  let n := offset.natAbs
  let seconds := n / 1000000
  let sign : Text := if offset < 0 then "-" else "+"
  let tail : Text :=
    if n % 1000000 ≠ 0 then
      ":" ++ ofNatPadded 2 (seconds % 60) ++ "." ++ ofNatPadded 6 (n % 1000000)
    else if seconds % 60 ≠ 0 then ":" ++ ofNatPadded 2 (seconds % 60)
    else []
  sign ++ ofNatPadded 2 (seconds / 3600) ++ ":" ++ ofNatPadded 2 (seconds / 60 % 60) ++ tail

/-- Date and time around a separator, the fraction and the offset only when there is one. -/
def text (separator : Char) (m : Moment) : Text :=
  let time := ofNatPadded 2 m.hour ++ ":" ++ ofNatPadded 2 m.minute ++ ":" ++
    ofNatPadded 2 m.second
  let fraction : Text := if m.microsecond = 0 then [] else "." ++ ofNatPadded 6 m.microsecond
  m.date.text ++ [separator] ++ time ++ fraction ++
    (match m.offset with
      | some offset => offsetText offset
      | none => [])

/-! ## Reading -/

/-- Reads a number of exactly `n` digits. -/
def readDigits? : Nat → Text → Option (Nat × Text) := go 0
where
  go (value : Nat) : Nat → Text → Option (Nat × Text)
    | 0, rest => some (value, rest)
    | n + 1, c :: rest =>
      if isAsciiDigit c then go (value * 10 + (c.toNat - 48)) n rest else none
    | _ + 1, [] => none

def readChar? (c : Char) : Text → Option Text
  | d :: rest => if c = d then some rest else none
  | [] => none

/-- Up to six places after the point, as microseconds; further places are dropped. -/
def readFraction (t : Text) : Nat × Text :=
  match t with
  | c :: rest =>
    if c = '.' ∨ c = ',' then
      let digits := rest.takeWhile isAsciiDigit
      let six := (digits ++ List.replicate 6 '0').take 6
      ((six.foldl (fun value d => value * 10 + (d.toNat - 48)) 0), rest.drop digits.length)
    else (0, t)
  | [] => (0, [])

def readClock? (t : Text) : Option (Nat × Nat × Nat × Nat × Text) := do
  let (hour, t) ← readDigits? 2 t
  match readChar? ':' t with
  | none => some (hour, 0, 0, 0, t)
  | some t =>
    let (minute, t) ← readDigits? 2 t
    match readChar? ':' t with
    | none => some (hour, minute, 0, 0, t)
    | some t =>
      let (second, t) ← readDigits? 2 t
      let (fraction, t) := readFraction t
      some (hour, minute, second, fraction, t)

def readOffset? (t : Text) : Option (Option Int) :=
  match t with
  | [] => some none
  | ['Z'] => some (some 0)
  | c :: rest =>
    if c = '+' ∨ c = '-' then
      match readClock? rest with
      | some (hour, minute, second, fraction, []) =>
        let n : Int := ((hour * 60 + minute) * 60 + second) * 1000000 + fraction
        some (some (if c = '-' then -n else n))
      | _ => none
    else none

/-- Reads a date, one separating character, a time and an optional offset. -/
def ofText? (t : Text) : Option Moment := do
  let (year, t) ← readDigits? 4 t
  let t ← readChar? '-' t
  let (month, t) ← readDigits? 2 t
  let t ← readChar? '-' t
  let (day, t) ← readDigits? 2 t
  match t with
  | [] => some { date := ⟨year, month, day⟩, hour := 0, minute := 0, second := 0, microsecond := 0 }
  | _ :: t =>
    let (hour, minute, second, fraction, t) ← readClock? t
    let offset ← readOffset? t
    some { date := ⟨year, month, day⟩, hour, minute, second, microsecond := fraction, offset }

end Moment

end ApiScaffold
