import ChannelRelay.Number.Power
import ChannelRelay.Text.Decimal
import ChannelRelay.Time.Date

/-!
# Instants

A point of time as whole seconds since 1970 and nanoseconds.  A leap second is
written as nanoseconds from 10^9 on after the last second of a minute.

`parse?` reads RFC 3339: four digits of year, a `T`, `t` or blank before the time,
any number of fraction digits of which nine count, and `Z`, `z` or an offset
whose minus may also be U+2212.  `format` writes it in UTC.
-/

namespace ChannelRelay

/-- A point of time. -/
structure Instant where
  seconds : Int
  nanos : Nat
  nanos_lt : nanos < 2000000000 := by decide
  leap_at_end : 1000000000 ≤ nanos → seconds % 60 = 59 := by decide
deriving DecidableEq, Repr

namespace Instant

/-- The nanoseconds of a second. -/
def nanosPerSecond : Nat := 1000000000

/-- The instant of some seconds and nanoseconds, if there is one. -/
def of? (seconds : Int) (nanos : Nat) : Option Instant :=
  if hlt : nanos < 2000000000 then
    if hend : 1000000000 ≤ nanos → seconds % 60 = 59 then some ⟨seconds, nanos, hlt, hend⟩
    else none
  else none

/-- A number of exactly `count` digits and the text after it. -/
def number? (count : Nat) (cs : List Char) : Option (Nat × List Char) :=
  let digits := cs.take count
  if digits.length = count ∧ digits.all Decimal.isDigit then
    some (Decimal.ofDigits digits, cs.drop count)
  else none

/-- The text after one of the given characters. -/
def mark? (marks : List Char) : List Char → Option (List Char)
  | [] => none
  | c :: rest => if marks.contains c then some rest else none

/-- The nanoseconds of a fraction, of which the first nine digits count. -/
def fraction? : List Char → Option (Nat × List Char)
  | '.' :: rest =>
    let digits := rest.takeWhile Decimal.isDigit
    let counted := digits.take 9
    if digits.isEmpty then none
    else some (Decimal.ofDigits counted * tenTo (9 - counted.length),
      rest.dropWhile Decimal.isDigit)
  | cs => some (0, cs)

/-- The largest offset from UTC, in minutes. -/
def maxOffset : Nat := 23 * 60 + 59

/-- Hours and minutes of an offset, in minutes. -/
def offsetMinutes? (cs : List Char) : Option (Nat × List Char) := do
  let (hours, cs) ← number? 2 cs
  let cs ← mark? [':'] cs
  let (minutes, cs) ← number? 2 cs
  let offset := hours * 60 + minutes
  if minutes ≤ 59 ∧ offset ≤ maxOffset then return (offset, cs) else none

/-- The offset from UTC, in minutes. -/
def offset? : List Char → Option (Int × List Char)
  | [] => none
  | c :: rest =>
    if c = 'Z' ∨ c = 'z' then some (0, rest)
    else if c = '+' then (offsetMinutes? rest).map fun p => ((p.1 : Int), p.2)
    else if c = '-' ∨ c = '\u2212' then (offsetMinutes? rest).map fun p => (-(p.1 : Int), p.2)
    else none

/-- The date at the start of a text. -/
def date? (cs : List Char) : Option (Date × List Char) := do
  let (year, cs) ← number? 4 cs
  let cs ← mark? ['-'] cs
  let (month, cs) ← number? 2 cs
  let cs ← mark? ['-'] cs
  let (day, cs) ← number? 2 cs
  let date : Date := ⟨year, month, day⟩
  if date.isValid then return (date, cs) else none

/-- The second of the day at the start of a text, and whether it is a leap second. -/
def clock? (cs : List Char) : Option ((Nat × Bool) × List Char) := do
  let (hour, cs) ← number? 2 cs
  let cs ← mark? [':'] cs
  let (minute, cs) ← number? 2 cs
  let cs ← mark? [':'] cs
  let (second, cs) ← number? 2 cs
  if hour ≤ 23 ∧ minute ≤ 59 ∧ second ≤ 60 then
    return ((hour * 3600 + minute * 60 + min second 59, second == 60), cs)
  else none

/-- The instant that a text denotes. -/
def parse? (text : String) : Option Instant := do
  let (date, cs) ← date? text.toList
  let cs ← mark? ['T', 't', ' '] cs
  let ((second, leap), cs) ← clock? cs
  let (nanos, cs) ← fraction? cs
  let (offset, cs) ← offset? cs
  if cs.isEmpty then
    of? (date.dayNumber * 86400 + second - offset * 60)
      (if leap then nanos + nanosPerSecond else nanos)
  else none

/-- How the fraction of a second is written. -/
inductive Fraction where
  /-- Not at all. -/
  | omitted
  /-- With nine digits. -/
  | full
  /-- With 3, 6 or 9 digits, as many as are needed; nothing for zero. -/
  | grouped
deriving DecidableEq, Repr

/-- The text of a fraction of nanoseconds. -/
def Fraction.text (style : Fraction) (nanos : Nat) : String :=
  match style with
  | .omitted => ""
  | .full => "." ++ Decimal.padded 9 nanos
  | .grouped =>
    if nanos = 0 then ""
    else if nanos % 1000000 = 0 then "." ++ Decimal.padded 3 (nanos / 1000000)
    else if nanos % 1000 = 0 then "." ++ Decimal.padded 6 (nanos / 1000)
    else "." ++ Decimal.padded 9 nanos

/-- The text of a year: four digits, and a sign outside 0 to 9999. -/
def yearText (year : Int) : String :=
  if 0 ≤ year ∧ year ≤ 9999 then Decimal.padded 4 year.toNat
  else (if year < 0 then "-" else "+") ++ Decimal.padded 4 year.natAbs

/-- The text of an instant in UTC. -/
def format (i : Instant) (fraction : Fraction) (zone : String) : String :=
  let date := Date.ofDayNumber (i.seconds / 86400)
  let second := (i.seconds % 86400).toNat
  yearText date.year ++ "-" ++ Decimal.padded 2 date.month ++ "-" ++ Decimal.padded 2 date.day
    ++ "T" ++ Decimal.padded 2 (second / 3600) ++ ":" ++ Decimal.padded 2 (second / 60 % 60)
    ++ ":" ++ Decimal.padded 2 (second % 60 + i.nanos / nanosPerSecond)
    ++ fraction.text (i.nanos % nanosPerSecond) ++ zone

/-- The text with a numeric offset and as many digits as are needed. -/
def offsetText (i : Instant) : String := i.format .grouped "+00:00"

/-- The text with a `Z` and as many digits as are needed. -/
def shortText (i : Instant) : String := i.format .grouped "Z"

/-- The text with a `Z` and whole seconds. -/
def secondsText (i : Instant) : String := i.format .omitted "Z"

/-- The text with a `Z` and nanoseconds. -/
def nanosText (i : Instant) : String := i.format .full "Z"

end Instant

end ChannelRelay
