import ChannelRelay.Json.Value
import ChannelRelay.Number.Shortest
import ChannelRelay.Text.Decimal

/-!
# Writing JSON

The compact text of a value: no blanks, members in the order of their keys,
control characters, quote and backslash escaped and every other character as it
is.  A double is written with the fewest digits that read back, positionally when
its first digit stands between 16 places before and 5 places after the point.
-/

namespace ChannelRelay.Json

/-- How a character is written inside a string. -/
def escaped (c : Char) : List Char :=
  if c = '"' then ['\\', '"']
  else if c = '\\' then ['\\', '\\']
  else if c = '\x08' then ['\\', 'b']
  else if c = '\x0c' then ['\\', 'f']
  else if c = '\n' then ['\\', 'n']
  else if c = '\r' then ['\\', 'r']
  else if c = '\t' then ['\\', 't']
  else if c < ' ' then
    ['\\', 'u', '0', '0', Nat.digitChar (c.toNat / 16), Nat.digitChar (c.toNat % 16)]
  else [c]

/-- A string between its quotes. -/
def quoted (s : String) : String :=
  String.ofList ('"' :: s.toList.flatMap escaped ++ ['"'])

/-- The largest exponent of a first digit that is written positionally. -/
def greatestPositional : Int := 15

/-- The smallest exponent of a first digit that is written positionally. -/
def leastPositional : Int := -5

/-- Digits with a point after the first, if more follow. -/
def pointed : List Char → List Char
  | d :: e :: rest => d :: '.' :: e :: rest
  | digits => digits

/-- The text of a decimal whose first digit has the given exponent. -/
def decimalText (digits : List Char) (exponent : Int) : List Char :=
  if exponent < leastPositional || greatestPositional < exponent then
    pointed digits ++ ['e', if exponent < 0 then '-' else '+'] ++ Nat.toDigits 10 exponent.natAbs
  else if exponent < 0 then
    ['0', '.'] ++ List.replicate (exponent.natAbs - 1) '0' ++ digits
  else
    let whole := exponent.toNat + 1
    let fraction := digits.drop whole
    digits.take whole ++ List.replicate (whole - digits.length) '0' ++
      '.' :: (if fraction.isEmpty then ['0'] else fraction)

/-- The text of a double. -/
def doubleText (x : Binary64) : String :=
  let magnitude :=
    if x.magnitude.significand = 0 then ['0', '.', '0']
    else
      let decimal := x.magnitude.shortest
      let digits := Nat.toDigits 10 decimal.digits
      let kept := (digits.reverse.dropWhile (· == '0')).reverse
      decimalText kept (decimal.exponent + digits.length - 1)
  String.ofList (if x.negative then '-' :: magnitude else magnitude)

mutual

/-- Appends the text of a value. -/
def write (out : String) : Json → String
  | .null => out ++ "null"
  | .bool true => out ++ "true"
  | .bool false => out ++ "false"
  | .int n => out ++ toString n
  | .float x => out ++ doubleText x
  | .text s => out ++ quoted s
  | .array items => (writeItems true (out.push '[') items).push ']'
  | .object members => (writeMembers true (out.push '\x7b') members).push '\x7d'

/-- Appends the texts of items, each but the first after a comma. -/
def writeItems (first : Bool) (out : String) : List Json → String
  | [] => out
  | v :: rest => writeItems false (write (if first then out else out.push ',') v) rest

/-- Appends the texts of members, each but the first after a comma. -/
def writeMembers (first : Bool) (out : String) : List (String × Json) → String
  | [] => out
  | (key, v) :: rest =>
    let out := (if first then out else out.push ',') ++ quoted key
    writeMembers false (write (out.push ':') v) rest

end

/-- The compact text of a value. -/
def print (v : Json) : String :=
  write "" v

end ChannelRelay.Json
