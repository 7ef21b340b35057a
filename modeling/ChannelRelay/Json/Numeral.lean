import ChannelRelay.Json.Value
import ChannelRelay.Text.Decimal

/-!
# JSON numerals

A numeral as it is written, and the number it denotes.  Digits are gathered in a
64-bit register; digits that no longer fit only count for the exponent.  A
numeral without fraction and exponent whose digits fit is a whole number if it
lies in the range of a 64-bit integer; every other numeral is a double, got from
the register by double arithmetic.
-/

namespace ChannelRelay.Json

/-- A numeral in its written parts. -/
structure Numeral where
  negative : Bool
  /-- The digits of the whole part. -/
  whole : List Char
  /-- The digits after the point, if there is one. -/
  fraction : Option (List Char)
  /-- Whether the exponent is negative, and its digits, if there is one. -/
  exponent : Option (Bool × List Char)
deriving BEq, Repr

/-- The numeral of a whole number. -/
def Numeral.ofInt (n : Int) : Numeral :=
  ⟨n < 0, Nat.toDigits 10 n.natAbs, none, none⟩

/-- The largest content of the register. -/
def registerLimit : Nat := UInt64.size - 1

/-- Adds digits to the register as long as they fit; the digits left over. -/
def gather (register : Nat) : List Char → Nat × List Char
  | [] => (register, [])
  | c :: rest =>
    let next := Decimal.follow register c
    if next ≤ registerLimit then gather next rest else (register, c :: rest)

/-- The double `± register * 10 ^ power`, if it is finite. -/
def double? (negative : Bool) (register : Nat) (power : Int) : Option Json := do
  let significand ← Magnitude.ofRatio? register 1
  let magnitude ← significand.timesTenTo? power
  return .float ⟨negative, magnitude⟩

/-- The whole number `± register`, as a double where 64 bits cannot hold it. -/
def whole? (negative : Bool) (register : Nat) : Option Json :=
  if negative && (register == 0 || UInt64.size / 2 < register) then double? true register 0
  else some (.int (if negative then -register else register))

/-- The largest exponent that is not out of the question. -/
def exponentLimit : Nat := 2147483647

namespace Numeral

/-- The register after whole part and fraction, and the power of ten it is short of. -/
def gathered (n : Numeral) : Nat × Int :=
  let (register, dropped) := gather 0 n.whole
  match n.fraction with
  | none => (register, dropped.length)
  | some digits =>
    let (register, unread) := gather register digits
    (register, dropped.length - (digits.length - unread.length : Nat))

/-- The number a numeral denotes; none if it is past the largest double. -/
def value? (n : Numeral) : Option Json :=
  let (register, power) := n.gathered
  match n.exponent with
  | none => if n.fraction.isNone && power == 0 then whole? n.negative register
    else double? n.negative register power
  | some (down, digits) =>
    match Decimal.upTo? exponentLimit digits with
    | none => if register != 0 && !down then none else some (.float ⟨n.negative, .zero⟩)
    | some exponent =>
      double? n.negative register (if down then power - exponent else power + exponent)

end Numeral

end ChannelRelay.Json
