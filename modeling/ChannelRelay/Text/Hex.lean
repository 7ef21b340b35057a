/-!
# Hexadecimal digits

Bytes as pairs of lower-case digits, and the value of a digit in either case.
-/

namespace ChannelRelay.Hex

/-- The lower-case digit of a value below sixteen, as a byte. -/
def digit (n : Nat) : UInt8 :=
  UInt8.ofNat (if n < 10 then 0x30 + n else 0x57 + n)

/-- The upper-case digit of a value below sixteen, as a byte. -/
def upperDigit (n : Nat) : UInt8 :=
  UInt8.ofNat (if n < 10 then 0x30 + n else 0x37 + n)

/-- The value of a digit in either case. -/
def value? (b : UInt8) : Option Nat :=
  if 0x30 ≤ b ∧ b ≤ 0x39 then some (b.toNat - 0x30)
  else if 0x41 ≤ b ∧ b ≤ 0x46 then some (b.toNat - 0x37)
  else if 0x61 ≤ b ∧ b ≤ 0x66 then some (b.toNat - 0x57)
  else none

/-- Two lower-case digits for each byte. -/
def text (bytes : List UInt8) : String :=
  String.ofList (bytes.flatMap fun b =>
    [Char.ofNat (digit (b.toNat / 16)).toNat, Char.ofNat (digit (b.toNat % 16)).toNat])

/-- The bytes that pairs of digits stand for. -/
def bytes? : List UInt8 → Option (List UInt8)
  | [] => some []
  | [_] => none
  | a :: b :: rest => do
    let high ← value? a
    let low ← value? b
    let rest ← bytes? rest
    return UInt8.ofNat (high * 16 + low) :: rest

end ChannelRelay.Hex
