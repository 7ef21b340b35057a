import ChannelRelay.Text.Hex

/-!
# Percent-encoding

`%XX` with two hexadecimal digits in either case stands for one byte.  A percent
sign that two digits do not follow stands for itself, so every byte string can be
decoded.
-/

namespace ChannelRelay.Percent

/-- Decodes on from the bytes in `done`, last first. -/
def decodeFrom (done : List UInt8) : List UInt8 → List UInt8
  | [] => done.reverse
  | b :: rest =>
    if b = 0x25 then
      match rest with
      | high :: low :: later =>
        match Hex.value? high, Hex.value? low with
        | some h, some l => decodeFrom (UInt8.ofNat (h * 16 + l) :: done) later
        -- No escape: the sign stands for itself, and an escape may begin right after it.
        | _, _ => decodeFrom (b :: done) (high :: low :: later)
      | short => decodeFrom (b :: done) short
    else decodeFrom (b :: done) rest
termination_by bytes => bytes.length

/-- The bytes that a percent-encoded byte string stands for. -/
def decode (bytes : List UInt8) : List UInt8 :=
  decodeFrom [] bytes

/-- One byte as a percent sign and two upper-case digits. -/
def escape (b : UInt8) : List UInt8 :=
  [0x25, Hex.upperDigit (b.toNat / 16), Hex.upperDigit (b.toNat % 16)]

end ChannelRelay.Percent
