import ChannelRelay.Text.Percent
import ChannelRelay.Text.Utf8

/-!
# Form bodies

`application/x-www-form-urlencoded`: fields between `&`, a key and a value on the
two sides of the first `=`, a blank written `+`, and every other byte raw or
percent-encoded.  `parse` reads any byte string; `serialize` writes the standard
form of a list of fields.
-/

namespace ChannelRelay.Form

/-- A key and a value. -/
abbrev Field := String × String

/-- The text of one side of a field: `+` is a blank, escapes are bytes, and
ill-formed bytes are replaced. -/
def decodePart (bytes : List UInt8) : String :=
  Utf8.decodeLossy (Percent.decode (bytes.map fun b => if b = 0x2B then 0x20 else b))

/-- One field: the key ends at the first `=`, and without one the value is empty. -/
def parseField (bytes : List UInt8) : Field :=
  (decodePart (bytes.takeWhile (· != 0x3D)), decodePart ((bytes.dropWhile (· != 0x3D)).drop 1))

/-- The fields of a body in order; nothing between two `&` is no field. -/
def parse (body : List UInt8) : List Field :=
  ((body.splitOn 0x26).filter (!·.isEmpty)).map parseField

/-- The bytes written as themselves: letters, digits and `*-._`. -/
def isPlain (b : UInt8) : Bool :=
  (0x30 ≤ b && b ≤ 0x39) || (0x41 ≤ b && b ≤ 0x5A) || (0x61 ≤ b && b ≤ 0x7A)
    || b == 0x2A || b == 0x2D || b == 0x2E || b == 0x5F

/-- One byte of a field as it is written. -/
def encodeByte (b : UInt8) : List UInt8 :=
  if b = 0x20 then [0x2B] else if isPlain b then [b] else Percent.escape b

/-- One side of a field as it is written. -/
def encodePart (text : String) : List UInt8 :=
  (Utf8.encode text).flatMap encodeByte

/-- One field as it is written. -/
def serializeField (field : Field) : List UInt8 :=
  encodePart field.1 ++ 0x3D :: encodePart field.2

/-- The standard form of a list of fields. -/
def serialize (fields : List Field) : List UInt8 :=
  [0x26].intercalate (fields.map serializeField)

/-- The values of a key, in order. -/
def valuesOf (key : String) (fields : List Field) : List String :=
  (fields.filter (·.1 == key)).map Prod.snd

/-- The last value of a key, or the empty text. -/
def lastOf (key : String) (fields : List Field) : String :=
  (valuesOf key fields).getLastD ""

end ChannelRelay.Form
