/-!
# Headers

The header fields of a request or an answer, in order.  Names are compared
without regard to case; a look-up takes the first field of a name.
-/

namespace ChannelRelay

/-- A header field. -/
structure Header where
  name : String
  value : List UInt8
deriving DecidableEq, Repr

/-- Header fields in order. -/
abbrev Headers := List Header

/-- A text with its ASCII letters in lower case. -/
def asciiLower (text : String) : String :=
  text.map fun c => if 'A' ≤ c ∧ c ≤ 'Z' then Char.ofNat (c.toNat + 32) else c

/-- The bytes a readable value consists of: printable ASCII and the tab. -/
def isReadable (b : UInt8) : Bool :=
  (0x20 ≤ b && b ≤ 0x7E) || b == 0x09

namespace Headers

/-- The first value of a name given in lower case. -/
def first? (name : String) (headers : Headers) : Option (List UInt8) :=
  (headers.find? (asciiLower ·.name == name)).map Header.value

/-- The first value of a name as a text, if it is readable. -/
def text? (name : String) (headers : Headers) : Option String := do
  let value ← headers.first? name
  if value.all isReadable then
    return String.ofList (value.map fun b => Char.ofNat b.toNat)
  else none

/-- Puts a field in place of all fields of its name. -/
def put (name : String) (value : List UInt8) (headers : Headers) : Headers :=
  headers.filter (asciiLower ·.name != name) ++ [⟨name, value⟩]

end Headers

end ChannelRelay
