/-!
# UTF-8

Text as bytes and bytes as text.  `encode` writes a text.  `scan` reads bytes
one character at a time and marks every maximal run of bytes that starts a
character without completing it; `decode?` accepts only bytes without such a
mark, and `decodeLossy` puts the replacement character in its place.
-/

namespace ChannelRelay.Utf8

/-- The bytes of a text, character by character. -/
def encode (text : String) : List UInt8 :=
  text.toList.flatMap String.utf8EncodeChar

/-- Different texts have different bytes. -/
theorem encode_inj {s t : String} (h : encode s = encode t) : s = t := by
  rw [← String.toByteArray_inj, ← String.ofList_toList (s := s), ← String.ofList_toList (s := t),
    String.toByteArray_ofList, String.toByteArray_ofList]
  exact congrArg List.toByteArray h

/-- A character of several bytes that has been opened but not completed. -/
structure Opened where
  /-- The bits read so far. -/
  bits : Nat
  /-- How many bytes follow the next one. -/
  further : Nat
  /-- The smallest next byte that keeps the character well-formed. -/
  low : UInt8
  /-- The largest next byte that keeps the character well-formed. -/
  high : UInt8

/-- What a byte says when no character is open. -/
inductive Lead where
  | single (c : Char)
  | opens (o : Opened)
  | stray

/-- Reads a first byte.  The bounds on the second byte exclude overlong forms,
surrogates and code points past the last plane. -/
def lead (b : UInt8) : Lead :=
  if b < 0x80 then .single (Char.ofNat b.toNat)
  else if b < 0xC2 then .stray
  else if b < 0xE0 then .opens ⟨b.toNat - 0xC0, 0, 0x80, 0xBF⟩
  else if b = 0xE0 then .opens ⟨0, 1, 0xA0, 0xBF⟩
  else if b = 0xED then .opens ⟨0xD, 1, 0x80, 0x9F⟩
  else if b < 0xF0 then .opens ⟨b.toNat - 0xE0, 1, 0x80, 0xBF⟩
  else if b = 0xF0 then .opens ⟨0, 2, 0x90, 0xBF⟩
  else if b < 0xF4 then .opens ⟨b.toNat - 0xF0, 2, 0x80, 0xBF⟩
  else if b = 0xF4 then .opens ⟨4, 2, 0x80, 0x8F⟩
  else .stray

/-- Reads on from a character that may be open; `done` holds what was read, last
first.  A byte that cannot continue the open character ends it as a fault and is
then read as a first byte. -/
def scanFrom (opened : Option Opened) (done : List (Option Char)) :
    List UInt8 → List (Option Char)
  | [] => (if opened.isSome then none :: done else done).reverse
  | b :: rest =>
    let fresh (done : List (Option Char)) :=
      match lead b with
      | .single c => scanFrom none (some c :: done) rest
      | .opens o => scanFrom (some o) done rest
      | .stray => scanFrom none (none :: done) rest
    match opened with
    | none => fresh done
    | some o =>
      if o.low ≤ b ∧ b ≤ o.high then
        -- The byte belongs to the open character and adds six bits to it.
        let bits := o.bits * 64 + (b.toNat - 0x80)
        match o.further with
        | 0 => scanFrom none (some (Char.ofNat bits) :: done) rest
        | n + 1 => scanFrom (some ⟨bits, n, 0x80, 0xBF⟩) done rest
      -- The open character is a fault; the byte may still begin another one.
      else fresh (none :: done)

/-- The characters of a byte string, `none` for each ill-formed run. -/
def scan (bytes : List UInt8) : List (Option Char) :=
  scanFrom none [] bytes

/-- The text of a byte string, if it is well-formed throughout. -/
def decode? (bytes : List UInt8) : Option String :=
  let read := scan bytes
  if read.all Option.isSome then some (String.ofList (read.filterMap id)) else none

/-- The text of a byte string with U+FFFD for each ill-formed run. -/
def decodeLossy (bytes : List UInt8) : String :=
  String.ofList ((scan bytes).map (·.getD '\uFFFD'))

/-- A text without one leading byte order mark. -/
def withoutMark (text : String) : String :=
  match text.toList with
  | '\uFEFF' :: rest => String.ofList rest
  | _ => text

end ChannelRelay.Utf8
