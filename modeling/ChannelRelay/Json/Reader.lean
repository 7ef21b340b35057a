import ChannelRelay.Json.Document
import ChannelRelay.Json.Token
import ChannelRelay.Text.Utf8

/-!
# Reading JSON

A reader takes one token after the other and keeps the arrays and objects that
are still open on a stack.  A text is a document if the tokens leave exactly one
finished value and no open frame.
-/

namespace ChannelRelay.Json

/-- An array or object that is still open, with its parts so far, last first. -/
inductive Frame where
  | array (items : List Document)
  | object (members : List (Option String × Document))
  /-- An object whose next member has its key. -/
  | member (members : List (Option String × Document)) (key : Option String)
deriving BEq, Repr

/-- What may come next inside the innermost open frame. -/
inductive Place where
  /-- A value has to come. -/
  | value
  /-- A first item or the end of an empty array. -/
  | itemOrEnd
  /-- A first key or the end of an empty object. -/
  | keyOrEnd
  /-- A key has to come. -/
  | key
  /-- The colon between a key and its value. -/
  | colon
  /-- A part has just been completed. -/
  | completed
  /-- The document is complete. -/
  | finished (d : Document)
deriving BEq, Repr

/-- The state of reading. -/
structure Reader where
  stack : List Frame
  place : Place
deriving BEq, Repr

namespace Reader

/-- Nothing has been read. -/
def start : Reader := ⟨[], .value⟩

/-- A value has been read: it becomes a part of the innermost frame. -/
def complete (d : Document) : List Frame → Option Reader
  | [] => some ⟨[], .finished d⟩
  | .array items :: rest => some ⟨.array (d :: items) :: rest, .completed⟩
  | .member members key :: rest => some ⟨.object ((key, d) :: members) :: rest, .completed⟩
  | .object _ :: _ => none

/-- Reads the token that starts a value. -/
def startValue (stack : List Frame) : Token → Option Reader
  | .openArray => some ⟨.array [] :: stack, .itemOrEnd⟩
  | .openObject => some ⟨.object [] :: stack, .keyOrEnd⟩
  | .null => complete .null stack
  | .bool b => complete (.bool b) stack
  | .number n => complete (.number n) stack
  | .text s => complete (.text s) stack
  | _ => none

/-- Reads a key of the innermost object. -/
def startMember (key : Option String) : List Frame → Option Reader
  | .object members :: rest => some ⟨.member members key :: rest, .colon⟩
  | _ => none

/-- Closes the innermost frame, which has to be an array. -/
def closeArray : List Frame → Option Reader
  | .array items :: rest => complete (.array items.reverse) rest
  | _ => none

/-- Closes the innermost frame, which has to be an object. -/
def closeObject : List Frame → Option Reader
  | .object members :: rest => complete (.object members.reverse) rest
  | _ => none

/-- Reads a comma after a part of the innermost frame. -/
def nextPart (stack : List Frame) : Option Reader :=
  match stack with
  | .array _ :: _ => some ⟨stack, .value⟩
  | .object _ :: _ => some ⟨stack, .key⟩
  | _ => none

/-- Reads one token. -/
def step (r : Reader) (t : Token) : Option Reader :=
  match r.place, t with
  | .value, t => startValue r.stack t
  | .itemOrEnd, .closeArray => closeArray r.stack
  | .itemOrEnd, t => startValue r.stack t
  | .keyOrEnd, .closeObject => closeObject r.stack
  | .keyOrEnd, .text key => startMember key r.stack
  | .key, .text key => startMember key r.stack
  | .colon, .colon => some ⟨r.stack, .value⟩
  | .completed, .comma => nextPart r.stack
  | .completed, .closeArray => closeArray r.stack
  | .completed, .closeObject => closeObject r.stack
  | _, _ => none

/-- The document that has been read, if it is complete. -/
def document? (r : Reader) : Option Document :=
  match r.place with
  | .finished d => some d
  | _ => none

/-- Reads a text to its end. -/
def run (r : Reader) (cs : List Char) : Option Document :=
  match _hrest : cs.dropWhile isGap with
  | [] => r.document?
  | c :: rest =>
    match _ht : Token.next? (c :: rest) with
    | none => none
    | some (t, later) =>
      match r.step t with
      | none => none
      | some r => r.run later
termination_by cs.length
decreasing_by
  have hshort := Token.next?_shorter (by assumption)
  have hdrop : (cs.dropWhile isGap).length ≤ cs.length :=
    (List.dropWhile_suffix isGap).length_le
  rw [‹cs.dropWhile isGap = c :: rest›] at hdrop
  omega

end Reader

/-- The document that a text is. -/
def Document.ofChars? (cs : List Char) : Option Document :=
  Reader.start.run cs

/-- The document that a byte string is; ill-formed UTF-8 is none. -/
def Document.ofBytes? (bytes : List UInt8) : Option Document := do
  Document.ofChars? (← Utf8.decode? bytes).toList

/-- The value that a text is, if fewer than `levels` texts are embedded in each other. -/
def valueOf? : Nat → String → Option Json
  | 0, _ => none
  | levels + 1, written => do
    (← Document.ofChars? written.toList).value? (valueOf? levels)

/-- The value that a text is.  An embedded text is shorter than the one around it, so
there are enough levels. -/
def ofText? (text : String) : Option Json :=
  valueOf? (text.length + 1) text

/-- The members of the object that a text is. -/
def recordOfText? (text : String) : Option Members := do
  (← Document.ofChars? text.toList).record? (valueOf? text.length)

/-- The members of the object that a byte string is; ill-formed UTF-8 is none. -/
def recordOfBytes? (bytes : List UInt8) : Option Members := do
  recordOfText? (← Utf8.decode? bytes)

end ChannelRelay.Json
