import ChannelRelay.Json.Numeral

/-!
# JSON documents

A JSON text as it is written: members in their order, with repeated keys, numerals
undecided, and strings that may hold half a surrogate pair.  A part that nobody
reads may be nested without end and hold any numeral and any string.

`valueWithin?` reads all of it.  Of a repeated key the last value counts, and a
numeral past the largest double, half a surrogate pair or too deep a nesting leaves
no value.  An object whose first key is `embeddingKey` is not an object: it stands
for the value of a JSON text, which is the string under that key.
-/

namespace ChannelRelay.Json

/-- A JSON text as it is written. -/
inductive Document where
  | null
  | bool (b : Bool)
  | number (n : Numeral)
  /-- A string, `none` if half a surrogate pair stands alone in it. -/
  | text (s : Option String)
  | array (items : List Document)
  | object (members : List (Option String × Document))
deriving BEq, Repr, Inhabited

namespace Document

/-- How many arrays and objects of a value may lie inside each other. -/
def maxDepth : Nat := 127

/-- The first key of an object that stands for an embedded text. -/
def embeddingKey : String := "$serde_json::private::RawValue"

/-- Whether the members are those of an object that stands for an embedded text. -/
def isEmbedding : List (Option String × Document) → Bool
  | (some key, _) :: _ => key == embeddingKey
  | _ => false

/-- The text under the only key. -/
def onlyText? : List (Option String × Document) → Option String
  | [(_, .text s)] => s
  | _ => none

mutual

/-- The value of a document of at most the given depth, in which an embedded text has
the value that `embedded` gives it. -/
def valueWithin? (embedded : String → Option Json) (depth : Nat) : Document → Option Json
  | .null => some .null
  | .bool b => some (.bool b)
  | .number n => n.value?
  | .text s => s.map .text
  | .array items =>
    if depth = 0 then none else (items? embedded (depth - 1) [] items).map .array
  | .object members =>
    if depth = 0 then none
    else if isEmbedding members then (onlyText? members).bind embedded
    else (members? embedded (depth - 1) [] members).map .object

/-- The values of items, after those in `done`, last first. -/
def items? (embedded : String → Option Json) (depth : Nat) (done : List Json) :
    List Document → Option (List Json)
  | [] => some done.reverse
  | d :: rest =>
    match d.valueWithin? embedded depth with
    | none => none
    | some v => items? embedded depth (v :: done) rest

/-- The values of members, set one after the other in `done`. -/
def members? (embedded : String → Option Json) (depth : Nat) (done : Members) :
    List (Option String × Document) → Option Members
  | [] => some done
  | (key, d) :: rest =>
    match key, d.valueWithin? embedded depth with
    | some key, some v => members? embedded depth (done.set key v) rest
    | _, _ => none

end

/-- The value of a document. -/
def value? (embedded : String → Option Json) (d : Document) : Option Json :=
  d.valueWithin? embedded maxDepth

/-- The values of the members of an object, whatever its keys are. -/
def record? (embedded : String → Option Json) : Document → Option Members
  | .object members => members? embedded (maxDepth - 1) [] members
  | _ => none

end Document

end ChannelRelay.Json
