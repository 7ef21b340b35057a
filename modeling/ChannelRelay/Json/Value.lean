import ChannelRelay.Number.Binary64

/-!
# JSON values

A JSON value with its numbers decided: whole numbers in the range of 64-bit
integers are exact, all others are doubles.  The members of an object are kept in
ascending order of their keys, each key once.
-/

namespace ChannelRelay

/-- A JSON value. -/
inductive Json where
  | null
  | bool (b : Bool)
  | int (n : Int)
  | float (x : Binary64)
  | text (s : String)
  | array (items : List Json)
  | object (members : List (String × Json))
deriving BEq, Repr, Inhabited

namespace Json

/-- The members of an object. -/
abbrev Members := List (String × Json)

/-- Gives a key a value in its place among the keys, in place of the value it had. -/
def Members.set (key : String) (value : Json) : Members → Members
  | [] => [(key, value)]
  | (k, v) :: rest =>
    if key < k then (key, value) :: (k, v) :: rest
    else if key = k then (key, value) :: rest
    else (k, v) :: Members.set key value rest

/-- The value of a key. -/
def Members.get? (key : String) (members : Members) : Option Json :=
  List.lookup key members

/-- The object of some members, in any order; the last of equal keys counts. -/
def ofMembers (members : Members) : Json :=
  .object (members.foldl (fun done m => Members.set m.1 m.2 done) [])

end Json

end ChannelRelay
