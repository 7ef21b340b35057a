import ChannelRelay.Channel
import ChannelRelay.Json.Reader

/-!
# Replies of the chat service

The JSON replies as records.  A record is written as an object, whose unknown keys
are skipped with all that their values hold and whose known keys may stand once, or
as an array of its fields in order, of which only fields with a default may be
missing at the end.
-/

namespace ChannelRelay.Reply

open Json (Document)

/-- The fields of a record in order, `none` for one that is missing.  An array has
between `least` fields and all of them. -/
def fields? (names : List String) (least : Nat) : Document → Option (List (Option Document))
  | .object members => do
    let members ← members.mapM fun m => m.1.map (·, m.2)
    if names.any fun name => 1 < (members.filter (·.1 == name)).length then none
    else return names.map fun name => List.lookup name members
  | .array items =>
    if items.length < least ∨ names.length < items.length then none
    else some (items.map some ++ List.replicate (names.length - items.length) none)
  | _ => none

/-- A truth value. -/
def bool? : Document → Option Bool
  | .bool b => some b
  | _ => none

/-- A text. -/
def text? : Document → Option String
  | .text s => s
  | _ => none

/-- A list. -/
def list? {α : Type} (item : Document → Option α) : Document → Option (List α)
  | .array items => items.mapM item
  | _ => none

/-- A value that may be null. -/
def nullable? {α : Type} (value : Document → Option α) : Document → Option (Option α)
  | .null => some none
  | d => (value d).map some

/-- A field that has to be there. -/
def required? {α : Type} (value : Document → Option α) (field : Option Document) : Option α :=
  field.bind value

/-- A field that stands for a default when it is missing. -/
def optional? {α : Type} (value : Document → Option α) (default : α) :
    Option Document → Option α
  | none => some default
  | some d => value d

/-- Whether a call succeeded, and why not. -/
structure Outcome where
  ok : Bool
  error : String
deriving DecidableEq, Repr

/-- The reply to a posted message. -/
def outcome? (d : Document) : Option Outcome := do
  match ← fields? ["ok", "error"] 1 d with
  | [ok, error] => return ⟨← required? bool? ok, ← optional? text? "" error⟩
  | _ => none

/-- A channel of a listing. -/
def channel? (d : Document) : Option Channel := do
  match ← fields? ["id", "name", "is_archived"] 2 d with
  | [id, name, archived] =>
    return ⟨← required? text? id, ← required? text? name, ← optional? bool? false archived⟩
  | _ => none

/-- The cursor of the next page, empty if it is missing. -/
def cursor? (d : Document) : Option String := do
  match ← fields? ["next_cursor"] 0 d with
  | [cursor] => optional? text? "" cursor
  | _ => none

/-- One page of a listing. -/
structure Page where
  ok : Bool
  error : String
  channels : List Channel
  /-- The cursor of the next page; empty on the last page. -/
  next : String
deriving DecidableEq, Repr

/-- The reply to a request for a page. -/
def page? (d : Document) : Option Page := do
  match ← fields? ["ok", "error", "channels", "response_metadata"] 1 d with
  | [ok, error, channels, metadata] =>
    return ⟨← required? bool? ok, ← optional? text? "" error,
      ← optional? (list? channel?) [] channels,
      (← optional? (nullable? cursor?) none metadata).getD ""⟩
  | _ => none

/-- A described conversation. -/
def conversation? (d : Document) : Option Conversation := do
  match ← fields? ["id", "name", "is_channel", "is_group"] 2 d with
  | [id, name, isChannel, isGroup] =>
    return ⟨← required? text? id, ← required? text? name,
      ← optional? bool? false isChannel, ← optional? bool? false isGroup⟩
  | _ => none

/-- The reply to a request for a conversation. -/
structure Description where
  ok : Bool
  error : String
  conversation : Option Conversation
deriving DecidableEq, Repr

/-- Reads the reply to a request for a conversation. -/
def description? (d : Document) : Option Description := do
  match ← fields? ["ok", "error", "channel"] 3 d with
  | [ok, error, conversation] =>
    return ⟨← required? bool? ok, ← optional? text? "" error,
      ← optional? (nullable? conversation?) none conversation⟩
  | _ => none

end ChannelRelay.Reply
