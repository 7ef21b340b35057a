import ChannelRelay.Text.Percent
import ChannelRelay.Text.Utf8

/-!
# Webhook addresses

A webhook is addressed by the name of a channel and a token, as the path
`/p/<name>/<token>` with at most one further slash.  The two segments are taken
apart before their percent-encoding is undone, so an encoded slash stays inside
its segment.
-/

namespace ChannelRelay

/-- What a webhook path says. -/
structure Address where
  channelName : String
  token : String
deriving DecidableEq, Repr

namespace Address

/-- The characters of a segment and what follows its slash, if one ends it. -/
def cutSegment (cs : List Char) : List Char × Option (List Char) :=
  (cs.takeWhile (· != '/'),
    match cs.dropWhile (· != '/') with
    | [] => none
    | _ :: rest => some rest)

/-- The two segments of a webhook path, as they are written. -/
def segments? (path : String) : Option (String × String) :=
  match path.toList with
  | '/' :: 'p' :: '/' :: rest =>
    match cutSegment rest with
    | (_, none) => none
    | (first, some rest) =>
      let (second, last) := cutSegment rest
      if first.isEmpty || second.isEmpty || (last.any fun rest => !rest.isEmpty) then none
      else some (String.ofList first, String.ofList second)
  | _ => none

/-- The text that a percent-encoded segment stands for, if its bytes are a text. -/
def decoded? (segment : String) : Option String :=
  Utf8.decode? (Percent.decode (Utf8.encode segment))

/-- The address that a path is. -/
def ofPath? (path : String) : Option Address := do
  let (first, second) ← segments? path
  let channelName ← decoded? first
  let token ← decoded? second
  return ⟨channelName, token⟩

/-- The path that is written for an address. -/
def path (a : Address) : String :=
  "/p/" ++ a.channelName ++ "/" ++ a.token ++ "/"

/-- The URL that is written for an address under a domain. -/
def url (domain : String) (a : Address) : String :=
  "https://" ++ domain ++ a.path

/-- A path with its token hidden, so that it can be logged.  A path that looks like
a webhook but is none is hidden altogether. -/
def masked (path : String) : String :=
  match segments? path with
  | some (first, _) => "/p/" ++ first ++ "/****/"
  | none =>
    match path.toList with
    | '/' :: 'p' :: '/' :: _ => "/p/****"
    | _ => path

end Address

end ChannelRelay
