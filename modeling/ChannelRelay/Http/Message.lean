import ChannelRelay.Http.Header
import ChannelRelay.Text.Utf8

/-!
# Requests and responses

A request is its method, its target, its headers and its body; of the target only
the path decides what is asked for.  A response is a status, headers and a body.
-/

namespace ChannelRelay

/-- A request as it arrives. -/
structure Request where
  method : String
  target : String
  headers : Headers
  body : List UInt8
deriving DecidableEq, Repr

/-- The text after `://`, if there is one. -/
def afterScheme? : List Char → Option (List Char)
  | ':' :: '/' :: '/' :: rest => some rest
  | _ :: rest => afterScheme? rest
  | [] => none

/-- The path of a request target: what stands before a query or a fragment, without
the scheme and the authority of an absolute target. -/
def targetPath (target : String) : String :=
  let place := target.toList.takeWhile fun c => c != '?' && c != '#'
  match place with
  | '/' :: _ => String.ofList place
  | ['*'] => "*"
  | _ =>
    match afterScheme? place with
    | none => ""
    | some rest =>
      match rest.dropWhile (· != '/') with
      | [] => "/"
      | path => String.ofList path

/-- The path of a request. -/
def Request.path (r : Request) : String :=
  targetPath r.target

/-- An answer to a request. -/
structure Response where
  status : Nat
  headers : Headers
  body : List UInt8
deriving DecidableEq, Repr

/-- The header that names the media type of a body. -/
def contentType : String := "content-type"

namespace Response

/-- A response without a body. -/
def empty (status : Nat) : Response :=
  ⟨status, [], []⟩

/-- A response whose body is a text of a media type. -/
def typed (status : Nat) (mediaType text : String) : Response :=
  ⟨status, [⟨contentType, Utf8.encode mediaType⟩], Utf8.encode text⟩

/-- A plain text. -/
def plain (status : Nat) (text : String) : Response :=
  typed status "text/plain; charset=utf-8" text

/-- A JSON text. -/
def json (status : Nat) (text : String) : Response :=
  typed status "application/json" text

/-- Gives a header a value, in place of the one it had. -/
def withHeader (name : String) (value : List UInt8) (r : Response) : Response :=
  { r with headers := r.headers.put name value }

/-- The response without its body. -/
def withoutBody (r : Response) : Response :=
  { r with body := [] }

end Response

end ChannelRelay
