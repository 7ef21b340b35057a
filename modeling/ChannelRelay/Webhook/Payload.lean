import ChannelRelay.Http.Message
import ChannelRelay.Json.Reader
import ChannelRelay.Text.Blank
import ChannelRelay.Text.Form
import ChannelRelay.Failure

/-!
# Webhook payloads

A payload is a JSON object.  It is the body itself, whatever its media type, or
the value of the only `payload` field of a form body.
-/

namespace ChannelRelay

/-- Why a body holds no payload. -/
inductive PayloadError where
  /-- A form has several `payload` fields. -/
  | severalFields (count : Nat)
  /-- What should be a JSON object is none. -/
  | malformed
deriving DecidableEq, Repr

/-- The text of a payload error. -/
def PayloadError.message : PayloadError → String
  | .severalFields count => s!"the `payload` field must be a single value: len={count}"
  | .malformed => "failed to unmarshal JSON: " ++ jsonDetail

namespace Payload

/-- The media type of forms. -/
def formType : String := "application/x-www-form-urlencoded"

/-- Whether the media type of a body is that of forms, whatever its parameters. -/
def isForm (headers : Headers) : Bool :=
  match headers.text? contentType with
  | none => false
  | some mediaType =>
    asciiLower (Blank.trim (String.ofList (mediaType.toList.takeWhile (· != ';')))) == formType

/-- The field of a form that holds the payload. -/
def field : String := "payload"

/-- A payload that was read from a JSON text. -/
def found : Option Json.Members → Except PayloadError Json.Members
  | some members => .ok members
  | none => .error .malformed

/-- The payload in a body.  A form without the field is taken for JSON that was sent
under the wrong media type. -/
def read (headers : Headers) (body : List UInt8) : Except PayloadError Json.Members :=
  if isForm headers then
    match Form.valuesOf field (Form.parse body) with
    | [] => found (Json.recordOfBytes? body)
    | [value] => found (Json.recordOfText? value)
    | values => .error (.severalFields values.length)
  else found (Json.recordOfBytes? body)

end Payload

end ChannelRelay
