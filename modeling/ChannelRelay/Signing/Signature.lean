import ChannelRelay.Http.Header
import ChannelRelay.Signing.Sha256
import ChannelRelay.Text.Decimal
import ChannelRelay.Text.Hex
import ChannelRelay.Text.Utf8

/-!
# Request signatures

A caller proves that it knows the signing secret by sending a timestamp and the
keyed digest of `v0:<timestamp>:<body>`.  A request is accepted if its digest is
right and its timestamp is at most five minutes from the clock of the receiver.

Times are seconds since 1970 in 64 bits, and their distance is taken with
saturating arithmetic.
-/

namespace ChannelRelay.Signature

/-- The version of the scheme. -/
def version : String := "v0"

/-- The header that carries the signature. -/
def signatureHeader : String := "x-slack-signature"

/-- The header that carries the timestamp. -/
def timestampHeader : String := "x-slack-request-timestamp"

/-- How many seconds a timestamp may be away from the clock. -/
def maxSkew : Int64 := 300

/-- The bytes that are signed. -/
def message (timestamp : Int64) (body : List UInt8) : List UInt8 :=
  Utf8.encode (version ++ ":" ++ toString timestamp.toInt ++ ":") ++ body

/-- The signature of a body at a time. -/
def sign (secret : String) (timestamp : Int64) (body : List UInt8) : String :=
  version ++ "=" ++ Hex.text (Sha256.hmac (Utf8.encode secret) (message timestamp body))

/-- The 64-bit number nearest to an integer. -/
def saturated (n : Int) : Int64 :=
  Int64.ofInt (max Int64.minValue.toInt (min Int64.maxValue.toInt n))

/-- The distance of two times in saturating arithmetic. -/
def skew (now timestamp : Int64) : Int64 :=
  saturated (saturated (now.toInt - timestamp.toInt)).toInt.natAbs

/-- The time that a timestamp text denotes: an optional sign and digits. -/
def readTimestamp? (text : String) : Option Int64 :=
  (Decimal.readInt? Int64.minValue.toInt Int64.maxValue.toInt text).map Int64.ofInt

/-- Whether a request is signed with the secret and fresh. -/
def verify (secret : String) (headers : Headers) (body : List UInt8) (now : Int64) : Bool :=
  match headers.text? signatureHeader, headers.text? timestampHeader with
  | some given, some text =>
    match readTimestamp? text with
    | none => false
    | some timestamp => skew now timestamp ≤ maxSkew && given == sign secret timestamp body
  | _, _ => false

end ChannelRelay.Signature
