import ChannelRelay.Text.Hex

/-!
# Tokens

A token is `size` random bytes, written in hexadecimal.
-/

namespace ChannelRelay.Token

/-- How many random bytes a token has. -/
def size : Nat := 16

/-- The token of some random bytes, if they are as many as a token has. -/
def ofBytes? (bytes : List UInt8) : Option String :=
  if bytes.length = size then some (Hex.text bytes) else none

end ChannelRelay.Token
