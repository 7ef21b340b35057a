import ChannelRelay.Call

/-!
# The life of a token

Tokens are issued, shown, checked, rotated and revoked.  Every operation reads the
records of the channel name afresh and makes at most one write, which the store
refuses if another writer came first.  A name has at most `maxTokens` records: the
second one is added for a rotation and the old one is revoked when it is over.
-/

namespace ChannelRelay.Rotation

/-- How many records a name may have. -/
def maxTokens : Nat := 2

/-- The records under a name in the order of their versions. -/
def records (name : String) : Operation (List Credential) := do
  let found ← Operation.query name
  return found.mergeSort fun a b => a.version ≤ b.version

/-- The entries under a name; the first record that cannot be read is an error. -/
def entries (name : String) : Operation (List Entry) := do
  let found ← records name
  ExceptT.mk (.done (found.mapM Credential.entry))

/-- What a token turns out to be. -/
inductive Verdict where
  /-- Nothing is registered under the name. -/
  | notFound
  /-- No record under the name holds the token. -/
  | unmatch
  | matched (channelId channelName : String)
deriving DecidableEq, Repr

/-- Checks a token against the records under a name, as the store returns them. -/
def verify (name token : String) : Operation Verdict := do
  let found ← Operation.query name
  if found.isEmpty then return .notFound
  match found.find? (·.token == token) with
  | some c => return .matched c.channelId c.channelName
  | none => return .unmatch

/-- A token that a name has, and whether it is new. -/
structure Issue where
  token : String
  isNew : Bool
deriving DecidableEq, Repr

/-- Gives a name its first token; a token that is there already is returned. -/
def issue (now : Instant) (channelId name : String) : Operation Issue := do
  match ← records name with
  | c :: _ => return ⟨c.token, false⟩
  | [] =>
    let token ← Operation.draw
    -- Version 0 is taken if another first token was issued since the query.
    Operation.save (.issuedAt now channelId name token 0)
    return ⟨token, true⟩

/-- Draws up to `draws` tokens until one is not in use. -/
def drawFresh (inUse : List Credential) : Nat → Operation String
  | 0 => throw (.tokenGeneration .collisions)
  | draws + 1 => do
    let token ← Operation.draw
    if inUse.all (·.token != token) then return token
    drawFresh inUse draws

/-- How a rotation ended. -/
inductive Added where
  | noTokenFound
  | tooManyTokens
  | generated (token : String)
deriving DecidableEq, Repr

/-- Adds a second token under a name. -/
def add (now : Instant) (channelId name : String) : Operation Added := do
  let found ← records name
  match found.getLast? with
  | none => return .noTokenFound
  | some latest =>
    if maxTokens ≤ found.length then return .tooManyTokens
    let token ← drawFresh found maxDraws
    Operation.save (.issuedAt now channelId name token (latest.version + 1))
    return .generated token

/-- How a revocation ended. -/
inductive Revoked where
  | notFound
  | revoked
deriving DecidableEq, Repr

/-- Deletes the record of a token under a name. -/
def revoke (name token : String) : Operation Revoked := do
  let found ← records name
  match found.find? (·.token == token) with
  | none => return .notFound
  | some c =>
    Operation.delete c
    return .revoked

/-- How the revocation of a token under an earlier name ended. -/
inductive RevokedRenamed where
  | notFound
  /-- The token belongs to the caller's own channel. -/
  | stillLinked (channelId : String)
  | revoked
deriving DecidableEq, Repr

/-- Deletes the record of a token that another channel left under a name. -/
def revokeRenamed (channelId name token : String) : Operation RevokedRenamed := do
  let found ← records name
  match found.find? (·.token == token) with
  | none => return .notFound
  | some c =>
    if c.channelId = channelId then return .stillLinked c.channelId
    Operation.delete c
    return .revoked

end ChannelRelay.Rotation
