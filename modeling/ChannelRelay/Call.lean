import ChannelRelay.Channel
import ChannelRelay.Credential
import ChannelRelay.Json.Value
import ChannelRelay.Metrics

/-!
# Calls and dialogues

All work of the relay is written as a dialogue with its surroundings: the store,
the source of tokens, the chat service and the counters.  A dialogue either is
done or makes one call and goes on with the answer.  Since a dialogue is a value,
the same operation can be run against any surroundings, interrupted after any
call and interleaved with others.
-/

namespace ChannelRelay

/-- What the relay asks of its surroundings, one atomic call at a time. -/
inductive Call where
  /-- The records under a name. -/
  | query (name : String)
  /-- Insert a record. -/
  | save (c : Credential)
  /-- Delete the record with this key and token. -/
  | delete (c : Credential)
  /-- Every record. -/
  | scan
  /-- A new token. -/
  | draw
  /-- Every channel, archived ones included. -/
  | listChannels
  /-- Post a message to a channel, named for the case of a rejection. -/
  | post (channel channelName : String) (payload : Json.Members)
  /-- The description of a conversation; none if it cannot be seen. -/
  | conversation (id : String)
  /-- Count an event. -/
  | count (family : Family) (value : String)
  /-- What has been counted. -/
  | counters

/-- What a call is answered with. -/
abbrev Call.Answer : Call → Type
  | .query _ => Except StoreError (List Credential)
  | .save _ => Except StoreError Unit
  | .delete _ => Except StoreError Unit
  | .scan => Except StoreError (List Credential)
  | .draw => Except GenerationError String
  | .listChannels => Except SlackError (List Channel)
  | .post _ _ _ => Except SlackError PostResult
  | .conversation _ => Except SlackError (Option Conversation)
  | .count _ _ => Unit
  | .counters => Metrics

/-- A finite exchange of calls and answers that ends in a value. -/
inductive Dialogue (α : Type) : Type where
  | done (a : α)
  | ask (call : Call) (next : call.Answer → Dialogue α)

namespace Dialogue

/-- Goes on with another dialogue where this one is done. -/
def bind {α β : Type} : Dialogue α → (α → Dialogue β) → Dialogue β
  | .done a, f => f a
  | .ask call next, f => .ask call fun answer => (next answer).bind f

instance : Monad Dialogue where
  pure := .done
  bind := Dialogue.bind

/-- Makes one call. -/
def call (c : Call) : Dialogue c.Answer :=
  .ask c .done

/-- Runs a dialogue in surroundings that answer every call. -/
def run {α σ : Type} (answer : (c : Call) → σ → c.Answer × σ) : Dialogue α → σ → α × σ
  | .done a, s => (a, s)
  | .ask call next, s => (next (answer call s).1).run answer (answer call s).2

/-- Runs a dialogue in surroundings that may leave a call unanswered; the dialogue
is then given up. -/
def runUntil {α σ : Type} (answer : (c : Call) → σ → Option c.Answer × σ) :
    Dialogue α → σ → Option α × σ
  | .done a, s => (some a, s)
  | .ask call next, s =>
    match (answer call s).1 with
    | none => (none, (answer call s).2)
    | some a => (next a).runUntil answer (answer call s).2

end Dialogue

/-- An operation of the relay: a dialogue that may fail. -/
abbrev Operation := ExceptT RelayError Dialogue

namespace Operation

/-- Makes a call and fails with the error that it is answered with. -/
def attempt {ε α : Type} (failure : ε → RelayError) (d : Dialogue (Except ε α)) : Operation α :=
  ExceptT.mk (d.bind fun
    | .ok a => .done (.ok a)
    | .error e => .done (.error (failure e)))

/-- The records under a name. -/
def query (name : String) : Operation (List Credential) :=
  attempt .store (Dialogue.call (.query name))

/-- Inserts a record. -/
def save (c : Credential) : Operation Unit :=
  attempt .store (Dialogue.call (.save c))

/-- Deletes a record. -/
def delete (c : Credential) : Operation Unit :=
  attempt .store (Dialogue.call (.delete c))

/-- Every record. -/
def scan : Operation (List Credential) :=
  attempt .store (Dialogue.call .scan)

/-- A new token. -/
def draw : Operation String :=
  attempt .tokenGeneration (Dialogue.call .draw)

/-- Every channel. -/
def listChannels : Operation (List Channel) :=
  attempt .slack (Dialogue.call .listChannels)

/-- Posts a message. -/
def post (channel channelName : String) (payload : Json.Members) : Operation PostResult :=
  attempt .slack (Dialogue.call (.post channel channelName payload))

/-- The description of a conversation. -/
def conversation (id : String) : Operation (Option Conversation) :=
  attempt .slack (Dialogue.call (.conversation id))

/-- Counts an event. -/
def count (family : Family) (value : String) : Operation Unit :=
  ExceptT.lift (Dialogue.call (.count family value))

end Operation

end ChannelRelay
