import ChannelRelay.Call
import ChannelRelay.Slack.Client
import ChannelRelay.Store.Mode
import ChannelRelay.Store.Table

/-!
# Surroundings

Everything that answers the calls of the relay, as one value: a store, a source of
tokens that follows a script, the chat service, which is either a scripted
directory or a client on a wire, and the counters.
-/

namespace ChannelRelay

/-- A chat service that says what its script says. -/
structure Directory where
  channels : List Channel
  /-- Why a listing fails, if it does. -/
  listError : Option String
  /-- How the coming posts end; posts past the end succeed. -/
  results : List (Except SlackError PostResult)
deriving Repr

/-- A post that was tried. -/
structure Posted where
  channel : String
  channelName : String
  payload : Json.Members

/-- Where the records are. -/
inductive Store where
  | ledger (mode : StoreMode) (l : Ledger)
  | table (t : Table)

namespace Store

/-- The stored records, however the store shows them. -/
def records : Store → List Credential
  | .ledger _ l => l.records
  | .table t => t.rows.records

/-- The records under a name. -/
def query (name : String) : Store → Except StoreError (List Credential) × Store
  | .ledger mode l => (mode.query l name, .ledger mode l)
  | .table t => ((t.query name).1, .table (t.query name).2)

/-- Every record. -/
def scan : Store → Except StoreError (List Credential) × Store
  | .ledger mode l => (mode.scan l, .ledger mode l)
  | .table t => (t.scan.1, .table t.scan.2)

/-- Inserts a record. -/
def save (c : Credential) : Store → Except StoreError Unit × Store
  | .ledger mode l =>
    match mode.save l c with
    | .ok l => (.ok (), .ledger mode l)
    | .error e => (.error e, .ledger mode l)
  | .table t => ((t.save c).1, .table (t.save c).2)

/-- Deletes a record. -/
def delete (c : Credential) : Store → Except StoreError Unit × Store
  | .ledger mode l =>
    match mode.delete l c with
    | .ok l => (.ok (), .ledger mode l)
    | .error e => (.error e, .ledger mode l)
  | .table t => ((t.delete c).1, .table (t.delete c).2)

section Plain

variable {l l' : Ledger} {c : Credential} {e : StoreError}

theorem query_plain (l : Ledger) (name : String) :
    (ledger .plain l).query name = (.ok (l.query name), .ledger .plain l) := rfl

theorem scan_plain (l : Ledger) : (ledger .plain l).scan = (.ok l.scan, .ledger .plain l) := rfl

theorem save_of_ok (h : l.save c = .ok l') :
    (ledger .plain l).save c = (.ok (), .ledger .plain l') := by
  simp [save, StoreMode.save, StoreMode.fails, h]

theorem save_of_error (h : l.save c = .error e) :
    (ledger .plain l).save c = (.error e, .ledger .plain l) := by
  simp [save, StoreMode.save, StoreMode.fails, h]

theorem delete_of_ok (h : l.delete c = .ok l') :
    (ledger .plain l).delete c = (.ok (), .ledger .plain l') := by
  simp [delete, StoreMode.delete, StoreMode.fails, h]

theorem delete_of_error (h : l.delete c = .error e) :
    (ledger .plain l).delete c = (.error e, .ledger .plain l) := by
  simp [delete, StoreMode.delete, StoreMode.fails, h]

end Plain

end Store

/-- Who answers for the chat service. -/
inductive Chat where
  | directory (d : Directory)
  | client (c : Client) (w : Wire)

namespace Chat

/-- Every channel. -/
def listChannels : Chat → Except SlackError (List Channel) × Chat
  | .directory d =>
    (match d.listError with
      | some text => .error (.reported text)
      | none => .ok d.channels, .directory d)
  | .client c w => ((c.listChannels w).1, .client c (c.listChannels w).2)

/-- Posts a message. -/
def post (channel channelName : String) (payload : Json.Members) :
    Chat → Except SlackError PostResult × Chat
  | .directory d =>
    (d.results.headD (.ok .ok), .directory { d with results := d.results.drop 1 })
  | .client c w =>
    ((c.post channel channelName payload w).1, .client c (c.post channel channelName payload w).2)

/-- The description of a conversation; a directory has it from its listing. -/
def conversation (id : String) : Chat → Except SlackError (Option Conversation) × Chat
  | .directory d =>
    (.ok ((d.channels.find? (·.id == id)).map fun c => ⟨c.id, c.name, true, false⟩), .directory d)
  | .client c w => ((c.conversation id w).1, .client c (c.conversation id w).2)

/-- Whether nobody waits for an answer any more. -/
def isExpired : Chat → Bool
  | .directory _ => false
  | .client _ w => w.isExpired

end Chat

/-- All surroundings of the relay. -/
structure Surroundings where
  store : Store
  /-- The coming tokens; `none` for a failure of the source. -/
  tokens : List (Option String)
  /-- How many tokens were asked for. -/
  drawn : Nat
  chat : Chat
  /-- The posts that were tried, last first. -/
  posted : List Posted
  metrics : Metrics

namespace Surroundings

/-- The surroundings of a store alone. -/
def ofStore (store : Store) (tokens : List (Option String)) : Surroundings :=
  ⟨store, tokens, 0, .directory ⟨[], none, []⟩, [], .zero⟩

/-- The next token of the script. -/
def draw (s : Surroundings) : Except GenerationError String × Surroundings :=
  (match s.tokens with
    | [] => .error (.source "script exhausted")
    | none :: _ => .error (.source "entropy source unavailable")
    | some token :: _ => .ok token,
    { s with tokens := s.tokens.drop 1, drawn := s.drawn + 1 })

/-- Answers a call. -/
def answer : (c : Call) → Surroundings → c.Answer × Surroundings
  | .query name, s => ((s.store.query name).1, { s with store := (s.store.query name).2 })
  | .save c, s => ((s.store.save c).1, { s with store := (s.store.save c).2 })
  | .delete c, s => ((s.store.delete c).1, { s with store := (s.store.delete c).2 })
  | .scan, s => (s.store.scan.1, { s with store := s.store.scan.2 })
  | .draw, s => s.draw
  | .listChannels, s => (s.chat.listChannels.1, { s with chat := s.chat.listChannels.2 })
  | .post channel channelName payload, s =>
    ((s.chat.post channel channelName payload).1,
      { s with
        chat := (s.chat.post channel channelName payload).2
        posted := ⟨channel, channelName, payload⟩ :: s.posted })
  | .conversation id, s => ((s.chat.conversation id).1, { s with chat := (s.chat.conversation id).2 })
  | .count family value, s => ((), { s with metrics := s.metrics.count family value })
  | .counters, s => (s.metrics, s)

/-- Answers a call unless the deadline is over by then. -/
def answerInTime (c : Call) (s : Surroundings) : Option c.Answer × Surroundings :=
  (if (answer c s).2.chat.isExpired then none else some (answer c s).1, (answer c s).2)

/-- Runs an operation to its end. -/
def perform {α : Type} (operation : Operation α) (s : Surroundings) :
    Except RelayError α × Surroundings :=
  Dialogue.run answer operation.run s

end Surroundings

end ChannelRelay
