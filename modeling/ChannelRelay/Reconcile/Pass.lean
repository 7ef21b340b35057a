import ChannelRelay.Call
import ChannelRelay.Reconcile.Plan

/-!
# Reconciliation passes

A pass reads all records and the directory, makes a plan and carries it out step
by step: archived records are announced to the operators and deleted, migrations
and renamings are announced to their channel and to the operators.  The first
failure ends the pass; what was done before stays done, and the next pass plans
anew.
-/

namespace ChannelRelay

/-- That a message was delivered, or why it was not. -/
def PostResult.delivered : PostResult → Except SlackError Unit
  | .ok => .ok ()
  | .timeout => .error .noticeTimeout
  | .serverFailure status body => .error (.noticeFailed status body)
  | .rejected reason id name => .error (.noticeRejected name id reason)

namespace Notice

/-- To the operators: a record is about to be deleted. -/
def archived (a : ArchivedRecord) : String :=
  s!"Channel is archived, deleting record: channel_id={a.record.channelId}, record_channel_name={a.record.channelName}, slack_channel_name={a.listedName}\n"

/-- To the operators: a name has two tokens. -/
def migrationToOps (c : Credential) : String :=
  s!"Token is in migration: channel_name={c.channelName}, channel_id={c.channelId}\n"

/-- To the channel: a name has two tokens. -/
def migration (c : Credential) : String :=
  "Token is in migration. Once all old webhook URLs are replaced, revoke old token: "
    ++ s!"channel_name={c.channelName}, channel_id={c.channelId}\n"

/-- To the operators: a channel has another name. -/
def renamingToOps (r : Renaming) : String :=
  s!"Channel name and channel id pair updated: channel_id={r.channelId}, old_channel_name={r.oldName}, renamed_channel_name={r.newName}\n"

/-- To the channel: it has another name, and its token should be replaced. -/
def rename (r : Renaming) : String :=
  s!"\nDetected channel renaming for this channel: channel_id={r.channelId}, old_channel_name={r.oldName}, renamed_channel_name={r.newName}\n\n"
    ++ "1. Generate new token in this channel.\n"
    ++ "2. Replace old webhook URLs with new URLs.\n"
    ++ "3. When all old URLs are replaced, have the old token revoked: "
    ++ s!"channel_name={r.oldName}, token={r.token}\n"

/-- The payload of a message that is only a text. -/
def payload (text : String) : Json.Members := [("text", .text text)]

end Notice

namespace Reconcile

/-- How much a pass did. -/
structure Report where
  archived : Nat
  migrations : Nat
  renames : Nat
deriving DecidableEq, Repr

/-- Posts a text and fails unless it is delivered. -/
def notify (channel channelName text : String) : Operation Unit := do
  let result ← Operation.post channel channelName (Notice.payload text)
  ExceptT.mk (.done (result.delivered.mapError .slack))

/-- Posts a text to the operators. -/
def notifyOps (ops text : String) : Operation Unit :=
  notify ops ops text

/-- Announces and deletes an archived record. -/
def retire (ops : String) (a : ArchivedRecord) : Operation Unit := do
  -- Announced first: what was not announced is not deleted.
  notifyOps ops (Notice.archived a)
  Operation.delete a.record
  Operation.count .reconcileEvents "archived"

/-- Announces a migration. -/
def announceMigration (ops : String) (c : Credential) : Operation Unit := do
  notify c.channelId c.channelName (Notice.migration c)
  notifyOps ops (Notice.migrationToOps c)
  Operation.count .reconcileEvents "migration"

/-- Announces a renaming. -/
def announceRenaming (ops : String) (r : Renaming) : Operation Unit := do
  notify r.channelId r.newName (Notice.rename r)
  notifyOps ops (Notice.renamingToOps r)
  Operation.count .reconcileEvents "renamed"

/-- Does the steps one after the other. -/
def each {α : Type} (step : α → Operation Unit) : List α → Operation Unit
  | [] => pure ()
  | a :: rest => do
    step a
    each step rest

/-- Carries out a plan. -/
def carryOut (ops : String) (plan : Plan) : Operation Report := do
  each (retire ops) plan.archived
  each (announceMigration ops) plan.migrations
  each (announceRenaming ops) plan.renames
  return ⟨plan.archived.length, plan.migrations.length, plan.renames.length⟩

/-- One pass. -/
def pass (ops : String) : Operation Report := do
  let records ← Operation.scan
  let channels ← Operation.listChannels
  carryOut ops (Plan.of records channels)

end Reconcile

end ChannelRelay
