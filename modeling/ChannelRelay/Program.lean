import ChannelRelay.CommandLine.Invocation
import ChannelRelay.Reconcile.Pass
import ChannelRelay.Server.Respond
import ChannelRelay.Settings

/-!
# The program

What a start of the relay does: its words and its environment are checked first
and decide on a job; the store is opened next, and then the job is done.  Only the
jobs that talk to the chat service need the settings for it.
-/

namespace ChannelRelay

/-- How a run ends. -/
structure Exit where
  code : UInt8
  /-- What it prints. -/
  output : String
  /-- What it reports as its failure, if it does. -/
  failure : Option String
deriving DecidableEq, Repr

namespace Exit

/-- A run that did what it was asked. -/
def success (output : String) : Exit := ⟨0, output, none⟩

/-- A run that failed. -/
def failed (reason : String) : Exit := ⟨1, "", some reason⟩

/-- A run whose words were no invocation. -/
def stopped : CommandLine.Stop → Exit
  | .help text => success text
  | .version text => success (text ++ "\n")
  | .fault _ => ⟨2, "", none⟩

/-- The first line of a text that a line feed follows.  A carriage return in front
of a line feed belongs to the end of the line. -/
def firstLine (text : String) : String :=
  let line := text.toList.takeWhile (· != '\n')
  String.ofList (if line.getLast? = some '\r' then line.dropLast else line)

/-- The first line of the report of a failure; empty without one. -/
def firstErrorLine (e : Exit) : String :=
  match e.failure with
  | none => ""
  | some reason => firstLine ("Error: " ++ reason)

end Exit

/-- What a run has to do. -/
inductive Job where
  | serve (settings : Settings) (port : Nat)
  | reconcile (settings : Settings)
  | listTokens (databaseUrl : Option String) (channelName : String)
  | revokeToken (databaseUrl : Option String) (channelName token : String)
deriving DecidableEq, Repr

namespace Job

/-- The job of an invocation. -/
def ofInvocation (env : Environment) : Option Invocation → Except SettingsError Job
  | none => do
    let settings ← Settings.load env
    return .serve settings settings.port
  | some (.serve port) => do
    let settings ← Settings.load env
    return .serve settings (port.getD settings.port)
  | some .reconcile => do
    return .reconcile (← Settings.load env)
  | some (.listTokens channelName) => do
    return .listTokens (← Settings.databaseUrlOf env) channelName
  | some (.revokeToken channelName token) => do
    return .revokeToken (← Settings.databaseUrlOf env) channelName token

/-- The job that words and an environment decide on, or how the run ends without one. -/
def of (env : Environment) (words : List String) : Except Exit Job :=
  match Invocation.read words with
  | .error stop => .error (.stopped stop)
  | .ok invocation => (ofInvocation env invocation).mapError fun e => .failed e.message

/-- Where the database of a job is. -/
def databaseUrl : Job → Option String
  | .serve settings _ => settings.databaseUrl
  | .reconcile settings => settings.databaseUrl
  | .listTokens url _ => url
  | .revokeToken url _ _ => url

/-- The store of a job: the table behind the link, or an empty ledger in memory. -/
def store (link : Link) (rows : Ledger) (job : Job) : Except DatabaseError Store :=
  match job.databaseUrl, link with
  | none, _ => .ok (.ledger .plain .empty)
  | some _, .up => .ok (.table (.ofLedger rows))
  | some _, .down => .error .unreachable

end Job

namespace Settings

/-- The client of the chat service; `basePath` is the path of its base URL. -/
def client (s : Settings) (basePath : String) : Client :=
  ⟨s.slackToken, basePath, s.retry.maxRetries, s.retry.readTimeout⟩

/-- What the server knows from the settings. -/
def server (s : Settings) : Server :=
  ⟨s.signingSecret, s.customDomain⟩

end Settings

namespace Program

/-- The line of a token. -/
def entryLine (entry : Entry) : String :=
  s!"v{entry.version.toInt}\t{entry.createdAt.offsetText}\t{entry.token}\n"

/-- What is printed about the tokens of a name. -/
def listing (channelName : String) (entries : List Entry) : String :=
  if entries.isEmpty then s!"No tokens registered for {channelName}\n"
  else String.join (entries.map entryLine)

/-- How a run ends that revoked a token. -/
def revocation (channelName : String) : Rotation.Revoked → Exit
  | .revoked => .success s!"Token revoked: channel_name={channelName}\n"
  | .notFound => .failed s!"no token matched: channel_name={channelName}"

/-- What is printed about a reconciliation pass. -/
def summary (report : Reconcile.Report) : String :=
  s!"reconciled: archived={report.archived}, migrations={report.migrations}, renames={report.renames}\n"

/-- The work of a job that ends by itself; serving does not. -/
def work? : Job → Option (Operation Exit)
  | .serve _ _ => none
  | .reconcile settings => some do
    let report ← Reconcile.pass settings.opsChannel
    return .success (summary report)
  | .listTokens _ channelName => some do
    let entries ← Rotation.entries channelName
    return .success (listing channelName entries)
  | .revokeToken _ channelName token => some do
    let outcome ← Rotation.revoke channelName token
    return revocation channelName outcome

/-- Does work in its surroundings to the end. -/
def finish (work : Operation Exit) (around : Surroundings) : Exit × Surroundings :=
  match around.perform work with
  | (.ok exit, around) => (exit, around)
  | (.error e, around) => (.failed e.message, around)

end Program

end ChannelRelay
