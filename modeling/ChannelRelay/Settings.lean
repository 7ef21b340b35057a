import ChannelRelay.Text.Decimal

/-!
# Settings

The settings of the relay, read from variables of its environment.  A numeral that
cannot be read, or is out of range, is taken for a missing one and stands for the
default.  Of several faults the first one in the order of `load` is reported.
-/

namespace ChannelRelay

/-- The variables that are set. -/
abbrev Environment := String → Option String

/-- Why the settings cannot be used. -/
inductive SettingsError where
  /-- A production system may not keep its tokens in memory. -/
  | databaseRequired
  /-- The shortest wait between attempts is longer than the longest one. -/
  | waitsCrossed
  | missing (name : String)
deriving DecidableEq, Repr

namespace SettingsError

/-- The text of a settings error. -/
def message : SettingsError → String
  | .databaseRequired =>
    "DATABASE_URL is not set. The in-memory store loses every token on restart and is refused in production."
  | .waitsCrossed =>
    "HOOKRELAY_RETRY_WAIT_MIN_MS must not exceed HOOKRELAY_RETRY_WAIT_MAX_MS"
  | .missing name => s!"{name} must be set"

/-- The text of a settings error with its cause, if it has one. -/
def fullMessage (e : SettingsError) : String :=
  match e with
  | .missing _ => e.message ++ ": environment variable not found"
  | _ => e.message

end SettingsError

/-- How requests to the chat service are repeated. -/
structure RetrySettings where
  maxRetries : Nat
  /-- The shortest wait, in milliseconds. -/
  waitMin : Nat
  /-- The longest wait, in milliseconds. -/
  waitMax : Nat
  /-- How many milliseconds an attempt may take. -/
  readTimeout : Nat
deriving DecidableEq, Repr

/-- The settings of the relay. -/
structure Settings where
  port : Nat
  /-- Where the database is; without one the records are kept in memory. -/
  databaseUrl : Option String
  slackToken : String
  signingSecret : String
  slackBaseUrl : String
  /-- The channel of the operators. -/
  opsChannel : String
  /-- The domain shown in webhook URLs; without one it is the host of the request. -/
  customDomain : Option String
  retry : RetrySettings
  /-- How many seconds a request may take. -/
  requestTimeout : Nat
  /-- How many seconds lie between reconciliation passes, if there are any. -/
  reconcileInterval : Option Nat
deriving DecidableEq, Repr

namespace Settings

/-- The largest number of 16 bits. -/
def max16 : Nat := UInt16.size - 1

/-- The largest number of 32 bits. -/
def max32 : Nat := UInt32.size - 1

/-- The largest number of 64 bits. -/
def max64 : Nat := UInt64.size - 1

/-- The number that a variable holds. -/
def number? (env : Environment) (name : String) (largest : Nat) : Option Nat :=
  (env name).bind (Decimal.readNat? largest)

/-- The number that a variable holds, or a default. -/
def number (env : Environment) (name : String) (largest default : Nat) : Nat :=
  (number? env name largest).getD default

/-- The text that a variable holds, if it is not empty. -/
def filled? (env : Environment) (name : String) : Option String :=
  (env name).filter (· != "")

/-- The text of a variable that has to be set. -/
def required (env : Environment) (name : String) : Except SettingsError String :=
  match env name with
  | some value => .ok value
  | none => .error (.missing name)

/-- Whether the relay runs in production. -/
def isProduction (env : Environment) : Bool :=
  ((env "HOOKRELAY_ENV").or (env "RUST_ENV")) == some "production"

/-- Where the database is.  In production there has to be one. -/
def databaseUrlOf (env : Environment) : Except SettingsError (Option String) :=
  match filled? env "DATABASE_URL" with
  | some url => .ok (some url)
  | none => if isProduction env then .error .databaseRequired else .ok none

/-- How requests to the chat service are repeated. -/
def retryOf (env : Environment) : Except SettingsError RetrySettings :=
  let waitMin := number env "HOOKRELAY_RETRY_WAIT_MIN_MS" max64 1000
  let waitMax := number env "HOOKRELAY_RETRY_WAIT_MAX_MS" max64 10000
  if waitMax < waitMin then .error .waitsCrossed
  else .ok ⟨number env "HOOKRELAY_RETRY_MAX" max32 3, waitMin, waitMax,
    number env "HOOKRELAY_READ_TIMEOUT_MS" max64 5000⟩

/-- The settings that an environment holds. -/
def load (env : Environment) : Except SettingsError Settings := do
  let databaseUrl ← databaseUrlOf env
  let retry ← retryOf env
  let slackToken ← required env "SLACK_TOKEN"
  let signingSecret ← required env "SLACK_SIGNING_SECRET"
  let opsChannel ← required env "HOOKRELAY_OPS_CHANNEL"
  return {
    port := number env "HOOKRELAY_PORT" max16 3000
    databaseUrl, slackToken, signingSecret
    slackBaseUrl := (env "SLACK_API_BASE_URL").getD "https://slack.com/api"
    opsChannel
    customDomain := filled? env "HOOKRELAY_CUSTOM_DOMAIN"
    retry
    requestTimeout := number env "HOOKRELAY_REQUEST_TIMEOUT_SECS" max64 30
    reconcileInterval :=
      (number? env "HOOKRELAY_RECONCILE_INTERVAL_SECS" max64).filter (0 < ·) }

/-- The variables that settings are read from. -/
def names : List String :=
  ["DATABASE_URL", "HOOKRELAY_ENV", "RUST_ENV", "HOOKRELAY_RETRY_MAX",
    "HOOKRELAY_RETRY_WAIT_MIN_MS", "HOOKRELAY_RETRY_WAIT_MAX_MS", "HOOKRELAY_READ_TIMEOUT_MS",
    "HOOKRELAY_PORT", "SLACK_TOKEN", "SLACK_SIGNING_SECRET", "SLACK_API_BASE_URL",
    "HOOKRELAY_OPS_CHANNEL", "HOOKRELAY_CUSTOM_DOMAIN", "HOOKRELAY_REQUEST_TIMEOUT_SECS",
    "HOOKRELAY_RECONCILE_INTERVAL_SECS"]

end Settings

end ChannelRelay
