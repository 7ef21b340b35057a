import ChannelRelay.Http.Status
import ChannelRelay.Text.Form

/-!
# The wire to the chat service

A server that follows a script, reached over a link that is up or down.  Each
request that arrives takes the next step of the script.  One attempt at a request
ends without an answer, in a timeout, or with a status and a body that may break
off or stall; the wire keeps the requests that arrived and the time that timeouts
took.
-/

namespace ChannelRelay

/-- Whether the network carries anything. -/
inductive Link where
  | up
  | down
deriving DecidableEq, Repr

/-- How the body of an answer arrives. -/
inductive Body where
  | whole (bytes : List UInt8)
  /-- The body ends before its announced length. -/
  | short
  /-- The body stops before its announced length and the connection stays open. -/
  | stalled
deriving DecidableEq, Repr

/-- How one attempt at a request ends. -/
inductive Attempt where
  /-- No answer came and none will come. -/
  | unanswered
  /-- No answer came in time. -/
  | timedOut
  | answered (status : Nat) (body : Body)
deriving DecidableEq, Repr

/-- Whether another attempt may end better. -/
def Attempt.isTransient : Attempt → Bool
  | .unanswered => true
  | .timedOut => true
  | .answered status _ => Status.isTransient status

/-- A request as the server receives it. -/
structure Outgoing where
  method : String
  path : String
  query : List Form.Field
  authorization : String
  contentType : Option String
  body : List UInt8
deriving DecidableEq, Repr

/-- What the server does with a request. -/
inductive ServerStep where
  /-- Closes the connection without an answer. -/
  | close
  /-- Never answers. -/
  | hang
  | answer (status : Nat) (body : Body)
deriving DecidableEq, Repr

/-- How an attempt ends that meets a step. -/
def ServerStep.attempt : ServerStep → Attempt
  | .close => .unanswered
  | .hang => .timedOut
  | .answer status body => .answered status body

/-- The step of a server whose script is at its end. -/
def ServerStep.exhausted : ServerStep :=
  .answer 500 (.whole (Utf8.encode "script exhausted"))

/-- Whether an attempt lasts until it is timed out. -/
def Attempt.waits : Attempt → Bool
  | .timedOut => true
  | .answered _ .stalled => true
  | _ => false

/-- The server and the way to it. -/
structure Wire where
  link : Link
  /-- What the server does with the coming requests. -/
  script : List ServerStep
  /-- The requests that arrived, last first. -/
  received : List Outgoing
  /-- How many milliseconds were spent waiting for timeouts. -/
  waited : Nat
  /-- After how many milliseconds of waiting nobody waits any more. -/
  deadline : Option Nat
deriving Repr

namespace Wire

/-- A wire that nothing was sent on. -/
def fresh (link : Link) (script : List ServerStep) (deadline : Option Nat) : Wire :=
  ⟨link, script, [], 0, deadline⟩

/-- Whether the deadline is over. -/
def isExpired (w : Wire) : Bool :=
  match w.deadline with
  | none => false
  | some deadline => deadline ≤ w.waited

/-- Makes one attempt at a request; a timeout takes `timeout` milliseconds. -/
def attempt (timeout : Nat) (request : Outgoing) (w : Wire) : Attempt × Wire :=
  match w.link with
  | .down => (.unanswered, w)
  | .up =>
    let outcome := (w.script.headD .exhausted).attempt
    (outcome,
      { w with
        script := w.script.drop 1
        received := request :: w.received
        waited := if outcome.waits then w.waited + timeout else w.waited })

/-- Makes attempts at a request until one is not transient, at most `retries` more
than one, and none after the deadline. -/
def send (timeout : Nat) (request : Outgoing) : Nat → Wire → Attempt × Wire
  | 0, w => w.attempt timeout request
  | retries + 1, w =>
    let (outcome, w) := w.attempt timeout request
    if outcome.isTransient && !w.isExpired then w.send timeout request retries else (outcome, w)

theorem attempt_script_le (timeout : Nat) (request : Outgoing) (w : Wire) :
    (w.attempt timeout request).2.script.length ≤ w.script.length := by
  unfold attempt
  split <;> simp

theorem attempt_success {timeout : Nat} {request : Outgoing} {w : Wire} {status : Nat}
    {body : Body} (h : (w.attempt timeout request).1 = .answered status body)
    (hstatus : Status.isSuccess status = true) :
    (w.attempt timeout request).2.script.length < w.script.length := by
  unfold attempt at *
  cases hlink : w.link with
  | down => simp [hlink] at h
  | up =>
    cases hscript : w.script with
    | nil =>
      simp [hlink, hscript, ServerStep.exhausted, ServerStep.attempt] at h
      simp [← h.1, Status.isSuccess] at hstatus
    | cons step rest => simp

/-- An answer that reports success was taken from the script. -/
theorem send_success {timeout : Nat} {request : Outgoing} {retries : Nat} {w : Wire}
    {status : Nat} {body : Body} (h : (w.send timeout request retries).1 = .answered status body)
    (hstatus : Status.isSuccess status = true) :
    (w.send timeout request retries).2.script.length < w.script.length := by
  induction retries generalizing w with
  | zero => exact attempt_success h hstatus
  | succ retries ih =>
    simp only [send] at h ⊢
    split at h
    · rename_i hagain
      simp only [hagain, if_true]
      exact Nat.lt_of_lt_of_le (ih h) (attempt_script_le timeout request w)
    · rename_i hagain
      simp only [hagain]
      exact attempt_success h hstatus

end Wire

end ChannelRelay
