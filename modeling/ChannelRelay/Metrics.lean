/-!
# Metrics

Counters in three families, one counter for each label value, and their text for
a scraper.  Counters stand in the order of their label values; a family without
counters is left out.
-/

namespace ChannelRelay

/-- What is counted. -/
inductive Family where
  | commands
  | reconcileEvents
  | webhookRequests
deriving DecidableEq, Repr

namespace Family

/-- The families in the order of their names. -/
def all : List Family := [.commands, .reconcileEvents, .webhookRequests]

/-- The name of a family. -/
def name : Family → String
  | .commands => "hookrelay_commands_total"
  | .reconcileEvents => "hookrelay_reconcile_events_total"
  | .webhookRequests => "hookrelay_webhook_requests_total"

/-- The help text of a family. -/
def help : Family → String
  | .commands => "Slash commands by command name"
  | .reconcileEvents => "Reconciliation events applied, by kind"
  | .webhookRequests => "Webhook requests by outcome"

/-- The label that tells the counters of a family apart. -/
def label : Family → String
  | .commands => "command"
  | .reconcileEvents => "kind"
  | .webhookRequests => "outcome"

end Family

/-- Counts by label value, in the order of the values. -/
abbrev Counts := List (String × Nat)

/-- Adds to the count of a label value. -/
def Counts.add (value : String) (n : Nat) : Counts → Counts
  | [] => [(value, n)]
  | (v, m) :: rest =>
    if value < v then (value, n) :: (v, m) :: rest
    else if value = v then (v, m + n) :: rest
    else (v, m) :: Counts.add value n rest

/-- The count of a label value. -/
def Counts.get (value : String) (counts : Counts) : Nat :=
  (counts.lookup value).getD 0

/-- The counters of all families. -/
structure Metrics where
  commands : Counts
  reconcileEvents : Counts
  webhookRequests : Counts
deriving DecidableEq, Repr

namespace Metrics

/-- Nothing has been counted. -/
def zero : Metrics := ⟨[], [], []⟩

/-- The counters of a family. -/
def of (m : Metrics) : Family → Counts
  | .commands => m.commands
  | .reconcileEvents => m.reconcileEvents
  | .webhookRequests => m.webhookRequests

/-- Counts one event. -/
def count (m : Metrics) (family : Family) (value : String) : Metrics :=
  match family with
  | .commands => { m with commands := m.commands.add value 1 }
  | .reconcileEvents => { m with reconcileEvents := m.reconcileEvents.add value 1 }
  | .webhookRequests => { m with webhookRequests := m.webhookRequests.add value 1 }

/-- The counts that were added after `before`. -/
def since (m before : Metrics) : Metrics :=
  let added (now earlier : Counts) : Counts :=
    (now.map fun c => (c.1, c.2 - earlier.get c.1)).filter (·.2 != 0)
  ⟨added m.commands before.commands, added m.reconcileEvents before.reconcileEvents,
    added m.webhookRequests before.webhookRequests⟩

/-- A label value between its quotes. -/
def escapedValue (value : String) : String :=
  String.ofList (value.toList.flatMap fun c =>
    if c = '\\' then ['\\', '\\']
    else if c = '"' then ['\\', '"']
    else if c = '\n' then ['\\', 'n']
    else [c])

/-- The line of one counter. -/
def sampleLine (family : Family) (sample : String × Nat) : String :=
  family.name ++ "\x7b" ++ family.label ++ "=\"" ++ escapedValue sample.1 ++ "\"\x7d "
    ++ toString sample.2

/-- The lines of the counters of a family. -/
def familyLines (m : Metrics) (family : Family) : List String :=
  (m.of family).map (sampleLine family)

/-- The lines of all counters. -/
def lines (m : Metrics) : List String :=
  Family.all.flatMap m.familyLines

/-- The lines of a family, under its help and its type. -/
def familyText (m : Metrics) (family : Family) : List String :=
  if (m.of family).isEmpty then []
  else
    ("# HELP " ++ family.name ++ " " ++ family.help) ::
      ("# TYPE " ++ family.name ++ " counter") :: m.familyLines family

/-- The text of all counters. -/
def text (m : Metrics) : String :=
  String.join ((Family.all.flatMap m.familyText).map (· ++ "\n"))

/-- The start of the names of the commands of the relay. -/
def commandStart : String := "/hookrelay-"

/-- The label value of a command; commands that cannot be ours share one. -/
def commandValue (command : String) : String :=
  if commandStart.toList.isPrefixOf command.toList then command else "other"

end Metrics

end ChannelRelay
