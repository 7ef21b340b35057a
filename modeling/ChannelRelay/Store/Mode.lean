import ChannelRelay.Store.Ledger

/-!
# Store modes

How a ledger answers the calls of its users.  Besides the plain ledger there are
ledgers that hide records, refuse writes or fail, so that every path of an
operation can be taken.
-/

namespace ChannelRelay

/-- The calls that a store answers. -/
inductive StoreMethod where
  | query
  | save
  | delete
  | scan
deriving DecidableEq, Repr

/-- How a store treats its calls. -/
inductive StoreMode where
  | plain
  /-- Queries and scans come back in descending order. -/
  | reversed
  /-- Queries see only the records with version 0. -/
  | stale
  /-- Every key looks taken to an insert. -/
  | conflicting
  /-- Every record looks gone to a delete. -/
  | gone
  /-- One method fails. -/
  | failing (method : StoreMethod)
deriving DecidableEq, Repr

namespace StoreMode

/-- The error of a method that fails. -/
def fault : StoreError := .database .noRow

/-- Whether a method fails. -/
def fails (mode : StoreMode) (method : StoreMethod) : Bool :=
  mode == .failing method

/-- The records under a name, as a mode shows them. -/
def query (mode : StoreMode) (l : Ledger) (name : String) :
    Except StoreError (List Credential) :=
  match mode with
  | .reversed => .ok (l.query name).reverse
  | .stale => .ok ((l.query name).filter (·.version == 0))
  | _ => if mode.fails .query then .error fault else .ok (l.query name)

/-- Every record, as a mode shows them. -/
def scan (mode : StoreMode) (l : Ledger) : Except StoreError (List Credential) :=
  match mode with
  | .reversed => .ok l.scan.reverse
  | _ => if mode.fails .scan then .error fault else .ok l.scan

/-- An insert under a mode. -/
def save (mode : StoreMode) (l : Ledger) (c : Credential) : Except StoreError Ledger :=
  match mode with
  | .conflicting => .error (.conflict c.channelName c.version)
  | _ => if mode.fails .save then .error fault else l.save c

/-- A delete under a mode. -/
def delete (mode : StoreMode) (l : Ledger) (c : Credential) : Except StoreError Ledger :=
  match mode with
  | .gone => .error (.noMatch c.channelName c.version)
  | _ => if mode.fails .delete then .error fault else l.delete c

end StoreMode

end ChannelRelay
