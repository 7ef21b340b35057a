/-!
# The schedule of passes

Passes are due at regular times from the start on.  A pass that is due while the
one before still runs begins when that one ends; if it begins late by more than
`tolerance`, the time of the next one is counted from there.  All times are in
milliseconds.  Whoever looks at the horizon comes first there: what begins or ends
at that very time has not happened yet.
-/

namespace ChannelRelay.Schedule

/-- How late a pass may begin without moving the times of the later ones. -/
def tolerance : Nat := 5

/-- When the pass after one is due. -/
def nextDue (every due start : Nat) : Nat :=
  if due + tolerance < start then start + every else due + every

/-- A pass: when it begins and when it ends. -/
structure Slot where
  start : Nat
  finish : Nat
deriving DecidableEq, Repr

/-- Whether a pass has come to its end before `horizon`. -/
def Slot.isOver (slot : Slot) (horizon : Nat) : Bool :=
  slot.finish < horizon

theorem due_lt_nextDue {every due start : Nat} (hevery : 0 < every) (hstart : due ≤ start) :
    due < nextDue every due start := by
  unfold nextDue
  split <;> omega

/-- The passes that begin before `horizon`: one is due at `due`, none can begin before
`free`, and `lengths` says how long each takes; passes past its end take no time. -/
def slotsFrom (every : Nat) (hevery : 0 < every) (horizon due free : Nat) (lengths : List Nat) :
    List Slot :=
  -- Passes never overlap.
  let start := max due free
  if start < horizon then
    let finish := start + lengths.headD 0
    ⟨start, finish⟩ ::
      slotsFrom every hevery horizon (nextDue every due start) finish (lengths.drop 1)
  else []
termination_by horizon - due
decreasing_by
  have := due_lt_nextDue hevery (Nat.le_max_left due free)
  omega

/-- The passes that begin before `horizon`, the first one at once.  Without a time
between them there are none. -/
def slots (every horizon : Nat) (lengths : List Nat) : List Slot :=
  if h : 0 < every then slotsFrom every h horizon 0 0 lengths else []

end ChannelRelay.Schedule
