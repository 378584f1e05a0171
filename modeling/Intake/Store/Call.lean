import Intake.Aggregate.Update
import Intake.Store.Error

/-!
# Calls of the store

A transaction begins, inserts events, changes aggregate rows, and is committed or rolled back. Apart
from transactions the store can be asked whether it holds an event. The answer to a call is an error
or a Boolean, which says something only of `insert` (the event is new) and `check` (it is stored).
-/

namespace Intake.Store

/-- Who calls the store: an attempt at ingestion, or a client of its own. -/
inductive Party
  | attempt (i : Nat)
  | client (k : Nat)
deriving DecidableEq, Repr

inductive Call
  | begin
  | insert (event : Event)
  | counters (update : Aggregate.Update)
  | daily (update : Aggregate.Update)
  | commit
  | rollback
  | check (eventId : Uuid)
deriving DecidableEq, Repr

/-- A call without its arguments. -/
inductive Verb
  | begin | insert | counters | daily | commit | rollback | check
deriving DecidableEq, Repr

def Call.verb : Call → Verb
  | .begin => .begin
  | .insert _ => .insert
  | .counters _ => .counters
  | .daily _ => .daily
  | .commit => .commit
  | .rollback => .rollback
  | .check _ => .check

/-- Whether a call stages a change of the tables. -/
def Call.writes : Call → Bool
  | .insert _ | .counters _ | .daily _ => true
  | .begin | .commit | .rollback | .check _ => false

abbrev Answer := Except Error Bool

end Intake.Store
