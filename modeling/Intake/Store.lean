import Intake.Store.Memory
import Intake.Store.Script

/-!
# The store

Ingestion works over any store: the one in memory, one that answers from a script, or a database
whose pool is closed. All are used in the same way: `start` a call, `resume` it until it is
answered, and `leave` to give up whatever the party has or waits for.
-/

namespace Intake

inductive Store
  | memory (m : Store.Memory)
  | scripted (s : Store.Script)
  | closed

namespace Store

/-- What a closed pool answers. -/
def refusal : Verb → Error
  | .begin => .connection .poolClosed
  | .insert => .ofQuery "INSERT events" .poolClosed
  | .counters => .ofQuery "UPSERT video_counters" .poolClosed
  | .daily => .ofQuery "UPSERT video_daily" .poolClosed
  | .commit => .ofCommit .poolClosed
  | .rollback => .ofQuery "ROLLBACK" .poolClosed
  | .check => .ofQuery "SELECT events" .poolClosed

/-- A row that can be read back from a database. -/
inductive Read
  | counters | daily | lastSeen
deriving DecidableEq, Repr

/-- What a closed pool answers to a read. -/
def refusedRead : Read → Error
  | .counters => .ofQuery "SELECT video_counters" .poolClosed
  | .daily => .ofQuery "SELECT video_daily" .poolClosed
  | .lastSeen => .ofQuery "SELECT user_signals" .poolClosed

def start (s : Store) (now : Nat) (p : Party) (call : Call) : Store × Option Answer :=
  match s with
  | memory m => (m.start now p call).map memory id
  | scripted s => (s.start now p call).map scripted id
  | closed => (closed, some (.error (refusal call.verb)))

def resume (s : Store) (now : Nat) (p : Party) (call : Call) : Store × Option Answer :=
  match s with
  | memory m => (m.resume now p call).map memory id
  | scripted s => (s.resume now p).map scripted id
  | closed => (closed, none)

def leave (s : Store) (p : Party) : Store :=
  match s with
  | memory m => memory (m.leave p)
  | scripted s => scripted (s.leave p)
  | closed => closed

/-- The time at which a call of `p` is answered, if it waits for nothing but time. -/
def due? (s : Store) (p : Party) : Option Nat :=
  match s with
  | memory m => m.due? p
  | scripted s => s.due? p
  | closed => none

/-- The tables, unless a transaction has them. Only the store in memory writes to tables. -/
def tables? (s : Store) : Option Tables :=
  match s with
  | memory m => if m.lock.holder = none then some m.tables else none
  | scripted _ | closed => some .empty

end Store

end Intake
