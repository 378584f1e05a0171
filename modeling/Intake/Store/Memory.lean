import Intake.Store.Lock
import Intake.Store.Tables

/-!
# The store in memory

A transaction has all tables to itself from `begin` to its end and stages its writes until the
commit. A commit settles what will become of it when it starts (`Faults.draw`) and does so after
the delay set for commits; until then the tables are as they were. A party that is dropped leaves
without a trace.

A call is made with `start`, and asked after with `resume` for as long as it has no answer.
-/

namespace Intake.Store

/-- How a commit goes wrong. -/
inductive CommitFault
  | acknowledgementLost
  | failedBeforeWrite
deriving DecidableEq, Repr

/-- What becomes of a commit. -/
inductive Fate
  | stored
  | conflict
  | fault (f : CommitFault)
deriving DecidableEq, Repr

/-- The faults set for later calls. Delays are in milliseconds. -/
structure Faults where
  failBegin : Bool := false
  failCheck : Bool := false
  nextCommit : Option CommitFault := none
  conflicts : Nat := 0
  commitDelay : Option Nat := none
deriving DecidableEq, Repr

namespace Faults

/-- The fate of a commit that starts now, and the faults left over. Conflicts come first. -/
def draw (f : Faults) : Fate × Faults :=
  match f.conflicts with
  | k + 1 => (.conflict, { f with conflicts := k })
  | 0 =>
    match f.nextCommit with
    | some fault => (.fault fault, { f with nextCommit := none })
    | none => (.stored, f)

end Faults

namespace Fate

/-- Whether the writes of the transaction are carried out. -/
def applies : Fate → Bool
  | stored | fault .acknowledgementLost => true
  | conflict | fault .failedBeforeWrite => false

/-- What the caller of the commit hears. -/
def answer : Fate → Answer
  | stored => .ok true
  | conflict =>
    .error (.conflict "COMMIT"
      (.protocol "could not serialize access due to read/write dependencies"))
  | fault _ => .error (.ofCommit (.transport "connection reset while awaiting commit"))

end Fate

structure Memory where
  tables : Tables := .empty
  lock : Lock := .free
  /-- The writes of the transaction that has the lock. -/
  staged : List Write := []
  /-- The fate of the commit under way, and the time at which it comes. -/
  committing : Option (Fate × Nat) := none
  faults : Faults := {}
deriving DecidableEq, Repr

namespace Memory

/-- The store after `p` has left; its writes are forgotten if it had the tables. -/
def leave (m : Memory) (p : Party) : Memory :=
  if m.lock.holder = some p then
    { m with lock := m.lock.leave p, staged := [], committing := none }
  else { m with lock := m.lock.leave p }

/-- Ends the transaction of `p` by a commit of this fate. -/
def settle (m : Memory) (p : Party) (fate : Fate) : Memory :=
  { m.leave p with tables := if fate.applies then m.tables.replay m.staged else m.tables }

/-- Whether an event of this id is stored, or staged by the present transaction. -/
def knows (m : Memory) (id : Uuid) : Bool :=
  m.tables.events.has id || m.staged.any (·.stores id)

/-- Asks after a call that had no answer before. -/
def resume (m : Memory) (now : Nat) (p : Party) : Call → Memory × Option Answer
  | .begin => (m, if m.lock.holder = some p then some (.ok true) else none)
  | .check id =>
    if m.lock.holder = some p then (m.leave p, some (.ok (m.tables.events.has id))) else (m, none)
  | .commit =>
    match m.committing with
    | some (fate, due) => if due ≤ now then (m.settle p fate, some fate.answer) else (m, none)
    | none => (m, none)
  | .insert _ | .counters _ | .daily _ | .rollback => (m, none)

/-- Makes a call. -/
def start (m : Memory) (now : Nat) (p : Party) : Call → Memory × Option Answer
  | .begin =>
    if m.faults.failBegin then (m, some (.error (.connection .poolTimedOut)))
    else { m with lock := m.lock.request p }.resume now p .begin
  | .insert e =>
    if m.knows e.eventId then (m, some (.ok false))
    else ({ m with staged := m.staged ++ [.event e] }, some (.ok true))
  | .counters u => ({ m with staged := m.staged ++ [.counters u] }, some (.ok true))
  | .daily u => ({ m with staged := m.staged ++ [.daily u] }, some (.ok true))
  | .commit =>
    let drawn := m.faults.draw
    let due := now + m.faults.commitDelay.getD 0
    { m with faults := drawn.2, committing := some (drawn.1, due) }.resume now p .commit
  | .rollback => (m.leave p, some (.ok true))
  | .check id =>
    if m.faults.failCheck then (m, some (.error (.ofQuery "SELECT events" .poolTimedOut)))
    else { m with lock := m.lock.request p }.resume now p (.check id)

/-- The time at which the commit of `p` comes to its end. -/
def due? (m : Memory) (p : Party) : Option Nat :=
  if m.lock.holder = some p then m.committing.map (·.2) else none

end Memory

end Intake.Store
