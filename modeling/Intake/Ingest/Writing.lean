import Intake.Ingest.Count
import Intake.Store.Call

/-!
# Writing one event

The calls by which one event is written: `begin`, `insert`, both rows of the video if there is
one, and `commit`; an event that is already stored is rolled back instead. After a conflict the
transaction is run again, as often as the settings allow. After an ambiguous commit the event
itself decides, by a `check`. `Writing.answered` says where each answer leads.
-/

namespace Intake.Ingest

open Store (Call Answer)

/-- The call that comes next, or waits for its answer. -/
inductive Step
  | begin
  | insert
  | counters (update : Aggregate.Update)
  | daily (update : Aggregate.Update)
  | commit
  | rollback
  | check (commitError : Store.Error)
deriving DecidableEq, Repr

/-- An event on its way into the store. -/
structure Writing where
  event : Event
  step : Step := .begin
  retries : Nat := 0
deriving DecidableEq, Repr

/-- How the writing of an event ended well. -/
inductive Written
  | inserted
  | alreadyStored
deriving DecidableEq, Repr

/-- The writing goes on, or it is settled. -/
inductive Progress
  | going (w : Writing)
  | settled (r : Except Store.Error Written)
deriving Repr

namespace Writing

def call (w : Writing) : Call :=
  match w.step with
  | .begin => .begin
  | .insert => .insert w.event
  | .counters u => .counters u
  | .daily u => .daily u
  | .commit => .commit
  | .rollback => .rollback
  | .check _ => .check w.event.eventId

/-- Whether a transaction is open before the answer to the present call. -/
def isOpen (w : Writing) : Bool :=
  match w.step with
  | .insert | .counters _ | .daily _ | .commit | .rollback => true
  | .begin | .check _ => false

def withStep (w : Writing) (step : Step) : Writing := { w with step }

/-- The step after an event was found to be new. -/
def rowsStep (e : Event) : Step :=
  match Aggregate.Update.ofEvent e with
  | some u => .counters u
  | none => .commit

/-- Whether a transaction that failed is run again. -/
def retries? (maxRetries : Nat) (w : Writing) (e : Store.Error) : Bool :=
  e.isConflict && w.retries < maxRetries

/-- Where the failure of a transaction leads. -/
def failed (maxRetries : Nat) (w : Writing) (e : Store.Error) : Progress :=
  if w.retries? maxRetries e then .going { w with step := .begin, retries := w.retries + 1 }
  else if e.isAmbiguous then .going (w.withStep (.check e))
  else .settled (.error e)

/-- Where an answer to the present call leads. -/
def answered (maxRetries : Nat) (w : Writing) (a : Answer) : Progress :=
  match w.step, a with
  | .check _, .ok true => .settled (.ok .inserted)
  | .check e, _ => .settled (.error e)
  | .rollback, _ => .settled (.ok .alreadyStored)
  | _, .error e => w.failed maxRetries e
  | .begin, .ok _ => .going (w.withStep .insert)
  | .insert, .ok false => .going (w.withStep .rollback)
  | .insert, .ok true => .going (w.withStep (rowsStep w.event))
  | .counters u, .ok _ => .going (w.withStep (.daily u))
  | .daily _, .ok _ => .going (w.withStep .commit)
  | .commit, .ok _ => .settled (.ok .inserted)

/-- The samples that an answer gives. -/
def samples (maxRetries : Nat) (w : Writing) (a : Answer) : List Metrics.Series :=
  match w.step, a with
  | .check _, .ok true => [Count.ambiguous "stored"]
  | .check _, .ok false => [Count.ambiguous "not_stored"]
  | .check _, .error _ => [Count.ambiguous "unknown"]
  | .rollback, _ => []
  | _, .error e => if w.retries? maxRetries e then [Count.retried] else []
  | _, .ok _ => []

/-- Whether an answer makes the attempt drop its transaction. -/
def drops (w : Writing) (a : Answer) : Bool :=
  match w.step, a with
  | .insert, .error _ | .counters _, .error _ | .daily _, .error _ => true
  | _, _ => false

theorem event_going {maxRetries : Nat} {w w' : Writing} {a : Answer}
    (h : w.answered maxRetries a = .going w') : w'.event = w.event := by
  unfold answered failed at h
  split at h <;> (try split at h) <;> (try split at h) <;> simp_all [withStep]
  all_goals subst h; rfl

end Writing

end Intake.Ingest
