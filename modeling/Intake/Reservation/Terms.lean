import Intake.Reservation.KeyStore
import Intake.Span
import Intake.Uuid

/-!
# Reservations

An event is reserved under a key of its own: `pending` while an attempt is at work, `done` once the
event is stored, and nothing if the attempt failed. Each of the three steps is one command.
-/

namespace Intake.Reservation

/-- The key of an event. -/
def key (eventId : Uuid) : String := "idem:event:" ++ eventId.text

theorem key_injective {i j : Uuid} (h : key i = key j) : i = j :=
  Uuid.text_injective ((String.append_right_inj _).1 h)

def pendingValue : String := "pending"

def doneValue : String := "done"

theorem pendingValue_ne_doneValue : pendingValue ≠ doneValue := by decide

/-- How long reservations live. -/
structure Terms where
  pending : Span := .ofSecs 30
  done : Span := .ofSecs 172800
deriving DecidableEq, Repr

/-- The whole seconds of a time to live, but at least one: a key may not live for no time. -/
def ttlSecs (d : Span) : Nat := max d.secs 1

theorem ttlSecs_pos (d : Span) : 0 < ttlSecs d := by unfold ttlSecs; omega

namespace Terms

def reserve (t : Terms) (eventId : Uuid) : Command :=
  .setNew (key eventId) pendingValue (ttlSecs t.pending)

def markDone (t : Terms) (eventId : Uuid) : Command :=
  .set (key eventId) doneValue (ttlSecs t.done)

end Terms

def release (eventId : Uuid) : Command := .delete (key eventId)

/-- What a try to reserve found. -/
inductive Status
  | miss
  | duplicate
  | unknown
deriving DecidableEq, Repr

def Status.ofAnswer : Answer → Status
  | .ok true => miss
  | .ok false => duplicate
  | .error _ => unknown

/-- The step of a reservation, as the count of errors names it. -/
def stepName : Verb → String
  | .setNew => "reserve"
  | .set => "mark_done"
  | .delete => "release"

end Intake.Reservation
