import Intake.Keyed
import Intake.Store.Call

/-!
# A store that answers from a script

Each call takes the next reply written down for its verb and gets it after the reply's delay. When
none is left the call succeeds: an event is new, and a checked event is not stored.
-/

namespace Intake.Store

/-- An answer and the milliseconds until it comes. -/
structure Reply where
  answer : Answer
  delay : Nat := 0
deriving Repr

structure Script where
  replies : Keyed Verb (List Reply)
  /-- The answers under way, and the times at which they come. -/
  pending : Keyed Party (Answer × Nat) := .empty
deriving Repr

namespace Script

/-- The reply to a call for which none is written down. -/
def success : Verb → Reply
  | .check => { answer := .ok false }
  | _ => { answer := .ok true }

def leave (s : Script) (p : Party) : Script := { s with pending := s.pending.erase p }

/-- Asks after a call that had no answer before. -/
def resume (s : Script) (now : Nat) (p : Party) : Script × Option Answer :=
  match s.pending.get? p with
  | some (answer, due) => if due ≤ now then (s.leave p, some answer) else (s, none)
  | none => (s, none)

/-- The reply to the next call of a verb. -/
def next (s : Script) (v : Verb) : Reply := ((s.replies.get? v).getD []).headD (success v)

/-- Makes a call. -/
def start (s : Script) (now : Nat) (p : Party) (call : Call) : Script × Option Answer :=
  let v := call.verb
  let reply := s.next v
  { s with
    replies := s.replies.set v ((s.replies.get? v).getD []).tail
    pending := s.pending.set p (reply.answer, now + reply.delay) }.resume now p

def due? (s : Script) (p : Party) : Option Nat := (s.pending.get? p).map (·.2)

end Script

end Intake.Store
