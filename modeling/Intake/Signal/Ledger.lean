import Intake.Keyed
import Intake.Signal.Update
import Intake.Store.Error

/-!
# When users and sessions were last seen

The ledger keeps, for each key, the latest time at which it was seen. A touch moves that time
forward and never back. It reads the faults set for the ledger when it begins and ends after their
delay.
-/

namespace Intake.Signal

/-- Delays are in milliseconds. -/
structure Ledger where
  seen : Keyed String Instant := .empty
  failing : Bool := false
  delay : Option Nat := none
  closed : Bool := false
deriving Repr

/-- A touch under way: how it ends, and when. -/
structure Touch where
  update : Update
  failure : Option Store.Error
  due : Nat
deriving Repr

namespace Ledger

def failed (cause : Store.Cause) : Store.Error := .ofQuery "UPSERT user_signals" cause

def beginTouch (l : Ledger) (now : Nat) (update : Update) : Touch :=
  if l.closed then { update, failure := some (failed .poolClosed), due := now }
  else
    { update
      failure := if l.failing then some (failed .poolTimedOut) else none
      due := now + l.delay.getD 0 }

def record (l : Ledger) (u : Update) : Ledger :=
  { l with seen := l.seen.upsert u.key fun
    | none => u.seenAt
    | some t => max t u.seenAt }

def endTouch (l : Ledger) (t : Touch) : Ledger :=
  match t.failure with
  | some _ => l
  | none => l.record t.update

@[simp] theorem get?_record (l : Ledger) (u : Update) (key : String) :
    (l.record u).seen.get? key =
      if key = u.key then some ((l.seen.get? u.key).elim u.seenAt (max · u.seenAt))
      else l.seen.get? key := by
  simp only [record, Keyed.get?_upsert]
  cases l.seen.get? u.key <;> rfl

end Ledger

end Intake.Signal
