import Intake.Event

/-!
# Signals

Every inserted event says that its user, or its session, was seen at the event's time.
-/

namespace Intake.Signal

structure Update where
  key : String
  seenAt : Instant
deriving DecidableEq, Repr

def Update.ofEvent (e : Event) : Update := ⟨e.signalKey, e.timestamp⟩

end Intake.Signal
