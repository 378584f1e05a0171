import Intake.Instant
import Intake.Uuid

/-!
# Events as submitted

A raw event is what a client sent, before any rule is applied. Every field may be missing; a missing
type or session is the empty text.
-/

namespace Intake

/-- An event as a client submitted it. -/
structure RawEvent where
  eventId : Option Uuid := none
  timestamp : Option Instant := none
  kind : String := ""
  sessionId : String := ""
  userId : Option Uuid := none
  videoId : Option Uuid := none
  query : Option String := none
  dwellMs : Option Int64 := none
deriving DecidableEq, Repr, Inhabited

end Intake
