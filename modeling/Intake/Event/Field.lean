import Intake.Event.Raw

/-!
# Fields of events

The members that a raw event has as JSON, in the order in which they are written. `ts` is a second
name of the timestamp.
-/

namespace Intake.RawEvent

/-- A field of a raw event. -/
inductive Field
  | eventId | timestamp | kind | sessionId | userId | videoId | query | dwellMs
deriving DecidableEq, Repr

namespace Field

/-- The fields in their declared order. -/
def all : List Field :=
  [eventId, timestamp, kind, sessionId, userId, videoId, query, dwellMs]

def name : Field → String
  | eventId => "event_id"
  | timestamp => "timestamp"
  | kind => "type"
  | sessionId => "session_id"
  | userId => "user_id"
  | videoId => "video_id"
  | query => "query"
  | dwellMs => "dwell_ms"

/-- The field that a member's name stands for. -/
def ofName? (s : String) : Option Field :=
  if s = "ts" then some timestamp else all.find? (·.name = s)

end Field

end Intake.RawEvent
