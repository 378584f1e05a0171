import Intake.Event.Raw

/-!
# Valid events

`Event.ofRaw` applies the rules in a fixed order and reports the first one broken: an id, a session,
a type, a timestamp, a known type, a video and a query where the type asks for them, and a dwell
between nothing and a day. The zero identifier, the empty query and the epoch stand for missing
values, and a valid event holds none of the first two.
-/

namespace Intake

namespace Event

/-- What a viewer did. -/
inductive Kind
  | viewStart | viewComplete | like | searchQuery | clickResult
deriving DecidableEq, Repr

namespace Kind

def name : Kind → String
  | viewStart => "view_start"
  | viewComplete => "view_complete"
  | like => "like"
  | searchQuery => "search_query"
  | clickResult => "click_result"

def ofName? (s : String) : Option Kind :=
  if s = "view_start" then some viewStart
  else if s = "view_complete" then some viewComplete
  else if s = "like" then some like
  else if s = "search_query" then some searchQuery
  else if s = "click_result" then some clickResult
  else none

def needsVideo : Kind → Bool
  | searchQuery => false
  | _ => true

def needsQuery : Kind → Bool
  | searchQuery | clickResult => true
  | _ => false

theorem ofName?_name (k : Kind) : ofName? k.name = some k := by
  cases k <;> decide

theorem ofName?_eq_some {s : String} {k : Kind} : ofName? s = some k ↔ s = k.name := by
  constructor
  · intro h
    unfold ofName? at h
    repeat' split at h
    all_goals first | cases h; assumption | cases h
  · rintro rfl; exact ofName?_name k

end Kind

/-- The first rule that a raw event breaks. -/
inductive Flaw
  | missingEventId
  | missingSessionId
  | missingKind
  | missingTimestamp
  | unknownKind (name : String)
  | missingVideoId (kind : Kind)
  | missingQuery (kind : Kind)
  | negativeDwell (ms : Int64)
  | dwellTooLarge (ms : Int64)
deriving DecidableEq, Repr

/-- The longest dwell of one event: a day. -/
def maxDwellMs : Int64 := 86400000

namespace Flaw

def message : Flaw → String
  | missingEventId => "event_id is required"
  | missingSessionId => "session_id is required"
  | missingKind => "type is required"
  | missingTimestamp => "timestamp is required"
  | unknownKind name => "unknown event type: " ++ name
  | missingVideoId kind => "video_id is required for " ++ kind.name
  | missingQuery kind => "query is required for " ++ kind.name
  | negativeDwell ms => "dwell_ms must not be negative, got " ++ toString ms.toInt
  | dwellTooLarge ms =>
    "dwell_ms must be at most " ++ toString maxDwellMs.toInt ++ ", got " ++ toString ms.toInt

/-- The word for a flaw in the count of invalid events. -/
def reason : Flaw → String
  | missingEventId => "missing_event_id"
  | missingSessionId => "missing_session_id"
  | missingKind => "missing_type"
  | missingTimestamp => "missing_timestamp"
  | unknownKind _ => "unknown_type"
  | missingVideoId _ => "missing_video_id"
  | missingQuery _ => "missing_query"
  | negativeDwell _ => "negative_dwell"
  | dwellTooLarge _ => "dwell_too_large"

end Flaw

end Event

/-- An event that meets every rule. Only such events are stored. -/
structure Event where
  eventId : Uuid
  timestamp : Instant
  kind : Event.Kind
  sessionId : String
  userId : Option Uuid
  videoId : Option Uuid
  query : Option String
  dwellMs : Option Int64
deriving DecidableEq, Repr

namespace Event

/-- An identifier that is not the zero one. -/
def present (id : Option Uuid) : Option Uuid := id.filter (· ≠ Uuid.zero)

/-- Applies the rules to a raw event. -/
def ofRaw (raw : RawEvent) : Except Flaw Event := do
  let some eventId := present raw.eventId | throw .missingEventId
  if raw.sessionId = "" then throw .missingSessionId
  if raw.kind = "" then throw .missingKind
  let some timestamp := raw.timestamp.filter (· ≠ Instant.epoch) | throw .missingTimestamp
  let some kind := Kind.ofName? raw.kind | throw (.unknownKind raw.kind)
  let videoId := present raw.videoId
  let query := raw.query.filter (· ≠ "")
  if kind.needsVideo ∧ videoId = none then throw (.missingVideoId kind)
  if kind.needsQuery ∧ query = none then throw (.missingQuery kind)
  if let some ms := raw.dwellMs then
    if ms < 0 then throw (.negativeDwell ms)
    if maxDwellMs < ms then throw (.dwellTooLarge ms)
  return {
    eventId, timestamp, kind, sessionId := raw.sessionId, userId := present raw.userId
    videoId, query, dwellMs := raw.dwellMs }

/-- The raw event that says what a valid event says. -/
def toRaw (e : Event) : RawEvent :=
  { eventId := some e.eventId, timestamp := some e.timestamp, kind := e.kind.name
    sessionId := e.sessionId, userId := e.userId, videoId := e.videoId, query := e.query
    dwellMs := e.dwellMs }

/-- Whom the event tells about: the user if known, else the session. -/
def signalKey (e : Event) : String :=
  match e.userId with
  | some id => id.text
  | none => e.sessionId

end Event

end Intake
