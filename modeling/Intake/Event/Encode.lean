import Intake.Event.Field
import Intake.Json.Quoted

/-!
# Writing raw events

A raw event is written as one JSON object without blanks. It has all fields in their declared order,
and a missing value is `null`.
-/

namespace Intake.RawEvent

open Json

/-- The bytes of an ASCII text. -/
def ascii (s : String) : Bytes := s.toList.map byte

def writeText : Option String → Bytes
  | some s => Quoted.write s
  | none => nullWord

def writeInteger : Option Int64 → Bytes
  | some n => ascii (toString n.toInt)
  | none => nullWord

namespace Field

/-- The value of a field. -/
def write (raw : RawEvent) : Field → Bytes
  | eventId => writeText (raw.eventId.map (·.text))
  | timestamp => writeText (raw.timestamp.map (·.text))
  | kind => Quoted.write raw.kind
  | sessionId => Quoted.write raw.sessionId
  | userId => writeText (raw.userId.map (·.text))
  | videoId => writeText (raw.videoId.map (·.text))
  | query => writeText raw.query
  | dwellMs => writeInteger raw.dwellMs

/-- A field with its name. -/
def writeMember (raw : RawEvent) (f : Field) : Bytes :=
  Quoted.write f.name ++ byte ':' :: f.write raw

end Field

/-- The members that follow the first, each after a comma. -/
def writeMembers (raw : RawEvent) : List Field → Bytes
  | [] => []
  | f :: fs => byte ',' :: f.writeMember raw ++ writeMembers raw fs

/-- The JSON text of a raw event. -/
def encode (raw : RawEvent) : Bytes :=
  byte '\x7b' :: Field.eventId.writeMember raw ++ writeMembers raw Field.all.tail ++ [byte '\x7d']

end Intake.RawEvent
