import Intake.Event

/-!
# What an event adds to the aggregates

An event about a video adds to two rows: the video's counters and the video's day. Every field of an
update is an increment or a maximum, so updates may be applied in any order.
-/

namespace Intake.Aggregate

/-- Increments of a video's counters. -/
structure CounterDelta where
  views : Int64 := 0
  completes : Int64 := 0
  likes : Int64 := 0
deriving DecidableEq, Repr

/-- Increments of a video's day. -/
structure DailyDelta where
  views : Int64 := 0
  completes : Int64 := 0
  likes : Int64 := 0
  clicks : Int64 := 0
  impressions : Int64 := 0
  dwellMs : Int64 := 0
deriving DecidableEq, Repr

/-- What one event adds to the rows of its video; `day` is the UTC day of the event. -/
structure Update where
  videoId : Uuid
  lastEventAt : Instant
  day : Int
  counters : CounterDelta
  daily : DailyDelta
deriving DecidableEq, Repr

namespace CounterDelta

def ofKind : Event.Kind → CounterDelta
  | .viewStart => { views := 1 }
  | .viewComplete => { completes := 1 }
  | .like => { likes := 1 }
  | .clickResult | .searchQuery => {}

end CounterDelta

namespace DailyDelta

def ofKind (dwellMs : Int64) : Event.Kind → DailyDelta
  | .viewStart => { dwellMs, views := 1 }
  | .viewComplete => { dwellMs, completes := 1 }
  | .like => { dwellMs, likes := 1 }
  | .clickResult => { dwellMs, clicks := 1 }
  | .searchQuery => { dwellMs, impressions := 1 }

end DailyDelta

/-- The update of an event; an event without a video has none. -/
def Update.ofEvent (e : Event) : Option Update :=
  e.videoId.map fun videoId =>
    { videoId, lastEventAt := e.timestamp, day := e.timestamp.day
      counters := .ofKind e.kind, daily := .ofKind (e.dwellMs.getD 0) e.kind }

end Intake.Aggregate
