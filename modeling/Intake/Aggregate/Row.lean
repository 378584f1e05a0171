import Intake.Aggregate.Update

/-!
# Aggregate rows

The first update of a row creates it (`ofUpdate`) and later ones are applied to it (`apply`). Counts
are sums of 64 bits. The dwell of a day stops at the ends of the 64-bit range (`addSaturating`).
-/

namespace Intake.Aggregate

/-- The nearest 64-bit integer. -/
def clamp (n : Int) : Int64 := Int64.ofInt (max Int64.minValue.toInt (min n Int64.maxValue.toInt))

/-- Adds, and stops at the ends of the 64-bit range. -/
def addSaturating (a b : Int64) : Int64 := clamp (a.toInt + b.toInt)

/-- The counters of a video over all time. -/
structure VideoCounters where
  videoId : Uuid
  views : Int64
  completes : Int64
  likes : Int64
  lastEventAt : Instant
deriving DecidableEq, Repr

/-- The counts of a video on one day. -/
structure VideoDaily where
  videoId : Uuid
  day : Int
  views : Int64
  completes : Int64
  likes : Int64
  clicks : Int64
  impressions : Int64
  dwellMs : Int64
deriving DecidableEq, Repr

namespace VideoCounters

def ofUpdate (u : Update) : VideoCounters :=
  { videoId := u.videoId, views := u.counters.views, completes := u.counters.completes
    likes := u.counters.likes, lastEventAt := u.lastEventAt }

def apply (row : VideoCounters) (u : Update) : VideoCounters :=
  { row with
    views := row.views + u.counters.views
    completes := row.completes + u.counters.completes
    likes := row.likes + u.counters.likes
    lastEventAt := max row.lastEventAt u.lastEventAt }

/-- The row after an update, whether or not there was one. -/
def upsert (row : Option VideoCounters) (u : Update) : VideoCounters :=
  match row with
  | none => ofUpdate u
  | some row => row.apply u

end VideoCounters

namespace VideoDaily

def ofUpdate (u : Update) : VideoDaily :=
  { videoId := u.videoId, day := u.day, views := u.daily.views, completes := u.daily.completes
    likes := u.daily.likes, clicks := u.daily.clicks, impressions := u.daily.impressions
    dwellMs := u.daily.dwellMs }

def apply (row : VideoDaily) (u : Update) : VideoDaily :=
  { row with
    views := row.views + u.daily.views
    completes := row.completes + u.daily.completes
    likes := row.likes + u.daily.likes
    clicks := row.clicks + u.daily.clicks
    impressions := row.impressions + u.daily.impressions
    dwellMs := addSaturating row.dwellMs u.daily.dwellMs }

/-- The row after an update, whether or not there was one. -/
def upsert (row : Option VideoDaily) (u : Update) : VideoDaily :=
  match row with
  | none => ofUpdate u
  | some row => row.apply u

end VideoDaily

/-- The two rows that a run of updates builds, whatever their videos and days. -/
structure Rows where
  counters : VideoCounters
  daily : VideoDaily
deriving DecidableEq, Repr

namespace Rows

def upsert (rows : Option Rows) (u : Update) : Rows :=
  { counters := VideoCounters.upsert (rows.map (·.counters)) u
    daily := VideoDaily.upsert (rows.map (·.daily)) u }

/-- The rows built by a list of updates; no update builds none. -/
def ofUpdates (us : List Update) : Option Rows :=
  us.foldl (fun rows u => some (upsert rows u)) none

end Rows

end Intake.Aggregate
