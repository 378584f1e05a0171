import Intake.Calendar
import Intake.Text.Digits

/-!
# Instants

An instant is a day, a second of that day and a fraction of that second in nanoseconds. A leap
second is the last second of a minute with a fraction of a second or more. Any other second may have
such a fraction as well, and is written as the second after it. Instants are ordered by `rank`, which
goes by the second before the fraction, so that leap seconds stay between their neighbours. `text` is
the RFC 3339 form in UTC with 0, 3, 6 or 9 decimals, whichever is the fewest that are exact.
-/

namespace Intake

/-- An instant in UTC. -/
structure Instant where
  day : Int
  second : Nat
  nano : Nat
  day_ge : -96465292 ≤ day
  day_le : day ≤ 95026236
  second_lt : second < 86400
  nano_lt : nano < 2000000000
deriving DecidableEq, Repr

namespace Instant

/-- The instant with the given parts, if they are within range. -/
def ofParts? (day : Int) (second nano : Nat) : Option Instant :=
  if h : -96465292 ≤ day ∧ day ≤ 95026236 ∧ second < 86400 ∧ nano < 2000000000 then
    some ⟨day, second, nano, h.1, h.2.1, h.2.2.1, h.2.2.2⟩
  else none

/-- Midnight on 1 January 1970. -/
def epoch : Instant := ⟨0, 0, 0, by decide, by decide, by decide, by decide⟩

instance : Inhabited Instant := ⟨epoch⟩

/-- The place of an instant among all instants. -/
def rank (t : Instant) : Int := (t.day * 86400 + t.second) * 2000000000 + t.nano

instance : LE Instant := ⟨fun s t => s.rank ≤ t.rank⟩

instance (s t : Instant) : Decidable (s ≤ t) := inferInstanceAs (Decidable (s.rank ≤ t.rank))

instance : Max Instant := ⟨fun s t => if s ≤ t then t else s⟩

theorem rank_injective {s t : Instant} (h : s.rank = t.rank) : s = t := by
  obtain ⟨d, c, n, _, _, hc, hn⟩ := s
  obtain ⟨d', c', n', _, _, hc', hn'⟩ := t
  simp only [rank] at h
  have hnano : n = n' := by omega
  have hsecond : c = c' := by omega
  have hday : d = d' := by omega
  subst hnano hsecond hday
  rfl

theorem rank_max (s t : Instant) : (max s t).rank = max s.rank t.rank := by
  show (if s ≤ t then t else s).rank = _
  split
  · next h => exact (Int.max_eq_right h).symm
  · next h => exact (Int.max_eq_left (Int.le_of_lt (Int.not_le.mp h))).symm

/-- The year of a date: four digits, or a sign and five or more. -/
def yearText (year : Int) : List Char :=
  if 0 ≤ year ∧ year ≤ 9999 then Text.padded 4 year.toNat
  else (if year < 0 then '-' else '+') :: Text.padded 4 year.natAbs

/-- The text of a date. -/
def dateText (day : Int) : List Char :=
  let d := Date.ofDay day
  yearText d.year ++ '-' :: Text.padded 2 d.month ++ '-' :: Text.padded 2 d.day

/-- The decimals of a second: none, three, six or nine. -/
def fractionText (nano : Nat) : List Char :=
  if nano = 0 then []
  else if nano % 1000000 = 0 then '.' :: Text.padded 3 (nano / 1000000)
  else if nano % 1000 = 0 then '.' :: Text.padded 6 (nano / 1000)
  else '.' :: Text.padded 9 nano

/-- The time of day. A fraction of a second or more counts as one second on, so that a leap second is
second 60. -/
def timeText (t : Instant) : List Char :=
  let hour := t.second / 3600
  let minute := t.second / 60 % 60
  let second := t.second % 60 + t.nano / 1000000000
  Text.padded 2 hour ++ ':' :: Text.padded 2 minute ++ ':' :: Text.padded 2 second ++
    fractionText (t.nano % 1000000000)

/-- The RFC 3339 form of an instant. -/
def text (t : Instant) : String :=
  String.ofList (dateText t.day ++ 'T' :: t.timeText ++ ['Z'])

end Instant

end Intake
