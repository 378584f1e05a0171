import Intake.Ingest.Result
import Intake.Metrics.Series
import Intake.Reservation.Policy
import Intake.Reservation.Terms

/-!
# What ingestion counts

The series of every sample that an attempt gives.
-/

namespace Intake.Ingest.Count

open Metrics (Series)

def received : Series := ⟨"ingest_events_received_total", []⟩

def invalid (flaw : Event.Flaw) : Series :=
  ⟨"ingest_events_invalid_total", [("reason", flaw.reason)]⟩

def inserted : Series := ⟨"ingest_events_inserted_total", []⟩

def duplicate : Series := ⟨"ingest_events_duplicate_total", []⟩

def failed (e : Error) : Series := ⟨"ingest_events_failed_total", [("kind", e.kind)]⟩

/-- An event taken for a duplicate because nothing could be reserved. -/
def unreserved : Series := ⟨"ingest_events_dropped_total", [("reason", "reservation_unavailable")]⟩

def retried : Series := ⟨"ingest_serialization_retries_total", []⟩

/-- A failed commit, and what the check of the event said. -/
def ambiguous (resolution : String) : Series :=
  ⟨"ingest_ambiguous_commits_total", [("resolution", resolution)]⟩

def released : Series := ⟨"ingest_reservation_released_total", []⟩

def reservationError (v : Reservation.Verb) (f : Reservation.Failure) : Series :=
  ⟨"ingest_reservation_errors_total", [("op", Reservation.stepName v), ("kind", f.kind)]⟩

/-- The samples of a step of a reservation. -/
def reservation (v : Reservation.Verb) : Reservation.Answer → List Series
  | .error f => [reservationError v f]
  | .ok _ => []

/-- The timer of a valid event; one that is cut off ends without an outcome. -/
def timer : Series := ⟨"ingest_event_time_ms", []⟩

def outcomeName : Result → String
  | .ok .inserted => "inserted"
  | .ok .duplicate => "duplicate"
  | .error _ => "error"

/-- The samples of an attempt that ends with this result. -/
def ended (r : Result) : List Series :=
  [match r with
    | .ok .inserted => inserted
    | .ok .duplicate => duplicate
    | .error e => failed e,
   timer.label "outcome" (outcomeName r)]

/-- The samples of the answer to a reservation. -/
def reserved (policy : Reservation.Policy) (a : Reservation.Answer) : List Series :=
  match Reservation.Status.ofAnswer a, policy with
  | .miss, _ | .unknown, .failOpen => []
  | .duplicate, _ => ended (.ok .duplicate)
  | .unknown, .failClosed => unreserved :: ended (.ok .duplicate)

end Intake.Ingest.Count
