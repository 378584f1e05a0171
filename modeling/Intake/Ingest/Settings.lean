import Intake.Reservation.Policy
import Intake.Reservation.Terms
import Intake.Span

/-!
# Settings of ingestion
-/

namespace Intake.Ingest

structure Settings where
  policy : Reservation.Policy := .failClosed
  /-- How often a transaction is run again after a conflict. -/
  maxRetries : Nat := 3
  /-- How long the writing of one event may take. -/
  timeout : Span := .ofSecs 5
  terms : Reservation.Terms := {}
deriving Repr

end Intake.Ingest
