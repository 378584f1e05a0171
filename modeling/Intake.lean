import Intake.Keyed
import Intake.Span
import Intake.Event.Decode
import Intake.Aggregate.Row
import Intake.Reservation.Policy
import Intake.Reservation.Failure
import Intake.Store
import Intake.Reservation.Terms
import Intake.Metrics.Series
import Intake.Ingest.State
import Intake.Service
import Intake.Schedule
import Intake.Http.Endpoint
import Intake.Net.Address
import Intake.Startup
import Intake.Metrics.Histogram
import Intake.Event.Encode
import Intake.Proofs.View
import Intake.Proofs.Custody
import Intake.Proofs.Standing
import Intake.Proofs.Tally
import Intake.Proofs.Counting
import Intake.Proofs.Protocol
import Intake.Proofs.Agreement
import Intake.Proofs.Exclusion
import Intake.Proofs.Outcomes
import Intake.Proofs.Acknowledged
import Intake.Proofs.Course
import Intake.Proofs.Surroundings
import Intake.Proofs.StoreCalls
import Intake.Proofs.ReservationCalls
import Intake.Proofs.Atomicity
import Intake.Proofs.Lone
import Intake.Proofs.Retrying
import Intake.Proofs.Senders
import Intake.Proofs.Attribution
import Intake.Proofs.Ownership
import Intake.Proofs.Interference
import Intake.Proofs.Traffic
import Intake.Proofs.Conservation
import Intake.Proofs.Waiting
import Intake.Proofs.Notes
import Intake.Proofs.Milestones
import Intake.Proofs.Pacing
import Intake.Proofs.Accounting
import Intake.Proofs.Serial
import Intake.Proofs.Digits
import Intake.Proofs.Calendar
import Intake.Proofs.Instants
import Intake.Proofs.JsonText
import Intake.Proofs.RoundTrip
import Intake.Proofs.Validation
import Intake.Proofs.Confidential
import Intake.Proofs.Forecast
import Intake.Proofs.Undisturbed
import Intake.Proofs.JsonGrammar
import Intake.Proofs.FieldValues
import Intake.Proofs.Members
import Intake.Proofs.Totals
import Intake.Proofs.Expiry
