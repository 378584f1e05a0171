import Intake.Service

/-!
# The schedule

The service runs on one thread, and its clock stands still while anything can run. A request runs
until it waits; then the background settles (releases that were left, and the signal pipeline); then
the request goes on if it can, and else the clock jumps to the next timer. Every change is a step of
`Service.step`, so what a schedule reaches is reached by a run.

The bounds on the number of steps are never met: an attempt takes at most ten steps for each
transaction, two for its reservation, two for a check and one for its deadline, and each timer
passes once.
-/

namespace Intake

namespace Ingest.State

/-- The times at which attempt `i` goes on. -/
def timers (s : State) (i : Nat) : List Nat :=
  match s.status? i with
  | some (.running r) =>
    if r.waiting then r.deadline :: (s.store.due? (.attempt i)).toList else []
  | _ => []

end Ingest.State

namespace Service

def now (s : Service) : Nat := s.ingest.now

/-! ### One attempt -/

/-- Lets attempt `i` take steps until it waits or has ended, and says whether it took one. -/
def pollWithin : Nat → Service → Nat → Service × Bool
  | 0, s, _ => (s, false)
  | fuel + 1, s, i =>
    match s.step (.ingest (.advance i)) with
    | some t => ((pollWithin fuel t i).1, true)
    | none => (s, false)

def pollBound (s : Service) : Nat := 16 * (s.ingest.settings.maxRetries + 2)

def poll (s : Service) (i : Nat) : Service × Bool := pollWithin s.pollBound s i

/-- Polls the attempts in order, and says whether one took a step. -/
def pollAll (s : Service) (is : List Nat) : Service × Bool :=
  is.foldl (fun (s, moved) i => let (s, m) := s.poll i; (s, moved || m)) (s, false)

/-! ### Background and time -/

/-- Lets the background run until all of it waits. -/
def settle (s : Service) : Service :=
  let ingest := s.ingest.releases.foldl (fun t _ => (t.release 0).getD t) s.ingest
  { ingest, signals := s.signals.settle s.now }

def timers (s : Service) : List Nat :=
  (List.range s.ingest.attempts.length).flatMap s.ingest.timers ++ s.signals.timers

/-- The clock jumps to the next timer, or to `limit` if that comes first. -/
def jump (s : Service) (limit : Option Nat) : Option Service :=
  ((limit.toList ++ s.timers).filter (s.now < ·)).min?.map fun t =>
    s.apply (.ingest (.elapse (t - s.now)))

def sleepWithin : Nat → Service → Nat → Service
  | 0, s, _ => s
  | fuel + 1, s, wake =>
    if wake ≤ s.now then s
    else
      match s.settle.jump (some wake) with
      | some t => sleepWithin fuel t wake
      | none => s

/-- Lets time pass up to `wake`. -/
def sleepUntil (s : Service) (wake : Nat) : Service :=
  sleepWithin (4 * (s.signals.queue.length + s.signals.tasks.length + 2)) s wake

/-! ### Requests -/

def runWithin : Nat → Service → List Nat → Option Nat → Bool → Service
  | 0, s, _, _, _ => s
  | fuel + 1, s, is, limit, moved =>
    if is.all fun i => !s.ingest.isRunning i then s
    else if limit.any (· ≤ s.now) then s
    else
      let s := s.settle
      match if moved then some s else s.jump limit with
      | some t =>
        let (t, moved) := t.pollAll is
        runWithin fuel t is limit moved
      | none => s

/-- Runs the attempts `is`, which have been polled, until all have ended or the limit is reached. -/
def runUntil (s : Service) (is : List Nat) (limit : Option Nat) : Service :=
  let background := s.signals.queue.length + s.signals.tasks.length + is.length + 2
  runWithin (4 * ((is.length + 1) * s.pollBound + background)) s is limit true

/-- Submits an event and lets its attempt run until it waits. -/
def start (s : Service) (raw : RawEvent) : Service × Nat :=
  let i := s.ingest.attempts.length
  (((s.apply (.ingest (.submit raw))).poll i).1, i)

def ingestOne (s : Service) (raw : RawEvent) : Service × Option Ingest.Result :=
  let (s, i) := s.start raw
  let s := s.runUntil [i] none
  (s, s.ingest.result? i)

/-- Ingests events at the same time; they are started in order. -/
def ingestAll (s : Service) (raws : List RawEvent) : Service × List (Option Ingest.Result) :=
  let (s, is) := raws.foldl (fun (s, is) raw => let (s, i) := s.start raw; (s, is ++ [i])) (s, [])
  let s := s.runUntil is none
  (s, is.map s.ingest.result?)

/-- Ingests an event for some milliseconds at most, and then cuts the attempt off. -/
def ingestFor (s : Service) (raw : RawEvent) (ms : Nat) (inside : Bool) :
    Service × Option Ingest.Result :=
  let limit := s.now + ms
  let (s, i) := s.start raw
  let s := s.runUntil [i] (some limit)
  (s.apply (.ingest (.cancel i inside)), s.ingest.result? i)

/-- Makes a call of the store for client `k` and waits for its answer. A call that waits for
somebody else is given up. -/
def call (s : Service) (k : Nat) (c : Store.Call) : Service × Option Store.Answer :=
  let asked := s.ingest.ask (.client k) false c
  let s := { s with ingest := asked.1 }
  match asked.2, asked.1.store.due? (.client k) with
  | some a, _ => (s, some a)
  | none, some due =>
    let s := s.sleepUntil due
    let again := s.ingest.ask (.client k) true c
    ({ s with ingest := again.1 }, again.2)
  | none, none => (s.apply (.ingest (.clientLeave k false)), none)

/-- Touches the ledger for a client and waits for the end of it. -/
def touch (s : Service) (u : Signal.Update) : Service × Option Store.Error :=
  let t := s.signals.ledger.beginTouch s.now u
  let s := s.sleepUntil t.due
  (s.apply (.touched t), t.failure)

end Service

end Intake
