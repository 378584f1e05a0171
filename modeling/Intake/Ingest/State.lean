import Intake.Ingest.Settings
import Intake.Ingest.Writing
import Intake.Signal.Update
import Intake.Store

/-!
# Attempts at ingestion

Any number of attempts share a key store and a store. An attempt goes on step by step (`advance`).
It first reserves its event. If it may write, it makes its calls of the store one by one, up to a
deadline; when the writing has ended, however it did, the attempt settles its reservation and
returns. An attempt that is cut off while it writes (`cancel`) leaves its reservation to be released
later (`release`), or, if nothing can be run later, to expire.

Each of these steps is a function from state to state, so a run is a list of steps, and every
command of the key store and every call of the store is a step of its own. The steps that do not
belong to an attempt are those of time and of the clients of the two stores.
-/

namespace Intake.Ingest

open Store (Party Call)
open Metrics (Series)

/-- A thing that happened. -/
inductive Occurrence
  | command (c : Reservation.Command) (a : Reservation.Answer)
  | call (c : Call)
  /-- A transaction was given up without commit or rollback. -/
  | dropped
  | sample (s : Series)
deriving Repr

/-- A thing that happened, by whom, and when. -/
structure Entry where
  time : Nat
  party : Party
  what : Occurrence
deriving Repr

/-- An attempt that writes its event. -/
structure Running where
  writing : Writing
  /-- Whether the attempt made the reservation of its event. -/
  reserved : Bool
  /-- The time after which the writing is cut off. -/
  deadline : Nat
  /-- Whether the present call was made and has no answer yet. -/
  waiting : Bool := false
deriving Repr

/-- How far an attempt has come. -/
inductive Status
  /-- The event is valid and is reserved next. -/
  | reserving (event : Event)
  | running (r : Running)
  /-- The writing has ended and the reservation is settled next. -/
  | settling (event : Event) (reserved : Bool) (ending : Except Error Written)
  | returned (r : Result)
  | cancelled
deriving Repr

/-- Where an answer to the present call leads. -/
def Running.next (r : Running) (maxRetries : Nat) (a : Store.Answer) : Status :=
  match r.writing.answered maxRetries a with
  | .going writing => .running { r with writing, waiting := false }
  | .settled result => .settling r.writing.event r.reserved (result.mapError .storage)

structure Attempt where
  raw : RawEvent
  status : Status
deriving Repr

/-- The state of ingestion. Time is in milliseconds; the log has the newest entry first. -/
structure State where
  settings : Settings
  now : Nat := 0
  keys : Reservation.KeyStore := {}
  store : Store
  attempts : List Attempt := []
  /-- The attempts that were cut off and the events whose reservations they left, oldest first. -/
  releases : List (Nat × Uuid) := []
  /-- The signals of inserted events, oldest first, until they are handed on. -/
  outbox : List Signal.Update := []
  log : List Entry := []

namespace State

/-! ### Keeping the log -/

def note (s : State) (p : Party) (what : Occurrence) : State :=
  { s with log := ⟨s.now, p, what⟩ :: s.log }

def noteAll (s : State) (p : Party) (series : List Series) : State :=
  { s with log := (series.map fun x => ⟨s.now, p, .sample x⟩).reverse ++ s.log }

def setStatus (s : State) (i : Nat) (status : Status) : State :=
  { s with attempts := s.attempts.modify i fun a => { a with status } }

/-! ### Reservations -/

/-- Gives a command to the key store. -/
def command (s : State) (p : Party) (c : Reservation.Command) : State × Reservation.Answer :=
  let ran := s.keys.run c
  ({ s with keys := ran.1 }.note p (.command c ran.2), ran.2)

/-- Gives a command of a reservation, and counts its failure. -/
def reservation (s : State) (p : Party) (c : Reservation.Command) : State × Reservation.Answer :=
  let ran := s.command p c
  (ran.1.noteAll p (Count.reservation c.verb ran.2), ran.2)

/-- Releases the reservation of an attempt and counts it. -/
def releaseBy (s : State) (i : Nat) (eventId : Uuid) : State :=
  (s.reservation (.attempt i) (Reservation.release eventId)).1.note (.attempt i)
    (.sample Count.released)

/-! ### The end of an attempt -/

/-- Attempt `i` returns. -/
def finish (s : State) (i : Nat) (r : Result) : State :=
  (s.setStatus i (.returned r)).noteAll (.attempt i) (Count.ended r)

/-- The transaction of attempt `i`, if one is open, is given up, and so is whatever it waits for. -/
def abandon (s : State) (i : Nat) (r : Running) : State :=
  let s := { s with store := s.store.leave (.attempt i) }
  if r.writing.isOpen then s.note (.attempt i) .dropped else s

def ofWritten : Written → Outcome
  | .inserted => .inserted
  | .alreadyStored => .duplicate

/-- The reservation of an attempt whose writing has ended becomes `done` if the event is stored, and
is released if not. -/
def settleReservation (s : State) (i : Nat) (eventId : Uuid) (reserved : Bool)
    (ending : Except Error Written) : State :=
  if reserved then
    match ending with
    | .ok _ => (s.reservation (.attempt i) (s.settings.terms.markDone eventId)).1
    | .error _ => s.releaseBy i eventId
  else s

/-- The signal of an event goes out if the event was inserted. -/
def signal (s : State) (event : Event) : Except Error Written → State
  | .ok .inserted => { s with outbox := s.outbox ++ [Signal.Update.ofEvent event] }
  | _ => s

/-- The last step of attempt `i`: its reservation is settled and it returns. -/
def settle (s : State) (i : Nat) (event : Event) (reserved : Bool)
    (ending : Except Error Written) : State :=
  ((s.settleReservation i event.eventId reserved ending).signal event ending).finish i
    (ending.map ofWritten)

/-! ### Steps of attempts -/

/-- A new attempt: its event is validated. -/
def submit (s : State) (raw : RawEvent) : State :=
  let p := .attempt s.attempts.length
  let s := s.note p (.sample Count.received)
  match Event.ofRaw raw with
  | .error flaw =>
    { s.note p (.sample (Count.invalid flaw)) with
      attempts := s.attempts ++ [⟨raw, .returned (.error (.invalid flaw))⟩] }
  | .ok event => { s with attempts := s.attempts ++ [⟨raw, .reserving event⟩] }

/-- Where the answer to its reservation leads an attempt. -/
def reserved (s : State) (event : Event) (a : Reservation.Answer) : Status :=
  let writing := fun reserved => .running
    { writing := { event }, reserved, deadline := s.now + s.settings.timeout.ticks }
  match Reservation.Status.ofAnswer a, s.settings.policy with
  | .miss, _ => writing true
  | .unknown, .failOpen => writing false
  | .duplicate, _ | .unknown, .failClosed => .returned (.ok .duplicate)

/-- Attempt `i` reserves its event. -/
def reserve (s : State) (i : Nat) (event : Event) : State :=
  let ran := s.reservation (.attempt i) (s.settings.terms.reserve event.eventId)
  (ran.1.noteAll (.attempt i) (Count.reserved s.settings.policy ran.2)).setStatus i
    (s.reserved event ran.2)

/-- Makes a call of the store for a party, or asks after the one for which it waits. -/
def ask (s : State) (p : Party) (waiting : Bool) (call : Call) : State × Option Store.Answer :=
  if waiting then
    let got := s.store.resume s.now p call
    ({ s with store := got.1 }, got.2)
  else
    let got := s.store.start s.now p call
    ({ s with store := got.1 }.note p (.call call), got.2)

/-- Attempt `i` gets the answer to its present call. -/
def answer (s : State) (i : Nat) (r : Running) (a : Store.Answer) : State :=
  let maxRetries := s.settings.maxRetries
  let s := if r.writing.drops a then s.abandon i r else s
  (s.noteAll (.attempt i) (r.writing.samples maxRetries a)).setStatus i (r.next maxRetries a)

/-- Attempt `i` is cut off by its deadline. -/
def expire (s : State) (i : Nat) (r : Running) : State :=
  (s.abandon i r).setStatus i
    (.settling r.writing.event r.reserved (.error (.timeout s.settings.timeout)))

/-- Makes the present call of attempt `i`, or asks after it, and takes the answer. Without an answer
the attempt waits, and it is cut off when its deadline has come. There is no step if it waits
already. -/
def proceed (s : State) (i : Nat) (r : Running) : Option State :=
  let asked := s.ask (.attempt i) r.waiting r.writing.call
  match asked.2 with
  | some a => some (asked.1.answer i r a)
  | none =>
    if r.deadline ≤ s.now then some (asked.1.expire i r)
    else if r.waiting then none
    else some (asked.1.setStatus i (.running { r with waiting := true }))

def status? (s : State) (i : Nat) : Option Status := s.attempts[i]?.map (·.status)

/-- The next step of attempt `i`. -/
def advance (s : State) (i : Nat) : Option State :=
  match s.status? i with
  | some (.reserving event) => some (s.reserve i event)
  | some (.running r) => s.proceed i r
  | some (.settling event reserved ending) => some (s.settle i event reserved ending)
  | _ => none

/-- Attempt `i` is cut off while it writes. Its reservation is released later if `inside` holds. -/
def cutOff (s : State) (i : Nat) (r : Running) (inside : Bool) : State :=
  let s := ((s.abandon i r).note (.attempt i) (.sample Count.timer)).setStatus i .cancelled
  if r.reserved && inside then
    { s with releases := s.releases ++ [(i, r.writing.event.eventId)] }
  else s

/-- Cuts attempt `i` off. There is no step unless it writes: it waits for nothing else. -/
def cancel (s : State) (i : Nat) (inside : Bool) : Option State :=
  match s.status? i with
  | some (.running r) => some (s.cutOff i r inside)
  | _ => none

/-- The release at `j` is carried out; it is one of the reservation that attempt `i` left. -/
def releaseAt (s : State) (j i : Nat) (eventId : Uuid) : State :=
  { s with releases := s.releases.eraseIdx j }.releaseBy i eventId

/-- Releases one of the reservations that were left. -/
def release (s : State) (j : Nat) : Option State :=
  match s.releases[j]? with
  | some (i, eventId) => some (s.releaseAt j i eventId)
  | none => none

/-- Lets time pass. -/
def elapse (s : State) (ms : Nat) : State := { s with now := s.now + ms }

/-! ### Steps of clients of the store -/

/-- A client gives up what it has or waits for. -/
def clientLeave (s : State) (k : Nat) (isOpen : Bool) : State :=
  let s := { s with store := s.store.leave (.client k) }
  if isOpen then s.note (.client k) .dropped else s

/-- The result of attempt `i`, if it has returned. -/
def result? (s : State) (i : Nat) : Option Result :=
  match s.status? i with
  | some (.returned r) => some r
  | _ => none

/-- Whether attempt `i` has a step to come. -/
def isRunning (s : State) (i : Nat) : Bool :=
  match s.status? i with
  | some (.reserving _) | some (.running _) | some (.settling ..) => true
  | _ => false

end State

end Intake.Ingest
