import Intake.Metrics.Series
import Intake.Signal.Ledger
import Intake.Span

/-!
# The signal pipeline

Updates wait in a queue of limited length and are dropped when it is full. A worker takes the
oldest, holds it until fewer than the allowed number of updates are running, and starts it. A
running update touches the ledger, and is given up when that takes too long. Nothing is tried
twice.
-/

namespace Intake.Signal

structure Settings where
  timeout : Span := .ofMillis 500
  capacity : Nat := 128
  inFlight : Nat := 4
deriving Repr

/-- Why an update was dropped. -/
inductive Refusal
  | queueFull
  | closed
deriving DecidableEq, Repr

/-- How a running update ended. -/
inductive Ending
  | success
  | error
  | timeout
deriving DecidableEq, Repr

def Refusal.name : Refusal → String
  | queueFull => "queue_full"
  | closed => "closed"

def Ending.name : Ending → String
  | success => "success"
  | error => "error"
  | timeout => "timeout"

/-- The end of an update in the pipeline. -/
inductive Fate
  | dropped (r : Refusal)
  | finished (e : Ending)
deriving DecidableEq, Repr

/-- The samples given when an update meets its end. -/
def Fate.samples : Fate → List Metrics.Series
  | dropped r => [⟨"ingest_signal_updates_dropped_total", [("reason", r.name)]⟩]
  | finished e =>
    [⟨"ingest_signal_updates_total", [("outcome", e.name)]⟩,
     ⟨"ingest_signal_update_time_ms", [("outcome", e.name)]⟩]

/-- A running update, from its first turn on with its touch and the time at which it is given up. -/
structure Task where
  update : Update
  touch : Option (Touch × Nat) := none
deriving Repr

structure Pipeline where
  settings : Settings
  ledger : Ledger := {}
  queue : List Update := []
  held : Option Update := none
  tasks : List Task := []
  /-- Whether the worker is there. -/
  isOpen : Bool := true
  /-- The updates that met their end, the newest first. -/
  log : List (Update × Fate) := []

namespace Pipeline

/-- Hands an update to the pipeline. -/
def dispatch (p : Pipeline) (u : Update) : Pipeline :=
  if !p.isOpen then { p with log := (u, .dropped .closed) :: p.log }
  else if max p.settings.capacity 1 ≤ p.queue.length then
    { p with log := (u, .dropped .queueFull) :: p.log }
  else { p with queue := p.queue ++ [u] }

/-- The worker takes the oldest update. -/
def receive (p : Pipeline) : Option Pipeline :=
  match p.held, p.queue with
  | none, u :: queue => some { p with held := some u, queue }
  | _, _ => none

/-- The worker starts the update that it holds. -/
def launch (p : Pipeline) : Option Pipeline :=
  match p.held with
  | some update =>
    if p.tasks.length < max p.settings.inFlight 1 then
      some { p with held := none, tasks := p.tasks ++ [{ update }] }
    else none
  | none => none

/-- Task `j` has met its end. -/
def retire (p : Pipeline) (j : Nat) (u : Update) (e : Ending) : Pipeline :=
  { p with tasks := p.tasks.eraseIdx j, log := (u, .finished e) :: p.log }

/-- Gives task `j` its turn: it begins if it has not, and ends if it can. -/
def turn (p : Pipeline) (now : Nat) (j : Nat) : Option Pipeline :=
  match p.tasks[j]? with
  | none => none
  | some t =>
    let (touch, expires) := t.touch.getD
      (p.ledger.beginTouch now t.update, now + p.settings.timeout.ticks)
    if touch.due ≤ now then
      let e := if touch.failure.isSome then Ending.error else .success
      some ({ p with ledger := p.ledger.endTouch touch }.retire j t.update e)
    else if expires ≤ now then some (p.retire j t.update .timeout)
    else if t.touch.isSome then none
    else some { p with tasks := p.tasks.set j { t with touch := some (touch, expires) } }

/-- The worker is stopped; what it holds and what is queued is lost. -/
def stop (p : Pipeline) : Pipeline := { p with isOpen := false, queue := [], held := none }

/-- The next step that needs no time: the worker comes first, then the oldest task that can go on.
-/
def next? (p : Pipeline) (now : Nat) : Option Pipeline :=
  p.receive <|> p.launch <|> (List.range p.tasks.length).findSome? (p.turn now)

/-- Takes steps until all wait, at most `fuel` of them. -/
def settleWithin : Nat → Pipeline → Nat → Pipeline
  | 0, p, _ => p
  | fuel + 1, p, now =>
    match p.next? now with
    | some p => settleWithin fuel p now
    | none => p

/-- More steps than the pipeline can take without time: four for a queued update, three for the one
that is held, two for a running one. -/
def stepBound (p : Pipeline) : Nat := 4 * p.queue.length + 3 + 2 * p.tasks.length

/-- Lets the pipeline run until all wait. -/
def settle (p : Pipeline) (now : Nat) : Pipeline := settleWithin p.stepBound p now

/-- The times at which running updates go on. -/
def timers (p : Pipeline) : List Nat :=
  p.tasks.flatMap fun t =>
    match t.touch with
    | some (touch, expires) => [touch.due, expires]
    | none => []

end Pipeline

end Intake.Signal
