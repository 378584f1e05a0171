import Intake.Ingest.Action
import Intake.Signal.Pipeline

/-!
# The whole service

Ingestion and the signal pipeline side by side. The pipeline gets the signals of inserted events and
gives nothing back.

The store in memory that they share is one object with one record of faults. Here it is split into
the tables with the faults of transactions and checks, which ingestion has, and the ledger with the
faults of touches, which the pipeline has. No operation of the store uses both parts: to begin, to
write, to end a transaction and to check take no look at the ledger or its faults, and a touch takes
none at the tables or theirs. The ledger is not locked with the tables either.
-/

namespace Intake

structure Service where
  ingest : Ingest.State
  signals : Signal.Pipeline

namespace Service

inductive Action
  | ingest (a : Ingest.Action)
  | dispatch (u : Signal.Update)
  | receive
  | launch
  | turn (j : Nat)
  | stopWorker
  /-- Sets the faults of the ledger. -/
  | signalFaults (failing : Bool) (delay : Option Nat)
  /-- A client's touch of the ledger comes to its end. -/
  | touched (t : Signal.Touch)

/-- Hands the signals of inserted events to the pipeline. -/
def forward (s : Service) : Service :=
  { ingest := { s.ingest with outbox := [] }
    signals := s.ingest.outbox.foldl .dispatch s.signals }

def step (s : Service) : Action → Option Service
  | .ingest a => (s.ingest.step a).map fun ingest => { s with ingest }.forward
  | .dispatch u => some { s with signals := s.signals.dispatch u }
  | .receive => s.signals.receive.map fun signals => { s with signals }
  | .launch => s.signals.launch.map fun signals => { s with signals }
  | .turn j => (s.signals.turn s.ingest.now j).map fun signals => { s with signals }
  | .stopWorker => some { s with signals := s.signals.stop }
  | .signalFaults failing delay =>
    some { s with signals.ledger := { s.signals.ledger with failing, delay } }
  | .touched t => some { s with signals.ledger := s.signals.ledger.endTouch t }

def run (s : Service) : List Action → Option Service
  | [] => some s
  | a :: as => (s.step a).bind fun s => s.run as

/-- Takes a step that may not be possible. -/
def apply (s : Service) (a : Action) : Service := (s.step a).getD s

end Service

end Intake
