import Intake.Proofs.Custody
import Intake.Proofs.View

/-!
# Conditions on runs

What the statements suppose of a run: how it begins, what the clients of the two stores keep to, and
what the key store and the attempts are spared. A condition on actions may speak of the state in
which the action is taken.
-/

namespace Intake.Ingest.State

/-- Nothing has been ingested yet, and the store in memory holds these tables. -/
structure Begins (s : State) (tables : Store.Tables) : Prop where
  attempts : s.attempts = []
  releases : s.releases = []
  log : s.log = []
  store : ∃ faults, s.store = .memory { tables, faults }

namespace Begins

variable {s : State} {tables : Store.Tables}

theorem status?_eq_none (h : s.Begins tables) (i : Nat) : s.status? i = none := by
  simp [status?, h.attempts]

theorem event?_eq_none (h : s.Begins tables) (i : Nat) : s.event? i = none := by
  simp [event?, h.attempts]

theorem memory_eq (h : s.Begins tables) : ∃ faults, s.memory = { tables, faults } := by
  obtain ⟨f, hf⟩ := h.store
  exact ⟨f, memory_of_store hf⟩

theorem tables_eq (h : s.Begins tables) : s.tables = tables := by
  obtain ⟨f, hf⟩ := h.memory_eq
  rw [State.tables, hf]

theorem own (h : s.Begins tables) : s.Own := by
  intro i st e hi
  cases (h.status?_eq_none i).symm.trans hi

theorem clean (h : s.Begins tables) (p : Store.Party) : s.memory.Clean p := by
  obtain ⟨f, hf⟩ := h.memory_eq
  intro hp
  rw [hf] at hp
  cases hp

end Begins

/-- No event is reserved. -/
def Unreserved (s : State) : Prop :=
  ∀ id, s.keys.entries.get? (Reservation.key id) = none

/-- No outage and no override keeps the key store from carrying out a command. -/
def KeysFree (s : State) : Prop := ∀ c, s.keys.fixed? c = none

/-! ### Clients -/

/-- Clients make only calls that are permitted to them. -/
def Orderly (s : State) : Action → Prop
  | .clientCall k waiting call => s.memory.Permits (.client k) waiting call
  | _ => True

/-- Clients of the store are orderly and write nothing. -/
def ReadOnly (s : State) (a : Action) : Prop :=
  s.Orderly a ∧ ∀ k waiting call, a = .clientCall k waiting call → call.writes = false

/-- Clients of the key store leave reservations alone. -/
def SparesReservations (_s : State) : Action → Prop
  | .command _ c | .reservation _ c => ∀ id, c.key ≠ Reservation.key id
  | _ => True

/-! ### The key store -/

/-- The key store is not made to fail, to answer otherwise or to forget a key that lives. -/
def KeysNormal (s : State) : Action → Prop
  | .evict _ | .override .. => False
  | .outage failure => failure = none
  | .age nanos => ∀ key, (s.keys.age nanos).live? key = s.keys.live? key
  | _ => True

/-- The commands that settle or release a reservation are carried out. -/
def Settles (s : State) : Action → Prop
  | .advance i => ∀ event ending, s.status? i = some (.settling event true ending) →
    s.keys.fixed? (s.closing event.eventId ending) = none
  | .release j => ∀ i id, s.releases[j]? = some (i, id) →
    s.keys.fixed? (Reservation.release id) = none
  | _ => True

/-! ### Attempts -/

/-- An attempt that is cut off can leave its reservation to be released. -/
def InRuntime (_s : State) : Action → Prop
  | .cancel _ inside => inside = true
  | _ => True

/-! ### Runs -/

/-- Clients are orderly, and reservations are written by ingestion only. -/
def Guarded (s : State) (a : Action) : Prop := s.Orderly a ∧ s.SparesReservations a

/-- Every reservation that was made is also settled or released, once its attempt comes to that. -/
def Diligent (s : State) (a : Action) : Prop := s.Guarded a ∧ s.Settles a ∧ s.InRuntime a

/-- The key store answers normally, and only ingestion writes to the two stores. -/
def Normal (s : State) (a : Action) : Prop := s.ReadOnly a ∧ s.SparesReservations a ∧ s.KeysNormal a

/-- No attempt has a step to come. -/
def isIdle (s : State) : Bool := (List.range s.attempts.length).all fun i => !s.isRunning i

theorem isRunning_of_isIdle {s : State} (h : s.isIdle = true) (i : Nat) : s.isRunning i = false := by
  by_cases hi : i < s.attempts.length
  · simpa using List.all_eq_true.1 h i (List.mem_range.2 hi)
  · have hn : s.status? i = none := by simp [status?]; omega
    simp [isRunning, hn]

/-! ### The first state of the examples -/

/-- Ingestion with default settings over an empty store in memory. -/
def initial : State := { settings := {}, store := .memory {} }

theorem begins_initial : initial.Begins .empty := ⟨rfl, rfl, rfl, {}, rfl⟩

theorem unreserved_initial : initial.Unreserved := fun _ => rfl

theorem keysFree_initial : initial.KeysFree := fun _ => rfl

/-- A view of video 2. -/
def aView : RawEvent :=
  { eventId := some ⟨1, by decide⟩, timestamp := Instant.ofParts? 20000 0 0, kind := "view_start"
    sessionId := "session", videoId := some ⟨2, by decide⟩ }

end Intake.Ingest.State
