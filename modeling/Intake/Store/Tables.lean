import Intake.Aggregate.Row
import Intake.Keyed
import Intake.Store.Call

/-!
# Tables

The tables hold the events by id, the counters by video and the daily counts by video and day. A
transaction stages its writes, and `Tables.replay` carries them out: first the events, and then the
changes of rows, each of the two in the order in which they were staged. As events and rows are
in different tables this is the same as to carry out all writes in their order (`replay_eq_apply`).
-/

namespace Intake.Store

structure Tables where
  events : Keyed Uuid Event
  counters : Keyed Uuid Aggregate.VideoCounters
  daily : Keyed (Uuid × Int) Aggregate.VideoDaily
deriving DecidableEq, Repr

/-- A change of the tables. -/
inductive Write
  | event (event : Event)
  | counters (update : Aggregate.Update)
  | daily (update : Aggregate.Update)
deriving DecidableEq, Repr

/-- Whether a write stores an event of this id. -/
def Write.stores (id : Uuid) : Write → Bool
  | event e => e.eventId = id
  | counters _ | daily _ => false

/-- Whether a write stores an event. -/
def Write.isEvent : Write → Bool
  | event _ => true
  | counters _ | daily _ => false

namespace Tables

def empty : Tables := ⟨.empty, .empty, .empty⟩

instance : Inhabited Tables := ⟨empty⟩

def write (t : Tables) : Write → Tables
  | .event e => { t with events := t.events.set e.eventId e }
  | .counters u =>
    { t with counters := t.counters.upsert u.videoId fun row => .upsert row u }
  | .daily u =>
    { t with daily := t.daily.upsert (u.videoId, u.day) fun row => .upsert row u }

/-- Carries out writes in their order. -/
def apply (t : Tables) (ws : List Write) : Tables := ws.foldl write t

/-- Carries out the staged writes of a transaction, the events before the changes of rows. -/
def replay (t : Tables) (ws : List Write) : Tables :=
  (t.apply (ws.filter (·.isEvent))).apply (ws.filter fun w => !w.isEvent)

@[simp] theorem apply_nil (t : Tables) : t.apply [] = t := rfl

@[simp] theorem apply_append (t : Tables) (ws vs : List Write) :
    t.apply (ws ++ vs) = (t.apply ws).apply vs := List.foldl_append ..

theorem apply_cons (t : Tables) (w : Write) (ws : List Write) :
    t.apply (w :: ws) = (t.write w).apply ws := rfl

/-- An event is stored in a table of its own, whatever becomes of the rows. -/
theorem write_event_comm (t : Tables) (e : Event) {w : Write} (hw : w.isEvent = false) :
    (t.write w).write (.event e) = (t.write (.event e)).write w := by
  cases w with
  | event => cases hw
  | counters u => rfl
  | daily u => rfl

theorem apply_events_comm (t : Tables) {w : Write} (hw : w.isEvent = false) {es : List Write}
    (hes : ∀ v ∈ es, v.isEvent = true) : (t.write w).apply es = (t.apply es).write w := by
  induction es generalizing t with
  | nil => rfl
  | cons v es ih =>
    cases v with
    | event e =>
      rw [apply_cons, apply_cons, write_event_comm t e hw]
      exact ih _ fun v hv => hes v (List.mem_cons_of_mem _ hv)
    | counters | daily => cases hes _ (List.mem_cons_self ..)

/-- Events first or in the order in which they were staged: the writes come to the same. -/
theorem replay_eq_apply (t : Tables) (ws : List Write) : t.replay ws = t.apply ws := by
  induction ws generalizing t with
  | nil => rfl
  | cons w ws ih =>
    rw [apply_cons, ← ih]
    unfold replay
    cases hw : w.isEvent with
    | true => simp [hw, apply_cons]
    | false =>
      have hes : ∀ v ∈ ws.filter (·.isEvent), v.isEvent = true := fun v hv => by
        simpa using (List.mem_filter.1 hv).2
      simp [hw, apply_cons, apply_events_comm t hw hes]

theorem has_events_write (t : Tables) (w : Write) (id : Uuid) :
    (t.write w).events.has id = (t.events.has id || w.stores id) := by
  cases w with
  | event e =>
    by_cases h : id = e.eventId
    · simp [write, Write.stores, Keyed.has, h]
    · simp [write, Write.stores, Keyed.has, h, Ne.symm h]
  | counters u => simp [write, Write.stores]
  | daily u => simp [write, Write.stores]

theorem has_events_apply (t : Tables) (ws : List Write) (id : Uuid) :
    (t.apply ws).events.has id = (t.events.has id || ws.any (·.stores id)) := by
  induction ws generalizing t with
  | nil => simp
  | cons w ws ih => simp [apply] at ih ⊢; rw [ih, has_events_write, Bool.or_assoc]

end Tables

end Intake.Store
