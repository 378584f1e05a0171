import Intake.Ingest.Action

/-!
# What a step changes

Most statements look at a state through a few views: how far an attempt has come (`status?`), which
event it is for (`event?`), what it did to the two stores (`acts`), the keys, the releases that are
scheduled, and the store in memory. This file says once what every operation does to each view.

`step_moves` is the only place where `State.step` is opened: a step submits an event, is one of the
three kinds of step of an attempt, cuts an attempt off, releases a reservation, or is not a step of
ingestion at all. The lemmas after it say what each of these kinds does to the views.
-/

namespace Intake.Ingest

open Store (Party Call Memory)

/-- What an attempt did to one of the two stores. -/
inductive Act
  | command (c : Reservation.Command) (a : Reservation.Answer)
  | call (c : Call)

/-- The act that an entry of the log records, if it records one of an attempt. -/
def Entry.act? (e : Entry) : Option (Nat × Act) :=
  match e.party, e.what with
  | .attempt i, .command c a => some (i, .command c a)
  | .attempt i, .call c => some (i, .call c)
  | _, _ => none

/-- Whether an action is none of ingestion, but one of time, of a client or of the surroundings. -/
def Action.isOutside : Action → Bool
  | .submit _ | .advance _ | .cancel .. | .release _ => false
  | _ => true

/-- The status of an attempt that has just been started. -/
def Status.first (raw : RawEvent) : Status :=
  match Event.ofRaw raw with
  | .error flaw => .returned (.error (.invalid flaw))
  | .ok event => .reserving event

/-- The event on which an attempt of this status is at work. -/
def Status.event? : Status → Option Event
  | .reserving event => some event
  | .running r => some r.writing.event
  | .settling event .. => some event
  | .returned _ | .cancelled => none

/-- The deadline of an attempt came while it was writing. -/
def timedOut {α : Type} : Except Error α → Bool
  | .error (.timeout _) => true
  | _ => false

theorem timedOut_map {α β : Type} (f : α → β) (r : Except Error α) :
    timedOut (r.map f) = timedOut r := by
  rcases r with (_ | _ | _) | _ <;> rfl

namespace State

variable {s t : State} {a : Action} {i j : Nat}

/-- What attempts did to the two stores, the newest act first. -/
def acts (s : State) : List (Nat × Act) := s.log.filterMap Entry.act?

/-- The event of attempt `i`, if it is valid. -/
def event? (s : State) (i : Nat) : Option Event :=
  s.attempts[i]?.bind fun a => (Event.ofRaw a.raw).toOption

/-- Every attempt is at work on the event for which it was started. -/
def Own (s : State) : Prop :=
  ∀ i st e, s.status? i = some st → st.event? = some e → s.event? i = some e

/-- Attempt `i` was started for a valid event of this id. -/
def IsFor (s : State) (i : Nat) (id : Uuid) : Prop := ∃ e, s.event? i = some e ∧ e.eventId = id

/-- The store in memory, when ingestion works over one. -/
def memory (s : State) : Memory :=
  match s.store with
  | .memory m => m
  | .scripted _ | .closed => {}

def tables (s : State) : Store.Tables := s.memory.tables

theorem memory_of_store {m : Memory} (h : t.store = .memory m) : t.memory = m := by
  simp [memory, h]

/-! ### Notes and statuses -/

section notes

variable (s : State) (p : Party) (what : Occurrence) (series : List Metrics.Series) (st : Status)

@[simp] theorem settings_note : (s.note p what).settings = s.settings := rfl
@[simp] theorem now_note : (s.note p what).now = s.now := rfl
@[simp] theorem keys_note : (s.note p what).keys = s.keys := rfl
@[simp] theorem store_note : (s.note p what).store = s.store := rfl
@[simp] theorem attempts_note : (s.note p what).attempts = s.attempts := rfl
@[simp] theorem releases_note : (s.note p what).releases = s.releases := rfl

@[simp] theorem settings_noteAll : (s.noteAll p series).settings = s.settings := rfl
@[simp] theorem now_noteAll : (s.noteAll p series).now = s.now := rfl
@[simp] theorem keys_noteAll : (s.noteAll p series).keys = s.keys := rfl
@[simp] theorem store_noteAll : (s.noteAll p series).store = s.store := rfl
@[simp] theorem attempts_noteAll : (s.noteAll p series).attempts = s.attempts := rfl
@[simp] theorem releases_noteAll : (s.noteAll p series).releases = s.releases := rfl

@[simp] theorem settings_setStatus : (s.setStatus i st).settings = s.settings := rfl
@[simp] theorem now_setStatus : (s.setStatus i st).now = s.now := rfl
@[simp] theorem keys_setStatus : (s.setStatus i st).keys = s.keys := rfl
@[simp] theorem store_setStatus : (s.setStatus i st).store = s.store := rfl
@[simp] theorem releases_setStatus : (s.setStatus i st).releases = s.releases := rfl
@[simp] theorem acts_setStatus : (s.setStatus i st).acts = s.acts := rfl

theorem acts_note : (s.note p what).acts = (Entry.act? ⟨s.now, p, what⟩).toList ++ s.acts := by
  unfold acts note
  rw [List.filterMap_cons]
  cases Entry.act? ⟨s.now, p, what⟩ <;> rfl

@[simp] theorem acts_note_sample (x : Metrics.Series) : (s.note p (.sample x)).acts = s.acts := by
  cases p <;> simp [acts_note, Entry.act?]

@[simp] theorem acts_note_dropped : (s.note p .dropped).acts = s.acts := by
  cases p <;> simp [acts_note, Entry.act?]

@[simp] theorem acts_noteAll : (s.noteAll p series).acts = s.acts := by
  unfold acts noteAll
  rw [List.filterMap_append, List.filterMap_eq_nil_iff.2, List.nil_append]
  intro e he
  simp only [List.mem_reverse, List.mem_map] at he
  obtain ⟨x, -, rfl⟩ := he
  cases p <;> rfl

theorem status?_setStatus : (s.setStatus i st).status? j =
    if j = i then (s.status? i).map fun _ => st else s.status? j := by
  simp only [status?, setStatus, List.getElem?_modify]
  by_cases h : j = i
  · subst h; cases s.attempts[j]? <;> simp
  · simp [h, Ne.symm h]

@[simp] theorem event?_setStatus : (s.setStatus i st).event? = s.event? := by
  funext j
  simp only [event?, setStatus, List.getElem?_modify]
  by_cases h : i = j
  · subst h; cases s.attempts[i]? <;> simp
  · simp [h]

end notes

theorem status?_of_attempts (h : t.attempts = s.attempts) : t.status? = s.status? := by
  funext j; simp [status?, h]

theorem event?_of_attempts (h : t.attempts = s.attempts) : t.event? = s.event? := by
  funext j; simp [event?, h]

theorem isSome_status? : (s.status? i).isSome ↔ i < s.attempts.length := by
  simp [status?]

theorem isSome_status?_of_event? {e : Event} (h : s.event? i = some e) : (s.status? i).isSome := by
  unfold event? at h
  unfold status?
  cases hi : s.attempts[i]? with
  | none => simp [hi] at h
  | some x => rfl

theorem result?_eq_some {r : Result} :
    s.result? i = some r ↔ s.status? i = some (.returned r) := by
  unfold result?
  split
  · next r' hr => simp [hr]
  · next hno =>
    constructor
    · intro h
      cases h
    · exact fun h => absurd h (hno r)

/-! ### Commands of an attempt -/

section commands

variable (s : State) (p : Party) (i : Nat) (c : Reservation.Command)

@[simp] theorem settings_reservation : (s.reservation p c).1.settings = s.settings := rfl
@[simp] theorem keys_reservation : (s.reservation p c).1.keys = (s.keys.run c).1 := rfl
@[simp] theorem store_reservation : (s.reservation p c).1.store = s.store := rfl
@[simp] theorem attempts_reservation : (s.reservation p c).1.attempts = s.attempts := rfl
@[simp] theorem releases_reservation : (s.reservation p c).1.releases = s.releases := rfl
@[simp] theorem answer_reservation : (s.reservation p c).2 = (s.keys.run c).2 := rfl

@[simp] theorem acts_reservation : (s.reservation (.attempt i) c).1.acts =
    (i, .command c (s.keys.run c).2) :: s.acts := by
  unfold reservation command
  rw [acts_noteAll, acts_note]
  rfl

@[simp] theorem acts_reservation_client (k : Nat) :
    (s.reservation (.client k) c).1.acts = s.acts := by
  unfold reservation command
  rw [acts_noteAll, acts_note]
  rfl

@[simp] theorem acts_command_client (k : Nat) : (s.command (.client k) c).1.acts = s.acts := by
  unfold command
  rw [acts_note]
  rfl

@[simp] theorem settings_releaseBy (id : Uuid) : (s.releaseBy i id).settings = s.settings := rfl
@[simp] theorem keys_releaseBy (id : Uuid) :
    (s.releaseBy i id).keys = (s.keys.run (Reservation.release id)).1 := rfl
@[simp] theorem store_releaseBy (id : Uuid) : (s.releaseBy i id).store = s.store := rfl
@[simp] theorem attempts_releaseBy (id : Uuid) : (s.releaseBy i id).attempts = s.attempts := rfl
@[simp] theorem releases_releaseBy (id : Uuid) : (s.releaseBy i id).releases = s.releases := rfl

@[simp] theorem acts_releaseBy (id : Uuid) : (s.releaseBy i id).acts =
    (i, .command (Reservation.release id) (s.keys.run (Reservation.release id)).2) :: s.acts := by
  simp [releaseBy]

@[simp] theorem settings_releaseAt (j : Nat) (id : Uuid) :
    (s.releaseAt j i id).settings = s.settings := rfl
@[simp] theorem keys_releaseAt (j : Nat) (id : Uuid) :
    (s.releaseAt j i id).keys = (s.keys.run (Reservation.release id)).1 := rfl
@[simp] theorem store_releaseAt (j : Nat) (id : Uuid) : (s.releaseAt j i id).store = s.store := rfl
@[simp] theorem releases_releaseAt (j : Nat) (id : Uuid) :
    (s.releaseAt j i id).releases = s.releases.eraseIdx j := rfl
@[simp] theorem status?_releaseAt (j : Nat) (id : Uuid) :
    (s.releaseAt j i id).status? = s.status? := rfl
@[simp] theorem event?_releaseAt (j : Nat) (id : Uuid) :
    (s.releaseAt j i id).event? = s.event? := rfl
@[simp] theorem acts_releaseAt (j : Nat) (id : Uuid) : (s.releaseAt j i id).acts =
    (i, .command (Reservation.release id) (s.keys.run (Reservation.release id)).2) :: s.acts :=
  acts_releaseBy ..

end commands

/-! ### The kinds of step -/

/-- The kinds of step, each with what holds when it is taken. -/
inductive Moves (s : State) : Action → State → Prop
  | submit (raw : RawEvent) : s.Moves (.submit raw) (s.submit raw)
  | reserve {i : Nat} {event : Event} (h : s.status? i = some (.reserving event)) :
    s.Moves (.advance i) (s.reserve i event)
  | proceed {i : Nat} {r : Running} {t : State} (h : s.status? i = some (.running r))
    (ht : s.proceed i r = some t) : s.Moves (.advance i) t
  | settle {i : Nat} {event : Event} {reserved : Bool} {ending : Except Error Written}
    (h : s.status? i = some (.settling event reserved ending)) :
    s.Moves (.advance i) (s.settle i event reserved ending)
  | cancel {i : Nat} {r : Running} (inside : Bool) (h : s.status? i = some (.running r)) :
    s.Moves (.cancel i inside) (s.cutOff i r inside)
  | release {j i : Nat} {id : Uuid} (h : s.releases[j]? = some (i, id)) :
    s.Moves (.release j) (s.releaseAt j i id)
  | outside {a : Action} {t : State} (ha : a.isOutside = true) (h : s.step a = some t) :
    s.Moves a t

theorem step_moves (h : s.step a = some t) : s.Moves a t := by
  cases a with
  | submit raw => cases h; exact .submit raw
  | advance i =>
    simp only [step, advance] at h
    split at h
    · next hs => cases h; exact .reserve hs
    · next hs => exact .proceed hs h
    · next hs => cases h; exact .settle hs
    · cases h
  | cancel i inside =>
    simp only [step, cancel] at h
    split at h
    · next hs => cases h; exact .cancel inside hs
    · cases h
  | release j =>
    simp only [step, release] at h
    split at h
    · next hs => cases h; exact .release hs
    · cases h
  | _ => exact .outside rfl h

theorem step_reserve {event : Event} (hi : s.status? i = some (.reserving event)) :
    s.step (.advance i) = some (s.reserve i event) := by
  simp [step, advance, hi]

theorem step_proceed {r : Running} (hi : s.status? i = some (.running r)) :
    s.step (.advance i) = s.proceed i r := by
  simp [step, advance, hi]

theorem step_settle {event : Event} {reserved : Bool} {ending : Except Error Written}
    (hi : s.status? i = some (.settling event reserved ending)) :
    s.step (.advance i) = some (s.settle i event reserved ending) := by
  simp [step, advance, hi]

/-! ### A new attempt -/

section submit

variable (s : State) (raw : RawEvent)

theorem attempts_submit : (s.submit raw).attempts = s.attempts ++ [⟨raw, .first raw⟩] := by
  unfold submit Status.first; cases Event.ofRaw raw <;> rfl

@[simp] theorem settings_submit : (s.submit raw).settings = s.settings := by
  unfold submit; cases Event.ofRaw raw <;> rfl

@[simp] theorem now_submit : (s.submit raw).now = s.now := by
  unfold submit; cases Event.ofRaw raw <;> rfl

@[simp] theorem keys_submit : (s.submit raw).keys = s.keys := by
  unfold submit; cases Event.ofRaw raw <;> rfl

@[simp] theorem store_submit : (s.submit raw).store = s.store := by
  unfold submit; cases Event.ofRaw raw <;> rfl

@[simp] theorem releases_submit : (s.submit raw).releases = s.releases := by
  unfold submit; cases Event.ofRaw raw <;> rfl

theorem outbox_submit : (s.submit raw).outbox = s.outbox := by
  unfold submit; cases Event.ofRaw raw <;> rfl

@[simp] theorem acts_submit : (s.submit raw).acts = s.acts := by
  unfold submit
  cases Event.ofRaw raw with
  | error flaw => exact (acts_note_sample _ _ _).trans (acts_note_sample _ _ _)
  | ok event => exact acts_note_sample _ _ _

theorem status?_submit : (s.submit raw).status? j =
    if j = s.attempts.length then some (.first raw) else s.status? j := by
  unfold status?
  rw [attempts_submit]
  by_cases h : j = s.attempts.length
  · simp [h]
  · rw [if_neg h]
    rcases Nat.lt_or_gt_of_ne h with h | h
    · rw [List.getElem?_append_left h]
    · rw [List.getElem?_eq_none (by simp; omega), List.getElem?_eq_none (by omega)]

theorem event?_submit : (s.submit raw).event? j =
    if j = s.attempts.length then (Event.ofRaw raw).toOption else s.event? j := by
  unfold event?
  rw [attempts_submit]
  by_cases h : j = s.attempts.length
  · simp [h]
  · rw [if_neg h]
    rcases Nat.lt_or_gt_of_ne h with h | h
    · rw [List.getElem?_append_left h]
    · rw [List.getElem?_eq_none (by simp; omega), List.getElem?_eq_none (by omega)]

end submit

/-! ### Steps of an attempt -/

section attempt

variable (s : State) (i : Nat) (event : Event) (reserved : Bool) (ending : Except Error Written)
  (r : Running) (inside : Bool)

@[simp] theorem settings_reserve : (s.reserve i event).settings = s.settings := rfl
@[simp] theorem now_reserve : (s.reserve i event).now = s.now := rfl
@[simp] theorem keys_reserve : (s.reserve i event).keys =
    (s.keys.run (s.settings.terms.reserve event.eventId)).1 := rfl
@[simp] theorem store_reserve : (s.reserve i event).store = s.store := rfl
@[simp] theorem releases_reserve : (s.reserve i event).releases = s.releases := rfl

@[simp] theorem acts_reserve : (s.reserve i event).acts =
    (i, .command (s.settings.terms.reserve event.eventId)
      (s.keys.run (s.settings.terms.reserve event.eventId)).2) :: s.acts := by
  simp [reserve]

theorem status?_reserve : (s.reserve i event).status? j =
    if j = i then
      (s.status? i).map fun _ =>
        s.reserved event (s.keys.run (s.settings.terms.reserve event.eventId)).2
    else s.status? j := status?_setStatus ..

@[simp] theorem event?_reserve : (s.reserve i event).event? = s.event? := event?_setStatus ..

/-- The command that settles a reservation. -/
def closing (id : Uuid) : Except Error Written → Reservation.Command
  | .ok _ => s.settings.terms.markDone id
  | .error _ => Reservation.release id

@[simp] theorem key_closing (id : Uuid) : (s.closing id ending).key = Reservation.key id := by
  cases ending <;> rfl

theorem verb_closing_ne (id : Uuid) : (s.closing id ending).verb ≠ .setNew := by
  cases ending <;> simp [closing, Reservation.Terms.markDone, Reservation.release,
    Reservation.Command.verb]

@[simp] theorem settings_settle : (s.settle i event reserved ending).settings = s.settings := by
  unfold settle settleReservation signal
  cases reserved <;> rcases ending with e | _ | _ <;> rfl

@[simp] theorem now_settle : (s.settle i event reserved ending).now = s.now := by
  unfold settle settleReservation signal
  cases reserved <;> rcases ending with e | _ | _ <;> rfl

@[simp] theorem store_settle : (s.settle i event reserved ending).store = s.store := by
  unfold settle settleReservation signal
  cases reserved <;> rcases ending with e | _ | _ <;> rfl

@[simp] theorem releases_settle : (s.settle i event reserved ending).releases = s.releases := by
  unfold settle settleReservation signal
  cases reserved <;> rcases ending with e | _ | _ <;> rfl

theorem keys_settle : (s.settle i event reserved ending).keys =
    if reserved then (s.keys.run (s.closing event.eventId ending)).1 else s.keys := by
  unfold settle settleReservation signal
  cases reserved <;> rcases ending with e | _ | _ <;> rfl

@[simp] theorem acts_signal : (s.signal event ending).acts = s.acts := by
  unfold signal; split <;> rfl

theorem acts_settle : (s.settle i event reserved ending).acts =
    if reserved then
      (i, .command (s.closing event.eventId ending)
        (s.keys.run (s.closing event.eventId ending)).2) :: s.acts
    else s.acts := by
  unfold settle settleReservation finish
  cases reserved <;> cases ending <;> simp [closing]

theorem attempts_settle : (s.settle i event reserved ending).attempts =
    (s.setStatus i (.returned (ending.map ofWritten))).attempts := by
  unfold settle settleReservation signal
  cases reserved <;> rcases ending with e | _ | _ <;> rfl

theorem status?_settle : (s.settle i event reserved ending).status? j =
    if j = i then (s.status? i).map fun _ => .returned (ending.map ofWritten)
    else s.status? j := by
  rw [status?_of_attempts (attempts_settle ..), status?_setStatus]

@[simp] theorem event?_settle : (s.settle i event reserved ending).event? = s.event? := by
  rw [event?_of_attempts (attempts_settle ..), event?_setStatus]

@[simp] theorem settings_abandon : (s.abandon i r).settings = s.settings := by
  unfold abandon; split <;> rfl
@[simp] theorem now_abandon : (s.abandon i r).now = s.now := by
  unfold abandon; split <;> rfl
@[simp] theorem keys_abandon : (s.abandon i r).keys = s.keys := by
  unfold abandon; split <;> rfl
@[simp] theorem store_abandon : (s.abandon i r).store = s.store.leave (.attempt i) := by
  unfold abandon; split <;> rfl
@[simp] theorem attempts_abandon : (s.abandon i r).attempts = s.attempts := by
  unfold abandon; split <;> rfl
@[simp] theorem releases_abandon : (s.abandon i r).releases = s.releases := by
  unfold abandon; split <;> rfl

@[simp] theorem acts_abandon : (s.abandon i r).acts = s.acts := by
  unfold abandon
  split
  · exact acts_note_dropped _ _
  · rfl

@[simp] theorem settings_cutOff : (s.cutOff i r inside).settings = s.settings := by
  unfold cutOff; split <;> simp
@[simp] theorem keys_cutOff : (s.cutOff i r inside).keys = s.keys := by
  unfold cutOff; split <;> simp
@[simp] theorem store_cutOff : (s.cutOff i r inside).store = s.store.leave (.attempt i) := by
  unfold cutOff; split <;> simp

@[simp] theorem acts_cutOff : (s.cutOff i r inside).acts = s.acts := by
  have h : ((s.abandon i r).note (.attempt i) (.sample Count.timer)).acts = s.acts := by simp
  unfold cutOff
  split
  · exact h
  · exact h

theorem releases_cutOff : (s.cutOff i r inside).releases =
    if r.reserved && inside then s.releases ++ [(i, r.writing.event.eventId)]
    else s.releases := by
  unfold cutOff; split <;> simp

theorem attempts_cutOff : (s.cutOff i r inside).attempts =
    (s.setStatus i .cancelled).attempts := by
  unfold cutOff; split <;> simp [setStatus]

theorem status?_cutOff : (s.cutOff i r inside).status? j =
    if j = i then (s.status? i).map fun _ => .cancelled else s.status? j := by
  rw [status?_of_attempts (attempts_cutOff ..), status?_setStatus]

@[simp] theorem event?_cutOff : (s.cutOff i r inside).event? = s.event? := by
  rw [event?_of_attempts (attempts_cutOff ..), event?_setStatus]

end attempt

/-! ### Calls of the store -/

section call

variable (s : State) (p : Party) (waiting : Bool) (call : Call) (i : Nat) (r : Running)
  (a : Store.Answer)

@[simp] theorem settings_ask : (s.ask p waiting call).1.settings = s.settings := by
  unfold ask; split <;> rfl
@[simp] theorem now_ask : (s.ask p waiting call).1.now = s.now := by
  unfold ask; split <;> rfl
@[simp] theorem keys_ask : (s.ask p waiting call).1.keys = s.keys := by
  unfold ask; split <;> rfl
@[simp] theorem attempts_ask : (s.ask p waiting call).1.attempts = s.attempts := by
  unfold ask; split <;> rfl
@[simp] theorem releases_ask : (s.ask p waiting call).1.releases = s.releases := by
  unfold ask; split <;> rfl

theorem acts_ask : (s.ask (.attempt i) waiting call).1.acts =
    if waiting then s.acts else (i, .call call) :: s.acts := by
  unfold ask
  split
  · rfl
  · rw [acts_note]; rfl

@[simp] theorem acts_ask_client (k : Nat) : (s.ask (.client k) waiting call).1.acts = s.acts := by
  unfold ask
  split
  · rfl
  · rw [acts_note]; rfl

@[simp] theorem settings_answer : (s.answer i r a).settings = s.settings := by
  unfold answer; split <;> simp
@[simp] theorem now_answer : (s.answer i r a).now = s.now := by
  unfold answer; split <;> simp
@[simp] theorem keys_answer : (s.answer i r a).keys = s.keys := by
  unfold answer; split <;> simp
@[simp] theorem releases_answer : (s.answer i r a).releases = s.releases := by
  unfold answer; split <;> simp
@[simp] theorem acts_answer : (s.answer i r a).acts = s.acts := by
  unfold answer; split <;> simp

theorem store_answer : (s.answer i r a).store =
    if r.writing.drops a then s.store.leave (.attempt i) else s.store := by
  unfold answer; split <;> simp

theorem attempts_answer : (s.answer i r a).attempts =
    (s.setStatus i (r.next s.settings.maxRetries a)).attempts := by
  unfold answer; split <;> simp [setStatus]

theorem attempts_expire : (s.expire i r).attempts =
    (s.setStatus i (.settling r.writing.event r.reserved
      (.error (.timeout s.settings.timeout)))).attempts := by
  simp [expire, setStatus]

end call

section own

variable {p : Party} {waiting : Bool} {call : Call} {r : Running} {b : Store.Answer}
  {st st' : Status}

theorem status?_answer_self (hi : s.status? i = some st) :
    ((s.ask p waiting call).1.answer i r b).status? i =
      some (r.next s.settings.maxRetries b) := by
  rw [status?_of_attempts (attempts_answer ..), status?_setStatus, if_pos rfl,
    status?_of_attempts (attempts_ask ..), hi, settings_ask]
  rfl

theorem status?_expire_self (hi : s.status? i = some st) :
    ((s.ask p waiting call).1.expire i r).status? i = some
      (.settling r.writing.event r.reserved (.error (.timeout s.settings.timeout))) := by
  rw [status?_of_attempts (attempts_expire ..), status?_setStatus, if_pos rfl,
    status?_of_attempts (attempts_ask ..), hi, settings_ask]
  rfl

theorem status?_ask_self (hi : s.status? i = some st) :
    ((s.ask p waiting call).1.setStatus i st').status? i = some st' := by
  rw [status?_setStatus, if_pos rfl, status?_of_attempts (attempts_ask ..), hi]
  rfl

end own

/-- A step of an attempt that writes: it gets an answer, is cut off by its deadline, or begins to
wait. -/
theorem proceed_cases {r : Running} (h : s.proceed i r = some t) :
    (∃ a, (s.ask (.attempt i) r.waiting r.writing.call).2 = some a ∧
      t = (s.ask (.attempt i) r.waiting r.writing.call).1.answer i r a) ∨
    ((s.ask (.attempt i) r.waiting r.writing.call).2 = none ∧ r.deadline ≤ s.now ∧
      t = (s.ask (.attempt i) r.waiting r.writing.call).1.expire i r) ∨
    ((s.ask (.attempt i) r.waiting r.writing.call).2 = none ∧ s.now < r.deadline ∧
      r.waiting = false ∧ t = (s.ask (.attempt i) r.waiting r.writing.call).1.setStatus i
        (.running { r with waiting := true })) := by
  simp only [proceed] at h
  split at h
  · next a ha => cases h; exact .inl ⟨a, ha, rfl⟩
  · next ha =>
    split at h
    · next hd => cases h; exact .inr (.inl ⟨ha, hd, rfl⟩)
    · next hd =>
      split at h
      · cases h
      · next hw =>
        cases h
        exact .inr (.inr ⟨ha, Nat.lt_of_not_le hd, by simpa using hw, rfl⟩)

section proceed

variable {r : Running}

theorem keys_proceed (h : s.proceed i r = some t) : t.keys = s.keys := by
  rcases proceed_cases h with ⟨a, -, rfl⟩ | ⟨-, -, rfl⟩ | ⟨-, -, -, rfl⟩ <;> simp [expire]

theorem releases_proceed (h : s.proceed i r = some t) : t.releases = s.releases := by
  rcases proceed_cases h with ⟨a, -, rfl⟩ | ⟨-, -, rfl⟩ | ⟨-, -, -, rfl⟩ <;> simp [expire]

theorem now_proceed (h : s.proceed i r = some t) : t.now = s.now := by
  rcases proceed_cases h with ⟨a, -, rfl⟩ | ⟨-, -, rfl⟩ | ⟨-, -, -, rfl⟩ <;> simp [expire]

theorem settings_proceed (h : s.proceed i r = some t) : t.settings = s.settings := by
  rcases proceed_cases h with ⟨a, -, rfl⟩ | ⟨-, -, rfl⟩ | ⟨-, -, -, rfl⟩ <;> simp [expire]

theorem acts_proceed (h : s.proceed i r = some t) : t.acts =
    if r.waiting then s.acts else (i, .call r.writing.call) :: s.acts := by
  rw [← acts_ask]
  rcases proceed_cases h with ⟨a, -, rfl⟩ | ⟨-, -, rfl⟩ | ⟨-, -, -, rfl⟩ <;> simp [expire]

theorem attempts_proceed (h : s.proceed i r = some t) :
    ∃ st, t.attempts = (s.setStatus i st).attempts := by
  rcases proceed_cases h with ⟨a, -, rfl⟩ | ⟨-, -, rfl⟩ | ⟨-, -, -, rfl⟩
  · exact ⟨_, (attempts_answer ..).trans (by simp [setStatus]; rfl)⟩
  · exact ⟨_, (attempts_expire ..).trans (by simp [setStatus]; rfl)⟩
  · exact ⟨.running { r with waiting := true }, by simp [setStatus]⟩

theorem status?_proceed_of_ne (h : s.proceed i r = some t) (hj : j ≠ i) :
    t.status? j = s.status? j := by
  obtain ⟨st, ht⟩ := attempts_proceed h
  rw [status?_of_attempts ht, status?_setStatus, if_neg hj]

theorem event?_proceed (h : s.proceed i r = some t) : t.event? = s.event? := by
  obtain ⟨st, ht⟩ := attempts_proceed h
  rw [event?_of_attempts ht, event?_setStatus]

end proceed

/-! ### Steps outside of ingestion -/

theorem keys_clientLeave (s : State) (k : Nat) (isOpen : Bool) :
    (s.clientLeave k isOpen).keys = s.keys := by
  unfold clientLeave
  split <;> rfl

theorem store_clientLeave (s : State) (k : Nat) (isOpen : Bool) :
    (s.clientLeave k isOpen).store = s.store.leave (.client k) := by
  unfold clientLeave
  split <;> rfl

/-- Nothing that ingestion keeps for itself is changed from outside. -/
theorem outside_step (ha : a.isOutside = true) (h : s.step a = some t) :
    t.attempts = s.attempts ∧ t.releases = s.releases ∧ t.settings = s.settings ∧
      t.acts = s.acts := by
  cases a with
  | submit | advance | cancel | release => simp [Action.isOutside] at ha
  | elapse | evict | age | outage | override => cases h; exact ⟨rfl, rfl, rfl, rfl⟩
  | command k c => cases h; exact ⟨rfl, rfl, rfl, by simp⟩
  | reservation k c => cases h; exact ⟨rfl, rfl, rfl, by simp⟩
  | faults f => cases h; unfold setFaults; split <;> exact ⟨rfl, rfl, rfl, rfl⟩
  | clientCall k waiting call => cases h; exact ⟨by simp, by simp, by simp, by simp⟩
  | clientLeave k isOpen =>
    cases h; unfold clientLeave; split
    · exact ⟨rfl, rfl, rfl, acts_note_dropped ..⟩
    · exact ⟨rfl, rfl, rfl, rfl⟩

theorem status?_outside (ha : a.isOutside = true) (h : s.step a = some t) :
    t.status? = s.status? := status?_of_attempts (outside_step ha h).1

theorem event?_outside (ha : a.isOutside = true) (h : s.step a = some t) :
    t.event? = s.event? := event?_of_attempts (outside_step ha h).1

theorem settings_step (h : s.step a = some t) : t.settings = s.settings := by
  cases step_moves h with
  | submit raw => exact settings_submit s raw
  | reserve => rfl
  | proceed _ ht => exact settings_proceed ht
  | settle => exact settings_settle ..
  | cancel => exact settings_cutOff ..
  | release => rfl
  | outside ha ht => exact (outside_step ha ht).2.2.1

theorem event?_step_of_started (h : s.step a = some t) (hi : (s.status? i).isSome) :
    t.event? i = s.event? i := by
  cases step_moves h with
  | submit raw => rw [event?_submit, if_neg (Nat.ne_of_lt (isSome_status?.1 hi))]
  | reserve => rw [event?_reserve]
  | proceed _ ht => rw [event?_proceed ht]
  | settle => rw [event?_settle]
  | cancel => rw [event?_cutOff]
  | release => rw [event?_releaseAt]
  | outside ha h => rw [event?_outside ha h]

theorem event?_step (h : s.step a = some t) {e : Event} (he : s.event? i = some e) :
    t.event? i = some e := by
  rw [event?_step_of_started h (isSome_status?_of_event? he), he]

/-! ### Steps as one attempt sees them -/

/-- What a step is to attempt `i`: it leaves the attempt as far as it was, or takes it further. -/
inductive Turns (s : State) (i : Nat) (t : State) : Action → Prop
  | same {a : Action} (h : t.status? i = s.status? i) : s.Turns i t a
  | submit {raw : RawEvent} (hi : s.status? i = none) (hn : i = s.attempts.length)
    (ht : t = s.submit raw) : s.Turns i t (.submit raw)
  | reserve {event : Event} (hi : s.status? i = some (.reserving event))
    (ht : t = s.reserve i event) : s.Turns i t (.advance i)
  | proceed {r : Running} (hi : s.status? i = some (.running r)) (ht : s.proceed i r = some t) :
    s.Turns i t (.advance i)
  | settle {event : Event} {reserved : Bool} {ending : Except Error Written}
    (hi : s.status? i = some (.settling event reserved ending))
    (ht : t = s.settle i event reserved ending) : s.Turns i t (.advance i)
  | cancel {r : Running} {inside : Bool} (hi : s.status? i = some (.running r))
    (ht : t = s.cutOff i r inside) : s.Turns i t (.cancel i inside)

theorem step_turns (hs : s.step a = some t) (i : Nat) : s.Turns i t a := by
  cases step_moves hs with
  | submit raw =>
    by_cases hi : i = s.attempts.length
    · exact .submit (by simp [status?, hi]) hi rfl
    · exact .same (by rw [status?_submit, if_neg hi])
  | @reserve k event hk =>
    by_cases hi : i = k
    · subst hi
      exact .reserve hk rfl
    · exact .same (by rw [status?_reserve, if_neg hi])
  | @proceed k r _ hk ht =>
    by_cases hi : i = k
    · subst hi
      exact .proceed hk ht
    · exact .same (status?_proceed_of_ne ht hi)
  | @settle k event reserved ending hk =>
    by_cases hi : i = k
    · subst hi
      exact .settle hk rfl
    · exact .same (by rw [status?_settle, if_neg hi])
  | @cancel k r inside hk =>
    by_cases hi : i = k
    · subst hi
      exact .cancel hk rfl
    · exact .same (by rw [status?_cutOff, if_neg hi])
  | release => exact .same rfl
  | outside ha ht => exact .same (by rw [status?_outside ha ht])

section turns

variable {event : Event} {reserved : Bool} {ending : Except Error Written} {r : Running}
  {inside : Bool}

theorem status?_submit_self (s : State) (raw : RawEvent) :
    (s.submit raw).status? s.attempts.length = some (.first raw) := by
  rw [status?_submit, if_pos rfl]

theorem status?_reserve_self (hi : s.status? i = some (.reserving event)) :
    (s.reserve i event).status? i =
      some (s.reserved event (s.keys.run (s.settings.terms.reserve event.eventId)).2) := by
  rw [status?_reserve, if_pos rfl, hi]
  rfl

/-- A step of an attempt that writes takes the answer, is the deadline, or is the start of a
wait. -/
theorem status?_proceed_cases (hi : s.status? i = some (.running r)) (ht : s.proceed i r = some t) :
    (∃ b, t.status? i = some (r.next s.settings.maxRetries b)) ∨
    t.status? i = some (.settling r.writing.event r.reserved
      (.error (.timeout s.settings.timeout))) ∨
    t.status? i = some (.running { r with waiting := true }) := by
  rcases proceed_cases ht with ⟨b, -, rfl⟩ | ⟨-, -, rfl⟩ | ⟨-, -, -, rfl⟩
  · exact .inl ⟨b, status?_answer_self hi⟩
  · exact .inr (.inl (status?_expire_self hi))
  · exact .inr (.inr (status?_ask_self hi))

theorem status?_proceed_self (hi : s.status? i = some (.running r)) (ht : s.proceed i r = some t) :
    (∃ r', t.status? i = some (.running r') ∧ r'.reserved = r.reserved ∧
      r'.writing.event = r.writing.event) ∨
    ∃ ending, t.status? i = some (.settling r.writing.event r.reserved ending) := by
  rcases status?_proceed_cases hi ht with ⟨b, hb⟩ | hb | hb
  · unfold Running.next at hb
    split at hb
    · next w hw => exact .inl ⟨_, hb, rfl, Writing.event_going hw⟩
    · exact .inr ⟨_, hb⟩
  · exact .inr ⟨_, hb⟩
  · exact .inl ⟨_, hb, rfl, rfl⟩

theorem status?_settle_self (hi : s.status? i = some (.settling event reserved ending)) :
    (s.settle i event reserved ending).status? i = some (.returned (ending.map ofWritten)) := by
  rw [status?_settle, if_pos rfl, hi]
  rfl

theorem status?_cutOff_self (hi : s.status? i = some (.running r)) :
    (s.cutOff i r inside).status? i = some .cancelled := by
  rw [status?_cutOff, if_pos rfl, hi]
  rfl

end turns

/-! ### Steps as the key store sees them -/

/-- What a step is to the key store: a command of an attempt or a client, or a change from
outside. -/
inductive KeyMoves (s t : State) : Action → Prop
  | same {a : Action} (h : t.keys = s.keys) : s.KeyMoves t a
  | reserve {i : Nat} {event : Event} (hi : s.status? i = some (.reserving event))
    (ht : t = s.reserve i event) : s.KeyMoves t (.advance i)
  | settle {i : Nat} {event : Event} {ending : Except Error Written}
    (hi : s.status? i = some (.settling event true ending))
    (ht : t = s.settle i event true ending) : s.KeyMoves t (.advance i)
  | release {j i : Nat} {id : Uuid} (hj : s.releases[j]? = some (i, id))
    (ht : t = s.releaseAt j i id) : s.KeyMoves t (.release j)
  | command {k : Nat} {c : Reservation.Command} (h : t.keys = (s.keys.run c).1) :
    s.KeyMoves t (.command k c)
  | reservation {k : Nat} {c : Reservation.Command} (h : t.keys = (s.keys.run c).1) :
    s.KeyMoves t (.reservation k c)
  | evict {key : String} (h : t.keys = s.keys.evict key) : s.KeyMoves t (.evict key)
  | age {nanos : Nat} (h : t.keys = s.keys.age nanos) : s.KeyMoves t (.age nanos)
  | outage {failure : Option Reservation.Failure} (h : t.keys = { s.keys with outage := failure }) :
    s.KeyMoves t (.outage failure)
  | override {v : Reservation.Verb} {key : String} {b : Reservation.Answer}
    (h : t.keys = { s.keys with overrides := s.keys.overrides.set (v, key) b }) :
    s.KeyMoves t (.override v key b)

theorem step_keyMoves (hs : s.step a = some t) : s.KeyMoves t a := by
  cases step_moves hs with
  | submit raw => exact .same (keys_submit s raw)
  | reserve hi => exact .reserve hi rfl
  | proceed _ ht => exact .same (keys_proceed ht)
  | @settle i event reserved ending hi =>
    cases reserved with
    | true => exact .settle hi rfl
    | false => exact .same (keys_settle s i event false ending)
  | cancel => exact .same (keys_cutOff ..)
  | release hj => exact .release hj rfl
  | outside ha ht =>
    cases a with
    | submit | advance | cancel | release => simp [Action.isOutside] at ha
    | elapse => cases ht; exact .same rfl
    | command => cases ht; exact .command rfl
    | reservation => cases ht; exact .reservation rfl
    | evict => cases ht; exact .evict rfl
    | age => cases ht; exact .age rfl
    | outage => cases ht; exact .outage rfl
    | override => cases ht; exact .override rfl
    | faults f =>
      cases ht
      refine .same ?_
      unfold setFaults
      split <;> rfl
    | clientCall => cases ht; exact .same (keys_ask ..)
    | clientLeave => cases ht; exact .same (keys_clientLeave ..)

/-! ### What attempts stay -/

/-- Only a cut ends an attempt without a result. -/
theorem cancelled_step (hs : s.step a = some t) (hi : t.status? i = some .cancelled) :
    s.status? i = some .cancelled ∨
      ∃ r inside, a = .cancel i inside ∧ s.status? i = some (.running r) ∧
        t = s.cutOff i r inside := by
  cases step_turns hs i with
  | same hst => exact .inl (hst ▸ hi)
  | @submit raw _ hn ht =>
    subst hn ht
    rw [status?_submit_self] at hi
    unfold Status.first at hi
    cases hr : Event.ofRaw raw <;> simp [hr] at hi
  | @reserve event hold ht =>
    subst ht
    rw [status?_reserve_self hold] at hi
    unfold reserved at hi
    split at hi <;> cases hi
  | proceed hold ht =>
    rcases status?_proceed_self hold ht with ⟨r', hr', -⟩ | ⟨ending, hr'⟩
    · cases hr'.symm.trans hi
    · cases hr'.symm.trans hi
  | settle hold ht =>
    subst ht
    cases (status?_settle_self hold).symm.trans hi
  | @cancel r inside hold ht => exact .inr ⟨r, inside, rfl, hold, ht⟩

theorem Own.step (h : s.Own) (hs : s.step a = some t) : t.Own := by
  intro i st e hi he
  cases step_turns hs i with
  | same hst =>
    rw [hst] at hi
    exact event?_step hs (h i st e hi he)
  | @submit raw _ hn ht =>
    subst hn ht
    rw [status?_submit_self] at hi
    cases hi
    rw [event?_submit, if_pos rfl]
    unfold Status.first at he
    cases hr : Event.ofRaw raw with
    | error flaw => rw [hr] at he; cases he
    | ok event => rw [hr] at he; exact he
  | @reserve event hold ht =>
    refine event?_step hs (h i _ e hold ?_)
    subst ht
    rw [status?_reserve_self hold] at hi
    cases hi
    unfold reserved at he
    split at he
    · exact he
    · exact he
    · cases he
    · cases he
  | proceed hold ht =>
    refine event?_step hs (h i _ e hold ?_)
    rcases status?_proceed_self hold ht with ⟨r', hr', -, hev⟩ | ⟨ending, hr'⟩
    · cases hr'.symm.trans hi
      rw [← he]
      exact congrArg some hev.symm
    · cases hr'.symm.trans hi
      exact he
  | settle hold ht =>
    subst ht
    cases (status?_settle_self hold).symm.trans hi
    cases he
  | cancel hold ht =>
    subst ht
    cases (status?_cutOff_self hold).symm.trans hi
    cases he

end State

end Intake.Ingest
