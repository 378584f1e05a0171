import Intake.Proofs.Conditions

/-!
# Where an attempt stands

How far an attempt has come says where it is with the tables and what it knows of them: a
transaction that is past `insert` has staged exactly the writes of its event up to the present call
(`Writing.Stands`), and the tables, which nobody else can change meanwhile, do not hold the event.

`Custody` is the invariant: every attempt stands where its status says. `tables_step` is what
follows from it: the tables change only when a commit of an attempt carries out all the writes of
one event that was not stored, or when a client commits.
-/

namespace Intake

open Store (Party Call Memory Write)

/-- The writes of the transaction that stores an event. -/
def Store.writesOf (e : Event) : List Write :=
  .event e ::
    match Aggregate.Update.ofEvent e with
    | some u => [.counters u, .daily u]
    | none => []

theorem Store.Tables.has_writesOf (t : Store.Tables) (e : Event) (id : Uuid) :
    (t.apply (writesOf e)).events.has id = (t.events.has id || e.eventId = id) := by
  rw [has_events_apply]
  unfold writesOf
  split <;> simp [Write.stores]

theorem Store.Tables.events_writesOf (t : Store.Tables) (e : Event) :
    (t.apply (writesOf e)).events = t.events.set e.eventId e := by
  unfold writesOf
  split <;> rfl

namespace Ingest

variable {m m' : Memory} {p q : Party} {w : Writing} {waiting : Bool} {now : Nat}

namespace Writing

/-- Where the party that writes an event is. -/
def place (w : Writing) (waiting : Bool) : Memory.Place :=
  match w.step with
  | .begin | .check _ => if waiting then .waits else .away
  | .insert | .rollback => .has []
  | .counters _ => .has [.event w.event]
  | .daily u => .has [.event w.event, .counters u]
  | .commit => if waiting then .commits (Store.writesOf w.event) else .has (Store.writesOf w.event)

/-- What a writing has found out about the tables. Only `begin`, `commit` and `check` wait. -/
def Fits (w : Writing) (t : Store.Tables) (waiting : Bool) : Prop :=
  match w.step with
  | .begin | .check _ => True
  | .insert => waiting = false
  | .rollback => waiting = false ∧ t.events.has w.event.eventId = true
  | .counters u | .daily u => waiting = false ∧ Aggregate.Update.ofEvent w.event = some u ∧
    t.events.has w.event.eventId = false
  | .commit => t.events.has w.event.eventId = false

structure Stands (w : Writing) (m : Memory) (p : Party) (waiting : Bool) : Prop where
  place : m.At p (w.place waiting)
  fits : w.Fits m.tables waiting

theorem Stands.of_spares (h : w.Stands m p waiting) (hs : m.Spares m' q) (hp : p ≠ q) :
    w.Stands m' p waiting := by
  refine ⟨hs.at_of_ne hp h.place, ?_⟩
  have ht : m.lock.holder = some p → w.Fits m'.tables waiting := fun hm => by
    rw [(hs.kept p hp hm).2.2.2]
    exact h.fits
  have hat := h.place
  obtain ⟨e, step, n⟩ := w
  cases step with
  | begin => trivial
  | check => trivial
  | insert => exact ht hat.1
  | rollback => exact ht hat.1
  | counters u => exact ht hat.1
  | daily u => exact ht hat.1
  | commit => cases waiting <;> exact ht hat.1

end Writing

namespace Progress

/-- Where a party stands after an answer. A writing that ended well has left its event stored. -/
def Stands (m : Memory) (p : Party) (e : Event) : Progress → Prop
  | .going w => w.event = e ∧ w.Stands m p false
  | .settled r => m.At p .away ∧ ∀ x, r = .ok x → m.tables.events.has e.eventId = true

/-- The writing has ended with an insertion, or is about to find out whether it has. -/
def Landed : Progress → Prop
  | .going w => ∃ e, w.step = .check e
  | .settled r => r = .ok .inserted

end Progress

/-! ### One call -/

theorem Writing.stands_failed (w : Writing) (k : Nat) (e : Store.Error) (hat : m.At p .away) :
    (w.failed k e).Stands m p w.event := by
  unfold Writing.failed
  split
  · exact ⟨rfl, hat, trivial⟩
  · split
    · exact ⟨rfl, hat, trivial⟩
    · exact ⟨hat, fun x hx => by cases hx⟩

/-- Once an event was found to be new, its rows are written next, or it is committed. -/
theorem Writing.stands_rows {e : Event} {n : Nat} (hat : m.At p (.has [.event e]))
    (hid : m.tables.events.has e.eventId = false) :
    Writing.Stands ⟨e, Writing.rowsStep e, n⟩ m p false := by
  unfold Writing.rowsStep
  cases hu : Aggregate.Update.ofEvent e with
  | some u => exact ⟨hat, rfl, hu, hid⟩
  | none =>
    have hws : Store.writesOf e = [.event e] := by simp only [Store.writesOf, hu]
    exact ⟨by rw [← hws] at hat; exact hat, hid⟩

theorem Writing.landed_failed (w : Writing) (k : Nat) {e : Store.Error} (he : e.isAmbiguous = true) :
    (w.failed k e).Landed := by
  have hc : e.isConflict = false := by cases e <;> simp_all [Store.Error.isAmbiguous,
    Store.Error.isConflict]
  simp only [Writing.failed, Writing.retries?, hc, Bool.false_and, he, if_true]
  exact ⟨e, rfl⟩

/-- What the answer to a call brings about. -/
structure Writing.Answered (w : Writing) (m m' : Memory) (p : Party) (k : Nat) (a : Store.Answer)
    (ws : List Write) : Prop where
  drops : w.drops a = false
  took : m.Took m' p ws
  stands : (w.answered k a).Stands m' p w.event
  writes : ws = [] ∨ ws = Store.writesOf w.event ∧ m.tables.events.has w.event.eventId = false ∧
    (w.answered k a).Landed

/-- A call that is answered leaves its writer where the answer says, and carries out the writes of
its event or none. -/
theorem Writing.Stands.answered (hw : w.Stands m p waiting) (h : m.Sound) (k : Nat)
    {a : Store.Answer} (ha : (m.ask now p waiting w.call).2 = some a) :
    ∃ ws, w.Answered m (m.ask now p waiting w.call).1 p k a ws := by
  obtain ⟨hat, hf⟩ := hw
  obtain ⟨e, step, n⟩ := w
  cases step with
  | begin =>
    rcases h.ask_begin hat now with hg | hg | hg
    all_goals cases hg.answer.symm.trans ha
    · exact ⟨[], rfl, hg.took, Writing.stands_failed _ k _ hg.place, .inl rfl⟩
    · exact ⟨[], rfl, hg.took, ⟨rfl, hg.place, rfl⟩, .inl rfl⟩
  | insert =>
    cases hf
    rcases h.start_insert hat now e with ⟨hid, hg⟩ | ⟨hid, hg⟩
    all_goals cases hg.answer.symm.trans ha
    · exact ⟨[], rfl, hg.took, ⟨rfl, hg.place, rfl, hg.took.tables ▸ hid⟩, .inl rfl⟩
    · refine ⟨[], rfl, hg.took, ⟨rfl, ?_⟩, .inl rfl⟩
      exact Writing.stands_rows hg.place (hg.took.tables ▸ hid)
  | counters u =>
    obtain ⟨rfl, hu, hid⟩ := hf
    have hg := h.start_counters hat now u
    cases hg.answer.symm.trans ha
    exact ⟨[], rfl, hg.took, ⟨rfl, hg.place, rfl, hu, hg.took.tables ▸ hid⟩, .inl rfl⟩
  | daily u =>
    obtain ⟨rfl, hu, hid⟩ := hf
    have hg := h.start_daily hat now u
    cases hg.answer.symm.trans ha
    refine ⟨[], rfl, hg.took, ⟨rfl, ?_, hg.took.tables ▸ hid⟩, .inl rfl⟩
    have hws : Store.writesOf e = [.event e, .counters u] ++ [.daily u] := by
      simp only [Store.writesOf, hu]
      rfl
    show Memory.At _ p (.has (Store.writesOf e))
    rw [hws]
    exact hg.place
  | commit =>
    rcases h.ask_commit hat now with ⟨fate, hg⟩ | hg
    all_goals cases hg.answer.symm.trans ha
    rcases fate with _ | _ | _ | _
    · have hid : m.tables.events.has e.eventId = false := hf
      refine ⟨_, rfl, hg.took, ⟨hg.place, fun _ _ => ?_⟩, .inr ⟨rfl, hid, rfl⟩⟩
      show (m.ask now p waiting .commit).1.tables.events.has e.eventId = true
      rw [hg.took.tables]
      exact (Store.Tables.has_writesOf _ e _).trans (by simp)
    · exact ⟨_, rfl, hg.took, Writing.stands_failed _ k _ hg.place, .inl rfl⟩
    · exact ⟨_, rfl, hg.took, Writing.stands_failed _ k _ hg.place,
        .inr ⟨rfl, hf, Writing.landed_failed _ k rfl⟩⟩
    · exact ⟨_, rfl, hg.took, Writing.stands_failed _ k _ hg.place, .inl rfl⟩
  | rollback =>
    obtain ⟨rfl, hid⟩ := hf
    have hg : m.Gives p _ _ _ _ := h.start_rollback now
    cases hg.answer.symm.trans ha
    exact ⟨[], rfl, hg.took, ⟨hg.place, fun _ _ => hg.took.tables ▸ hid⟩, .inl rfl⟩
  | check =>
    rcases h.ask_check hat now e.eventId with ⟨x, hg⟩ | hg | hg
    all_goals cases hg.answer.symm.trans ha
    · exact ⟨[], rfl, hg.took, ⟨hg.place, fun _ hx => by cases hx⟩, .inl rfl⟩
    · refine ⟨[], rfl, hg.took, ?_, .inl rfl⟩
      cases hid : m.tables.events.has e.eventId with
      | true => exact ⟨hg.place, fun _ _ => hg.took.tables ▸ hid⟩
      | false => exact ⟨hg.place, fun _ hx => by cases hx⟩

/-- A call without an answer leaves its writer waiting. -/
theorem Writing.Stands.waits (hw : w.Stands m p waiting) (h : m.Sound)
    (ha : (m.ask now p waiting w.call).2 = none) :
    m.Took (m.ask now p waiting w.call).1 p [] ∧ w.Stands (m.ask now p waiting w.call).1 p true := by
  obtain ⟨hat, hf⟩ := hw
  obtain ⟨e, step, n⟩ := w
  cases step with
  | begin =>
    rcases h.ask_begin hat now with hg | hg | hg
    all_goals cases hg.answer.symm.trans ha
    exact ⟨hg.took, hg.place, trivial⟩
  | insert =>
    cases hf
    rcases h.start_insert hat now e with ⟨-, hg⟩ | ⟨-, hg⟩
    all_goals cases hg.answer.symm.trans ha
  | counters u =>
    cases hf.1
    cases (h.start_counters hat now u).answer.symm.trans ha
  | daily u =>
    cases hf.1
    cases (h.start_daily hat now u).answer.symm.trans ha
  | commit =>
    rcases h.ask_commit hat now with ⟨fate, hg⟩ | hg
    all_goals cases hg.answer.symm.trans ha
    exact ⟨hg.took, hg.place, hg.took.tables ▸ hf⟩
  | rollback =>
    cases hf.1
    cases (h.start_rollback now).answer.symm.trans ha
  | check =>
    rcases h.ask_check hat now e.eventId with ⟨x, hg⟩ | hg | hg
    all_goals cases hg.answer.symm.trans ha
    exact ⟨hg.took, hg.place, trivial⟩

/-! ### All attempts -/

namespace Status

/-- Where an attempt stands that has come this far, or has not been started. -/
def Stands (m : Memory) (p : Party) : Option Status → Prop
  | some (.running r) => r.writing.Stands m p r.waiting
  | some (.settling event _ ending) =>
    m.At p .away ∧ ∀ x, ending = .ok x → m.tables.events.has event.eventId = true
  | _ => m.At p .away

/-- The attempt has inserted its event, or is about to find out whether it has. -/
def Landed : Option Status → Prop
  | some (.running r) => ∃ e, r.writing.step = .check e
  | some (.settling _ _ ending) => ending = .ok .inserted
  | _ => False

theorem stands_of_spares {st : Option Status} (h : Stands m p st) (hs : m.Spares m' q)
    (hp : p ≠ q) : Stands m' p st := by
  rcases st with _ | _ | r | ⟨e, reserved, ending⟩ | _ | _
  case some.running => exact Writing.Stands.of_spares h hs hp
  case some.settling => exact ⟨hs.at_of_ne hp h.1, fun x hx => hs.grows _ (h.2 x hx)⟩
  all_goals
    have hat : m.At p .away := h
    exact hs.at_of_ne hp hat

theorem stands_next {r : Running} {k : Nat} {a : Store.Answer}
    (h : (r.writing.answered k a).Stands m p r.writing.event) : Stands m p (some (r.next k a)) := by
  unfold Running.next
  cases hp : r.writing.answered k a with
  | going w =>
    rw [hp] at h
    exact h.2
  | settled result =>
    rw [hp] at h
    refine ⟨h.1, fun x hx => ?_⟩
    cases result with
    | error e => cases hx
    | ok y => exact h.2 y rfl

theorem landed_next {r : Running} {k : Nat} {a : Store.Answer}
    (h : (r.writing.answered k a).Landed) : Landed (some (r.next k a)) := by
  unfold Running.next
  cases hp : r.writing.answered k a with
  | going w =>
    rw [hp] at h
    exact h
  | settled result =>
    rw [hp] at h
    cases h
    rfl

end Status

namespace State

variable {s t : State} {a : Action} {i j : Nat}

/-- Ingestion works over a store in memory, and every attempt stands where its status says. -/
structure Custody (s : State) : Prop where
  store : s.store = .memory s.memory
  sound : s.memory.Sound
  stands : ∀ i, Status.Stands s.memory (.attempt i) (s.status? i)

/-- The writes that a step carries out. -/
inductive Writes (s t : State) : Action → List Write → Prop
  | nothing {a : Action} : s.Writes t a []
  | attempt {i : Nat} {r : Running} (hr : s.status? i = some (.running r))
    (hnew : s.tables.events.has r.writing.event.eventId = false)
    (hl : Status.Landed (t.status? i)) :
    s.Writes t (.advance i) (Store.writesOf r.writing.event)
  | client {k : Nat} {waiting : Bool} (hk : s.memory.lock.holder = some (.client k)) :
    s.Writes t (.clientCall k waiting .commit) s.memory.staged

theorem store_ask (h : s.store = .memory m) (p : Party) (waiting : Bool) (call : Call) :
    (s.ask p waiting call).1.store = .memory (m.ask s.now p waiting call).1 := by
  cases waiting <;> simp [ask, Memory.ask, Store.start, Store.resume, h]

theorem answer_ask (h : s.store = .memory m) (p : Party) (waiting : Bool) (call : Call) :
    (s.ask p waiting call).2 = (m.ask s.now p waiting call).2 := by
  cases waiting <;> simp [ask, Memory.ask, Store.start, Store.resume, h]

namespace Custody

theorem of_begins {tables : Store.Tables} (h : s.Begins tables) : s.Custody := by
  obtain ⟨f, hf⟩ := h.store
  have hm := memory_of_store hf
  have hfree : s.memory.lock = .free := by rw [hm]
  refine ⟨by rw [hm]; exact hf, ?_, fun i => ?_⟩
  · rw [hm]
    exact ⟨fun _ => rfl, .nil, fun _ => ⟨rfl, rfl⟩⟩
  · rw [h.status?_eq_none i]
    show _ ∉ s.memory.lock.queue
    simp [hfree]

/-- After a step of one party every other attempt stands where it stood. -/
theorem of_took (h : s.Custody) {ws : List Write} (hst : t.store = .memory m)
    (ht : s.memory.Took m p ws) (hp : ∀ i, p = .attempt i → Status.Stands m p (t.status? i))
    (hne : ∀ i, p ≠ .attempt i → t.status? i = s.status? i) :
    t.Custody ∧ s.memory.Took t.memory p ws := by
  refine ⟨⟨?_, ?_, fun i => ?_⟩, ?_⟩ <;> rw [memory_of_store hst]
  · exact hst
  · exact ht.sound
  · by_cases hi : p = .attempt i
    · exact hi ▸ hp i hi
    · rw [hne i hi]
      exact Status.stands_of_spares (h.stands i) ht.spares (Ne.symm hi)
  · exact ht

theorem of_store (h : s.Custody) (hst : t.store = s.store) (i : Nat)
    (hi : Status.Stands s.memory (.attempt i) (t.status? i))
    (hne : ∀ j, j ≠ i → t.status? j = s.status? j) :
    t.Custody ∧ s.memory.Took t.memory (.attempt i) [] := by
  refine h.of_took (hst.trans h.store) h.sound.took_refl ?_ ?_
  · rintro j ⟨⟩
    exact hi
  · exact fun j hj => hne j fun e => hj (e ▸ rfl)

theorem away (h : s.Custody) {st : Option Status} (hs : s.status? i = st)
    (hst : ∀ r, st ≠ some (.running r)) : s.memory.At (.attempt i) .away := by
  have hi := h.stands i
  rw [hs] at hi
  rcases st with _ | _ | r | ⟨e, reserved, ending⟩ | _ | _
  case some.running => exact absurd rfl (hst r)
  case some.settling => exact hi.1
  all_goals exact hi

theorem submit (h : s.Custody) (raw : RawEvent) : (s.submit raw).Custody ∧
    s.memory.Took (s.submit raw).memory (.attempt s.attempts.length) [] := by
  refine h.of_store (store_submit s raw) s.attempts.length ?_ fun j hj => ?_
  · have hnone : s.status? s.attempts.length = none := by simp [status?]
    have hat := h.away hnone (by simp)
    rw [status?_submit, if_pos rfl]
    unfold Status.first
    split <;> exact hat
  · rw [status?_submit, if_neg hj]

theorem reserve (h : s.Custody) {event : Event} (hs : s.status? i = some (.reserving event)) :
    (s.reserve i event).Custody ∧
      s.memory.Took (s.reserve i event).memory (.attempt i) [] := by
  refine h.of_store (store_reserve s i event) i ?_ fun j hj => ?_
  · have hat := h.away hs (by simp)
    rw [status?_reserve, if_pos rfl, hs]
    unfold reserved
    simp only [Option.map_some]
    split
    · exact ⟨hat, trivial⟩
    · exact ⟨hat, trivial⟩
    · exact hat
    · exact hat
  · rw [status?_reserve, if_neg hj]

theorem settle (h : s.Custody) {event : Event} {reserved : Bool} {ending : Except Error Written}
    (hs : s.status? i = some (.settling event reserved ending)) :
    (s.settle i event reserved ending).Custody ∧
      s.memory.Took (s.settle i event reserved ending).memory (.attempt i) [] := by
  refine h.of_store (by simp) i ?_ fun j hj => ?_
  · rw [status?_settle, if_pos rfl, hs]
    exact h.away hs (by simp)
  · rw [status?_settle, if_neg hj]

theorem cutOff (h : s.Custody) {r : Running} (hs : s.status? i = some (.running r))
    (inside : Bool) : (s.cutOff i r inside).Custody ∧
      s.memory.Took (s.cutOff i r inside).memory (.attempt i) [] := by
  refine h.of_took (m := s.memory.leave (.attempt i)) ?_ (h.sound.took_leave _) ?_ fun j hj => ?_
  · rw [store_cutOff, h.store]
    rfl
  · rintro j ⟨⟩
    rw [status?_cutOff, if_pos rfl, hs]
    exact h.sound.away_leave _
  · rw [status?_cutOff, if_neg (by rintro rfl; exact hj rfl)]

theorem proceed (h : s.Custody) {r : Running} (hs : s.status? i = some (.running r))
    (ht : s.proceed i r = some t) :
    t.Custody ∧ ∃ ws, s.memory.Took t.memory (.attempt i) ws ∧ s.Writes t (.advance i) ws := by
  have hw : r.writing.Stands s.memory (.attempt i) r.waiting := by
    have := h.stands i
    rwa [hs] at this
  have hst := store_ask h.store (.attempt i) r.waiting r.writing.call
  have hne : ∀ j, .attempt i ≠ Party.attempt j → t.status? j = s.status? j :=
    fun j hj => status?_proceed_of_ne ht fun e => hj (e ▸ rfl)
  rcases proceed_cases ht with ⟨a, ha, rfl⟩ | ⟨ha, -, rfl⟩ | ⟨ha, -, -, rfl⟩
  all_goals rw [answer_ask h.store] at ha
  · obtain ⟨ws, hd, htook, hstands, hws⟩ := hw.answered h.sound s.settings.maxRetries ha
    have hi : ((s.ask (.attempt i) r.waiting r.writing.call).1.answer i r a).status? i =
        some (r.next s.settings.maxRetries a) := status?_answer_self hs
    obtain ⟨hc, htab⟩ := h.of_took (by rw [store_answer, hd]; exact hst) htook
      (by rintro j ⟨⟩; rw [hi]; exact Status.stands_next hstands) hne
    refine ⟨hc, ws, htab, ?_⟩
    rcases hws with rfl | ⟨rfl, hnew, hl⟩
    · exact .nothing
    · exact .attempt hs hnew (by rw [hi]; exact Status.landed_next hl)
  · obtain ⟨htook, -⟩ := hw.waits h.sound ha
    have hleave := htook.sound.took_leave (.attempt i)
    obtain ⟨hc, htab⟩ := h.of_took (by simp [expire, hst]; rfl) (htook.trans hleave)
      (by
        rintro j ⟨⟩
        rw [status?_expire_self hs]
        exact ⟨htook.sound.away_leave _, fun x hx => by cases hx⟩) hne
    exact ⟨hc, [], htab, .nothing⟩
  · obtain ⟨htook, hstands⟩ := hw.waits h.sound ha
    obtain ⟨hc, htab⟩ := h.of_took (by simpa using hst) htook
      (by
        rintro j ⟨⟩
        rw [status?_ask_self hs]
        exact hstands) hne
    exact ⟨hc, [], htab, .nothing⟩

theorem inside (h : s.Custody) (ha : a.isOutside = false) (hs : s.step a = some t) :
    t.Custody ∧ ∃ i ws, s.memory.Took t.memory (.attempt i) ws ∧ s.Writes t a ws := by
  cases step_moves hs with
  | submit raw => exact ⟨(h.submit raw).1, _, [], (h.submit raw).2, .nothing⟩
  | reserve hi => exact ⟨(h.reserve hi).1, _, [], (h.reserve hi).2, .nothing⟩
  | proceed hi ht => exact ⟨(h.proceed hi ht).1, _, (h.proceed hi ht).2⟩
  | settle hi => exact ⟨(h.settle hi).1, _, [], (h.settle hi).2, .nothing⟩
  | cancel inside hi => exact ⟨(h.cutOff hi inside).1, _, [], (h.cutOff hi inside).2, .nothing⟩
  | release hj =>
    obtain ⟨hc, htook⟩ := h.of_store (store_releaseAt ..) 0 (h.stands 0) fun _ _ => rfl
    exact ⟨hc, 0, [], htook, .nothing⟩
  | outside ha' => rw [ha] at ha'; cases ha'

theorem outside (h : s.Custody) (hp : s.Orderly a) (ha : a.isOutside = true)
    (hs : s.step a = some t) :
    t.Custody ∧ ∃ p ws, s.memory.Took t.memory p ws ∧ s.Writes t a ws := by
  have hst := congrFun (status?_outside ha hs)
  have hsame : t.store = s.store →
      t.Custody ∧ ∃ p ws, s.memory.Took t.memory p ws ∧ s.Writes t a ws := fun he => by
    obtain ⟨hc, htook⟩ := h.of_store he 0 (by rw [hst 0]; exact h.stands 0) fun j _ => hst j
    exact ⟨hc, _, [], htook, .nothing⟩
  cases a with
  | submit | advance | cancel | release => simp [Action.isOutside] at ha
  | elapse | command | reservation | evict | age | outage | override =>
    exact hsame (by cases hs; rfl)
  | faults f =>
    obtain ⟨hc, htook⟩ := h.of_took (t := t) (p := .client 0) (by
      cases hs
      simp only [setFaults, h.store]) (h.sound.took_faults f) (by simp) fun j _ => hst j
    exact ⟨hc, _, [], htook, .nothing⟩
  | clientCall k waiting call =>
    obtain ⟨ws, htook, hws⟩ := h.sound.took_ask hp s.now
    obtain ⟨hc, htook⟩ := h.of_took (t := t) (by
      cases hs
      exact store_ask h.store (.client k) waiting call) htook (by simp) fun j _ => hst j
    refine ⟨hc, _, ws, htook, ?_⟩
    rcases hws with rfl | ⟨rfl, hk, rfl⟩
    · exact .nothing
    · exact .client hk
  | clientLeave k isOpen =>
    obtain ⟨hc, htook⟩ := h.of_took (t := t) (by
      cases hs
      rw [store_clientLeave, h.store, Store.leave]) (h.sound.took_leave (.client k)) (by simp)
      fun j _ => hst j
    exact ⟨hc, _, [], htook, .nothing⟩

theorem moves (h : s.Custody) (hp : s.Orderly a) (hs : s.step a = some t) :
    t.Custody ∧ ∃ p ws, s.memory.Took t.memory p ws ∧ s.Writes t a ws := by
  cases ha : a.isOutside with
  | true => exact h.outside hp ha hs
  | false =>
    obtain ⟨hc, i, ws, hw⟩ := h.inside ha hs
    exact ⟨hc, _, ws, hw⟩

theorem step (h : s.Custody) (hp : s.Orderly a) (hs : s.step a = some t) : t.Custody :=
  (h.moves hp hs).1

/-- The tables change only by a commit, and by the writes of one event if it is an attempt's. -/
theorem tables_step (h : s.Custody) (hp : s.Orderly a) (hs : s.step a = some t) :
    ∃ ws, t.tables = s.tables.apply ws ∧ s.Writes t a ws := by
  obtain ⟨-, p, ws, htook, hw⟩ := h.moves hp hs
  exact ⟨ws, htook.tables, hw⟩

theorem stored_step (h : s.Custody) (hp : s.Orderly a) (hs : s.step a = some t) {id : Uuid}
    (hid : s.tables.events.has id = true) : t.tables.events.has id = true := by
  obtain ⟨-, p, ws, htook, -⟩ := h.moves hp hs
  exact htook.spares.grows id hid

theorem clean_step (h : s.Custody) (hp : s.Orderly a)
    (hw : ∀ k waiting call, a = .clientCall k waiting call → call.writes = false)
    (hs : s.step a = some t) {k : Nat} (hc : s.memory.Clean (.client k)) :
    t.memory.Clean (.client k) := by
  cases ha : a.isOutside with
  | false =>
    obtain ⟨-, i, ws, htook, -⟩ := h.inside ha hs
    exact htook.spares.clean (by simp) hc
  | true =>
    cases a with
    | submit | advance | cancel | release => simp [Action.isOutside] at ha
    | elapse | command | reservation | evict | age | outage | override =>
      cases hs
      exact hc
    | faults f =>
      cases hs
      simp only [setFaults, h.store]
      exact hc
    | clientCall j waiting call =>
      have hm : t.memory = (s.memory.ask s.now (.client j) waiting call).1 :=
        memory_of_store (by cases hs; exact store_ask h.store (.client j) waiting call)
      rw [hm]
      by_cases hj : k = j
      · subst hj
        exact h.sound.clean_ask hp (hw k waiting call rfl) hc s.now
      · obtain ⟨ws, htook, -⟩ := h.sound.took_ask hp s.now
        exact htook.spares.clean (by simp [hj]) hc
    | clientLeave j isOpen =>
      have hm : t.memory = s.memory.leave (.client j) :=
        memory_of_store (by cases hs; rw [store_clientLeave, h.store, Store.leave])
      rw [hm]
      by_cases hj : k = j
      · subst hj
        exact fun hk => absurd (Store.Lock.mem_queue_of_holder hk) (h.sound.away_leave _)
      · exact (h.sound.spares_leave _).clean (by simp [hj]) hc

end Custody

end State

end Ingest

end Intake
