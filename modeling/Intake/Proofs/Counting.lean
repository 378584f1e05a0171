import Intake.Proofs.Tally

/-!
# Every event is counted once

`every_event_counted_once`: as long as nobody else writes to the tables, they hold each event that
was ever stored as it was validated, and count each of them once, whatever else happens. The
invariant of the runs is `Counted`. An attempt carries out the writes of its event only while it has
the tables, and only after it has found that the event is not stored; so each commit adds one new
event together with what it counts (`Tables.Tally.write`), and all other steps add nothing.
-/

namespace Intake.Ingest.State

open Store (Party Tables Write)

variable {s t u : State} {a : Action}

/-- The tables hold and count the events of attempts. -/
structure Counted (s : State) : Prop where
  custody : s.Custody
  clean : ∀ k, s.memory.Clean (.client k)
  own : s.Own
  valid : ∀ e ∈ s.tables.events.values, 0 ≤ e.dwell
  source : ∀ id e, s.tables.events.get? id = some e → e.eventId = id ∧ ∃ i, s.event? i = some e
  tally : s.tables.events.values.length < 2 ^ 63 → s.tables.Tally s.tables.events.values

theorem ofRaw_of_event? {i : Nat} {e : Event} (h : s.event? i = some e) :
    ∃ a ∈ s.attempts, Event.ofRaw a.raw = .ok e := by
  unfold event? at h
  cases ha : s.attempts[i]? with
  | none => rw [ha] at h; cases h
  | some a =>
    rw [ha] at h
    refine ⟨a, List.mem_of_getElem? ha, ?_⟩
    cases hr : Event.ofRaw a.raw with
    | error flaw => simp [hr, Except.toOption] at h
    | ok x => simpa [hr, Except.toOption] using h

namespace Counted

theorem of_begins (h : s.Begins .empty) : s.Counted := by
  have ht := h.tables_eq
  refine ⟨.of_begins h, fun k => h.clean _, h.own, fun e he => ?_, fun id e he => ?_, fun _ => ?_⟩
  · rw [ht] at he
    cases he
  · rw [ht] at he
    cases he
  · rw [ht]
    exact Tables.tally_empty

/-- A step of a run in which clients only read adds nothing to the tables, or one new event with
all that it counts. -/
theorem writes (h : s.Counted) (hp : s.ReadOnly a) (hs : s.step a = some t) :
    t.tables = s.tables ∨
      ∃ i e, s.event? i = some e ∧ s.tables.events.has e.eventId = false ∧
        t.tables = s.tables.apply (Store.writesOf e) := by
  obtain ⟨ws, ht, hw⟩ := h.custody.tables_step hp.1 hs
  cases hw with
  | nothing => exact .inl ht
  | @attempt i r hr hnew hl => exact .inr ⟨i, _, h.own i _ _ hr rfl, hnew, ht⟩
  | @client k waiting hk =>
    rw [h.clean k hk] at ht
    exact .inl ht

theorem stays (h : s.Counted) (hp : s.ReadOnly a) (hs : s.step a = some t) {id : Uuid} {e : Event}
    (he : s.tables.events.get? id = some e) : t.tables.events.get? id = some e := by
  rcases h.writes hp hs with ht | ⟨i, x, -, hnew, ht⟩
  · rw [ht]
    exact he
  · have hne : id ≠ x.eventId := by
      rintro rfl
      simp [Keyed.has, he] at hnew
    rw [ht, Tables.events_writesOf, Keyed.get?_set, if_neg hne]
    exact he

theorem step (h : s.Counted) (hp : s.ReadOnly a) (hs : s.step a = some t) : t.Counted := by
  have hw := h.writes hp hs
  refine ⟨h.custody.step hp.1 hs, fun k => h.custody.clean_step hp.1 hp.2 hs (h.clean k),
    h.own.step hs, fun e he => ?_, fun id e he => ?_, fun hn => ?_⟩
  · rcases hw with ht | ⟨i, x, hx, hnew, ht⟩
    · rw [ht] at he
      exact h.valid e he
    · rw [ht, Tables.events_writesOf, Keyed.values_set_of_new hnew] at he
      rcases List.mem_append.1 he with he | he
      · exact h.valid e he
      · obtain ⟨y, -, hy⟩ := ofRaw_of_event? hx
        rw [List.mem_singleton.1 he]
        exact (Event.dwell_of_ofRaw hy).1
  · have hold : s.tables.events.get? id = some e → e.eventId = id ∧ ∃ i, t.event? i = some e := by
      intro he
      obtain ⟨hid, i, hi⟩ := h.source id e he
      exact ⟨hid, i, event?_step hs hi⟩
    rcases hw with ht | ⟨i, x, hx, -, ht⟩
    · rw [ht] at he
      exact hold he
    · rw [ht, Tables.events_writesOf, Keyed.get?_set] at he
      by_cases hid : id = x.eventId
      · rw [if_pos hid] at he
        cases he
        exact ⟨hid.symm, i, event?_step hs hx⟩
      · rw [if_neg hid] at he
        exact hold he
  · rcases hw with ht | ⟨i, x, hx, hnew, ht⟩
    · rw [ht] at hn ⊢
      exact h.tally hn
    · have hv : t.tables.events.values = s.tables.events.values ++ [x] := by
        rw [ht, Tables.events_writesOf, Keyed.values_set_of_new hnew]
      rw [hv, List.length_append, List.length_singleton] at hn
      obtain ⟨y, -, hy⟩ := ofRaw_of_event? hx
      rw [hv, ht]
      exact (h.tally (by omega)).write hnew hn h.valid (Event.dwell_of_ofRaw hy).1

theorem run (h : s.Counted) (hr : s.Reaches ReadOnly t) : t.Counted :=
  hr.keeps (fun _ _ _ hs hp h => h.step hp hs) h

theorem stays_run (h : s.Counted) (hr : s.Reaches ReadOnly t) {id : Uuid} {e : Event}
    (he : s.tables.events.get? id = some e) : t.tables.events.get? id = some e :=
  (hr.keeps (I := fun u => u.Counted ∧ u.tables.events.get? id = some e)
    (fun _ _ _ hs hp h => ⟨h.1.step hp hs, h.1.stays hp hs h.2⟩) ⟨h, he⟩).2

end Counted

/-- The tables hold events as they were validated when they were submitted, and never change or
forget one. While they are fewer than 2⁶³, the counters of each video and of each of its days count
exactly the events that are held, each once. -/
theorem every_event_counted_once (h : s.Begins .empty) (hr : s.Reaches ReadOnly t) :
    (∀ id e, t.tables.events.get? id = some e →
      e.eventId = id ∧ (∃ a ∈ t.attempts, Event.ofRaw a.raw = .ok e) ∧
        ∀ u, t.Reaches ReadOnly u → u.tables.events.get? id = some e) ∧
    (t.tables.events.values.length < 2 ^ 63 → t.tables.Tally t.tables.events.values) := by
  have hc := (Counted.of_begins h).run hr
  refine ⟨fun id e he => ?_, hc.tally⟩
  obtain ⟨hid, i, hi⟩ := hc.source id e he
  exact ⟨hid, ofRaw_of_event? hi, fun u hu => hc.stays_run hu he⟩

/-- Two attempts at one event; the commit of the first is acknowledged by nobody. -/
def lostAcknowledgement : List Action :=
  [.faults { nextCommit := some .acknowledgementLost }, .submit aView, .submit aView, .advance 0,
    .advance 1, .advance 0, .advance 0, .advance 0, .advance 0, .advance 0, .advance 0, .advance 0]

theorem counted_once_after_lost_acknowledgement :
    ∃ t, initial.Begins .empty ∧ initial.Reaches ReadOnly t ∧ t.result? 0 = some (.ok .inserted) ∧
      t.tables.events.values.length = 1 ∧ t.tables.Tally t.tables.events.values := by
  obtain ⟨t, ht⟩ := Option.isSome_iff_exists.1
    (show (initial.run lostAcknowledgement).isSome = true by decide +kernel)
  have hr : initial.Reaches ReadOnly t :=
    .of_run ht (by simp [lostAcknowledgement, ReadOnly, Orderly])
  have hend : (initial.run lostAcknowledgement).map (fun t => (t.result? 0,
      t.tables.events.values.length)) = some (some (.ok .inserted), 1) := by rfl
  rw [ht] at hend
  simp only [Option.map_some, Option.some.injEq, Prod.mk.injEq] at hend
  exact ⟨t, begins_initial, hr, hend.1, hend.2,
    (every_event_counted_once begins_initial hr).2 (by rw [hend.2]; decide)⟩

end Intake.Ingest.State
