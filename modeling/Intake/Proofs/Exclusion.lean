import Intake.Proofs.Agreement

/-!
# One attempt at a time

While the key store answers every command, the attempt that reserved an event has it to itself until
it settles or releases the reservation. The invariant is `Exclusive`: whoever holds a reservation has
its key at `pending`, and nobody else holds it. The key is new when a reservation is made, so there
was no holder; and it is `done` or gone once the reservation has ended, so there is none left
(`value?_step` names these three things that may happen to a key).

What an attempt does at the store lies within the time for which it holds its reservation, because
it is at the store only while it is running.
-/

namespace Intake.Ingest

open Reservation (pendingValue doneValue)
open Store (Party)

namespace Status

/-- An attempt that writes, or has written, made the reservation of its event. -/
def Reserved : Option Status → Prop
  | some (.running r) => r.reserved = true
  | some (.settling _ reserved _) => reserved = true
  | _ => True

/-- The attempt was let in and has failed, or was cut off. -/
def Failed : Option Status → Prop
  | some (.returned (.error _)) | some .cancelled => True
  | _ => False

end Status

namespace State

variable {s t : State} {a : Action} {i j : Nat} {id : Uuid}

/-- The value of the reservation of an event, while it lives. -/
def value? (s : State) (id : Uuid) : Option String := s.keys.value? (Reservation.key id)

theorem value?_of_keys (h : t.keys = s.keys) : t.value? id = s.value? id := by
  rw [value?, h, value?]

theorem value?_run_of_ne {c : Reservation.Command} (h : t.keys = (s.keys.run c).1)
    (hc : c.key ≠ Reservation.key id) : t.value? id = s.value? id := by
  rw [value?, h]
  exact s.keys.value?_run_of_ne c hc.symm

/-! ### What becomes of a reservation -/

/-- After a try to reserve an event its key lives, with the value it had if it lived before. -/
theorem value?_reserve (hf : s.KeysFree) (i : Nat) (event : Event) :
    (s.reserve i event).value? event.eventId =
      some ((s.value? event.eventId).getD pendingValue) :=
  Reservation.KeyStore.value?_run_setNew (hf _) (Reservation.ttlSecs_pos _)

theorem value?_eq_none_of_answer (hf : s.KeysFree) :
    s.value? id = none ↔ (s.keys.run (s.settings.terms.reserve id)).2 = .ok true := by
  rw [Reservation.Terms.reserve, Reservation.KeyStore.answer_setNew (hf _), value?,
    Reservation.KeyStore.value?, Option.map_eq_none_iff, ← Option.isNone_iff_eq_none]
  constructor
  · exact congrArg _
  · exact Except.ok.inj

theorem value?_reserves (hf : s.KeysFree) (hr : s.Reserves i id a) (hs : s.step a = some t) :
    s.value? id = none ∧ t.value? id = some pendingValue := by
  obtain ⟨rfl, ⟨event, hi, rfl⟩, ha⟩ := hr
  have hnone : s.value? event.eventId = none := (value?_eq_none_of_answer hf).2 ha
  cases (step_reserve hi).symm.trans hs
  rw [value?_reserve hf, hnone]
  exact ⟨rfl, rfl⟩

theorem value?_settle_ok (hf : s.KeysFree) (i : Nat) (event : Event) (w : Written) :
    (s.settle i event true (.ok w)).value? event.eventId = some doneValue := by
  rw [value?, keys_settle, if_pos rfl]
  exact Reservation.KeyStore.value?_run_set (hf _) (Reservation.ttlSecs_pos _)

theorem value?_settle_error (hf : s.KeysFree) (i : Nat) (event : Event) (x : Error) :
    (s.settle i event true (.error x)).value? event.eventId = none := by
  rw [value?, keys_settle, if_pos rfl]
  exact Reservation.KeyStore.value?_run_delete (hf _)

/-- A reservation that ends is `done` if the writing ended well, and is gone if not. -/
theorem value?_closes (hf : s.KeysFree) (hsp : s.Spoken) (hc : s.Closes i id a)
    (hs : s.step a = some t) :
    t.value? id = none ∧ Status.Failed (t.status? i) ∨
      t.value? id = some doneValue ∧ s.Completes i id a := by
  cases hc with
  | @settle event ending hi hid =>
    subst hid
    cases (step_settle hi).symm.trans hs
    rw [status?_settle_self hi]
    cases ending with
    | ok w => exact .inr ⟨value?_settle_ok hf i event w, rfl, event, w, hi, rfl⟩
    | error x => exact .inl ⟨value?_settle_error hf i event x, trivial⟩
  | @release j hj =>
    cases (step_releaseAt hj).symm.trans hs
    rw [status?_releaseAt, (hsp.left i id (List.mem_of_getElem? hj)).1]
    exact .inl ⟨Reservation.KeyStore.value?_run_delete (hf _), trivial⟩

theorem value?_same (hf : s.KeysFree) (hp : s.Normal a) (hs : s.step a = some t)
    (hr : ∀ i, ¬s.Reserves i id a) (hc : ∀ i, ¬s.Closes i id a) : t.value? id = s.value? id := by
  obtain ⟨-, hspares, hnormal⟩ := hp
  cases step_keyMoves hs with
  | same hk => exact value?_of_keys hk
  | @reserve i event hi ht =>
    subst ht
    by_cases hid : event.eventId = id
    · subst hid
      rw [value?_reserve hf]
      -- the key lives, or the reservation would have been made
      cases hold : s.value? event.eventId with
      | some v => rfl
      | none =>
        have ha := (value?_eq_none_of_answer hf).1 hold
        exact absurd ⟨rfl, ⟨event, hi, rfl⟩, ha⟩ (hr i)
    · exact value?_run_of_ne (keys_reserve s i event) fun h => hid (Reservation.key_injective h)
  | @settle i event ending hi ht =>
    have hk := keys_settle s i event true ending
    rw [if_pos rfl, ← ht] at hk
    refine value?_run_of_ne hk fun h => hc i (.settle hi ?_)
    exact Reservation.key_injective (by simpa using h)
  | @release j i id' hj ht =>
    subst ht
    refine value?_run_of_ne (keys_releaseAt s i j id') fun h => ?_
    exact hc i (.release (Reservation.key_injective h ▸ hj))
  | command hk | reservation hk => exact value?_run_of_ne hk (hspares id)
  | evict | override => cases hnormal
  | @age nanos hk =>
    have hlive : (s.keys.age nanos).live? (Reservation.key id) = _ := hnormal (Reservation.key id)
    rw [value?, hk, Reservation.KeyStore.value?, hlive]
    rfl
  | outage hk =>
    rw [value?, hk]
    rfl

/-- A reservation stays as it is and with whoever holds it, or it is made, or it ends. -/
theorem value?_step (hf : s.KeysFree) (hsp : s.Spoken) (ho : s.Own) (hp : s.Normal a)
    (hs : s.step a = some t) (id : Uuid) :
    (t.value? id = s.value? id ∧ ∀ i, t.Holds i id ↔ s.Holds i id) ∨
      (∃ i, s.Reserves i id a ∧ s.value? id = none ∧ t.value? id = some pendingValue) ∨
      ∃ i, s.Closes i id a ∧ (t.value? id = none ∧ Status.Failed (t.status? i) ∨
        t.value? id = some doneValue ∧ s.Completes i id a) := by
  by_cases hr : ∃ i, s.Reserves i id a
  · obtain ⟨i, hr⟩ := hr
    exact .inr (.inl ⟨i, hr, value?_reserves hf hr hs⟩)
  by_cases hc : ∃ i, s.Closes i id a
  · obtain ⟨i, hc⟩ := hc
    exact .inr (.inr ⟨i, hc, value?_closes hf hsp hc hs⟩)
  rw [not_exists] at hr hc
  refine .inl ⟨value?_same hf hp hs hr hc, fun i => ⟨fun h => ?_, fun h => ?_⟩⟩
  · rcases h.of_step hsp ho hs with h | h
    · exact h
    · exact absurd h (hr i)
  · rcases h.step hsp ho hs with h | h
    · exact h
    · exact absurd h (hc i)

/-! ### Who holds a reservation -/

/-- The invariant of normal runs: a reservation that is held is `pending` and has one holder, and
nobody is at work on an event without its reservation. -/
structure Exclusive (s : State) : Prop where
  agreed : s.Agreed
  backed : s.Backed
  free : s.KeysFree
  clean : ∀ k, s.memory.Clean (.client k)
  reserved : ∀ i, Status.Reserved (s.status? i)
  pending : ∀ i id, s.Holds i id → s.value? id = some pendingValue
  unique : ∀ i j id, s.Holds i id → s.Holds j id → i = j

theorem Closes.holds (hc : s.Closes i id a) (hsp : s.Spoken) (ho : s.Own) : s.Holds i id := by
  cases hc with
  | settle hi hid => exact (hsp.holds_settling ho hi).2 ⟨hid, rfl⟩
  | release hj => exact (hsp.left i id (List.mem_of_getElem? hj)).2

theorem Closes.not_reserves {k : Nat} {id' : Uuid} (hc : s.Closes i id a) :
    ¬s.Reserves k id' a := by
  rintro ⟨ha, ⟨event, hk, -⟩, -⟩
  cases hc with
  | settle hi =>
    cases ha
    cases hi.symm.trans hk
  | release => cases ha

/-- Whoever the key store answers and lets in has made its reservation. -/
theorem reserved_step (hf : s.KeysFree) (h : Status.Reserved (s.status? i))
    (hs : s.step a = some t) : Status.Reserved (t.status? i) := by
  cases step_turns hs i with
  | same hst => rwa [hst]
  | @submit raw _ hn ht =>
    subst hn ht
    rw [status?_submit_self]
    unfold Status.first
    split <;> trivial
  | @reserve event hi ht =>
    subst ht
    have ha := Reservation.KeyStore.answer_setNew (hf (s.settings.terms.reserve event.eventId))
    rw [status?_reserve_self hi, Reservation.Terms.reserve, ha]
    cases s.keys.live? (Reservation.key event.eventId) with
    | none => exact rfl
    | some e => trivial
  | proceed hi ht =>
    rw [hi] at h
    rcases status?_proceed_self hi ht with ⟨r', hr', hres, -⟩ | ⟨ending, hr'⟩
    · rw [hr']
      exact hres.trans h
    · rw [hr']
      exact h
  | settle hi ht =>
    subst ht
    rw [status?_settle_self hi]
    trivial
  | cancel hi ht =>
    subst ht
    rw [status?_cutOff_self hi]
    trivial

namespace Exclusive

theorem of_begins (h : s.Begins .empty) (hu : s.Unreserved) (hf : s.KeysFree) : s.Exclusive := by
  have hk := Kept.of_begins h hu
  have hnot : ∀ i id, ¬s.Holds i id := by
    rintro i id ⟨⟨e, he, -⟩, -⟩
    cases (h.event?_eq_none i).symm.trans he
  refine ⟨hk.agreed, hk.backed, hf, fun k => h.clean _, fun i => ?_,
    fun i id hi => absurd hi (hnot i id), fun i j id hi => absurd hi (hnot i id)⟩
  rw [h.status?_eq_none i]
  trivial

variable (h : s.Exclusive) (hp : s.Normal a) (hs : s.step a = some t)
include h hp hs

/-- What may happen to the reservation of an event, with what it means for its holders. -/
theorem held_step (id : Uuid) :
    (t.value? id = s.value? id ∧ ∀ i, t.Holds i id ↔ s.Holds i id) ∨
      (∃ i, s.value? id = none ∧ t.value? id = some pendingValue ∧ t.Holds i id ∧
        ∀ j, t.Holds j id → j = i) ∨
      ∃ i, s.Holds i id ∧ (∀ j, ¬t.Holds j id) ∧
        (t.value? id = none ∧ Status.Failed (t.status? i) ∨
          t.value? id = some doneValue ∧ s.Completes i id a) := by
  have hsp := h.agreed.spoken
  have ho := h.agreed.own
  rcases value?_step h.free hsp ho hp hs id with hsame | ⟨i, hr, hnone, hpend⟩ | ⟨i, hc, hv⟩
  · exact .inl hsame
  · refine .inr (.inl ⟨i, hnone, hpend, hr.holds hsp ho hs, fun j hj => ?_⟩)
    rcases hj.of_step hsp ho hs with hj | hj
    · cases hnone.symm.trans (h.pending j id hj)
    · exact Action.advance.inj (hj.action.symm.trans hr.action)
  · have hi := hc.holds hsp ho
    refine .inr (.inr ⟨i, hi, fun j hj => ?_, hv⟩)
    rcases hj.of_step hsp ho hs with hold | hold
    · have hij : j = i := h.unique j i id hold hi
      exact hc.not_holds hs (hij ▸ hj)
    · exact hc.not_reserves hold

theorem step : t.Exclusive := by
  refine ⟨h.agreed.step hp.1.1 hp.2.1 hs, h.backed.step h.agreed hp.2.1 (h.free.settles a) hs,
    h.free.step hp.2.2 hs, fun k => ?_, fun i => reserved_step h.free (h.reserved i) hs,
    fun i id hi => ?_, fun i j id hi hj => ?_⟩
  · exact h.agreed.custody.clean_step hp.1.1 hp.1.2 hs (h.clean k)
  · rcases h.held_step hp hs id with ⟨hv, hh⟩ | ⟨k, -, hv, -⟩ | ⟨k, -, hnone, -⟩
    · rw [hv]
      exact h.pending i id ((hh i).1 hi)
    · exact hv
    · exact absurd hi (hnone i)
  · rcases h.held_step hp hs id with ⟨-, hh⟩ | ⟨k, -, -, -, hk⟩ | ⟨k, -, hnone, -⟩
    · exact h.unique i j id ((hh i).1 hi) ((hh j).1 hj)
    · rw [hk i hi, hk j hj]
    · exact absurd hi (hnone i)

end Exclusive

theorem Exclusive.run (h : s.Exclusive) (hr : s.Reaches Normal t) : t.Exclusive :=
  hr.keeps (fun _ _ _ hs hp h => h.step hp hs) h

theorem Exclusive.holds_running (h : s.Exclusive) {r : Running}
    (hi : s.status? i = some (.running r)) : s.Holds i r.writing.event.eventId := by
  have hres := h.reserved i
  rw [hi] at hres
  exact (h.agreed.spoken.holds_running h.agreed.own hi).2 ⟨rfl, hres⟩

theorem Exclusive.holds_settling (h : s.Exclusive) {event : Event} {reserved : Bool}
    {ending : Except Error Written} (hi : s.status? i = some (.settling event reserved ending)) :
    s.Holds i event.eventId := by
  have hres := h.reserved i
  rw [hi] at hres
  exact (h.agreed.spoken.holds_settling h.agreed.own hi).2 ⟨rfl, hres⟩

/-! ### At the store -/

/-- Attempt `i` has the tables or waits for them. -/
def AtStore (s : State) (i : Nat) : Prop := Party.attempt i ∈ s.memory.lock.queue

/-- The step cuts attempt `i` off: its deadline has come, or it is cancelled. -/
def Cuts (s : State) (i : Nat) (t : State) : Prop :=
  ∃ r, s.status? i = some (.running r) ∧
    (t.status? i = some .cancelled ∨ t.status? i = some
      (.settling r.writing.event r.reserved (.error (.timeout s.settings.timeout))))

theorem Custody.running_of_atStore (h : s.Custody) (hq : s.AtStore i) :
    ∃ r, s.status? i = some (.running r) := by
  refine Classical.byContradiction fun hno => ?_
  rw [not_exists] at hno
  exact h.away rfl hno hq

theorem Exclusive.holds_of_atStore (h : s.Exclusive) (hq : s.AtStore i) : ∃ id, s.Holds i id := by
  obtain ⟨r, hi⟩ := h.agreed.custody.running_of_atStore hq
  exact ⟨_, h.holds_running hi⟩

theorem Reserves.away (hr : s.Reserves i id a) (hc : s.Custody) (ho : s.Orderly a)
    (hs : s.step a = some t) : ¬s.AtStore i ∧ ¬t.AtStore i := by
  have htc := hc.step ho hs
  obtain ⟨rfl, ⟨event, hi, rfl⟩, ha⟩ := hr
  refine ⟨hc.away hi (by simp), ?_⟩
  have hst : t.status? i = some (s.reserved event (.ok true)) := by
    cases (step_reserve hi).symm.trans hs
    rw [status?_reserve_self hi, ha]
  have hstands := htc.stands i
  rw [hst] at hstands
  exact hstands.place

theorem Closes.away (hc : s.Closes i id a) (hcu : s.Custody) (hsp : s.Spoken) (ho : s.Orderly a)
    (hs : s.step a = some t) : ¬s.AtStore i ∧ ¬t.AtStore i := by
  have htc := hcu.step ho hs
  cases hc with
  | @settle event ending hi hid =>
    cases (step_settle hi).symm.trans hs
    exact ⟨hcu.away hi (by simp), htc.away (status?_settle_self hi) (by simp)⟩
  | @release j hj =>
    cases (step_releaseAt hj).symm.trans hs
    have hcan := (hsp.left i id (List.mem_of_getElem? hj)).1
    have hcan' : (s.releaseAt j i id).status? i = some .cancelled := hcan
    exact ⟨hcu.away hcan (by simp), htc.away hcan' (by simp)⟩

/-- A step that makes or ends the reservation of an attempt finds it away from the store, and leaves
it there. -/
theorem Exclusive.away_of_changed (h : s.Exclusive) (hp : s.Normal a) (hs : s.step a = some t)
    (hch : ¬(s.Holds i id ↔ t.Holds i id)) : ¬s.AtStore i ∧ ¬t.AtStore i := by
  have hsp := h.agreed.spoken
  have ho := h.agreed.own
  by_cases hi : s.Holds i id
  · rcases hi.step hsp ho hs with hi' | hc
    · exact absurd ⟨fun _ => hi', fun _ => hi⟩ hch
    · exact hc.away h.agreed.custody hsp hp.1.1 hs
  · by_cases hi' : t.Holds i id
    · rcases hi'.of_step hsp ho hs with hold | hr
      · exact absurd hold hi
      · exact hr.away h.agreed.custody hp.1.1 hs
    · exact absurd ⟨fun hh => absurd hh hi, fun hh => absurd hh hi'⟩ hch

theorem running_of_call {c : Store.Call} (hs : s.step a = some t)
    (hc : t.acts = (i, .call c) :: s.acts) : ∃ r, s.status? i = some (.running r) ∧
      a = .advance i := by
  have hne : t.acts ≠ s.acts := by
    intro he
    have := congrArg List.length (he.symm.trans hc)
    simp at this
  cases step_moves hs with
  | submit raw => exact absurd (acts_submit s raw) hne
  | @reserve k event hk =>
    rw [acts_reserve] at hc
    cases hc
  | @proceed k r _ hk ht =>
    have hacts := acts_proceed ht
    split at hacts
    · exact absurd hacts hne
    · rw [hacts] at hc
      cases hc
      exact ⟨r, hk, rfl⟩
  | @settle k event reserved ending hk =>
    have hacts := acts_settle s k event reserved ending
    split at hacts
    · rw [hacts] at hc
      cases hc
    · exact absurd hacts hne
  | cancel => exact absurd (acts_cutOff ..) hne
  | release =>
    rw [acts_releaseAt] at hc
    cases hc
  | outside ha ht => exact absurd (outside_step ha ht).2.2.2 hne

/-- A reservation outlasts the steps of an attempt that is running. -/
theorem Exclusive.holds_past_running (h : s.Exclusive) {r : Running}
    (hi : s.status? i = some (.running r)) (hs : s.step a = some t) :
    s.Holds i r.writing.event.eventId ∧ t.Holds i r.writing.event.eventId := by
  have hh := h.holds_running hi
  refine ⟨hh, ?_⟩
  rcases hh.step h.agreed.spoken h.agreed.own hs with hh' | hc
  · exact hh'
  · cases hc with
    | settle hi' => cases hi.symm.trans hi'
    | release hj =>
      cases hi.symm.trans (h.agreed.spoken.left i _ (List.mem_of_getElem? hj)).1

/-- The transaction of an attempt that is cut off is rolled back while its reservation is held. -/
theorem Exclusive.cut (h : s.Exclusive) (hp : s.Normal a) (hs : s.step a = some t)
    (hc : s.Cuts i t) : t.tables = s.tables ∧ ¬t.AtStore i ∧ ∃ id, t.Holds i id := by
  obtain ⟨r, hi, hcut⟩ := hc
  have hno : ∀ r', t.status? i ≠ some (.running r') := by
    intro r' hr'
    rcases hcut with hcut | hcut
    · cases hcut.symm.trans hr'
    · cases hcut.symm.trans hr'
  refine ⟨?_, (h.agreed.custody.step hp.1.1 hs).away rfl hno, _, (h.holds_past_running hi hs).2⟩
  have hself : (∃ k, a = .advance k ∧ k ≠ i) → False := by
    rintro ⟨k, rfl, hk⟩
    cases step_turns hs i with
    | same hst => exact hno r (hst.trans hi)
    | reserve | proceed | settle => exact hk rfl
  obtain ⟨ws, htab, hw⟩ := h.agreed.custody.tables_step hp.1.1 hs
  cases hw with
  | nothing => exact htab
  | @attempt k rk hk hnew hl =>
    by_cases hki : k = i
    · subst hki
      rcases hcut with hcut | hcut
      · rw [hcut] at hl
        exact hl.elim
      · rw [hcut] at hl
        cases hl
    · exact (hself ⟨k, rfl, hki⟩).elim
  | client hk =>
    rw [h.clean _ hk] at htab
    exact htab

end State

end Intake.Ingest
