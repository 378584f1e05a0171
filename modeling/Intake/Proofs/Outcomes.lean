import Intake.Proofs.Exclusion

/-!
# What attempts are told

How an attempt ended says something of the tables and of its reservation. An attempt that was let in
and succeeded has left its event stored; one that was told of a duplicate found a reservation that
lived, and it lives still unless an attempt at the same event has failed meanwhile (`Answered`). An
event that is stored was stored by an attempt that held its reservation (`StoredBy`), and such an
attempt is not told of a duplicate.

So if nobody fails, one of the attempts at an event is told that it was inserted, and it is the only
one. If somebody does fail, an attempt that found its reservation `pending` may have been told of a
duplicate although the event is not stored in the end.
-/

namespace Intake.Ingest

open Reservation (pendingValue doneValue)

/-- How far an attempt that stored its event can have come. -/
def Status.Author : Option Status → Prop
  | some (.running r) => ∃ e, r.writing.step = .check e
  | some (.settling _ _ ending) => ending ≠ .ok .alreadyStored
  | some (.returned r) => r ≠ .ok .duplicate
  | some .cancelled => True
  | none | some (.reserving _) => False

theorem Status.Landed.author {st : Option Status} (h : Landed st) : Author st := by
  rcases st with _ | _ | r | ⟨e, reserved, ending⟩ | _ | _
  case some.running => exact h
  case some.settling =>
    rw [show ending = .ok .inserted from h]
    exact fun hx => by cases hx
  all_goals exact False.elim h

/-- The answer to a check ends the writing, and it does not end as one of a stored event. -/
theorem Writing.answered_check {w : Writing} {e : Store.Error} (h : w.step = .check e) (k : Nat)
    (a : Store.Answer) :
    ∃ res, w.answered k a = .settled res ∧ res ≠ .ok .alreadyStored := by
  unfold Writing.answered
  rw [h]
  rcases a with x | _ | _
  · exact ⟨_, rfl, fun hx => by cases hx⟩
  · exact ⟨_, rfl, fun hx => by cases hx⟩
  · exact ⟨_, rfl, fun hx => by cases hx⟩

namespace State

variable {s t : State} {a : Action} {i j : Nat} {id : Uuid} {o : Outcome}

/-- An attempt that returns without a failure has settled its reservation, or was not let in. -/
theorem returned_step (hs : s.step a = some t) (hi : t.result? i = some (.ok o)) :
    s.result? i = some (.ok o) ∨
      (∃ event reserved w, a = .advance i ∧
        s.status? i = some (.settling event reserved (.ok w)) ∧ o = ofWritten w) ∨
      ∃ event, s.status? i = some (.reserving event) ∧ t = s.reserve i event ∧ o = .duplicate := by
  rw [result?_eq_some] at hi ⊢
  cases step_turns hs i with
  | same hst => exact .inl (hst ▸ hi)
  | @submit raw _ hn ht =>
    subst hn ht
    rw [status?_submit_self] at hi
    unfold Status.first at hi
    cases hr : Event.ofRaw raw <;> simp [hr] at hi
  | @reserve event hold ht =>
    refine .inr (.inr ⟨event, hold, ht, ?_⟩)
    subst ht
    rw [status?_reserve_self hold] at hi
    unfold reserved at hi
    split at hi <;> cases hi <;> rfl
  | proceed hold ht =>
    rcases status?_proceed_self hold ht with ⟨r', hr', -⟩ | ⟨ending, hr'⟩
    · cases hr'.symm.trans hi
    · cases hr'.symm.trans hi
  | @settle event reserved ending hold ht =>
    subst ht
    rw [status?_settle_self hold] at hi
    cases ending with
    | error x => cases hi
    | ok w =>
      cases hi
      exact .inr (.inl ⟨event, reserved, w, rfl, hold, rfl⟩)
  | cancel hold ht =>
    subst ht
    cases (status?_cutOff_self hold).symm.trans hi

theorem value?_of_duplicate (hf : s.KeysFree) {event : Event}
    (hi : s.status? i = some (.reserving event))
    (hr : (s.reserve i event).result? i = some (.ok o)) : s.value? event.eventId ≠ none := by
  intro hnone
  rw [result?_eq_some, status?_reserve_self hi, (value?_eq_none_of_answer hf).1 hnone] at hr
  cases hr

/-! ### Who has stored an event -/

theorem Given.step (h : Given (s.commands i)) (hs : s.step a = some t) : Given (t.commands i) := by
  rcases commands_step hs i with
    hc | ⟨event, -, -, rfl⟩ | ⟨event, ending, -, -, rfl⟩ | ⟨j, id, -, -, rfl⟩
  · rwa [hc]
  · rw [commands_of_command (acts_reserve s i event), if_pos rfl]
    exact h.cons _
  · have hacts := acts_settle s i event true ending
    rw [if_pos rfl] at hacts
    rw [commands_of_command hacts, if_pos rfl]
    exact h.cons _
  · rw [commands_of_command (acts_releaseAt s i j id), if_pos rfl]
    exact h.cons _

/-- After its commit an attempt is not told of a duplicate. -/
theorem author_step (h : Status.Author (s.status? i)) (hs : s.step a = some t) :
    Status.Author (t.status? i) := by
  cases step_turns hs i with
  | same hst => rwa [hst]
  | submit hn =>
    rw [hn] at h
    exact h.elim
  | reserve hi =>
    rw [hi] at h
    exact h.elim
  | @proceed r hi ht =>
    rw [hi] at h
    obtain ⟨e, he⟩ := h
    rcases status?_proceed_cases hi ht with ⟨b, hb⟩ | hb | hb
    · obtain ⟨res, hres, hne⟩ := Writing.answered_check he s.settings.maxRetries b
      have hend : t.status? i =
          some (.settling r.writing.event r.reserved (res.mapError .storage)) := by
        rw [hb, Running.next, hres]
      rw [hend]
      cases res with
      | error x => exact fun hx => by cases hx
      | ok w => exact fun hx => hne (by cases hx; rfl)
    · rw [hb]
      exact fun hx => by cases hx
    · rw [hb]
      exact ⟨e, he⟩
  | @settle event reserved ending hi ht =>
    subst ht
    rw [hi] at h
    rw [status?_settle_self hi]
    rcases ending with x | _ | _
    · exact fun hx => by cases hx
    · exact fun hx => by cases hx
    · exact absurd rfl h
  | cancel hi ht =>
    subst ht
    rw [status?_cutOff_self hi]
    trivial

/-- A step that stores an event is the commit of an attempt at it. -/
theorem Exclusive.stores_step (h : s.Exclusive) (hp : s.Normal a) (hs : s.step a = some t)
    (hn : s.tables.events.has id = false) (hy : t.tables.events.has id = true) :
    ∃ i r, a = .advance i ∧ s.status? i = some (.running r) ∧ r.writing.event.eventId = id ∧
      Status.Landed (t.status? i) := by
  obtain ⟨ws, ht, hw⟩ := h.agreed.custody.tables_step hp.1.1 hs
  rw [ht] at hy
  cases hw with
  | nothing => cases hn.symm.trans hy
  | @attempt i r hr hnew hl =>
    rw [Store.Tables.has_writesOf, hn] at hy
    exact ⟨i, r, rfl, hr, by simpa using hy, hl⟩
  | client hk =>
    rw [h.clean _ hk] at hy
    cases hn.symm.trans hy

/-- On a normal run from `s` to `t`, it was attempt `i` that stored event `id`. -/
def StoredBy (s t : State) (i : Nat) (id : Uuid) : Prop :=
  ∃ u v, s.Reaches Normal u ∧ u.tables.events.has id = false ∧ u.step (.advance i) = some v ∧
    v.tables.events.has id = true ∧ v.Reaches Normal t

theorem exists_storedBy (h : s.Exclusive) (hr : s.Reaches Normal t)
    (hn : s.tables.events.has id = false) (hy : t.tables.events.has id = true) :
    ∃ i, s.StoredBy t i id := by
  have hall : t.Exclusive ∧ s.Reaches Normal t ∧
      (t.tables.events.has id = true → ∃ i, s.StoredBy t i id) := by
    refine hr.keeps (I := fun u => u.Exclusive ∧ s.Reaches Normal u ∧
      (u.tables.events.has id = true → ∃ i, s.StoredBy u i id)) ?_
      ⟨h, .refl, fun hy => by cases hn.symm.trans hy⟩
    rintro u a v hs hp ⟨he, hru, hby⟩
    refine ⟨he.step hp hs, hru.trans (.single hp hs), fun hv => ?_⟩
    cases hu : u.tables.events.has id with
    | true =>
      obtain ⟨i, u', v', hru', hn', hs', hy', hrv'⟩ := hby hu
      exact ⟨i, u', v', hru', hn', hs', hy', hrv'.trans (.single hp hs)⟩
    | false =>
      obtain ⟨i, r, rfl, -⟩ := he.stores_step hp hs hu hv
      exact ⟨i, u, v, hru, hu, hs, hv, .refl⟩
  exact hall.2.2 hy

/-- Whoever stored an event was let in, and has not been told of a duplicate since. -/
theorem StoredBy.author (hb : s.StoredBy t i id) (h : s.Exclusive) :
    t.IsFor i id ∧ Given (t.commands i) ∧ Status.Author (t.status? i) := by
  obtain ⟨u, v, hu, hn, hs, hy, hv⟩ := hb
  have he := h.run hu
  have hp : u.Normal (.advance i) := ⟨⟨trivial, by simp⟩, trivial, trivial⟩
  obtain ⟨k, r, hk, hi, hid, hl⟩ := he.stores_step hp hs hn hy
  cases hk
  subst hid
  have hh := (he.holds_past_running hi hs).2
  refine hv.keeps (I := fun w => w.IsFor i r.writing.event.eventId ∧ Given (w.commands i) ∧
    Status.Author (w.status? i)) ?_ ⟨hh.1, hh.2.1, hl.author⟩
  rintro w b w' hs' - ⟨hfor, hg, ha⟩
  exact ⟨hfor.step hs', Given.step hg hs', author_step ha hs'⟩

/-! ### What was said still stands -/

/-- The invariant of what attempts were told in normal runs. -/
structure Answered (s : State) : Prop where
  done : ∀ i id, s.IsFor i id → s.result? i = some (.ok .inserted) → s.value? id = some doneValue
  once : ∀ i j id, s.IsFor i id → s.IsFor j id → s.result? i = some (.ok .inserted) →
    s.result? j = some (.ok .inserted) → i = j
  known : ∀ i id o, s.IsFor i id → s.result? i = some (.ok o) →
    s.value? id ≠ none ∨ ∃ j, s.IsFor j id ∧ Status.Failed (s.status? j)
  stored : ∀ i id o, s.IsFor i id → Given (s.commands i) → s.result? i = some (.ok o) →
    s.tables.events.has id = true

theorem failed_step (h : Status.Failed (s.status? i)) (hs : s.step a = some t) :
    Status.Failed (t.status? i) := by
  cases step_turns hs i with
  | same hst => rwa [hst]
  | submit hn =>
    rw [hn] at h
    exact h.elim
  | reserve hi | proceed hi | settle hi | cancel hi =>
    rw [hi] at h
    exact h.elim

theorem IsFor.of_result {r : Result} (h : t.IsFor i id) (hs : s.step a = some t)
    (hr : s.result? i = some r) : s.IsFor i id :=
  h.of_step hs (by rw [result?_eq_some.1 hr]; rfl)

theorem commands_returned {r : Result} (hsp : s.Spoken) (hs : s.step a = some t)
    (hr : s.result? i = some r) : t.commands i = s.commands i := by
  have hret := result?_eq_some.1 hr
  rcases commands_step hs i with hc | ⟨event, -, hi, -⟩ | ⟨event, ending, -, hi, -⟩ | ⟨j, id, -, hj, -⟩
  · exact hc
  · cases hret.symm.trans hi
  · cases hret.symm.trans hi
  · cases hret.symm.trans (hsp.left i id (List.mem_of_getElem? hj)).1

namespace Exclusive

variable (h : s.Exclusive) (hp : s.Normal a) (hs : s.step a = some t)
include h hp hs

/-- A reservation that lives is lost only by an attempt that fails. -/
theorem known_step (hv : s.value? id ≠ none) :
    t.value? id ≠ none ∨ ∃ j, t.IsFor j id ∧ Status.Failed (t.status? j) := by
  rcases h.held_step hp hs id with ⟨hsame, -⟩ | ⟨i, hnone, -⟩ | ⟨i, hi, -, hend⟩
  · rw [hsame]
    exact .inl hv
  · exact absurd hnone hv
  · rcases hend with ⟨-, hf⟩ | ⟨hd, -⟩
    · exact .inr ⟨i, hi.1.step hs, hf⟩
    · rw [hd]
      exact .inl (by simp)

theorem done_step (hv : s.value? id = some doneValue) : t.value? id = some doneValue := by
  rcases h.held_step hp hs id with ⟨hsame, -⟩ | ⟨i, hnone, -⟩ | ⟨i, hi, -⟩
  · exact hsame.trans hv
  · cases hnone.symm.trans hv
  · have hpend := (h.pending i id hi).symm.trans hv
    exact absurd (Option.some.inj hpend) Reservation.pendingValue_ne_doneValue

theorem done_of_settling {event : Event} {reserved : Bool} {w : Written} (ha : a = .advance i)
    (hi : s.status? i = some (.settling event reserved (.ok w))) :
    t.value? event.eventId = some doneValue := by
  subst ha
  have hres := h.reserved i
  rw [hi] at hres
  rw [show reserved = true from hres] at hi
  rcases value?_closes h.free h.agreed.spoken (.settle hi rfl) hs with ⟨-, hf⟩ | ⟨hd, -⟩
  · cases (step_settle hi).symm.trans hs
    rw [status?_settle_self hi] at hf
    exact hf.elim
  · exact hd

/-- An attempt that is told that it inserted its event was told so before, or held the reservation up
to now. -/
theorem inserted_step (hfor : t.IsFor i id) (hr : t.result? i = some (.ok .inserted)) :
    s.IsFor i id ∧ s.result? i = some (.ok .inserted) ∨
      a = .advance i ∧ s.Holds i id ∧ t.value? id = some doneValue := by
  rcases returned_step hs hr with hr | ⟨event, reserved, w, ha, hi, -⟩ | ⟨event, -, -, hx⟩
  · exact .inl ⟨hfor.of_result hs hr, hr⟩
  · obtain rfl := (isFor_iff h.agreed.own hi rfl).1 (hfor.of_step hs (by simp [hi]))
    exact .inr ⟨ha, h.holds_settling hi, h.done_of_settling hp hs ha hi⟩
  · cases hx

end Exclusive

namespace Answered

theorem of_begins {tables : Store.Tables} (h : s.Begins tables) : s.Answered := by
  have hnone : ∀ i r, s.result? i ≠ some r := by
    intro i r hr
    cases (h.status?_eq_none i).symm.trans (result?_eq_some.1 hr)
  exact ⟨fun i _ _ hr => absurd hr (hnone i _), fun i _ _ _ _ hr => absurd hr (hnone i _),
    fun i _ _ _ hr => absurd hr (hnone i _), fun i _ _ _ _ hr => absurd hr (hnone i _)⟩

theorem not_holds (hw : s.Answered) (h : s.Exclusive) (hfor : s.IsFor i id)
    (hr : s.result? i = some (.ok .inserted)) : ¬s.Holds j id := by
  intro hj
  have hpend := (h.pending j id hj).symm.trans (hw.done i id hfor hr)
  exact Reservation.pendingValue_ne_doneValue (Option.some.inj hpend)

theorem once_step (hw : s.Answered) (h : s.Exclusive) (hp : s.Normal a) (hs : s.step a = some t)
    (hi : t.IsFor i id) (hj : t.IsFor j id) (hri : t.result? i = some (.ok .inserted))
    (hrj : t.result? j = some (.ok .inserted)) : i = j := by
  rcases h.inserted_step hp hs hi hri with ⟨hi, hri⟩ | ⟨hai, hhi, -⟩
  · rcases h.inserted_step hp hs hj hrj with ⟨hj, hrj⟩ | ⟨-, hhj, -⟩
    · exact hw.once i j id hi hj hri hrj
    · exact absurd hhj (hw.not_holds h hi hri)
  · rcases h.inserted_step hp hs hj hrj with ⟨hj, hrj⟩ | ⟨haj, -, -⟩
    · exact absurd hhi (hw.not_holds h hj hrj)
    · exact Action.advance.inj (hai.symm.trans haj)

theorem known_step (hw : s.Answered) (h : s.Exclusive) (hp : s.Normal a) (hs : s.step a = some t)
    (hfor : t.IsFor i id) (hr : t.result? i = some (.ok o)) :
    t.value? id ≠ none ∨ ∃ j, t.IsFor j id ∧ Status.Failed (t.status? j) := by
  have ho := h.agreed.own
  rcases returned_step hs hr with hr | ⟨event, reserved, w, ha, hi, -⟩ | ⟨event, hi, rfl, -⟩
  · rcases hw.known i id o (hfor.of_result hs hr) hr with hv | ⟨j, hj, hf⟩
    · exact h.known_step hp hs hv
    · exact .inr ⟨j, hj.step hs, failed_step hf hs⟩
  · obtain rfl := (isFor_iff ho hi rfl).1 (hfor.of_step hs (by simp [hi]))
    exact .inl (by simp [h.done_of_settling hp hs ha hi])
  · obtain rfl := (isFor_iff ho hi rfl).1 (hfor.of_step hs (by simp [hi]))
    exact h.known_step hp hs (value?_of_duplicate h.free hi hr)

theorem stored_step (hw : s.Answered) (h : s.Exclusive) (hp : s.Normal a) (hs : s.step a = some t)
    (hfor : t.IsFor i id) (hg : Given (t.commands i)) (hr : t.result? i = some (.ok o)) :
    t.tables.events.has id = true := by
  have hsp := h.agreed.spoken
  have ho := h.agreed.own
  refine h.agreed.custody.stored_step hp.1.1 hs ?_
  rcases returned_step hs hr with hr | ⟨event, reserved, w, ha, hi, -⟩ | ⟨event, hi, rfl, -⟩
  · rw [commands_returned hsp hs hr] at hg
    exact hw.stored i id o (hfor.of_result hs hr) hg hr
  · obtain rfl := (isFor_iff ho hi rfl).1 (hfor.of_step hs (by simp [hi]))
    exact h.agreed.stored_of_settling hi
  · -- who returns at once has given one command only, so it has not settled a reservation
    have hclosed := (hsp.step ho hs).spoke i
    rw [result?_eq_some.1 hr] at hclosed
    obtain ⟨x, hx, hv⟩ := hclosed hg
    rw [hsp.commands_reserve hi, List.mem_singleton] at hx
    rw [hx] at hv
    exact absurd rfl hv

theorem step (hw : s.Answered) (h : s.Exclusive) (hp : s.Normal a) (hs : s.step a = some t) :
    t.Answered where
  done i id hfor hr := by
    rcases h.inserted_step hp hs hfor hr with ⟨hfor, hr⟩ | ⟨-, -, hd⟩
    · exact h.done_step hp hs (hw.done i id hfor hr)
    · exact hd
  once i j id hi hj hri hrj := hw.once_step h hp hs hi hj hri hrj
  known i id o hfor hr := hw.known_step h hp hs hfor hr
  stored i id o hfor hg hr := hw.stored_step h hp hs hfor hg hr

theorem run (hw : s.Answered) (h : s.Exclusive) (hr : s.Reaches Normal t) : t.Answered :=
  (hr.keeps (I := fun u => u.Exclusive ∧ u.Answered)
    (fun _ _ _ hs hp h => ⟨h.1.step hp hs, h.2.step h.1 hp hs⟩) ⟨h, hw⟩).2

theorem stored_of_all (hw : s.Answered) (h : s.Exclusive) (hfor : s.IsFor i id)
    (hall : ∀ j, s.IsFor j id → ∃ o, s.result? j = some (.ok o)) :
    s.tables.events.has id = true := by
  obtain ⟨o, hr⟩ := hall i hfor
  rcases hw.known i id o hfor hr with hv | ⟨j, hj, hf⟩
  · obtain ⟨v, hv⟩ := Option.ne_none_iff_exists'.1 hv
    obtain ⟨e, he, -⟩ := mark?_of_value? hv
    rcases h.agreed.value id e he with hpend | hd
    · obtain ⟨k, hk⟩ := h.backed id e he hpend
      obtain ⟨o', hr'⟩ := hall k hk.1
      exact absurd hk (h.agreed.spoken.not_holds_returned (result?_eq_some.1 hr'))
    · exact h.agreed.done id e he hd
  · obtain ⟨o', hr'⟩ := hall j hj
    rw [result?_eq_some.1 hr'] at hf
    exact hf.elim

end Answered

/-- In a run in which the key store answers normally, at most one attempt at a time holds the
reservation of an event. It is at the store, in a transaction or for a check, only while it holds
the reservation, and is away from the store when the reservation is made and when it ends; each of
its calls is made in between, and when it is cut off its transaction is rolled back before the
reservation ends. At most one attempt at an event is ever told that it was inserted; if all attempts
at it have succeeded, one is. -/
theorem reservation_excludes_others (h : s.Begins .empty) (hu : s.Unreserved) (hf : s.KeysFree)
    (hr : s.Reaches Normal t) :
    (∀ i j id, t.Holds i id → t.Holds j id → i = j) ∧
    (∀ i, t.AtStore i → ∃ id, t.Holds i id) ∧
    (∀ a u i, t.Normal a → t.step a = some u →
      (∀ id, ¬(t.Holds i id ↔ u.Holds i id) → ¬t.AtStore i ∧ ¬u.AtStore i) ∧
      (∀ c, u.acts = (i, .call c) :: t.acts → ∃ id, t.Holds i id ∧ u.Holds i id) ∧
      (t.Cuts i u → u.tables = t.tables ∧ ¬u.AtStore i ∧ ∃ id, u.Holds i id)) ∧
    (∀ i j id, t.IsFor i id → t.IsFor j id → t.result? i = some (.ok .inserted) →
      t.result? j = some (.ok .inserted) → i = j) ∧
    ∀ i id, t.IsFor i id → (∀ j, t.IsFor j id → ∃ o, t.result? j = some (.ok o)) →
      ∃ j, t.IsFor j id ∧ t.result? j = some (.ok .inserted) := by
  have hstart := Exclusive.of_begins h hu hf
  have he := hstart.run hr
  have hw := (Answered.of_begins h).run hstart hr
  refine ⟨he.unique, fun i => he.holds_of_atStore, fun a u i hp hs => ⟨fun id => ?_, fun c hc => ?_,
    he.cut hp hs⟩, hw.once, fun i id hfor hall => ?_⟩
  · exact he.away_of_changed hp hs
  · obtain ⟨r, hi, -⟩ := running_of_call hs hc
    exact ⟨_, he.holds_past_running hi hs⟩
  · have hstored := hw.stored_of_all he hfor hall
    have hn : s.tables.events.has id = false := by
      rw [h.tables_eq]
      rfl
    obtain ⟨j, hj⟩ := exists_storedBy hstart hr hn hstored
    obtain ⟨hforj, -, hauthor⟩ := hj.author hstart
    obtain ⟨o, ho⟩ := hall j hforj
    rw [result?_eq_some.1 ho] at hauthor
    cases o with
    | inserted => exact ⟨j, hforj, ho⟩
    | duplicate => exact absurd rfl hauthor

/-- Two attempts at one event, the second while the first is at work. -/
def overlapping : List Action :=
  [.submit aView, .submit aView, .advance 0, .advance 1, .advance 0, .advance 0, .advance 0,
    .advance 0, .advance 0, .advance 0]

theorem one_of_overlapping_inserts : ∃ t, initial.Begins .empty ∧ initial.Unreserved ∧
    initial.KeysFree ∧ initial.Reaches Normal t ∧ t.IsFor 1 ⟨1, by decide⟩ ∧
    t.result? 1 = some (.ok .duplicate) ∧
    ∃ j, t.IsFor j ⟨1, by decide⟩ ∧ t.result? j = some (.ok .inserted) := by
  obtain ⟨t, ht⟩ := Option.isSome_iff_exists.1
    (show (initial.run overlapping).isSome = true by decide +kernel)
  have hr : initial.Reaches Normal t := .of_run ht (by
    simp [overlapping, Normal, ReadOnly, Orderly, SparesReservations, KeysNormal])
  have hend : (initial.run overlapping).map (fun t => (t.result? 0, t.result? 1, t.attempts.length,
      (t.event? 1).map (·.eventId))) = some (some (.ok .inserted), some (.ok .duplicate), 2,
        some ⟨1, by decide⟩) := by rfl
  rw [ht] at hend
  simp only [Option.map_some, Option.some.injEq, Prod.mk.injEq] at hend
  obtain ⟨h0, h1, hlen, hid⟩ := hend
  have hfor : t.IsFor 1 ⟨1, by decide⟩ := by
    obtain ⟨e, he, hid⟩ := Option.map_eq_some_iff.1 hid
    exact ⟨e, he, hid⟩
  have hall : ∀ j, t.IsFor j ⟨1, by decide⟩ → ∃ o, t.result? j = some (.ok o) := by
    rintro j ⟨e, he, -⟩
    have hj : j < 2 := by
      rw [← hlen]
      refine Nat.lt_of_not_le fun hle => ?_
      simp [event?, List.getElem?_eq_none hle] at he
    rcases (by omega : j = 0 ∨ j = 1) with rfl | rfl
    · exact ⟨_, h0⟩
    · exact ⟨_, h1⟩
  have hex := reservation_excludes_others begins_initial unreserved_initial keysFree_initial hr
  exact ⟨t, begins_initial, unreserved_initial, keysFree_initial, hr, hfor, h1,
    hex.2.2.2.2 1 _ hfor hall⟩

end State

end Intake.Ingest
