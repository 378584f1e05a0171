import Intake.Proofs.Protocol
import Intake.Proofs.Standing

/-!
# Reservations and the tables agree

A reservation that is `done` is one of an event that is stored, whatever happens to the key store:
`done` is written only by an attempt whose writing ended well, and the event was stored by then
(`Agreed`). A reservation that is `pending` has an attempt behind it that has still to settle or
release it, as long as these commands are carried out (`Backed`): the attempt that wrote `pending`
overwrites or deletes the key with its last command, whoever wrote the key in between.
-/

namespace Intake.Ingest.State

open Reservation (pendingValue doneValue)

variable {s t : State} {a : Action} {i : Nat} {id : Uuid} {e : Reservation.Entry}

/-! ### Entries of reservations -/

/-- The entry of the reservation of an event, whether it lives or not. -/
def mark? (s : State) (id : Uuid) : Option Reservation.Entry :=
  s.keys.entries.get? (Reservation.key id)

theorem mark?_of_keys (h : t.keys = s.keys) : t.mark? id = s.mark? id := by
  rw [mark?, h, mark?]

theorem mark?_run_of_ne {c : Reservation.Command} (h : t.keys = (s.keys.run c).1)
    (hc : c.key ≠ Reservation.key id) : t.mark? id = s.mark? id := by
  rw [mark?, h]
  exact s.keys.get?_run_of_ne c hc.symm

/-- The writing of attempt `i` ended well, and it is about to settle its reservation. -/
structure Completes (s : State) (i : Nat) (id : Uuid) (a : Action) : Prop where
  action : a = .advance i
  status : ∃ event w, s.status? i = some (.settling event true (.ok w)) ∧ event.eventId = id

/-- An entry is as it was, or `pending` and just made, or `done` by an attempt that ended well. -/
theorem mark?_step (hp : s.SparesReservations a) (hs : s.step a = some t)
    (he : t.mark? id = some e) :
    s.mark? id = some e ∨ (e.value = pendingValue ∧ ∃ i, s.Reserves i id a) ∨
      (e.value = doneValue ∧ ∃ i, s.Completes i id a) := by
  cases step_keyMoves hs with
  | same hk => exact .inl (by rwa [mark?_of_keys hk] at he)
  | @reserve i event hi ht =>
    subst ht
    by_cases hid : event.eventId = id
    · subst hid
      rcases Reservation.KeyStore.get?_run_setNew he with he | ⟨hv, ha⟩
      · exact .inl he
      · exact .inr (.inl ⟨hv, i, rfl, ⟨event, hi, rfl⟩, ha⟩)
    · rw [mark?_run_of_ne (keys_reserve s i event) fun h => hid (Reservation.key_injective h)] at he
      exact .inl he
  | @settle i event ending hi ht =>
    have hk := keys_settle s i event true ending
    rw [if_pos rfl, ← ht] at hk
    by_cases hid : event.eventId = id
    · subst hid
      rw [mark?, hk] at he
      cases ending with
      | ok w =>
        rcases Reservation.KeyStore.get?_run_set he with ⟨he, -⟩ | hv
        · exact .inl he
        · exact .inr (.inr ⟨hv, i, rfl, event, w, hi, rfl⟩)
      | error x => exact .inl (Reservation.KeyStore.get?_run_delete he).1
    · rw [mark?_run_of_ne hk fun h => hid (Reservation.key_injective (by simpa using h))] at he
      exact .inl he
  | @release j i id' hj ht =>
    subst ht
    by_cases hid : id' = id
    · subst hid
      exact .inl (Reservation.KeyStore.get?_run_delete he).1
    · rw [mark?_run_of_ne (keys_releaseAt s i j id') fun h =>
        hid (Reservation.key_injective h)] at he
      exact .inl he
  | command hk | reservation hk => exact .inl (by rwa [mark?_run_of_ne hk (hp id)] at he)
  | evict hk =>
    rw [mark?, hk, Reservation.KeyStore.evict, Keyed.get?_erase] at he
    split at he
    · cases he
    · exact .inl he
  | age hk | outage hk | override hk =>
    rw [mark?, hk] at he
    exact .inl he

/-- An attempt that settles or releases its reservation leaves it `done` or removed, if the command
is carried out. -/
theorem mark?_closes (hc : s.Closes i id a) (hp : s.Settles a) (hs : s.step a = some t)
    (he : t.mark? id = some e) : e.value = doneValue := by
  cases hc with
  | @settle event ending hi hid =>
    subst hid
    have hf := hp event ending hi
    cases (step_settle hi).symm.trans hs
    rw [mark?, keys_settle, if_pos rfl] at he
    cases ending with
    | ok w =>
      rcases Reservation.KeyStore.get?_run_set he with ⟨-, hx⟩ | hv
      · exact absurd hf (Option.isSome_iff_ne_none.1 hx)
      · exact hv
    | error x =>
      exact absurd hf (Option.isSome_iff_ne_none.1 (Reservation.KeyStore.get?_run_delete he).2)
  | @release j hj =>
    cases (step_releaseAt hj).symm.trans hs
    exact absurd (hp i id hj)
      (Option.isSome_iff_ne_none.1 (Reservation.KeyStore.get?_run_delete he).2)

/-! ### A key store that answers every command -/

theorem KeysFree.of_run {c : Reservation.Command} (h : s.KeysFree) (hk : t.keys = (s.keys.run c).1) :
    t.KeysFree := fun d => by rw [hk, Reservation.KeyStore.fixed?_run, h d]

theorem KeysFree.of_keys (h : s.KeysFree) (hk : t.keys = s.keys) : t.KeysFree :=
  fun d => by rw [hk, h d]

theorem KeysFree.step (h : s.KeysFree) (hp : s.KeysNormal a) (hs : s.step a = some t) :
    t.KeysFree := by
  cases step_keyMoves hs with
  | same hk => exact h.of_keys hk
  | reserve _ ht => exact h.of_run (ht ▸ keys_reserve ..)
  | @settle i event ending _ ht =>
    have hk := keys_settle s i event true ending
    rw [if_pos rfl, ← ht] at hk
    exact h.of_run hk
  | release _ ht => exact h.of_run (ht ▸ keys_releaseAt ..)
  | command hk | reservation hk => exact h.of_run hk
  | evict | override => cases hp
  | age hk =>
    intro c
    rw [hk]
    exact h c
  | outage hk =>
    intro c
    have hc := h c
    rw [hk, show _ = none from hp]
    unfold Reservation.KeyStore.fixed? at hc ⊢
    split at hc
    · cases hc
    · exact hc

theorem KeysFree.settles (h : s.KeysFree) (a : Action) : s.Settles a := by
  cases a with
  | advance i => exact fun event ending _ => h _
  | release j => exact fun i id _ => h _
  | _ => trivial

/-! ### What `done` says -/

/-- The invariant over any key store: what is reserved is `pending` or `done`, and an event whose
reservation is `done` is stored. -/
structure Agreed (s : State) : Prop where
  custody : s.Custody
  own : s.Own
  spoken : s.Spoken
  value : ∀ id e, s.mark? id = some e → e.value = pendingValue ∨ e.value = doneValue
  done : ∀ id e, s.mark? id = some e → e.value = doneValue →
    s.tables.events.has id = true

namespace Agreed

theorem of_begins {tables : Store.Tables} (h : s.Begins tables) (hu : s.Unreserved) :
    s.Agreed := by
  refine ⟨.of_begins h, h.own, .of_begins h, fun id e he => ?_, fun id e he => ?_⟩
  · rw [mark?, hu id] at he
    cases he
  · rw [mark?, hu id] at he
    cases he

theorem stored_of_settling (h : s.Agreed) {event : Event} {reserved : Bool} {w : Written}
    (hi : s.status? i = some (.settling event reserved (.ok w))) :
    s.tables.events.has event.eventId = true := by
  have hst := h.custody.stands i
  rw [hi] at hst
  exact hst.2 w rfl

theorem step (h : s.Agreed) (ho : s.Orderly a) (hp : s.SparesReservations a)
    (hs : s.step a = some t) : t.Agreed := by
  refine ⟨h.custody.step ho hs, h.own.step hs, h.spoken.step h.own hs, fun id e he => ?_,
    fun id e he hd => ?_⟩
  · rcases mark?_step hp hs he with he | ⟨hv, -⟩ | ⟨hv, -⟩
    · exact h.value id e he
    · exact .inl hv
    · exact .inr hv
  · refine h.custody.stored_step ho hs ?_
    rcases mark?_step hp hs he with he | ⟨hv, -⟩ | ⟨-, i, -, event, w, hi, rfl⟩
    · exact h.done id e he hd
    · exact absurd (hv.symm.trans hd) Reservation.pendingValue_ne_doneValue
    · exact h.stored_of_settling hi

end Agreed

/-! ### What `pending` says -/

/-- The invariant while reservations are settled and released: an event whose reservation is
`pending` has an attempt that holds it. -/
def Backed (s : State) : Prop :=
  ∀ id e, s.mark? id = some e → e.value = pendingValue → ∃ i, s.Holds i id

theorem Reserves.holds (h : s.Reserves i id a) (hsp : s.Spoken) (ho : s.Own)
    (hs : s.step a = some t) : t.Holds i id := by
  obtain ⟨rfl, ⟨event, hi, rfl⟩, ha⟩ := h
  cases (step_reserve hi).symm.trans hs
  refine ⟨(isFor_of_own ho hi rfl).step hs, ?_⟩
  rw [hsp.commands_reserve hi]
  refine ⟨⟨_, List.mem_singleton.2 rfl, rfl, ha⟩, ?_⟩
  rintro ⟨x, hx, hv⟩
  rw [List.mem_singleton.1 hx] at hv
  exact hv rfl

theorem Backed.step (h : s.Backed) (hg : s.Agreed) (hp : s.SparesReservations a)
    (hc : s.Settles a) (hs : s.step a = some t) : t.Backed := by
  intro id e he hv
  rcases mark?_step hp hs he with hold | ⟨-, i, hr⟩ | ⟨hd, -⟩
  · obtain ⟨i, hi⟩ := h id e hold hv
    rcases hi.step hg.spoken hg.own hs with hi' | hclose
    · exact ⟨i, hi'⟩
    · have hd := mark?_closes hclose hc hs he
      exact absurd (hv.symm.trans hd) Reservation.pendingValue_ne_doneValue
  · exact ⟨i, hr.holds hg.spoken hg.own hs⟩
  · exact absurd (hv.symm.trans hd) Reservation.pendingValue_ne_doneValue

/-- Whoever was cut off and holds a reservation has left it to be released. -/
def Scheduled (s : State) : Prop :=
  ∀ i id, s.status? i = some .cancelled → s.Holds i id → (i, id) ∈ s.releases

theorem mem_releases_step (hs : s.step a = some t) (h : (i, id) ∈ s.releases) :
    (i, id) ∈ t.releases ∨ s.Closes i id a := by
  cases step_moves hs with
  | submit raw => exact .inl (by rwa [releases_submit])
  | reserve => exact .inl h
  | proceed _ ht => exact .inl (by rwa [releases_proceed ht])
  | settle => exact .inl (by rwa [releases_settle])
  | cancel =>
    rw [releases_cutOff]
    split
    · exact .inl (List.mem_append_left _ h)
    · exact .inl h
  | @release j k id' hj =>
    obtain ⟨m, hm⟩ := List.getElem?_of_mem h
    by_cases hmj : m = j
    · subst hmj
      cases hm.symm.trans hj
      exact .inr (.release hj)
    · exact .inl (List.mem_eraseIdx_iff_getElem?.2 ⟨m, hmj, hm⟩)
  | outside ha ht => exact .inl (by rwa [(outside_step ha ht).2.1])

theorem Scheduled.step (h : s.Scheduled) (hsp : s.Spoken) (ho : s.Own) (hr : s.InRuntime a)
    (hs : s.step a = some t) : t.Scheduled := by
  intro i id hi hh
  have hold : s.Holds i id := by
    rcases hh.of_step hsp ho hs with hold | ⟨rfl, ⟨event, hi', -⟩, -⟩
    · exact hold
    · rcases cancelled_step hs hi with hc | ⟨r, inside, ha, -, -⟩
      · cases hi'.symm.trans hc
      · cases ha
  rcases cancelled_step hs hi with hc | ⟨r, inside, rfl, hrun, rfl⟩
  · rcases mem_releases_step hs (h i id hc hold) with hm | hclose
    · exact hm
    · exact absurd hh (hclose.not_holds hs)
  · cases hr
    obtain ⟨rfl, hres⟩ := (hsp.holds_running ho hrun).1 hold
    rw [releases_cutOff, hres]
    simp

/-! ### Runs -/

/-- The invariant of runs in which reservations are settled and released. -/
structure Kept (s : State) : Prop where
  agreed : s.Agreed
  backed : s.Backed
  scheduled : s.Scheduled

theorem Kept.of_begins {tables : Store.Tables} (h : s.Begins tables) (hu : s.Unreserved) :
    s.Kept := by
  refine ⟨.of_begins h hu, fun id e he => ?_, fun i id hi => ?_⟩
  · rw [mark?, hu id] at he
    cases he
  · cases (h.status?_eq_none i).symm.trans hi

theorem Kept.step (h : s.Kept) (hp : s.Diligent a) (hs : s.step a = some t) : t.Kept where
  agreed := h.agreed.step hp.1.1 hp.1.2 hs
  backed := h.backed.step h.agreed hp.1.2 hp.2.1 hs
  scheduled := h.scheduled.step h.agreed.spoken h.agreed.own hp.2.2 hs

theorem Agreed.run (h : s.Agreed) (hr : s.Reaches Guarded t) : t.Agreed :=
  hr.keeps (fun _ _ _ hs hp h => h.step hp.1 hp.2 hs) h

theorem Kept.run (h : s.Kept) (hr : s.Reaches Diligent t) : t.Kept :=
  hr.keeps (fun _ _ _ hs hp h => h.step hp hs) h

theorem mark?_of_value? {v : String} (h : s.keys.value? (Reservation.key id) = some v) :
    ∃ e, s.mark? id = some e ∧ e.value = v := by
  obtain ⟨e, he, hv⟩ := Option.map_eq_some_iff.1 h
  exact ⟨e, (Option.filter_eq_some_iff.1 he).1, hv⟩

/-- An attempt is at work, or its release is scheduled, for as long as it holds a reservation. -/
theorem Kept.unfinished (h : s.Kept) (hh : s.Holds i id) :
    s.isRunning i = true ∨ (i, id) ∈ s.releases := by
  unfold isRunning
  cases hi : s.status? i with
  | none => exact absurd hh (h.agreed.spoken.not_holds_unstarted hi)
  | some st =>
    cases st with
    | reserving | running | settling => exact .inl rfl
    | returned => exact absurd hh (h.agreed.spoken.not_holds_returned hi)
    | cancelled => exact .inr (h.scheduled i id hi hh)

/-- When nobody is at work for an event and no release of it is scheduled, a reservation of it is
`done`, and the event is stored. -/
theorem Kept.settled (h : s.Kept) (hq : ∀ i, s.Holds i id → s.isRunning i = false)
    (hl : ∀ i, (i, id) ∉ s.releases) {e : Reservation.Entry} (he : s.mark? id = some e) :
    e.value = doneValue ∧ s.tables.events.has id = true := by
  rcases h.agreed.value id e he with hv | hv
  · obtain ⟨i, hi⟩ := h.backed id e he hv
    rcases h.unfinished hi with hr | hr
    · rw [hq i hi] at hr
      cases hr
    · exact absurd hr (hl i)
  · exact ⟨hv, h.agreed.done id e he hv⟩

/-! ### What attempts are told -/

/-- Attempt `i` is past its reservation, and if it has returned without a failure, event `id` is
stored. -/
structure Vouched (s : State) (i : Nat) (id : Uuid) : Prop where
  past : ∃ st, s.status? i = some st ∧ ∀ e, st ≠ .reserving e
  stored : ∀ o, s.status? i = some (.returned (.ok o)) → s.tables.events.has id = true

theorem Vouched.step (h : s.Vouched i id) (hfor : s.IsFor i id) (hg : s.Agreed) (ho : s.Orderly a)
    (hs : s.step a = some t) : t.Vouched i id := by
  obtain ⟨st, hst, hne⟩ := h.past
  cases step_turns hs i with
  | same hsame =>
    exact ⟨⟨st, hsame ▸ hst, hne⟩, fun o ho' => hg.custody.stored_step ho hs (h.stored o (hsame ▸ ho'))⟩
  | submit hn => cases hn.symm.trans hst
  | reserve hi => cases hst.symm.trans hi; exact absurd rfl (hne _)
  | proceed hi ht =>
    rcases status?_proceed_self hi ht with ⟨r', hr', -⟩ | ⟨ending, hr'⟩
    · exact ⟨⟨_, hr', by simp⟩, fun o ho' => by cases hr'.symm.trans ho'⟩
    · exact ⟨⟨_, hr', by simp⟩, fun o ho' => by cases hr'.symm.trans ho'⟩
  | @settle event reserved ending hi ht =>
    subst ht
    have hself := status?_settle_self hi
    refine ⟨⟨_, hself, by simp⟩, fun o ho' => hg.custody.stored_step ho hs ?_⟩
    rw [← (isFor_iff hg.own hi rfl).1 hfor]
    cases ending with
    | error x => cases hself.symm.trans ho'
    | ok w => exact hg.stored_of_settling hi
  | @cancel r inside hi ht =>
    subst ht
    have hself : (s.cutOff i r inside).status? i = _ := status?_cutOff_self hi
    exact ⟨⟨_, hself, by simp⟩, fun o ho' => by cases hself.symm.trans ho'⟩

theorem Vouched.run (h : s.Vouched i id) (hfor : s.IsFor i id) (hg : s.Agreed)
    (hr : s.Reaches Guarded t) : t.Vouched i id :=
  (hr.keeps (I := fun u => u.Vouched i id ∧ u.IsFor i id ∧ u.Agreed)
    (fun _ _ _ hs hp h => ⟨h.1.step h.2.1 h.2.2 hp.1 hs, h.2.1.step hs,
      h.2.2.step hp.1 hp.2 hs⟩) ⟨h, hfor, hg⟩).1

/-- A retry that the key store answers is told of a duplicate only if its event is stored. -/
theorem Kept.vouched_retry (h : s.Kept) {event : Event}
    (hi : s.status? i = some (.reserving event))
    (hq : ∀ j, j ≠ i → s.IsFor j event.eventId → s.isRunning j = false)
    (hl : ∀ j, (j, event.eventId) ∉ s.releases)
    (hf : s.keys.fixed? (s.settings.terms.reserve event.eventId) = none) :
    (s.reserve i event).Vouched i event.eventId := by
  have hself := status?_reserve_self hi
  have ha := Reservation.KeyStore.answer_setNew hf
  cases hlive : s.keys.live? (Reservation.key event.eventId) with
  | none =>
    rw [hlive] at ha
    rw [show (s.keys.run (s.settings.terms.reserve event.eventId)).2 = .ok true from ha] at hself
    exact ⟨⟨_, hself, by simp [reserved, Reservation.Status.ofAnswer]⟩, fun o ho => by
      rw [hself] at ho; simp [reserved, Reservation.Status.ofAnswer] at ho⟩
  | some e =>
    rw [hlive] at ha
    rw [show (s.keys.run (s.settings.terms.reserve event.eventId)).2 = .ok false from ha] at hself
    have he : s.mark? event.eventId = some e := (Option.filter_eq_some_iff.1 hlive).1
    refine ⟨⟨_, hself, by simp [reserved, Reservation.Status.ofAnswer]⟩, fun o _ => ?_⟩
    refine (h.settled (fun j hj => ?_) hl he).2
    by_cases hji : j = i
    · exact absurd (hji ▸ hj) (h.agreed.spoken.not_holds_reserving hi)
    · exact hq j hji hj.1

/-- An event whose reservation is `done` is stored, whatever happens to the key store. If every
command that settles or releases a reservation is carried out, and nobody is cut off where nothing
can be run later, then a reservation that is `pending` is held by an attempt that is at work or has
its release scheduled. So when all of that has come to its end, what is reserved is `done` and
stored, and a retry which the key store itself answers is told of success only if its event is
stored. -/
theorem reservations_agree_with_tables {tables : Store.Tables} (h : s.Begins tables)
    (hu : s.Unreserved) :
    (∀ t, s.Reaches Guarded t → ∀ id, t.keys.value? (Reservation.key id) = some doneValue →
      t.tables.events.has id = true) ∧
    ∀ t, s.Reaches Diligent t →
      (∀ id, t.keys.value? (Reservation.key id) = some pendingValue →
        ∃ i, t.Holds i id ∧ (t.isRunning i = true ∨ (i, id) ∈ t.releases)) ∧
      ((∀ i, t.isRunning i = false) → t.releases = [] →
        ∀ id v, t.keys.value? (Reservation.key id) = some v →
          v = doneValue ∧ t.tables.events.has id = true) ∧
      ∀ i event u v o, t.status? i = some (.reserving event) →
        (∀ j, j ≠ i → t.IsFor j event.eventId → t.isRunning j = false) →
        (∀ j, (j, event.eventId) ∉ t.releases) →
        t.keys.fixed? (t.settings.terms.reserve event.eventId) = none →
        t.step (.advance i) = some u → u.Reaches Guarded v → v.result? i = some (.ok o) →
        v.tables.events.has event.eventId = true := by
  refine ⟨fun t hr id hv => ?_, fun t hr => ⟨fun id hv => ?_, fun hq hl id v hv => ?_, ?_⟩⟩
  · obtain ⟨e, he, hd⟩ := mark?_of_value? hv
    exact ((Agreed.of_begins h hu).run hr).done id e he hd
  · have hk := (Kept.of_begins h hu).run hr
    obtain ⟨e, he, hp⟩ := mark?_of_value? hv
    obtain ⟨i, hi⟩ := hk.backed id e he hp
    exact ⟨i, hi, hk.unfinished hi⟩
  · have hk := (Kept.of_begins h hu).run hr
    obtain ⟨e, he, rfl⟩ := mark?_of_value? hv
    exact hk.settled (fun i _ => hq i) (fun i => by simp [hl]) he
  · intro i event u v o hi hq hl hf hs huv ho
    have hk := (Kept.of_begins h hu).run hr
    cases (step_reserve hi).symm.trans hs
    have hg := hk.agreed.step (a := .advance i) trivial trivial hs
    have hfor := (isFor_of_own hk.agreed.own hi rfl).step hs
    have hv := (hk.vouched_retry hi hq hl hf).run hfor hg huv
    refine hv.stored o ?_
    unfold result? at ho
    split at ho
    · next hr => cases ho; exact hr
    · cases ho

/-- A run that leaves the key store alone carries out every command that settles or releases. -/
theorem diligent_of_normal (h : s.KeysFree)
    (hr : s.Reaches (fun s a => s.KeysNormal a ∧ s.Guarded a ∧ s.InRuntime a) t) :
    s.Reaches Diligent t :=
  hr.of_keeps h (fun _ _ _ hs hp h => h.step hp.1 hs) fun _ a h hp => ⟨hp.2.1, h.settles a, hp.2.2⟩

/-- An attempt that has begun its transaction is cut off. -/
def cutWhileWriting : List Action :=
  [.submit aView, .advance 0, .advance 0, .cancel 0 true]

theorem reservation_agrees_after_cut : ∃ t, initial.Begins .empty ∧ initial.Unreserved ∧
    initial.Reaches Diligent t ∧
    t.keys.value? (Reservation.key ⟨1, by decide⟩) = some pendingValue ∧
    ∃ i, t.Holds i ⟨1, by decide⟩ ∧ (t.isRunning i = true ∨ (i, ⟨1, by decide⟩) ∈ t.releases) := by
  obtain ⟨t, ht⟩ := Option.isSome_iff_exists.1
    (show (initial.run cutWhileWriting).isSome = true by decide +kernel)
  have hr : initial.Reaches Diligent t := diligent_of_normal keysFree_initial
    (.of_run ht (by simp [cutWhileWriting, KeysNormal, Guarded, Orderly, SparesReservations,
      InRuntime]))
  have hv : (initial.run cutWhileWriting).map
      (fun t => t.keys.value? (Reservation.key ⟨1, by decide⟩)) = some (some pendingValue) := by
    decide +kernel
  rw [ht] at hv
  have hv := Option.some.inj hv
  exact ⟨t, begins_initial, unreserved_initial, hr, hv,
    ((reservations_agree_with_tables begins_initial unreserved_initial).2 t hr).1 _ hv⟩

/-- An attempt fails because no transaction can be begun. -/
def failedBegin : List Action :=
  [.faults { failBegin := true }, .submit aView, .advance 0, .advance 0, .advance 0]

/-- The event is submitted again while the key store is not to be had. -/
def retryInOutage : List Action := [.outage (some .timeout), .submit aView, .advance 1]

/-- Without the key store a retry is told of a duplicate though its event is not stored, even when
all other attempts have come to their end: that is what `failClosed` means. -/
theorem retry_in_outage_told_of_duplicate : ∃ t u, initial.Reaches Diligent t ∧
    (∀ i, t.isRunning i = false) ∧ t.releases = [] ∧ t.Reaches Diligent u ∧
    u.result? 1 = some (.ok .duplicate) ∧ u.tables.events.has ⟨1, by decide⟩ = false := by
  obtain ⟨t, ht⟩ := Option.isSome_iff_exists.1
    (show (initial.run failedBegin).isSome = true by decide +kernel)
  obtain ⟨u, hu⟩ := Option.isSome_iff_exists.1
    (show (initial.run (failedBegin ++ retryInOutage)).isSome = true by decide +kernel)
  have hr : initial.Reaches Diligent t := diligent_of_normal keysFree_initial
    (.of_run ht (by simp [failedBegin, KeysNormal, Guarded, Orderly, SparesReservations,
      InRuntime]))
  have hend : (initial.run failedBegin).map (fun t => (t.isIdle, t.releases,
      t.attempts.length)) = some (true, [], 1) := by decide +kernel
  have hlast : (initial.run (failedBegin ++ retryInOutage)).map (fun u => (u.result? 1,
      u.tables.events.has ⟨1, by decide⟩)) = some (some (.ok .duplicate), false) := by rfl
  have htu : t.run retryInOutage = some u := by rwa [run_append, ht] at hu
  rw [ht] at hend
  rw [hu] at hlast
  simp only [Option.map_some, Option.some.injEq, Prod.mk.injEq] at hend hlast
  obtain ⟨hidle, hrel, hlen⟩ := hend
  refine ⟨t, u, hr, isRunning_of_isIdle hidle, hrel, ⟨_, htu, ?_⟩, hlast.1, hlast.2⟩
  refine ⟨⟨⟨trivial, trivial⟩, trivial, trivial⟩, fun v hv => ?_⟩
  refine ⟨⟨⟨trivial, trivial⟩, trivial, trivial⟩, fun w hw => ?_⟩
  refine ⟨⟨⟨trivial, trivial⟩, fun event ending hs => ?_, trivial⟩, fun _ _ => trivial⟩
  cases hv
  cases hw
  rw [status?_submit, if_pos hlen.symm] at hs
  cases hs

end Intake.Ingest.State
