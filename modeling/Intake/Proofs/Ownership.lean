import Intake.Proofs.Exclusion
import Intake.Proofs.Surroundings

/-!
# Whose reservation a release removes

The keys of reservations carry no owner: every attempt writes the same `pending`, and a release
deletes whatever is at the key. Still a release removes the attempt's own reservation for as long as
that is intact (`Intact`): the key store has written it, and since then the key was neither evicted
nor has it run out, no client has touched it, and nobody has settled or released a reservation of
the event. Then the key holds the very entry that the attempt wrote (`Wrote`), so nobody else can
have reserved the event meanwhile: at most one reservation of an event is intact.

Without that it is false. An attempt whose key was evicted under it does not notice, and its release
removes what is there by then, even `done`. `Lost` lists the ways in which a reservation is lost. All
but one of them lie outside of ingestion; the last is that it falls to the release of an attempt that
has lost its own before.

Nothing here depends on the store.
-/

namespace Intake.Ingest

open Reservation (pendingValue doneValue)

namespace State

variable {s t u v w : State} {a : Action} {as bs cs : List Action} {i j k : Nat} {id : Uuid}
  {e : Reservation.Entry}

/-- The entry at the key of an event, while it lives. -/
def reservation? (s : State) (id : Uuid) : Option Reservation.Entry :=
  s.keys.live? (Reservation.key id)

theorem reservation?_of_keys (h : t.keys = s.keys) : t.reservation? id = s.reservation? id := by
  rw [reservation?, h, reservation?]

theorem reservation?_run_of_ne {c : Reservation.Command} (h : t.keys = (s.keys.run c).1)
    (hc : c.key ≠ Reservation.key id) : t.reservation? id = s.reservation? id := by
  rw [reservation?, h]
  exact s.keys.live?_run_of_ne c hc.symm

/-! ### What leaves an entry alone -/

/-- Nothing from outside changes the key of the event. -/
def Untouched (id : Uuid) (s : State) : Action → Prop
  | .evict key => key ≠ Reservation.key id
  | .age nanos =>
    (s.keys.age nanos).live? (Reservation.key id) = s.keys.live? (Reservation.key id)
  | .command _ c | .reservation _ c => c.key ≠ Reservation.key id
  | _ => True

theorem untouched_of_inside (h : a.isOutside = false) : s.Untouched id a := by
  cases a <;> trivial

/-- A try to reserve a key that lives changes nothing. -/
theorem reservation?_reserve {event : Event} (h : s.reservation? event.eventId = some e) :
    (s.reserve i event).reservation? event.eventId = some e := by
  have hrun : (s.keys.run (s.settings.terms.reserve event.eventId)).1 = s.keys := by
    unfold Reservation.KeyStore.run
    split
    · rfl
    · have hl : (s.keys.live? (Reservation.key event.eventId)).isSome = true :=
        Option.isSome_iff_exists.2 ⟨e, h⟩
      simp [Reservation.Terms.reserve, Reservation.KeyStore.effect, hl]
  rw [reservation?, keys_reserve, hrun]
  exact h

/-- What lives at the key of an event stays there until it is touched from outside, or a reservation
of the event is settled or released. -/
theorem reservation?_step (hs : s.step a = some t) (hu : s.Untouched id a)
    (hc : ∀ k, ¬s.Closes k id a) (he : s.reservation? id = some e) : t.reservation? id = some e := by
  rw [← he]
  cases step_keyMoves hs with
  | same hk => exact reservation?_of_keys hk
  | @reserve i event hi ht =>
    subst ht
    by_cases hid : event.eventId = id
    · subst hid
      rw [he]
      exact reservation?_reserve he
    · exact reservation?_run_of_ne (keys_reserve s i event) fun h => hid (Reservation.key_injective h)
  | @settle i event ending hi ht =>
    have hk := keys_settle s i event true ending
    rw [if_pos rfl, ← ht] at hk
    refine reservation?_run_of_ne hk fun h => hc i (.settle hi ?_)
    exact Reservation.key_injective (by simpa using h)
  | @release j i id' hj ht =>
    subst ht
    refine reservation?_run_of_ne (keys_releaseAt s i j id') fun h => ?_
    exact hc i (.release (Reservation.key_injective h ▸ hj))
  | command hk | reservation hk => exact reservation?_run_of_ne hk hu
  | @evict key hk =>
    have hne : Reservation.key id ≠ key := Ne.symm hu
    simp [reservation?, hk, Reservation.KeyStore.evict, Reservation.KeyStore.live?, hne]
  | @age nanos hk =>
    have hlive : (s.keys.age nanos).live? (Reservation.key id) = _ := hu
    rw [reservation?, hk, hlive, reservation?]
  | outage hk | override hk =>
    rw [reservation?, hk]
    rfl

/-! ### Making a reservation, and losing it -/

/-- Attempt `i` reserves event `id`, and the key store carries that out. -/
structure Makes (s : State) (i : Nat) (id : Uuid) (a : Action) : Prop where
  reserves : s.Reserves i id a
  carriedOut : s.keys.fixed? (s.settings.terms.reserve id) = none

theorem Makes.absent (h : s.Makes i id a) : s.reservation? id = none := by
  have ha := h.reserves.answer
  have hf := h.carriedOut
  rw [Reservation.Terms.reserve] at ha hf
  rw [Reservation.KeyStore.answer_setNew hf] at ha
  exact Option.isNone_iff_eq_none.1 (Except.ok.inj ha)

theorem Makes.pending (h : s.Makes i id a) (hs : s.step a = some t) :
    ∃ e, t.reservation? id = some e ∧ e.value = pendingValue := by
  have hlive : (s.keys.live? (Reservation.key id)).isSome ≠ true := by
    rw [show s.keys.live? (Reservation.key id) = none from h.absent]
    simp
  obtain ⟨⟨rfl, ⟨event, hi, rfl⟩, -⟩, hf⟩ := h
  cases (step_reserve hi).symm.trans hs
  rw [reservation?, keys_reserve, Reservation.KeyStore.run_of_free hf, Reservation.Terms.reserve,
    Reservation.KeyStore.effect, if_neg hlive]
  exact ⟨_, Reservation.KeyStore.live?_write (Reservation.ttlSecs_pos _), rfl⟩

/-- The action spares the reservation of the event. -/
def Spares (id : Uuid) (s : State) (a : Action) : Prop :=
  s.Untouched id a ∧ ∀ k, ¬s.Closes k id a

/-- Attempt `i` has made a reservation of event `id` on the run `as` to `t`, and it has been spared
since. -/
def Intact (s : State) (as : List Action) (t : State) (i : Nat) (id : Uuid) : Prop :=
  ∃ bs cs u v, as = bs ++ .advance i :: cs ∧ s.run bs = some u ∧ u.Makes i id (.advance i) ∧
    u.step (.advance i) = some v ∧ v.run cs = some t ∧ v.Along (Spares id) cs

/-- Attempt `i` has written the entry `e` at the key of event `id` on the run `as` to `t`, and it has
been there in every state since. -/
def Wrote (s : State) (as : List Action) (t : State) (i : Nat) (id : Uuid)
    (e : Reservation.Entry) : Prop :=
  ∃ bs cs u v, as = bs ++ .advance i :: cs ∧ s.run bs = some u ∧ u.Makes i id (.advance i) ∧
    u.step (.advance i) = some v ∧ v.run cs = some t ∧
    v.Along (fun w _ => w.reservation? id = some e) cs ∧ t.reservation? id = some e

/-- The reservation of attempt `i` is taken away from outside, or was never written: an override
said that it was made. -/
def Robs (s : State) (i : Nat) (id : Uuid) (a : Action) : Prop :=
  s.Holds i id ∧ ¬s.Untouched id a ∨
    s.Reserves i id a ∧ s.keys.fixed? (s.settings.terms.reserve id) ≠ none

/-- On the run `as`, attempt `i` was robbed of its reservation of event `id`, or while it held that,
an attempt whose own was not intact has settled or released one of the same event. -/
def Lost (s : State) (as : List Action) (i : Nat) (id : Uuid) : Prop :=
  ∃ bs a cs u, as = bs ++ a :: cs ∧ s.run bs = some u ∧
    (u.Robs i id a ∨ u.Holds i id ∧ ∃ k, k ≠ i ∧ u.Closes k id a ∧ ¬s.Intact bs u k id)

/-! ### Intact reservations -/

theorem reservation?_along (he : s.reservation? id = some e) (hr : s.run as = some t)
    (hp : s.Along (Spares id) as) :
    s.Along (fun w _ => w.reservation? id = some e) as ∧ t.reservation? id = some e := by
  induction as generalizing s with
  | nil =>
    cases hr
    exact ⟨trivial, he⟩
  | cons a as ih =>
    rw [run] at hr
    obtain ⟨u, hu, hr⟩ := Option.bind_eq_some_iff.1 hr
    have hu' := reservation?_step hu hp.1.1 hp.1.2 he
    refine ⟨⟨he, fun u' hu'' => ?_⟩, (ih hu' hr (hp.2 u hu)).2⟩
    cases hu.symm.trans hu''
    exact (ih hu' hr (hp.2 u hu)).1

/-- An attempt whose reservation is intact has written what is at the key. -/
theorem Intact.wrote (h : s.Intact as t i id) :
    ∃ e, e.value = pendingValue ∧ s.Wrote as t i id e := by
  obtain ⟨bs, cs, u, v, rfl, hu, hm, hv, ht, hp⟩ := h
  obtain ⟨e, he, hval⟩ := hm.pending hv
  obtain ⟨halong, hend⟩ := reservation?_along he ht hp
  exact ⟨e, hval, bs, cs, u, v, rfl, hu, hm, hv, ht, halong, hend⟩

/-- A key that lives is not reserved anew. -/
theorem not_made_later {ds : List Action} (hu : s.run bs = some u)
    (hv : u.step (.advance i) = some v)
    (hp : v.Along (fun w _ => w.reservation? id = some e) (ds ++ a :: cs))
    (hw : s.run (bs ++ .advance i :: ds) = some w) : ¬w.Makes j id a := by
  intro hm
  have hds : v.run ds = some w := by
    rw [run_append, hu] at hw
    simpa [run, hv] using hw
  have he : w.reservation? id = some e := (hp.of_append_right hds).1
  cases he.symm.trans hm.absent

/-- An entry has one writer. -/
theorem Wrote.unique {e' : Reservation.Entry} (h : s.Wrote as t i id e)
    (h' : s.Wrote as t j id e') : j = i := by
  obtain ⟨bs, cs, u, v, rfl, hu, hm, hv, -, hp, -⟩ := h
  obtain ⟨bs', cs', u', v', heq, hu', hm', hv', -, hp', -⟩ := h'
  -- the later of the two reservations would have found the key alive
  rcases List.append_eq_append_iff.1 heq with ⟨ds, rfl, hds⟩ | ⟨ds, rfl, hds⟩
  · cases ds with
    | nil =>
      cases hds
      rfl
    | cons d ds =>
      cases hds
      exact absurd hm' (not_made_later hu hv hp hu')
  · cases ds with
    | nil =>
      cases hds
      rfl
    | cons d ds =>
      cases hds
      exact absurd hm (not_made_later hu' hv' hp' hu)

theorem Wrote.reservation? (h : s.Wrote as t i id e) : t.reservation? id = some e :=
  let ⟨_, _, _, _, _, _, _, _, _, _, he⟩ := h
  he

theorem Intact.unique (h : s.Intact as t i id) (h' : s.Intact as t j id) : j = i := by
  obtain ⟨e, -, hw⟩ := h.wrote
  obtain ⟨e', -, hw'⟩ := h'.wrote
  exact hw.unique hw'

theorem Intact.concat (h : s.Intact as t i id) (hl : t.Spares id a) (hs : t.step a = some u) :
    s.Intact (as ++ [a]) u i id := by
  obtain ⟨bs, cs, w, v, rfl, hw, hm, hv, ht, hp⟩ := h
  exact ⟨bs, cs ++ [a], w, v, by simp, hw, hm, hv, run_concat ht hs, hp.concat ht hl⟩

theorem Makes.intact (h : t.Makes i id a) (hr : s.run as = some t) (hs : t.step a = some u) :
    s.Intact (as ++ [a]) u i id := by
  cases h.reserves.action
  exact ⟨as, [], t, u, rfl, hr, h, hs, rfl, trivial⟩

theorem Lost.concat (h : s.Lost as i id) (a : Action) : s.Lost (as ++ [a]) i id := by
  obtain ⟨bs, b, cs, u, rfl, h⟩ := h
  exact ⟨bs, b, cs ++ [a], u, by simp, h⟩

/-! ### Runs -/

/-- Nobody is robbed of a reservation of the event. -/
def RobsNobody (id : Uuid) (s : State) (a : Action) : Prop := ∀ i, ¬s.Robs i id a

/-- The invariant: whoever holds a reservation has it intact, or has lost it. -/
structure Owned (s : State) (as : List Action) (t : State) : Prop where
  own : t.Own
  spoken : t.Spoken
  holds : ∀ i id, t.Holds i id → s.Intact as t i id ∨ s.Lost as i id

theorem Owned.holds_step (h : s.Owned as t) (hr : s.run as = some t) (hs : t.step a = some u)
    (hh : u.Holds i id) : s.Intact (as ++ [a]) u i id ∨ s.Lost (as ++ [a]) i id := by
  rcases hh.of_step h.spoken h.own hs with hold | hres
  · rcases h.holds i id hold with hint | hlost
    · by_cases hun : t.Untouched id a
      · by_cases hc : ∃ k, t.Closes k id a
        · obtain ⟨k, hc⟩ := hc
          have hk : k ≠ i := by
            rintro rfl
            exact hc.not_holds hs hh
          exact .inr ⟨as, a, [], t, rfl, hr, .inr ⟨hold, k, hk, hc, fun hk' => hk (hint.unique hk')⟩⟩
        · exact .inl (hint.concat ⟨hun, not_exists.1 hc⟩ hs)
      · exact .inr ⟨as, a, [], t, rfl, hr, .inl (.inl ⟨hold, hun⟩)⟩
    · exact .inr (hlost.concat a)
  · by_cases hf : t.keys.fixed? (t.settings.terms.reserve id) = none
    · exact .inl (Makes.intact ⟨hres, hf⟩ hr hs)
    · exact .inr ⟨as, a, [], t, rfl, hr, .inl (.inr ⟨hres, hf⟩)⟩

/-- What a step of ingestion changes was written by the attempt whose step it is, or that attempt has
lost its reservation. -/
theorem Owned.changed (h : s.Owned as t) (ha : a.isOutside = false) (hs : t.step a = some u)
    (he : t.reservation? id = some e) (hne : u.reservation? id ≠ some e) : ∃ i, t.Closes i id a ∧
      (e.value = pendingValue ∧ s.Wrote as t i id e ∧ (∀ j e', s.Wrote as t j id e' → j = i) ∨
        s.Lost as i id) := by
  obtain ⟨i, hc⟩ : ∃ i, t.Closes i id a := Classical.byContradiction fun hno =>
    hne (reservation?_step hs (untouched_of_inside ha) (not_exists.1 hno) he)
  refine ⟨i, hc, ?_⟩
  rcases h.holds i id (hc.holds h.spoken h.own) with hint | hlost
  · obtain ⟨e', hval, hw⟩ := hint.wrote
    cases he.symm.trans hw.reservation?
    exact .inl ⟨hval, hw, fun j e' hw' => hw.unique hw'⟩
  · exact .inr hlost

theorem Fresh.owned (h : s.Fresh) (hr : s.run as = some t) : s.Owned as t := by
  refine run_induction (p := fun _ _ => True) (I := fun as t => s.Owned as t) ?_ ?_ hr
    (.of_forall fun _ _ _ => trivial)
  · exact ⟨h.own, h.spoken, fun i id hi => absurd hi (h.spoken.not_holds_unstarted
      (h.status?_eq_none i))⟩
  · exact fun as t a u hr ho _ hs => ⟨ho.own.step hs, ho.spoken.step ho.own hs,
      fun i id hi => ho.holds_step hr hs hi⟩

theorem Fresh.not_lost (h : s.Fresh) (hp : s.Along (RobsNobody id) as) : ¬s.Lost as i id := by
  -- whoever takes a reservation away has lost its own before, on a shorter run
  induction hn : as.length using Nat.strongRecOn generalizing as i with
  | ind n ih =>
    rintro ⟨bs, a, cs, u, rfl, hu, hrob | ⟨-, k, -, hc, hno⟩⟩
    · exact (hp.of_append_right hu).1 i hrob
    · have ho := h.owned hu
      rcases ho.holds k id (hc.holds ho.spoken ho.own) with hint | hlost
      · exact hno hint
      · rw [List.length_append, List.length_cons] at hn
        exact ih bs.length (by omega) hp.of_append rfl hlost

/-- Whatever stands in the place of the store: if a step of ingestion changes what lives at the key
of an event, it settles or releases the reservation of an attempt, and the attempt has written just
that entry, `pending`, and nobody else has, unless it has lost its reservation before. While nobody
is robbed of a reservation of the event none is lost, and ingestion leaves `done` alone. -/
theorem release_removes_own_unless_lost (hs : s.Fresh) (hr : s.run as = some t) :
    (∀ a u id e, a.isOutside = false → t.step a = some u → t.reservation? id = some e →
      u.reservation? id ≠ some e → ∃ i, t.Closes i id a ∧
        (e.value = pendingValue ∧ s.Wrote as t i id e ∧ (∀ j e', s.Wrote as t j id e' → j = i) ∨
          s.Lost as i id)) ∧
    ∀ id, s.Along (RobsNobody id) as → (∀ i, ¬s.Lost as i id) ∧
      ∀ a u e, a.isOutside = false → t.step a = some u → t.reservation? id = some e →
        e.value = doneValue → u.reservation? id = some e := by
  have ho := hs.owned hr
  refine ⟨fun a u id e ha hu he hne => ho.changed ha hu he hne, fun id hp =>
    ⟨fun i => hs.not_lost hp, fun a u e ha hu he hd => ?_⟩⟩
  refine Classical.byContradiction fun hne => ?_
  obtain ⟨i, -, ⟨hval, -⟩ | hlost⟩ := ho.changed ha hu he hne
  · exact Reservation.pendingValue_ne_doneValue (hval.symm.trans hd)
  · exact hs.not_lost hp hlost

/-- Ingestion alone robs nobody, if the key store carries out what it is told. -/
theorem robsNobody_of_keysFree (h : s.KeysFree)
    (hp : s.Along (fun s a => a.isOutside = false ∧ s.KeysNormal a) as) (id : Uuid) :
    s.Along (RobsNobody id) as := by
  refine hp.of_keeps h (fun _ _ _ hs hp h => h.step hp.2 hs) fun s a h hp i hrob => ?_
  rcases hrob with ⟨-, hno⟩ | ⟨-, hf⟩
  · exact hno (untouched_of_inside hp.1)
  · exact hf (h _)

theorem own_reservation_released_after_cut : ∃ t u e, initial.Fresh ∧
    initial.run cutWhileWriting = some t ∧
    initial.Along (RobsNobody ⟨1, by decide⟩) cutWhileWriting ∧
    t.step (.release 0) = some u ∧ t.reservation? ⟨1, by decide⟩ = some e ∧
    u.reservation? ⟨1, by decide⟩ = none ∧ e.value = pendingValue ∧
    initial.Wrote cutWhileWriting t 0 ⟨1, by decide⟩ e := by
  obtain ⟨u, hu⟩ := Option.isSome_iff_exists.1
    (show (initial.run (cutWhileWriting ++ [.release 0])).isSome = true by decide +kernel)
  rw [run_append] at hu
  obtain ⟨t, ht, htu⟩ := Option.bind_eq_some_iff.1 hu
  have hs : t.step (.release 0) = some u := by simpa [run] using htu
  have hp : initial.Along (RobsNobody ⟨1, by decide⟩) cutWhileWriting :=
    robsNobody_of_keysFree keysFree_initial
      (.of_forall (by simp [cutWhileWriting, Action.isOutside, KeysNormal])) _
  have hmid : (initial.run cutWhileWriting).map (fun t => (t.releases,
      (t.reservation? ⟨1, by decide⟩).isSome)) = some ([(0, ⟨1, by decide⟩)], true) := by decide +kernel
  have hend : (initial.run (cutWhileWriting ++ [.release 0])).map
      (fun u => u.reservation? ⟨1, by decide⟩) = some none := by decide +kernel
  rw [ht] at hmid
  rw [run_append, ht, Option.bind_some, htu] at hend
  simp only [Option.map_some, Option.some.injEq, Prod.mk.injEq] at hmid hend
  obtain ⟨e, he⟩ := Option.isSome_iff_exists.1 hmid.2
  obtain ⟨hown, hkept⟩ := release_removes_own_unless_lost begins_initial.fresh ht
  obtain ⟨i, hc, ⟨hval, hw, -⟩ | hlost⟩ :=
    hown (.release 0) u ⟨1, by decide⟩ e rfl hs he (by simp [hend])
  · cases hc with
    | release hj =>
      rw [hmid.1] at hj
      cases hj
      exact ⟨t, u, e, begins_initial.fresh, ht, hp, hs, he, hend, hval, hw⟩
  · exact absurd hlost ((hkept _ hp).1 i)

/-- The key of the first attempt is evicted, a second attempt reserves the event and stores it, and
the first comes to fail. -/
def evictedUnder : List Action :=
  [.submit aView, .submit aView, .advance 0, .evict (Reservation.key (aView.eventId.getD .zero))] ++
  List.replicate 7 (.advance 1) ++ [.faults { failBegin := true }, .advance 0]

/-- The event that attempt `i` has failed to write, if its reservation is settled next. -/
def releasing? (s : State) (i : Nat) : Option Uuid :=
  match s.status? i with
  | some (.settling event true (.error _)) => some event.eventId
  | _ => none

theorem closes_of_releasing? (h : s.releasing? i = some id) : s.Closes i id (.advance i) := by
  unfold releasing? at h
  split at h
  · next hi => exact .settle hi (Option.some.inj h)
  · cases h

/-- The release of the first attempt removes the `done` that the second has set. -/
theorem done_of_other_removed_after_eviction : ∃ t u, initial.Fresh ∧
    initial.run evictedUnder = some t ∧ t.result? 1 = some (.ok .inserted) ∧
    t.value? ⟨1, by decide⟩ = some doneValue ∧ t.Closes 0 ⟨1, by decide⟩ (.advance 0) ∧
    t.step (.advance 0) = some u ∧ u.value? ⟨1, by decide⟩ = none := by
  obtain ⟨u, hu⟩ := Option.isSome_iff_exists.1
    (show (initial.run (evictedUnder ++ [.advance 0])).isSome = true by decide +kernel)
  rw [run_append] at hu
  obtain ⟨t, ht, htu⟩ := Option.bind_eq_some_iff.1 hu
  have hs : t.step (.advance 0) = some u := by simpa [run] using htu
  have hmid : (initial.run evictedUnder).map (fun t => (t.result? 1, t.value? ⟨1, by decide⟩,
      t.releasing? 0)) = some (some (.ok .inserted), some doneValue, some ⟨1, by decide⟩) := by rfl
  have hend : (initial.run (evictedUnder ++ [.advance 0])).map
      (fun u => u.value? ⟨1, by decide⟩) = some none := by decide +kernel
  rw [ht] at hmid
  rw [run_append, ht, Option.bind_some, htu] at hend
  simp only [Option.map_some, Option.some.injEq, Prod.mk.injEq] at hmid hend
  exact ⟨t, u, begins_initial.fresh, ht, hmid.1, hmid.2.1, closes_of_releasing? hmid.2.2, hs, hend⟩

end State

end Intake.Ingest
