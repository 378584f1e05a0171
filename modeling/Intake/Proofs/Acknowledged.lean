import Intake.Proofs.Outcomes

/-!
# Acknowledged events

An attempt that returns without a failure tells its caller that the event has been taken care of.
This holds of an attempt that was let in, and of one that found its reservation `done`: the event is
stored by then. It need not hold of one that found its reservation `pending`. The attempt that holds
the reservation may still fail, and then the event is stored only if some attempt that is let in
later stores it, or the one that failed had stored it before.
-/

namespace Intake.Ingest.State

open Reservation (pendingValue doneValue)

variable {s t u : State} {a : Action} {i j : Nat} {id : Uuid} {o : Outcome}

/-- Attempt `j` was let in and succeeded, or it failed after it had stored the event. -/
def Secured (s t : State) (j : Nat) (id : Uuid) : Prop :=
  t.IsFor j id ∧ (Given (t.commands j) ∧ (∃ o, t.result? j = some (.ok o)) ∨
    Status.Failed (t.status? j) ∧ s.StoredBy t j id)

/-- The answers are normal, and whoever is cut off can leave its reservation to be released. -/
def Undisturbed (s : State) (a : Action) : Prop := s.Normal a ∧ s.InRuntime a

theorem Exclusive.stored_run (h : s.Exclusive) (hr : s.Reaches Normal t)
    (hid : s.tables.events.has id = true) : t.tables.events.has id = true :=
  (hr.keeps (I := fun u => u.Exclusive ∧ u.tables.events.has id = true)
    (fun _ _ _ hs hp h => ⟨h.1.step hp hs, h.1.agreed.custody.stored_step hp.1.1 hs h.2⟩)
    ⟨h, hid⟩).2

/-- When an attempt returns without a failure, its event is stored, or somebody else holds the
reservation of it. -/
theorem Exclusive.stored_or_held (h : s.Exclusive) (hp : s.Normal a) (hs : s.step a = some t)
    (hfor : t.IsFor i id) (hnew : s.result? i = none) (hr : t.result? i = some (.ok o)) :
    t.tables.events.has id = true ∨
      o = .duplicate ∧ s.value? id = some pendingValue ∧ ∃ j, j ≠ i ∧ s.Holds j id := by
  have hsp := h.agreed.spoken
  have ho := h.agreed.own
  have hstays : s.tables.events.has id = true → t.tables.events.has id = true :=
    h.agreed.custody.stored_step hp.1.1 hs
  rcases returned_step hs hr with hold | ⟨event, b, w, -, hi, -⟩ | ⟨event, hi, rfl, hdup⟩
  · cases hnew.symm.trans hold
  · obtain rfl := (isFor_iff ho hi rfl).1 (hfor.of_step hs (by simp [hi]))
    exact .inl (hstays (h.agreed.stored_of_settling hi))
  · obtain rfl := (isFor_iff ho hi rfl).1 (hfor.of_step hs (by simp [hi]))
    obtain ⟨v, hv⟩ := Option.ne_none_iff_exists'.1 (value?_of_duplicate h.free hi hr)
    obtain ⟨e, he, rfl⟩ := mark?_of_value? hv
    rcases h.agreed.value _ e he with hpend | hdone
    · obtain ⟨j, hj⟩ := h.backed _ e he hpend
      refine .inr ⟨hdup, hpend ▸ hv, j, ?_, hj⟩
      rintro rfl
      exact hsp.not_holds_reserving hi hj
    · exact .inl (hstays (h.agreed.done _ e he hdone))

/-- An event is stored, once nobody is at work on it, if and only if an attempt has secured it. -/
theorem secured_iff (hb : s.Begins .empty) (hstart : s.Exclusive) (hr : s.Reaches Normal t)
    (hq : ∀ j, t.IsFor j id → t.isRunning j = false) :
    t.tables.events.has id = true ↔ ∃ j, s.Secured t j id := by
  constructor
  · intro hid
    have hn : s.tables.events.has id = false := by
      rw [hb.tables_eq]
      rfl
    obtain ⟨j, hj⟩ := exists_storedBy hstart hr hn hid
    obtain ⟨hfor, hg, hauthor⟩ := hj.author hstart
    have hidle := hq j hfor
    refine ⟨j, hfor, ?_⟩
    unfold isRunning at hidle
    cases hst : t.status? j with
    | none =>
      rw [hst] at hauthor
      exact hauthor.elim
    | some st =>
      rw [hst] at hidle
      cases st with
      | reserving | running | settling => cases hidle
      | returned r =>
        cases r with
        | ok o => exact .inl ⟨hg, o, result?_eq_some.2 hst⟩
        | error x => exact .inr ⟨trivial, hj⟩
      | cancelled => exact .inr ⟨trivial, hj⟩
  · rintro ⟨j, hfor, ⟨hg, o, ho⟩ | ⟨-, u, v, hu, -, hs, hv, hvt⟩⟩
    · exact ((Answered.of_begins hb).run hstart hr).stored j id o hfor hg ho
    · have hp : u.Normal (.advance j) := ⟨⟨trivial, by simp⟩, trivial, trivial⟩
      exact ((hstart.run hu).step hp hs).stored_run hvt hv

/-- An attempt that returns without a failure has its event stored, unless it found the reservation
`pending` and somebody else at work. When all of that has come to its end, an event of which some
attempt returned without a failure is stored if and only if an attempt that was let in succeeded, or
one failed only after it had stored the event; otherwise there is no reservation of it, and the next
attempt will be let in. -/
theorem acknowledged_event_stored_iff (h : s.Begins .empty) (hu : s.Unreserved) (hf : s.KeysFree)
    (hr : s.Reaches Undisturbed t) :
    (∀ a v i id o, t.Normal a → t.step a = some v → v.IsFor i id → t.result? i = none →
      v.result? i = some (.ok o) → v.tables.events.has id = true ∨
        o = .duplicate ∧ t.value? id = some pendingValue ∧ ∃ j, j ≠ i ∧ t.Holds j id) ∧
    ∀ i id o, t.IsFor i id → t.result? i = some (.ok o) →
      (∀ j, t.IsFor j id → t.isRunning j = false) → (∀ j, (j, id) ∉ t.releases) →
      (t.tables.events.has id = true ↔ ∃ j, s.Secured t j id) ∧
        (t.tables.events.has id = false → t.value? id = none) := by
  have hstart := Exclusive.of_begins h hu hf
  have hnormal : s.Reaches Normal t := hr.mono fun _ _ hp => hp.1
  refine ⟨fun a v i id o hp hs => (hstart.run hnormal).stored_or_held hp hs,
    fun i id o _ _ hq hl => ⟨secured_iff h hstart hnormal hq, fun hn => ?_⟩⟩
  have hk := (Kept.of_begins h hu).run (diligent_of_normal hf
    (hr.mono fun _ _ hp => ⟨hp.1.2.2, ⟨hp.1.1.1, hp.1.2.1⟩, hp.2⟩))
  cases hv : t.value? id with
  | none => rfl
  | some v =>
    obtain ⟨e, he, -⟩ := mark?_of_value? hv
    cases hn.symm.trans (hk.settled (fun j hj => hq j hj.1) hl he).2

/-- The first attempt stores the event, but learns neither from its commit nor from its check that
it did; the second finds the reservation of the first. -/
def unlearnt : List Action :=
  [.faults { nextCommit := some .acknowledgementLost, failCheck := true }, .submit aView,
    .submit aView, .advance 0, .advance 1, .advance 0, .advance 0, .advance 0, .advance 0,
    .advance 0, .advance 0, .advance 0]

theorem secured_by_failed_attempt : ∃ t, initial.Begins .empty ∧ initial.Unreserved ∧
    initial.KeysFree ∧ initial.Reaches Undisturbed t ∧ t.result? 1 = some (.ok .duplicate) ∧
    ∃ j, initial.Secured t j ⟨1, by decide⟩ := by
  obtain ⟨t, ht⟩ := Option.isSome_iff_exists.1
    (show (initial.run unlearnt).isSome = true by decide +kernel)
  have hr : initial.Reaches Undisturbed t := .of_run ht (by
    simp [unlearnt, Undisturbed, Normal, ReadOnly, Orderly, SparesReservations, KeysNormal,
      InRuntime])
  have hend : (initial.run unlearnt).map (fun t => (t.result? 1, t.isIdle,
      (t.event? 1).map (·.eventId), t.releases, t.tables.events.has ⟨1, by decide⟩)) =
        some (some (.ok .duplicate), true, some ⟨1, by decide⟩, [], true) := by rfl
  rw [ht] at hend
  simp only [Option.map_some, Option.some.injEq, Prod.mk.injEq] at hend
  obtain ⟨h1, hidle, hid, hrel, hstored⟩ := hend
  obtain ⟨e, he, hid⟩ := Option.map_eq_some_iff.1 hid
  have hiff := (acknowledged_event_stored_iff begins_initial unreserved_initial keysFree_initial
    hr).2 1 _ _ ⟨e, he, hid⟩ h1 (fun j _ => isRunning_of_isIdle hidle j) (by simp [hrel])
  exact ⟨t, begins_initial, unreserved_initial, keysFree_initial, hr, h1, hiff.1.1 hstored⟩

/-- The second attempt finds the reservation of the first, whose commit then fails. -/
def failedHolder : List Action :=
  [.faults { nextCommit := some .failedBeforeWrite, commitDelay := some 100 }, .submit aView,
    .submit aView, .advance 0, .advance 0, .advance 0, .advance 0, .advance 0, .advance 0,
    .advance 1, .elapse 100, .advance 0, .advance 0, .advance 0]

/-- A duplicate is reported though the event is not stored when all attempts have returned. -/
theorem duplicate_of_failed_attempt_lost : ∃ t, initial.Reaches Undisturbed t ∧
    t.IsFor 1 ⟨1, by decide⟩ ∧ t.result? 1 = some (.ok .duplicate) ∧
    (∀ j, t.isRunning j = false) ∧ t.releases = [] ∧
    t.tables.events.has ⟨1, by decide⟩ = false := by
  obtain ⟨t, ht⟩ := Option.isSome_iff_exists.1
    (show (initial.run failedHolder).isSome = true by decide +kernel)
  have hr : initial.Reaches Undisturbed t := .of_run ht (by
    simp [failedHolder, Undisturbed, Normal, ReadOnly, Orderly, SparesReservations, KeysNormal,
      InRuntime])
  have hend : (initial.run failedHolder).map (fun t => (t.result? 1, t.isIdle,
      (t.event? 1).map (·.eventId), t.releases, t.tables.events.has ⟨1, by decide⟩)) =
        some (some (.ok .duplicate), true, some ⟨1, by decide⟩, [], false) := by rfl
  rw [ht] at hend
  simp only [Option.map_some, Option.some.injEq, Prod.mk.injEq] at hend
  obtain ⟨h1, hidle, hid, hrel, hlost⟩ := hend
  obtain ⟨e, he, hid⟩ := Option.map_eq_some_iff.1 hid
  exact ⟨t, hr, ⟨e, he, hid⟩, h1, isRunning_of_isIdle hidle, hrel, hlost⟩

end Intake.Ingest.State
