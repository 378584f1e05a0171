import Intake.Proofs.View
import Mathlib.Algebra.BigOperators.Group.Finset.Piecewise

/-!
# What the log keeps of a party

The log tells of every party its commands, its calls and its samples. `Adds` says what an operation
adds to that, and there is one lemma for each kind of step: a step tells of one party only. What
attempts did together is what each of them did (`count_eq_sum`), so that a statement about totals
comes down to one about a single attempt.
-/

namespace Intake.Ingest

open Store (Party Call)
open Metrics (Series)

/-- A command of a reservation, with the sample of its failure. -/
def commanded (c : Reservation.Command) (b : Reservation.Answer) : List Occurrence :=
  .command c b :: (Count.reservation c.verb b).map .sample

/-- The command that settles a reservation, with its samples. -/
def closed (c : Reservation.Command) (b : Reservation.Answer) : List Occurrence :=
  commanded c b ++ if c.verb = .delete then [.sample Count.released] else []

/-- What a list of notes keeps of one party. -/
def notesOf {α : Type} (p : Party) (l : List (Party × α)) : List α :=
  l.filterMap fun x => if x.1 = p then some x.2 else none

/-- A party that is an attempt. -/
def isAttempt : Party → Bool
  | .attempt _ => true
  | .client _ => false

namespace State

variable {s t u : State} {a : Action} {i j : Nat} {p : Party} {δ ε : List Occurrence}

/-- What happened, the oldest first, each time with the party. -/
def notes (s : State) : List (Party × Occurrence) := (s.log.map fun e => (e.party, e.what)).reverse

/-- What attempt `i` did, the oldest first. -/
def noted (s : State) (i : Nat) : List Occurrence := notesOf (.attempt i) s.notes

/-- How often attempts did a thing of this kind. -/
def count (s : State) (q : Occurrence → Bool) : Nat :=
  s.notes.countP fun x => isAttempt x.1 && q x.2

/-- The log of `t` tells this more of a party, and nothing of the others. -/
def Adds (s : State) (p : Party) (δ : List Occurrence) (t : State) : Prop :=
  t.notes = s.notes ++ δ.map (Prod.mk p)

namespace Adds

theorem of_log (h : t.log = s.log) (p : Party) : s.Adds p [] t := by
  simp [Adds, notes, h]

theorem trans (h : s.Adds p δ t) (h' : t.Adds p ε u) : s.Adds p (δ ++ ε) u := by
  unfold Adds at *
  rw [h', h, List.map_append, List.append_assoc]

theorem noted (h : s.Adds p δ t) (j : Nat) :
    t.noted j = if p = .attempt j then s.noted j ++ δ else s.noted j := by
  unfold State.noted notesOf
  rw [h, List.filterMap_append, List.filterMap_map]
  by_cases hj : p = .attempt j
  · simp [hj]
  · simp [hj]

theorem count (h : s.Adds p δ t) (q : Occurrence → Bool) :
    t.count q = s.count q + if isAttempt p then δ.countP q else 0 := by
  unfold State.count
  rw [h, List.countP_append, List.countP_map]
  cases hp : isAttempt p with
  | true => simp [Function.comp_def, hp]
  | false => simp [Function.comp_def, hp]

end Adds

/-! ### Operations -/

theorem adds_note (s : State) (p : Party) (what : Occurrence) : s.Adds p [what] (s.note p what) := by
  simp [Adds, notes, note]

theorem adds_noteAll (s : State) (p : Party) (series : List Series) :
    s.Adds p (series.map .sample) (s.noteAll p series) := by
  simp [Adds, notes, noteAll, Function.comp_def]

theorem adds_command (s : State) (p : Party) (c : Reservation.Command) :
    s.Adds p [.command c (s.keys.run c).2] (s.command p c).1 :=
  adds_note { s with keys := (s.keys.run c).1 } p _

theorem adds_reservation (s : State) (p : Party) (c : Reservation.Command) :
    s.Adds p (commanded c (s.keys.run c).2) (s.reservation p c).1 :=
  (adds_command s p c).trans (adds_noteAll ..)

theorem adds_releaseBy (s : State) (i : Nat) (id : Uuid) : s.Adds (.attempt i)
    (closed (Reservation.release id) (s.keys.run (Reservation.release id)).2) (s.releaseBy i id) :=
  (adds_reservation ..).trans (adds_note ..)

theorem adds_abandon (s : State) (i : Nat) (r : Running) :
    s.Adds (.attempt i) (if r.writing.isOpen then [.dropped] else []) (s.abandon i r) := by
  unfold abandon
  split
  · exact adds_note { s with store := s.store.leave (.attempt i) } _ .dropped
  · exact .of_log rfl _

theorem adds_ask (s : State) (p : Party) (waiting : Bool) (call : Call) :
    s.Adds p (if waiting then [] else [.call call]) (s.ask p waiting call).1 := by
  unfold ask
  split
  · exact .of_log rfl p
  · exact adds_note { s with store := (s.store.start s.now p call).1 } p _

/-! ### Steps -/

theorem adds_submit (s : State) (raw : RawEvent) : s.Adds (.attempt s.attempts.length)
    (.sample Count.received :: match Event.ofRaw raw with
      | .error flaw => [.sample (Count.invalid flaw)]
      | .ok _ => []) (s.submit raw) := by
  have hreceived := adds_note s (.attempt s.attempts.length) (.sample Count.received)
  unfold submit
  cases Event.ofRaw raw with
  | error flaw => exact hreceived.trans (adds_note ..)
  | ok event => exact hreceived

theorem adds_reserve (s : State) (i : Nat) (event : Event) : s.Adds (.attempt i)
    (commanded (s.settings.terms.reserve event.eventId)
        (s.keys.run (s.settings.terms.reserve event.eventId)).2 ++
      (Count.reserved s.settings.policy
        (s.keys.run (s.settings.terms.reserve event.eventId)).2).map .sample)
    (s.reserve i event) :=
  (adds_reservation ..).trans (adds_noteAll ..)

theorem adds_settle (s : State) (i : Nat) (event : Event) (reserved : Bool)
    (ending : Except Error Written) : s.Adds (.attempt i)
    ((if reserved then closed (s.closing event.eventId ending)
        (s.keys.run (s.closing event.eventId ending)).2 else []) ++
      (Count.ended (ending.map ofWritten)).map .sample)
    (s.settle i event reserved ending) := by
  have hsignal : ∀ u : State, (u.signal event ending).notes = u.notes := by
    intro u
    unfold signal
    split <;> rfl
  refine Adds.trans (t := (s.settleReservation i event.eventId reserved ending).signal event ending)
    ?_ (adds_noteAll ..)
  unfold Adds
  rw [hsignal]
  cases reserved with
  | false => exact Adds.of_log rfl _
  | true =>
    cases ending with
    | error x => exact adds_releaseBy ..
    | ok w =>
      have hset : closed (s.closing event.eventId (.ok w))
          (s.keys.run (s.closing event.eventId (.ok w))).2 =
            commanded (s.settings.terms.markDone event.eventId)
              (s.keys.run (s.settings.terms.markDone event.eventId)).2 := by
        simp [closed, closing, Reservation.Terms.markDone, Reservation.Command.verb]
      rw [if_pos rfl, hset]
      exact adds_reservation ..

theorem adds_cutOff (s : State) (i : Nat) (r : Running) (inside : Bool) : s.Adds (.attempt i)
    ((if r.writing.isOpen then [.dropped] else []) ++ [.sample Count.timer])
    (s.cutOff i r inside) := by
  have hcut := (adds_abandon s i r).trans (adds_note _ _ (.sample Count.timer))
  unfold cutOff
  cases r.reserved && inside with
  | true => exact hcut
  | false => exact hcut

theorem adds_releaseAt (s : State) (j i : Nat) (id : Uuid) : s.Adds (.attempt i)
    (closed (Reservation.release id) (s.keys.run (Reservation.release id)).2) (s.releaseAt j i id) :=
  adds_releaseBy { s with releases := s.releases.eraseIdx j } i id

/-- What an attempt that writes is told of: its call if it makes one, and then the answer or the
deadline if either has come. -/
theorem adds_proceed {r : Running} (h : s.proceed i r = some t) : ∃ δ,
    s.Adds (.attempt i) ((if r.waiting then [] else [.call r.writing.call]) ++ δ) t ∧
      (δ = [] ∨ δ = [.dropped] ∨ ∃ b, δ = (if r.writing.drops b then [.dropped] else []) ++
        (r.writing.samples s.settings.maxRetries b).map .sample) := by
  have hask := adds_ask s (.attempt i) r.waiting r.writing.call
  rcases proceed_cases h with ⟨b, -, rfl⟩ | ⟨-, -, rfl⟩ | ⟨-, -, -, rfl⟩
  · refine ⟨_, hask.trans ?_, .inr (.inr ⟨b, rfl⟩)⟩
    have hdrops : (s.ask (.attempt i) r.waiting r.writing.call).1.Adds (.attempt i)
        (if r.writing.drops b then [.dropped] else [])
        (if r.writing.drops b then (s.ask (.attempt i) r.waiting r.writing.call).1.abandon i r
          else (s.ask (.attempt i) r.waiting r.writing.call).1) := by
      split
      · next hd =>
        have hopen : r.writing.isOpen = true := by
          unfold Writing.drops at hd
          unfold Writing.isOpen
          split at hd <;> simp_all
        have hadds := adds_abandon (s.ask (.attempt i) r.waiting r.writing.call).1 i r
        rwa [hopen] at hadds
      · exact .of_log rfl _
    unfold answer
    rw [settings_ask]
    exact hdrops.trans (adds_noteAll ..)
  · refine ⟨_, hask.trans (adds_abandon ..), ?_⟩
    split
    · exact .inr (.inl rfl)
    · exact .inl rfl
  · exact ⟨[], hask.trans (.of_log rfl _), .inl rfl⟩

/-- A step from outside tells of a client, and no more than what a client of the two stores does: of
all samples it gives only those of failed commands. -/
theorem adds_outside (ha : a.isOutside = true) (h : s.step a = some t) : ∃ k δ,
    s.Adds (.client k) δ t ∧
      ∀ x, .sample x ∈ δ → ∃ v f, x = Count.reservationError v f := by
  have hnone : ∀ u : State, u.log = s.log → ∃ k δ, s.Adds (.client k) δ u ∧
      ∀ x, .sample x ∈ δ → ∃ v f, x = Count.reservationError v f :=
    fun u hu => ⟨0, [], .of_log hu _, by simp⟩
  cases a with
  | submit | advance | cancel | release => simp [Action.isOutside] at ha
  | elapse | evict | age | outage | override => cases h; exact hnone _ rfl
  | faults f =>
    cases h
    refine hnone _ ?_
    unfold setFaults
    split <;> rfl
  | command k c => cases h; exact ⟨k, _, adds_command s _ c, by simp⟩
  | reservation k c =>
    cases h
    refine ⟨k, _, adds_reservation s _ c, fun x hx => ?_⟩
    cases hb : (s.keys.run c).2 with
    | ok b => simp [commanded, Count.reservation, hb] at hx
    | error f =>
      rw [hb] at hx
      exact ⟨c.verb, f, by simpa [commanded, Count.reservation] using hx⟩
  | clientCall k waiting call =>
    cases h
    refine ⟨k, _, adds_ask s _ waiting call, ?_⟩
    cases waiting <;> simp
  | clientLeave k isOpen =>
    cases h
    unfold clientLeave
    cases isOpen with
    | true => exact ⟨k, _, adds_note { s with store := s.store.leave (.client k) } _ _, by simp⟩
    | false => exact hnone _ rfl

end State

end Intake.Ingest
