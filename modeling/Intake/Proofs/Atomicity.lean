import Mathlib
import Intake.Proofs.Exclusion
import Intake.Proofs.Rows
import Intake.Proofs.Surroundings

/-!
# Failures leave no trace

While only ingestion writes, the tables are those of the start with some additions (`additions`),
each made in one step: an attempt adds its event with all that it counts, row by row (`AddsAll`). An
attempt that fails, is cut off or takes its event for a duplicate has made no addition, with one
exception (`Unlearnt`).
Its commit was carried out but not acknowledged, and the attempt did not find out: the check failed,
or the attempt was cut off before the check was answered.

The invariant is `Traced`. An attempt that has made its addition is at the check (`Unsure`), is
about to report the insertion, or has ended in one of those two ways. It never commits again,
because an ambiguous error leads to the check and the check ends the writing.
-/

namespace Intake

open Store (Party Call)

/-! ### Which call changes the tables -/

namespace Store.Memory

variable {m : Memory} {now : Nat} {p : Party} {waiting : Bool} {call : Call} {a : Answer}

/-- The fate of a commit that is made now, or under way. -/
def fate? (m : Memory) (waiting : Bool) : Option Fate :=
  if waiting then m.committing.map (·.1) else some m.faults.draw.1

theorem tables_resume_of_ne (h : call ≠ .commit) : (m.resume now p call).1.tables = m.tables := by
  cases call with
  | commit => exact absurd rfl h
  | check id =>
    simp only [resume]
    split
    · exact tables_leave
    · rfl
  | begin | insert | counters | daily | rollback => rfl

theorem tables_ask_of_ne (h : call ≠ .commit) : (m.ask now p waiting call).1.tables = m.tables := by
  cases waiting with
  | true => exact tables_resume_of_ne h
  | false =>
    simp only [ask, Bool.false_eq_true, if_false]
    cases call with
    | commit => exact absurd rfl h
    | begin =>
      simp only [start]
      split
      · rfl
      · exact tables_resume_of_ne h
    | check id =>
      simp only [start]
      split
      · rfl
      · exact tables_resume_of_ne h
    | insert e =>
      simp only [start]
      split <;> rfl
    | counters | daily => rfl
    | rollback => exact tables_leave

theorem resume_commit (h : (m.resume now p .commit).2 = some a) :
    ∃ fate due, m.committing = some (fate, due) ∧ a = fate.answer ∧
      (m.resume now p .commit).1.tables =
        if fate.applies then m.tables.apply m.staged else m.tables := by
  simp only [resume] at h ⊢
  cases hc : m.committing with
  | none => simp [hc] at h
  | some x =>
    obtain ⟨fate, due⟩ := x
    simp only [hc] at h ⊢
    by_cases hd : due ≤ now
    · rw [if_pos hd] at h ⊢
      exact ⟨fate, due, rfl, (Option.some.inj h).symm, tables_settle fate⟩
    · simp [hd] at h

/-- A commit that is answered has come to the end that its fate says. -/
theorem ask_commit (h : (m.ask now p waiting .commit).2 = some a) :
    ∃ fate, m.fate? waiting = some fate ∧ a = fate.answer ∧
      (m.ask now p waiting .commit).1.tables =
        if fate.applies then m.tables.apply m.staged else m.tables := by
  cases waiting with
  | true =>
    obtain ⟨fate, due, hc, ha, ht⟩ := resume_commit (m := m) h
    exact ⟨fate, by simp [fate?, hc], ha, ht⟩
  | false =>
    simp only [ask, start, Bool.false_eq_true, if_false] at h ⊢
    obtain ⟨fate, due, hc, ha, ht⟩ := resume_commit h
    cases hc
    exact ⟨_, rfl, ha, ht⟩

end Store.Memory

namespace Ingest

/-- The attempt has failed with this error, or is about to return it. -/
def Status.Failing (x : Error) : Option Status → Prop
  | some (.settling _ _ ending) => ending = .error x
  | some (.returned r) => r = .error x
  | _ => False

/-- The attempt has inserted its event and knows it. -/
def Status.Learnt : Option Status → Prop
  | some (.settling _ _ ending) => ending = .ok .inserted
  | some (.returned r) => r = .ok .inserted
  | _ => False

/-- The writing of the attempt is over. -/
def Status.Over : Option Status → Prop
  | some (.settling ..) | some (.returned _) | some .cancelled => True
  | _ => False

/-- A commit that may have been done is checked. -/
theorem Writing.answered_ambiguous {w : Writing} {x : Store.Error} (hs : w.step = .commit)
    (hx : x.isAmbiguous = true) (k : Nat) :
    w.answered k (.error x) = .going (w.withStep (.check x)) := by
  have hc : x.isConflict = false := Store.Error.not_isConflict_of_isAmbiguous hx
  simp [answered, failed, retries?, hs, hx, hc]

namespace State

variable {s t u v : State} {a : Action} {i j : Nat} {e : Event} {x : Store.Error} {r : Running}

/-! ### The end of a commit, and of a check -/

theorem Custody.tables_proceed (h : s.Custody) (ht : s.proceed i r = some t) :
    t.tables = (s.memory.ask s.now (.attempt i) r.waiting r.writing.call).1.tables := by
  have hst := store_ask h.store (.attempt i) r.waiting r.writing.call
  generalize hm : (s.memory.ask s.now (.attempt i) r.waiting r.writing.call).1 = m at hst ⊢
  have hend : t.store = .memory m ∨ t.store = .memory (m.leave (.attempt i)) := by
    rcases proceed_cases ht with ⟨b, -, rfl⟩ | ⟨-, -, rfl⟩ | ⟨-, -, -, rfl⟩
    · rw [store_answer, hst]
      split
      · exact .inr rfl
      · exact .inl rfl
    · rw [expire, store_setStatus, store_abandon, hst]
      exact .inr rfl
    · exact .inl hst
  rcases hend with hend | hend
  · rw [tables, memory_of_store hend]
  · rw [tables, memory_of_store hend, Store.Memory.tables_leave]

/-- Attempt `i` is about to check what became of its commit, which failed with `x`, or waits for the
answer. -/
def Checks (s : State) (i : Nat) (x : Store.Error) : Prop :=
  ∃ r, s.status? i = some (.running r) ∧ r.writing.step = .check x

theorem Custody.stands_running (h : s.Custody) (hi : s.status? i = some (.running r)) :
    r.writing.Stands s.memory (.attempt i) r.waiting := by
  have hstands := h.stands i
  rwa [hi] at hstands

/-- The event of an attempt that commits is not stored yet. When the commit is answered, all its
writes are carried out or none, as its fate says. -/
theorem Custody.commit_answer (h : s.Custody) (hi : s.status? i = some (.running r))
    (hstep : r.writing.step = .commit) {b : Store.Answer}
    (hb : (s.ask (.attempt i) r.waiting r.writing.call).2 = some b)
    (ht : s.proceed i r = some t) : s.tables.events.has r.writing.event.eventId = false ∧
      ∃ fate, s.memory.fate? r.waiting = some fate ∧ b = fate.answer ∧ t.tables =
        if fate.applies then s.tables.apply (Store.writesOf r.writing.event) else s.tables := by
  have hw := h.stands_running hi
  have hcall : r.writing.call = .commit := by simp [Writing.call, hstep]
  have hnew : s.tables.events.has r.writing.event.eventId = false := by
    have hfits := hw.fits
    simp only [Writing.Fits, hstep] at hfits
    exact hfits
  have hstaged : s.memory.staged = Store.writesOf r.writing.event := by
    have hat := hw.place
    simp only [Writing.place, hstep] at hat
    split at hat <;> exact hat.2.1
  rw [answer_ask h.store, hcall] at hb
  obtain ⟨fate, hfate, hb, htab⟩ := Store.Memory.ask_commit hb
  rw [h.tables_proceed ht, hcall, htab, hstaged]
  exact ⟨hnew, fate, hfate, hb, rfl⟩

/-- An attempt adds to the tables only at the end of a commit. It has inserted its event then, or
the acknowledgement is lost and it has to check. -/
theorem Custody.commit_step (h : s.Custody) (hi : s.status? i = some (.running r))
    (ht : s.proceed i r = some t) (hne : t.tables ≠ s.tables) : r.writing.step = .commit ∧
      (Status.Learnt (t.status? i) ∨
        s.memory.fate? r.waiting = some (.fault .acknowledgementLost) ∧
          ∃ x, x.isAmbiguous = true ∧ t.Checks i x) := by
  have htab := h.tables_proceed ht
  have hcall : r.writing.call = .commit := Classical.byContradiction fun hc =>
    hne (htab.trans (Store.Memory.tables_ask_of_ne hc))
  have hstep : r.writing.step = .commit := by
    unfold Writing.call at hcall
    split at hcall <;> simp_all
  refine ⟨hstep, ?_⟩
  -- without an answer the tables are as they were
  have hnone : (s.ask (.attempt i) r.waiting r.writing.call).2 ≠ none := by
    intro ha
    rw [answer_ask h.store] at ha
    exact hne (htab.trans ((h.stands_running hi).waits h.sound ha).1.tables)
  rcases proceed_cases ht with ⟨b, hb, hend⟩ | ⟨ha, -⟩ | ⟨ha, -⟩
  · obtain ⟨-, fate, hfate, rfl, happ⟩ := h.commit_answer hi hstep hb ht
    have hself : t.status? i = some (r.next s.settings.maxRetries fate.answer) := by
      rw [hend]
      exact status?_answer_self hi
    rw [hself]
    rcases fate with _ | _ | _ | _
    · have hans : r.writing.answered s.settings.maxRetries (Store.Fate.answer .stored) =
          .settled (.ok .inserted) := by simp [Writing.answered, Store.Fate.answer, hstep]
      refine .inl ?_
      simp only [Running.next, hans]
      rfl
    · exact absurd happ hne
    · obtain ⟨x, hx, hamb⟩ : ∃ x, Store.Fate.answer (.fault .acknowledgementLost) = .error x ∧
          x.isAmbiguous = true := ⟨_, rfl, rfl⟩
      refine .inr ⟨hfate, x, hamb,
        { r with writing := r.writing.withStep (.check x), waiting := false }, ?_, rfl⟩
      rw [hself, hx, Running.next, Writing.answered_ambiguous hstep hamb]
    · exact absurd happ hne
  · exact absurd ha hnone
  · exact absurd ha hnone

/-- While an attempt is at the check, an answer other than an error is the truth. -/
theorem Custody.check_answer (h : s.Custody) (hi : s.status? i = some (.running r))
    (hx : r.writing.step = .check x) {b : Bool}
    (ha : (s.ask (.attempt i) r.waiting r.writing.call).2 = some (.ok b)) :
    b = s.tables.events.has r.writing.event.eventId := by
  have hstands := h.stands i
  rw [hi] at hstands
  have hat := Writing.Stands.place hstands
  have hcall : r.writing.call = .check r.writing.event.eventId := by simp [Writing.call, hx]
  have hpl : r.writing.place r.waiting = if r.waiting then .waits else .away := by
    simp [Writing.place, hx]
  rw [hpl] at hat
  rw [answer_ask h.store, hcall] at ha
  rcases h.sound.ask_check hat s.now r.writing.event.eventId with ⟨y, hg⟩ | hg | hg
  · cases hg.answer.symm.trans ha
  · cases hg.answer.symm.trans ha
    rfl
  · cases hg.answer.symm.trans ha

/-! ### Additions -/

/-- The store is in order, and clients have staged nothing. -/
structure Unspoilt (s : State) : Prop where
  custody : s.Custody
  clean : ∀ k, s.memory.Clean (.client k)
  own : s.Own

/-- The events that a step of ingestion from `s` to `t` adds to the tables, with their attempts. -/
def added (s t : State) : Action → List (Nat × Event)
  | .advance i =>
    match s.status? i with
    | some (.running r) => if t.tables = s.tables then [] else [(i, r.writing.event)]
    | _ => []
  | _ => []

/-- The events that a run adds to the tables, in their order, with their attempts. -/
def additions (s : State) : List Action → List (Nat × Event)
  | [] => []
  | a :: as =>
    match s.step a with
    | some t => s.added t a ++ t.additions as
    | none => []

theorem added_of_applied (hi : s.status? i = some (.running r))
    (hnew : s.tables.events.has r.writing.event.eventId = false)
    (ht : t.tables = s.tables.apply (Store.writesOf r.writing.event)) :
    s.added t (.advance i) = [(i, r.writing.event)] := by
  have hne : t.tables ≠ s.tables := by
    intro he
    have hhas := Store.Tables.has_writesOf s.tables r.writing.event r.writing.event.eventId
    rw [← ht, he, hnew] at hhas
    simp at hhas
  simp [added, hi, hne]

theorem additions_append {as bs : List Action} (hr : s.run as = some t) :
    s.additions (as ++ bs) = s.additions as ++ t.additions bs := by
  induction as generalizing s with
  | nil =>
    cases hr
    rfl
  | cons a as ih =>
    rw [run] at hr
    obtain ⟨u, hu, hr⟩ := Option.bind_eq_some_iff.1 hr
    simp only [List.cons_append, additions, hu]
    rw [ih hr, List.append_assoc]

theorem additions_concat {as : List Action} (hr : s.run as = some t) (hs : t.step a = some u) :
    s.additions (as ++ [a]) = s.additions as ++ t.added u a := by
  rw [additions_append hr]
  simp [additions, hs]

namespace Unspoilt

theorem of_begins {tables : Store.Tables} (h : s.Begins tables) : s.Unspoilt :=
  ⟨.of_begins h, fun _ => h.clean _, h.own⟩

theorem step (h : s.Unspoilt) (hp : s.ReadOnly a) (hs : s.step a = some t) : t.Unspoilt :=
  ⟨h.custody.step hp.1 hs, fun k => h.custody.clean_step hp.1 hp.2 hs (h.clean k), h.own.step hs⟩

/-- A step adds nothing, or it is the end of a commit and adds the event of its attempt, which is
new. -/
theorem added_cases (h : s.Unspoilt) (hp : s.ReadOnly a) (hs : s.step a = some t) :
    (t.tables = s.tables ∧ s.added t a = []) ∨
      ∃ i r, a = .advance i ∧ s.status? i = some (.running r) ∧
        s.tables.events.has r.writing.event.eventId = false ∧
        s.added t a = [(i, r.writing.event)] ∧
        t.tables = s.tables.apply (Store.writesOf r.writing.event) := by
  obtain ⟨ws, ht, hw⟩ := h.custody.tables_step hp.1 hs
  cases hw with
  | nothing =>
    have hsame : t.tables = s.tables := ht
    refine .inl ⟨hsame, ?_⟩
    unfold added
    split
    · split
      · rw [if_pos hsame]
      · rfl
    · rfl
  | @attempt i r hr hnew hl => exact .inr ⟨i, r, rfl, hr, hnew, added_of_applied hr hnew ht, ht⟩
  | @client k waiting hk =>
    have hsame : t.tables = s.tables := by
      rw [ht, h.clean k hk]
      rfl
    exact .inl ⟨hsame, rfl⟩

/-- A step adds whole events: one, or none. -/
theorem tables_added (h : s.Unspoilt) (hp : s.ReadOnly a) (hs : s.step a = some t) :
    t.tables = s.tables.apply ((s.added t a).flatMap fun x => Store.writesOf x.2) := by
  rcases h.added_cases hp hs with ⟨ht, ha⟩ | ⟨i, r, -, -, -, ha, ht⟩ <;> rw [ha, ht]
  · rfl
  · rw [List.flatMap_singleton]

theorem tables_additions (h : s.Unspoilt) {as : List Action} (hr : s.run as = some t)
    (hp : s.Along ReadOnly as) :
    t.tables = s.tables.apply ((s.additions as).flatMap fun x => Store.writesOf x.2) := by
  induction as generalizing s with
  | nil =>
    cases hr
    rfl
  | cons a as ih =>
    rw [run] at hr
    obtain ⟨u, hu, hr⟩ := Option.bind_eq_some_iff.1 hr
    rw [additions, hu]
    simp only [List.flatMap_append, Store.Tables.apply_append]
    rw [← h.tables_added hp.1 hu]
    exact ih (h.step hp.1 hu) hr (hp.2 u hu)

/-- The events of the additions are new, and are added one after the other. -/
theorem adds_additions (h : s.Unspoilt) {as : List Action} (hr : s.run as = some t)
    (hp : s.Along ReadOnly as) : s.tables.AddsAll ((s.additions as).map (·.2)) t.tables := by
  refine (run_induction (I := fun as t => t.Unspoilt ∧
    s.tables.AddsAll ((s.additions as).map (·.2)) t.tables) ⟨h, .nil⟩ ?_ hr hp).2
  rintro as t a u hr ⟨hun, hall⟩ hp hs
  refine ⟨hun.step hp hs, ?_⟩
  rw [additions_concat hr hs, List.map_append]
  rcases hun.added_cases hp hs with ⟨ht, ha⟩ | ⟨i, r, -, -, hnew, ha, ht⟩ <;> rw [ha, ht]
  · simpa using hall
  · exact hall.concat (by simpa [Keyed.has] using hnew) (Store.Tables.adds_writesOf ..)

end Unspoilt

/-- What an addition of a step says of it. -/
theorem mem_added {y : Nat × Event} (h : y ∈ s.added t a) : a = .advance y.1 ∧
    t.tables ≠ s.tables ∧ ∃ r, s.status? y.1 = some (.running r) ∧ r.writing.event = y.2 := by
  unfold added at h
  split at h
  · split at h
    · next hr =>
      split at h
      · cases h
      · next hne =>
        rw [List.mem_singleton.1 h]
        exact ⟨rfl, hne, _, hr, rfl⟩
    · cases h
  · cases h

/-! ### An attempt after its addition -/

/-- The step to `v` carries out the commit of attempt `i` at `e`, but nobody acknowledges it: the
attempt hears of the error `x`, and checks. -/
structure Loses (u : State) (i : Nat) (e : Event) (x : Store.Error) (v : State) : Prop where
  step : u.step (.advance i) = some v
  commits : ∃ r, u.status? i = some (.running r) ∧ r.writing.event = e ∧ r.writing.step = .commit ∧
    u.memory.fate? r.waiting = some (.fault .acknowledgementLost)
  adds : u.tables.Adds e v.tables
  ambiguous : x.isAmbiguous = true
  checks : v.Checks i x

/-- On the run `as` to `t`, attempt `i` has lost the acknowledgement of its commit, and checks. -/
def Unsure (s : State) (as : List Action) (t : State) (i : Nat) (e : Event) (x : Store.Error) :
    Prop :=
  ∃ bs cs u v, as = bs ++ .advance i :: cs ∧ s.run bs = some u ∧ u.Loses i e x v ∧
    v.run cs = some t ∧ t.Checks i x

/-- On the run `as` to `t`, attempt `i` lost the acknowledgement of its commit and did not find out
what became of it: the check failed, and the attempt fails with the error of the commit, or it was
cut off at the check. -/
def Unlearnt (s : State) (as : List Action) (t : State) (i : Nat) (e : Event) : Prop :=
  ∃ bs b ds w z x, as = bs ++ b :: ds ∧ s.run bs = some w ∧ s.Unsure bs w i e x ∧
    w.step b = some z ∧ z.run ds = some t ∧
    ((∃ y, w.heard i b = some (.check e.eventId, .error y)) ∧
        Status.Failing (.storage x) (t.status? i) ∨
      w.Cuts i z ∧ (t.status? i = some .cancelled ∨
        ∃ d, Status.Failing (.timeout d) (t.status? i)))

variable {as : List Action}

theorem failing_step {y : Error} (h : Status.Failing y (s.status? i)) (hs : s.step a = some t) :
    Status.Failing y (t.status? i) := by
  cases step_turns hs i with
  | same hst => rwa [hst]
  | submit hi | reserve hi | proceed hi | cancel hi =>
    rw [hi] at h
    exact h.elim
  | @settle event reserved ending hi ht =>
    subst ht
    rw [hi] at h
    rw [status?_settle_self hi, show ending = .error y from h]
    rfl

theorem learnt_step (h : Status.Learnt (s.status? i)) (hs : s.step a = some t) :
    Status.Learnt (t.status? i) := by
  cases step_turns hs i with
  | same hst => rwa [hst]
  | submit hi | reserve hi | proceed hi | cancel hi =>
    rw [hi] at h
    exact h.elim
  | @settle event reserved ending hi ht =>
    subst ht
    rw [hi] at h
    rw [status?_settle_self hi, show ending = .ok .inserted from h]
    rfl

theorem over_step (h : Status.Over (s.status? i)) (hs : s.step a = some t) :
    Status.Over (t.status? i) := by
  cases step_turns hs i with
  | same hst => rwa [hst]
  | submit hi | reserve hi | proceed hi | cancel hi =>
    rw [hi] at h
    exact h.elim
  | settle hi ht =>
    subst ht
    rw [status?_settle_self hi]
    trivial

theorem cancelled_stays (h : s.status? i = some .cancelled) (hs : s.step a = some t) :
    t.status? i = some .cancelled := by
  cases step_turns hs i with
  | same hst => exact hst.trans h
  | submit hi | reserve hi | proceed hi | settle hi | cancel hi => cases h.symm.trans hi

theorem Unsure.concat (h : s.Unsure as t i e x) (hs : t.step a = some u) (hu : u.Checks i x) :
    s.Unsure (as ++ [a]) u i e x := by
  obtain ⟨bs, cs, v, w, rfl, hv, hl, hw, -⟩ := h
  exact ⟨bs, cs ++ [a], v, w, by simp, hv, hl, run_concat hw hs, hu⟩

theorem Unlearnt.concat (h : s.Unlearnt as t i e) (hs : t.step a = some u) :
    s.Unlearnt (as ++ [a]) u i e := by
  obtain ⟨bs, b, ds, w, z, x, rfl, hw, hun, hz, hds, hend⟩ := h
  refine ⟨bs, b, ds ++ [a], w, z, x, by simp, hw, hun, hz, run_concat hds hs, ?_⟩
  rcases hend with ⟨hy, hf⟩ | ⟨hc, hcan | ⟨d, hf⟩⟩
  · exact .inl ⟨hy, failing_step hf hs⟩
  · exact .inr ⟨hc, .inl (cancelled_stays hcan hs)⟩
  · exact .inr ⟨hc, .inr ⟨d, failing_step hf hs⟩⟩

/-- Where an attempt is after its addition of `e`. -/
structure Traced (s : State) (as : List Action) (t : State) (i : Nat) (e : Event) : Prop where
  event : t.event? i = some e
  stored : t.tables.events.has e.eventId = true
  place : (∃ x, s.Unsure as t i e x) ∨ Status.Learnt (t.status? i) ∨ s.Unlearnt as t i e

theorem Unsure.checks (h : s.Unsure as t i e x) : t.Checks i x :=
  let ⟨_, _, _, _, _, _, _, _, hc⟩ := h
  hc

/-- An attempt at the check stays there, finds out, or does not find out. -/
theorem Traced.unsure_step (h : s.Traced as t i e) (hun : t.Unspoilt) (hr : s.run as = some t)
    (hx : s.Unsure as t i e x) (hs : t.step a = some u) :
    s.Unsure (as ++ [a]) u i e x ∨ Status.Learnt (u.status? i) ∨ s.Unlearnt (as ++ [a]) u i e := by
  obtain ⟨r, hi, hstep⟩ := hx.checks
  have hev : r.writing.event = e := Option.some.inj ((hun.own i _ _ hi rfl).symm.trans h.event)
  cases step_turns hs i with
  | same hst => exact .inl (hx.concat hs ⟨r, hst.trans hi, hstep⟩)
  | @proceed r' hi' ht =>
    cases hi.symm.trans hi'
    rcases proceed_cases ht with ⟨b, hb, rfl⟩ | ⟨-, -, rfl⟩ | ⟨-, -, -, rfl⟩
    · have hu : ((t.ask (.attempt i) r.waiting r.writing.call).1.answer i r b).status? i = _ :=
        status?_answer_self hi
      cases b with
      | ok c =>
        have hc : c = true := by
          rw [hun.custody.check_answer hi hstep hb, hev]
          exact h.stored
        have hans : r.writing.answered t.settings.maxRetries (.ok true) =
            .settled (.ok .inserted) := by simp [Writing.answered, hstep]
        refine .inr (.inl ?_)
        rw [hu, hc, Running.next, hans]
        rfl
      | error y =>
        refine .inr (.inr ⟨as, _, [], t, _, x, rfl, hr, hx, hs, rfl, .inl ⟨⟨y, ?_⟩, ?_⟩⟩)
        · have hcall : r.writing.call = .check e.eventId := by simp [Writing.call, hstep, hev]
          have hheard : t.heard i (.advance i) = some (r.writing.call, .error y) := by
            simp [heard, hi, hb]
          rw [hheard, hcall]
        · have hans : r.writing.answered t.settings.maxRetries (.error y) =
              .settled (.error x) := by
            simp [Writing.answered, hstep]
          rw [hu, Running.next, hans]
          rfl
    · have hu : ((t.ask (.attempt i) r.waiting r.writing.call).1.expire i r).status? i = _ :=
        status?_expire_self hi
      refine .inr (.inr ⟨as, _, [], t, _, x, rfl, hr, hx, hs, rfl,
        .inr ⟨⟨r, hi, .inr hu⟩, .inr ⟨t.settings.timeout, ?_⟩⟩⟩)
      rw [hu]
      rfl
    · exact .inl (hx.concat hs ⟨_, status?_ask_self hi, hstep⟩)
  | @cancel r' inside hi' ht =>
    subst ht
    have hu : (t.cutOff i r' inside).status? i = some .cancelled := status?_cutOff_self hi'
    exact .inr (.inr ⟨as, _, [], t, _, x, rfl, hr, hx, hs, rfl, .inr ⟨⟨r', hi', .inl hu⟩, .inl hu⟩⟩)
  | submit hi' | reserve hi' | settle hi' => cases hi.symm.trans hi'

theorem Traced.concat (h : s.Traced as t i e) (hun : t.Unspoilt) (hr : s.run as = some t)
    (hp : t.ReadOnly a) (hs : t.step a = some u) : s.Traced (as ++ [a]) u i e where
  event := event?_step hs h.event
  stored := hun.custody.stored_step hp.1 hs h.stored
  place := by
    rcases h.place with ⟨x, hx⟩ | hl | hun'
    · rcases h.unsure_step hun hr hx hs with hx | hl | hun'
      · exact .inl ⟨x, hx⟩
      · exact .inr (.inl hl)
      · exact .inr (.inr hun')
    · exact .inr (.inl (learnt_step hl hs))
    · exact .inr (.inr (hun'.concat hs))

/-- An attempt that makes its addition now. -/
theorem traced_added (hun : t.Unspoilt) (hr : s.run as = some t) (hp : t.ReadOnly a)
    (hs : t.step a = some u) (hy : (i, e) ∈ t.added u a) : s.Traced (as ++ [a]) u i e := by
  obtain ⟨rfl, hne, r, hi, rfl⟩ := mem_added hy
  have htab := hun.tables_added hp hs
  have hadded : t.added u (.advance i) = [(i, r.writing.event)] := by
    simp [added, hi, hne]
  rw [hadded, List.flatMap_singleton] at htab
  have ht : t.proceed i r = some u := (step_proceed hi).symm.trans hs
  refine ⟨event?_step hs (hun.own i _ _ hi rfl), ?_, ?_⟩
  · rw [htab, Store.Tables.has_writesOf]
    simp
  · obtain ⟨hstep, hl | ⟨hfate, x, hamb, hx⟩⟩ := hun.custody.commit_step hi ht hne
    · exact .inr (.inl hl)
    · have hloses : t.Loses i r.writing.event x u :=
        ⟨hs, ⟨r, hi, rfl, hstep, hfate⟩, htab ▸ Store.Tables.adds_writesOf .., hamb, hx⟩
      exact .inl ⟨x, as, [], t, u, rfl, hr, hloses, rfl, hx⟩

/-- Every attempt that has made an addition is where `Traced` says. -/
theorem Unspoilt.traced (h : s.Unspoilt) (hr : s.run as = some t) (hp : s.Along ReadOnly as) :
    t.Unspoilt ∧ ∀ i e, (i, e) ∈ s.additions as → s.Traced as t i e := by
  refine run_induction (I := fun as t => t.Unspoilt ∧
    ∀ i e, (i, e) ∈ s.additions as → s.Traced as t i e) ⟨h, by simp [additions]⟩ ?_ hr hp
  rintro as t a u hr ⟨hun, hall⟩ hp hs
  refine ⟨hun.step hp hs, fun i e hmem => ?_⟩
  rw [additions_concat hr hs] at hmem
  rcases List.mem_append.1 hmem with hmem | hmem
  · exact (hall i e hmem).concat hun hr hp hs
  · exact traced_added hun hr hp hs hmem

/-! ### Attempts that make no addition -/

/-- An attempt whose writing is over adds nothing any more. -/
theorem not_added_of_over {as : List Action} (h : Status.Over (s.status? i)) :
    ∀ e, (i, e) ∉ s.additions as := by
  induction as generalizing s with
  | nil => simp [additions]
  | cons a as ih =>
    intro e hmem
    rw [additions] at hmem
    split at hmem
    · next t hs =>
      rcases List.mem_append.1 hmem with hmem | hmem
      · obtain ⟨-, -, r, hi, -⟩ := mem_added hmem
        rw [hi] at h
        exact h
      · exact ih (over_step h hs) e hmem
    · cases hmem

/-- An attempt that is cut off at another call than the check has made no addition, and makes
none. -/
theorem Unspoilt.not_added_of_cut (h : s.Unspoilt) {bs cs : List Action} (hp : s.Along ReadOnly bs)
    (hr : s.run bs = some u) (hs : u.step a = some v) (hc : u.Cuts i v)
    (hno : ∀ x, ¬u.Checks i x) : (i, e) ∉ s.additions (bs ++ a :: cs) := by
  obtain ⟨r, hi, hcut⟩ := hc
  obtain ⟨hun, hall⟩ := h.traced hr hp
  have hover : Status.Over (v.status? i) := by
    rcases hcut with hcut | hcut <;> rw [hcut] <;> trivial
  intro hmem
  rw [additions_append hr, additions, hs] at hmem
  rcases List.mem_append.1 hmem with hmem | hmem
  · -- before the cut: a writing that goes on after its addition is at the check
    rcases (hall i e hmem).place with ⟨x, hx⟩ | hl | ⟨_, _, _, _, _, _, _, _, _, _, _, hend⟩
    · exact hno x hx.checks
    · rw [hi] at hl
      exact hl
    · rw [hi] at hend
      rcases hend with ⟨-, hf⟩ | ⟨-, hcan | ⟨d, hf⟩⟩
      · exact hf
      · cases hcan
      · exact hf
  · rcases List.mem_append.1 hmem with hmem | hmem
    · -- by the cut: a commit that adds the event is answered, so it is not cut off
      obtain ⟨ha, hne, r', hi', -⟩ := mem_added hmem
      cases hi.symm.trans hi'
      subst ha
      have ht : u.proceed i r = some v := (step_proceed hi).symm.trans hs
      obtain ⟨-, hl | ⟨-, x, -, hx⟩⟩ := hun.custody.commit_step hi ht hne
      · rcases hcut with hcut | hcut <;> rw [hcut] at hl <;> cases hl
      · obtain ⟨r', hr', -⟩ := hx
        rcases hcut with hcut | hcut <;> cases hcut.symm.trans hr'
    · exact not_added_of_over hover e hmem

/-- While only ingestion writes, the tables are at every moment those of the start with all the
writes of some events. The events are new and were added one after the other: each of them is stored,
and it is counted by the counters of its video and by the video's day, or by no row if it is about no
video. Each was added by the attempt that was started for it. An attempt that is cancelled or returns
anything but that it inserted its event has added nothing, unless the acknowledgement of its commit
was lost and it did not find out. So an attempt that fails otherwise than by its deadline or the
error of a commit has added nothing, nor has one that takes its event for a duplicate; and nor has
one that was cut off at any call but the check. -/
theorem failed_ingest_leaves_no_trace {tables : Store.Tables} (hb : s.Begins tables)
    (hr : s.run as = some t) (hp : s.Along ReadOnly as) :
    t.tables = tables.apply ((s.additions as).flatMap fun x => Store.writesOf x.2) ∧
    tables.AddsAll ((s.additions as).map (·.2)) t.tables ∧
    (∀ i e, (i, e) ∈ s.additions as →
      t.event? i = some e ∧ t.tables.events.get? e.eventId = some e) ∧
    (∀ i e, (i, e) ∈ s.additions as →
      (t.status? i = some .cancelled ∨ ∃ r, t.result? i = some r ∧ r ≠ .ok .inserted) →
        s.Unlearnt as t i e) ∧
    (∀ i r, t.result? i = some r → r ≠ .ok .inserted → (∀ d, r ≠ .error (.timeout d)) →
      (∀ c, r ≠ .error (.storage (.commit c))) → ∀ e, (i, e) ∉ s.additions as) ∧
    ∀ i bs a cs u v, as = bs ++ a :: cs → s.run bs = some u → u.step a = some v → u.Cuts i v →
      (∀ x, ¬u.Checks i x) → ∀ e, (i, e) ∉ s.additions as := by
  have hun := Unspoilt.of_begins hb
  have htraced := (hun.traced hr hp).2
  have htab := hun.tables_additions hr hp
  have hadds := hun.adds_additions hr hp
  rw [hb.tables_eq] at htab hadds
  have hunlearnt : ∀ i e, (i, e) ∈ s.additions as →
      (t.status? i = some .cancelled ∨ ∃ r, t.result? i = some r ∧ r ≠ .ok .inserted) →
        s.Unlearnt as t i e := by
    intro i e hmem hend
    rcases (htraced i e hmem).place with ⟨x, hx⟩ | hl | hun'
    · obtain ⟨r, hi, -⟩ := hx.checks
      rcases hend with hcan | ⟨r', hr', -⟩
      · cases hi.symm.trans hcan
      · cases hi.symm.trans (result?_eq_some.1 hr')
    · rcases hend with hcan | ⟨r', hr', hne⟩
      · rw [hcan] at hl
        exact hl.elim
      · rw [result?_eq_some.1 hr'] at hl
        exact absurd hl hne
    · exact hun'
  refine ⟨htab, hadds, fun i e hmem => ⟨(htraced i e hmem).event, ?_⟩, hunlearnt,
    fun i r hres hne htime hcommit e hmem => ?_, ?_⟩
  · exact hadds.get?_of_mem (List.mem_map_of_mem (f := fun x : Nat × Event => x.2) hmem)
  · obtain ⟨bs, b, ds, w, z, x, -, -, hx, -, -, hend⟩ := hunlearnt i e hmem (.inr ⟨r, hres, hne⟩)
    obtain ⟨_, _, _, _, -, -, hloses, -⟩ := hx
    rw [result?_eq_some.1 hres] at hend
    rcases hend with ⟨-, hf⟩ | ⟨-, hcan | ⟨d, hf⟩⟩
    · cases x with
      | commit c => exact hcommit c hf
      | connection | query | conflict => cases hloses.ambiguous
    · cases hcan
    · exact htime d hf
  · rintro i bs a cs u v rfl hu hs hc hno e
    have hprefix : s.Along ReadOnly bs := hp.of_append
    exact hun.not_added_of_cut hprefix hu hs hc hno

/-- The event is stored, but neither the commit nor the check says so. -/
def storedUnnoticed : List Action :=
  [.faults { nextCommit := some .acknowledgementLost, failCheck := true }, .submit aView] ++
    List.replicate 8 (.advance 0)

theorem trace_of_unnoticed_commit : ∃ t e x, initial.Begins .empty ∧
    initial.run storedUnnoticed = some t ∧ initial.Along ReadOnly storedUnnoticed ∧
    t.result? 0 = some (.error (.storage (.commit x))) ∧
    initial.additions storedUnnoticed = [(0, e)] ∧ initial.Unlearnt storedUnnoticed t 0 e ∧
    Store.Tables.empty.AddsAll [e] t.tables ∧ t.tables.events.get? e.eventId = some e ∧
    t.tables.counters.values.map (fun c => (c.views, c.completes, c.likes)) = [(1, 0, 0)] ∧
    t.tables.daily.values.map (fun d => (d.views, d.completes, d.likes, d.clicks, d.impressions,
      d.dwellMs)) = [(1, 0, 0, 0, 0, 0)] := by
  obtain ⟨t, ht⟩ := Option.isSome_iff_exists.1
    (show (initial.run storedUnnoticed).isSome = true by decide +kernel)
  have hp : initial.Along ReadOnly storedUnnoticed :=
    .of_forall (by simp [storedUnnoticed, ReadOnly, Orderly])
  have hend : (initial.run storedUnnoticed).map (fun t => (t.result? 0,
      t.tables.counters.values.map (fun c => (c.views, c.completes, c.likes)),
      t.tables.daily.values.map (fun d => (d.views, d.completes, d.likes, d.clicks, d.impressions,
        d.dwellMs)))) = some (some (.error (.storage (.commit
          (.transport "connection reset while awaiting commit")))), [(1, 0, 0)],
          [(1, 0, 0, 0, 0, 0)]) := by rfl
  have hadds : (initial.additions storedUnnoticed).map (·.1) = [0] := by decide +kernel
  rw [ht] at hend
  simp only [Option.map_some, Option.some.injEq, Prod.mk.injEq] at hend
  obtain ⟨hret, hcounters, hdaily⟩ := hend
  obtain ⟨⟨j, e⟩, hadd, hj⟩ := List.map_eq_singleton_iff.1 hadds
  cases hj
  have hmem : (0, e) ∈ initial.additions storedUnnoticed := by simp [hadd]
  obtain ⟨-, hall, hstored, hunlearnt, -⟩ := failed_ingest_leaves_no_trace begins_initial ht hp
  rw [hadd] at hall
  exact ⟨t, e, _, begins_initial, ht, hp, hret, hadd,
    hunlearnt 0 e hmem (.inr ⟨_, hret, by simp⟩), hall, (hstored 0 e hmem).2, hcounters, hdaily⟩

end State

end Ingest

end Intake
