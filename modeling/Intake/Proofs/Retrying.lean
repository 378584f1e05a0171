import Intake.Proofs.Atomicity
import Intake.Proofs.Lone
import Intake.Proofs.Survival
import Intake.Schedule

/-!
# Retries come to one ingestion

A client that sends an event until it hears that it was ingested gets it ingested once, whatever
faults the store had meanwhile. Failures leave no reservation behind, so that the next ingest is let
in; the first success leaves a reservation that is `done`, and all that come later find it. An event
that was stored while its ingest failed is found in the tables by the next one (`Ready`).

The client does come to a success: an ingest that meets only faults which it survives (`Survives`)
succeeds, unless its deadline comes first. It does not come first if the delays of the commits
fit in (`InTime`) and no time is lost otherwise (`Prompt`); then the ingest also comes to its end,
because each of its steps brings it nearer (`OnWay.closer`).
-/

namespace Intake.Ingest.State

open Reservation (doneValue)
open Store (Tables Faults Memory)

variable {P : Plan} {base : Tables} {s t u : State} {a : Action} {i n : Nat} {id : Uuid} {e : Event}
  {known : Prop} {raw : RawEvent} {f : Faults}

/-! ### Faults that an ingest survives -/

/-- Nothing is left to do for the event, or the store does what it is asked to, but that it may
abort as many transactions as are run again and may lose an acknowledgement that a check makes up
for. -/
def Survives (s : State) (e : Event) (f : Faults) : Prop :=
  s.Concluded e ∨ f.failBegin = false ∧ (s.tables.events.has e.eventId = true ∨
    f.conflicts ≤ s.settings.maxRetries ∧
      (f.nextCommit = none ∨ f.nextCommit = some .acknowledgementLost ∧ f.failCheck = false))

/-- The commits that an ingest makes end before its deadline. -/
def InTime (s : State) (e : Event) (f : Faults) : Prop :=
  s.tables.events.has e.eventId = true ∨
    (f.conflicts + 1) * f.commitDelay.getD 0 ≤ s.settings.timeout.ticks

/-- Time passes only while attempt `i` waits, and not past the time at which it can go on. -/
def Prompt (i : Nat) (id : Uuid) (s : State) (a : Action) : Prop :=
  s.Alone id a ∧
    ∀ ms, a = .elapse ms → s.advance i = none ∧ ∀ time ∈ s.timers i, s.now + ms ≤ time

/-- Attempt `i` will succeed: it is on its way, or will find its reservation `done`. -/
structure OnWay (P : Plan) (i n : Nat) (s : State) : Prop where
  party : P.party = .attempt i
  settings : P.settings = s.settings
  place : ∃ m st, s.store = .memory m ∧ s.status? i = some st ∧ Plan.weight m st = n ∧
    (P.OnTrack s.now m st ∨ st = .reserving P.event ∧ s.value? P.event.eventId = some doneValue)

/-- The deadline of attempt `i` came first. -/
structure Late (P : Plan) (i : Nat) (s : State) : Prop where
  failing : Status.Failing (.timeout P.settings.timeout) (s.status? i)
  late : P.limit ≤ s.now
  untimely : ¬P.timely

/-- What the next step of an attempt on its way is. -/
inductive Heads (P : Plan) (i n : Nat) (s : State) : Option State → Prop
  | there {o : Outcome} (h : s.status? i = some (.returned (.ok o))) : s.Heads P i n none
  | goes {t : State} {n' : Nat} (h : t.OnWay P i n') (hlt : n' < n) : s.Heads P i n (some t)
  | late {t : State} (h : t.Late P i) : s.Heads P i n (some t)
  | waits {r : Running} {due : Nat} (hi : s.status? i = some (.running r)) (hw : r.waiting = true)
    (hdue : s.store.due? (.attempt i) = some due) (hlt : s.now < due)
    (ht : P.timely → due ≤ r.deadline) : s.Heads P i n none

namespace OnWay

variable (h : s.OnWay P i n)
include h

/-- The next step of an attempt that writes is a turn over the store in memory. -/
theorem heads_running {m : Memory} {r : Running} (hst : s.store = .memory m)
    (hi : s.status? i = some (.running r)) (hw : Plan.weight m (.running r) = n)
    (hon : P.OnTrack s.now m (.running r)) : s.Heads P i n (s.proceed i r) := by
  obtain ⟨hparty, hset, -⟩ := h
  have hturned := hon.turned
  have hturn := proceed_turn hst hi
  rw [hparty, hset] at hturned
  cases hr : r.turn s.settings s.now (.attempt i) m with
  | none =>
    rw [hr, Option.map_none, Option.map_eq_none_iff] at hturn
    rw [hturn]
    rw [hr] at hturned
    cases hturned with
    | @waits due hdue hlt ht hwait =>
      refine .waits hi hwait ?_ hlt ht
      rw [hparty] at hdue
      rw [hst]
      exact hdue
  | some x =>
    rw [hr, Option.map_some, Option.map_eq_some_iff] at hturn
    obtain ⟨t, ht, hview⟩ := hturn
    simp only [Prod.mk.injEq] at hview
    obtain ⟨hstore, hstatus, hnow⟩ := hview
    have hsettings : P.settings = t.settings := hset.trans (settings_proceed ht).symm
    rw [ht]
    rw [hr] at hturned
    cases hturned with
    | goes hon' hlt =>
      refine .goes ⟨hparty, hsettings, _, _, hstore, hstatus, rfl, .inl ?_⟩ (hw ▸ hlt)
      rw [hnow]
      exact hon'
    | late hl htime =>
      refine .late ⟨?_, hnow ▸ hl, htime⟩
      rw [hstatus]
      rfl

/-- An attempt that finds its reservation `done` is there at once, and any other begins to write. -/
theorem heads_reserving {m : Memory} (hf : s.KeysFree) (hst : s.store = .memory m)
    (hi : s.status? i = some (.reserving P.event))
    (hw : Plan.weight m (.reserving P.event) = n)
    (hv : s.value? P.event.eventId = some doneValue ∨
      s.value? P.event.eventId = none ∧ P.OnTrack s.now m (.reserving P.event)) :
    s.Heads P i n (some (s.reserve i P.event)) := by
  obtain ⟨hparty, hset, -⟩ := h
  rcases hv with hdone | ⟨hnone, hon⟩
  · refine .goes ⟨hparty, hset, m, _, hst, status?_reserve_of_some hf hi hdone, rfl,
      .inl .returned⟩ ?_
    rw [← hw]
    simp [Plan.weight, Plan.distance]
  · cases hon with
    | @reserving T f h =>
      have hbegun := status?_reserve_of_none hf hi hnone
      rw [← hset] at hbegun
      refine .goes ⟨hparty, hset, _, .running (P.run .begin 0 _ false), hst, hbegun, rfl,
        .inl (.begin h)⟩ ?_
      rw [← hw]
      simp [Plan.distance, Plan.run]

theorem heads (hsolo : s.Solo known base P.event i) : s.Heads P i n (s.advance i) := by
  have hway := h
  obtain ⟨hparty, hset, m, st, hst, hi, hw, hplace⟩ := h
  have hpl := hsolo.placed
  rw [hi] at hpl
  rcases st with event | r | ⟨event, reserved, ending⟩ | r | _
  · have hadv : s.advance i = some (s.reserve i event) := step_reserve hi
    obtain ⟨rfl, hkey⟩ := hpl
    rw [hadv]
    refine hway.heads_reserving hsolo.keysFree hst hi hw ?_
    rcases hkey with ⟨-, hnone⟩ | hc
    · rcases hplace with hon | ⟨-, hdone⟩
      · exact .inr ⟨hnone, hon⟩
      · cases hnone.symm.trans hdone
    · exact .inl hc.value
  · have hadv : s.advance i = s.proceed i r := step_proceed hi
    rw [hadv]
    rcases hplace with hon | ⟨hno, -⟩
    · exact hway.heads_running hst hi hw hon
    · cases hno
  · have hadv : s.advance i = some (s.settle i event reserved ending) :=
      step_settle hi
    rw [hadv]
    rcases hplace with hon | ⟨hno, -⟩
    · cases hon with
      | @settling _ w =>
        refine .goes ⟨hparty, hset.trans (settings_settle ..).symm, m, _,
          (store_settle ..).trans hst, status?_settle_self hi, rfl, .inl .returned⟩ ?_
        rw [← hw]
        simp [Plan.weight, Plan.distance]
    · cases hno
  · have hadv : s.advance i = none := by simp [advance, hi]
    rw [hadv]
    rcases hplace with hon | ⟨hno, -⟩
    · cases hon with
      | returned => exact .there hi
    · cases hno
  · exact hpl.elim

/-- Time does not lead an attempt off its way. If its deadline is to be met, time passes only while
it waits. -/
theorem elapse (hsolo : s.Solo known base P.event i) {ms : Nat}
    (hp : P.timely → s.advance i = none ∧ ∀ time ∈ s.timers i, s.now + ms ≤ time) :
    (s.elapse ms).OnWay P i n := by
  have hheads := h.heads hsolo
  obtain ⟨hparty, hset, m, st, hst, hi, hw, hplace⟩ := h
  refine ⟨hparty, hset, m, st, hst, hi, hw, ?_⟩
  rcases hplace with hon | hknown
  · refine .inl (hon.elapse fun htime => ?_)
    -- there is no step, so the attempt has returned or waits for its commit
    obtain ⟨hnone, htimers⟩ := hp htime
    rw [hnone] at hheads
    cases hheads with
    | there hret =>
      cases hi.symm.trans hret
      exact ⟨by simp, by simp⟩
    | @waits r due hrun hwait hdue hlt ht =>
      cases hi.symm.trans hrun
      refine ⟨by simp, ?_⟩
      rintro r' ⟨⟩
      refine ⟨hwait, fun due' hdue' => htimers due' ?_⟩
      rw [hparty] at hdue'
      have hsame : s.store.due? (.attempt i) = some due' := by
        rw [hst]
        exact hdue'
      simp [timers, hi, hwait, hsame]
  · exact .inr hknown

theorem age {nanos : Nat} (hp : s.Alone P.event.eventId (.age nanos)) :
    OnWay P i n { s with keys := s.keys.age nanos } := by
  obtain ⟨hparty, hset, m, st, hst, hi, hw, hplace⟩ := h
  refine ⟨hparty, hset, m, st, hst, hi, hw, ?_⟩
  rcases hplace with hon | ⟨hres, hdone⟩
  · exact .inl hon
  · exact .inr ⟨hres, hp hdone⟩

/-- Every step leaves the attempt on its way, or its deadline has come. -/
theorem step (hsolo : s.Solo known base P.event i) (hp : s.Alone P.event.eventId a)
    (htime : P.timely → ∀ ms, a = .elapse ms →
      s.advance i = none ∧ ∀ time ∈ s.timers i, s.now + ms ≤ time) (hs : s.step a = some t) :
    (∃ n', t.OnWay P i n') ∨ t.Late P i := by
  have hadvanced : s.advance i = some t → (∃ n', t.OnWay P i n') ∨ t.Late P i := by
    intro hadv
    have hheads := h.heads hsolo
    rw [hadv] at hheads
    cases hheads with
    | goes hway _ => exact .inl ⟨_, hway⟩
    | late hl => exact .inr hl
  cases hsolo.moves hp hs with
  | reserve | proceed | settle => exact hadvanced hs
  | @elapse ms ht => exact .inl ⟨n, ht ▸ h.elapse hsolo fun htimely => htime htimely ms rfl⟩
  | age ht => exact .inl ⟨n, ht ▸ h.age hp⟩

end OnWay

theorem LoneMoves.now_le (h : s.LoneMoves i t a) : s.now ≤ t.now := by
  cases h with
  | reserve _ ht => exact Nat.le_of_eq (ht ▸ now_reserve ..).symm
  | proceed _ ht => exact Nat.le_of_eq (now_proceed ht).symm
  | settle _ ht => exact Nat.le_of_eq (ht ▸ now_settle ..).symm
  | elapse ht => exact ht ▸ Nat.le_add_right ..
  | age ht => exact ht ▸ Nat.le_refl _

theorem Late.step (h : s.Late P i) (hsolo : s.Solo known base e i) (hp : s.Alone id a)
    (hs : s.step a = some t) : t.Late P i where
  failing := failing_step h.failing hs
  late := Nat.le_trans h.late (hsolo.moves hp hs).now_le
  untimely := h.untimely

/-- Over a whole run an attempt keeps to its way, if its deadline does not come first. -/
theorem OnWay.run (h : s.OnWay P i n) (hsolo : s.Solo known base P.event i)
    {q : State → Action → Prop} (hr : s.Reaches q t)
    (hq : ∀ u a, q u a → u.Alone P.event.eventId a ∧ (P.timely → u.Prompt i P.event.eventId a)) :
    t.Solo known base P.event i ∧ ((∃ n', t.OnWay P i n') ∨ t.Late P i) := by
  refine hr.keeps (I := fun u => u.Solo known base P.event i ∧
    ((∃ n', u.OnWay P i n') ∨ u.Late P i)) ?_ ⟨hsolo, .inl ⟨n, h⟩⟩
  rintro u a v hs hqa ⟨hu, hway⟩
  obtain ⟨hp, htime⟩ := hq u a hqa
  refine ⟨hu.step hp hs, ?_⟩
  rcases hway with ⟨n', hway⟩ | hl
  · exact hway.step hu hp (fun ht => (htime ht).2) hs
  · exact .inr (hl.step hu hp hs)

theorem prompt_advance (s : State) (i : Nat) (id : Uuid) : s.Prompt i id (.advance i) :=
  ⟨trivial, fun _ hms => by cases hms⟩

theorem Heads.closer (h : s.Heads P i n (some t)) (hsolo : s.Solo known base P.event i)
    (ht : P.timely) (hs : s.step (.advance i) = some t) :
    ∃ n', s.Reaches (Prompt i P.event.eventId) t ∧ t.Solo known base P.event i ∧
      t.OnWay P i n' ∧ n' < n := by
  cases h with
  | @goes _ n' hway hlt =>
    have hp := prompt_advance s i P.event.eventId
    exact ⟨n', .single hp hs, hsolo.step hp.1 hs, hway, hlt⟩
  | late hl => exact absurd ht hl.untimely

/-- An attempt whose deadline is to be met has succeeded, or comes closer in prompt steps: if it
waits, time passes up to the end of its commit first. -/
theorem OnWay.closer (h : s.OnWay P i n) (hsolo : s.Solo known base P.event i) (ht : P.timely) :
    (∃ o, s.result? i = some (.ok o)) ∨ ∃ t n', s.Reaches (Prompt i P.event.eventId) t ∧
      t.Solo known base P.event i ∧ t.OnWay P i n' ∧ n' < n := by
  have hheads := h.heads hsolo
  cases hadv : s.advance i with
  | some t =>
    rw [hadv] at hheads
    obtain ⟨n', hend⟩ := hheads.closer hsolo ht hadv
    exact .inr ⟨t, n', hend⟩
  | none =>
    rw [hadv] at hheads
    cases hheads with
    | there hret => exact .inl ⟨_, result?_eq_some.2 hret⟩
    | @waits r due hi hw hdue hlt hd =>
      have htimers : ∀ time ∈ s.timers i, s.now + (due - s.now) ≤ time := by
        intro time htime
        have hcases : time = r.deadline ∨ time = due := by
          simpa [timers, hi, hw, hdue] using htime
        have hle := hd ht
        rcases hcases with rfl | rfl <;> omega
      have hp : s.Prompt i P.event.eventId (.elapse (due - s.now)) := by
        refine ⟨trivial, fun ms hms => ?_⟩
        cases hms
        exact ⟨hadv, htimers⟩
      have hsolo' : (s.elapse (due - s.now)).Solo known base P.event i := hsolo.step hp.1 rfl
      have hway' := h.elapse hsolo fun _ => ⟨hadv, htimers⟩
      have hheads' := hway'.heads hsolo'
      cases hadv' : (s.elapse (due - s.now)).advance i with
      | some t =>
        rw [hadv'] at hheads'
        obtain ⟨n', hr, hend⟩ := hheads'.closer hsolo' ht hadv'
        exact .inr ⟨t, n', .trans (.single hp rfl) hr, hend⟩
      | none =>
        -- the time of the commit has come, so there is a step
        rw [hadv'] at hheads'
        cases hheads' with
        | there hret => cases hi.symm.trans hret
        | @waits _ due' _ _ hdue' hlt' =>
          cases hdue.symm.trans hdue'
          have hnow : (s.elapse (due - s.now)).now = s.now + (due - s.now) := rfl
          omega

theorem OnWay.arrives (h : s.OnWay P i n) (hsolo : s.Solo known base P.event i) (ht : P.timely) :
    ∃ t o, s.Reaches (Prompt i P.event.eventId) t ∧ t.result? i = some (.ok o) := by
  induction n using Nat.strongRecOn generalizing s with
  | _ n ih =>
    rcases h.closer hsolo ht with ⟨o, ho⟩ | ⟨t, n', hr, hsolo', hway', hlt⟩
    · exact ⟨s, o, .refl, ho⟩
    · obtain ⟨u, o, hr', ho⟩ := ih n' hlt hway' hsolo'
      exact ⟨u, o, hr.trans hr', ho⟩

theorem OnWay.result (h : s.OnWay P i n) {r : Result} (hr : s.result? i = some r) :
    ∃ o, r = .ok o := by
  obtain ⟨-, -, m, st, -, hi, -, hplace⟩ := h
  cases hi.symm.trans (result?_eq_some.1 hr)
  rcases hplace with hon | ⟨hno, -⟩
  · cases hon with
    | returned => exact ⟨_, rfl⟩
  · cases hno

theorem Late.result (h : s.Late P i) {r : Result} (hr : s.result? i = some r) :
    r = .error (.timeout P.settings.timeout) := by
  have hf := h.failing
  rw [result?_eq_some.1 hr] at hf
  exact hf

/-- The ingest of `e` that begins now. -/
def plan (s : State) (e : Event) (timely : Prop) : Plan :=
  { event := e, party := .attempt s.attempts.length, settings := s.settings, timely,
    limit := s.now + s.settings.timeout.ticks }

theorem Ready.onWay (h : s.Ready base e) (he : Event.ofRaw raw = .ok e) (hs : s.Survives e f)
    (timely : Prop) (ht : timely → s.InTime e f) :
    ∃ n, (s.begun f raw).OnWay (s.plan e timely) s.attempts.length n := by
  have hrest : ({ s.memory with faults := f } : Memory) = .rest s.tables f := by
    rw [h.custody.sound.eq_rest h.quiet.free]
    rfl
  have hstore := h.custody.store_begun f raw
  rw [hrest] at hstore
  refine ⟨_, rfl, (settings_begun ..).symm, _, .reserving e, hstore, ?_, rfl, ?_⟩
  · rw [status?_begun, if_pos rfl]
    simp [Status.first, he]
  · rcases hs with hc | ⟨hbegin, hcovered⟩
    · refine .inr ⟨rfl, ?_⟩
      rw [value?_of_keys (keys_begun s f raw)]
      exact hc.value
    · refine .inl ?_
      rw [now_begun]
      cases hid : s.tables.events.has e.eventId with
      | true => exact .reserving (.inl ⟨hid, hbegin⟩)
      | false =>
        rcases hcovered with hid' | ⟨hretries, hcommit⟩
        · cases hid.symm.trans hid'
        · refine .reserving (.inr ⟨hid, hbegin, Nat.le_refl _, ?_, hcommit, fun htime => ?_⟩)
          · rw [Nat.zero_add]
            exact hretries
          · rcases ht htime with hid' | hle
            · cases hid.symm.trans hid'
            · exact Nat.add_le_add_left hle _

/-! ### Retries -/

/-- The event is ingested again and again, each time by itself and with the faults that somebody has
set before. -/
inductive Retries (s : State) (raw : RawEvent) (id : Uuid) : List Result → State → Prop
  | start : s.Retries raw id [] s
  | ingest {rs : List Result} {t u : State} {f : Faults} {r : Result} (h : s.Retries raw id rs t)
    (hi : t.Ingests raw id f r u) : s.Retries raw id (rs ++ [r]) u

/-- One of the results is no failure. -/
def Succeeded (rs : List Result) : Prop := ∃ o, .ok o ∈ rs

theorem Ready.retries (h : s.Ready base e) (he : Event.ofRaw raw = .ok e) {rs : List Result}
    (hr : s.Retries raw e.eventId rs t) : t.Ready base e ∧ (Succeeded rs → t.Concluded e) := by
  induction hr with
  | start => exact ⟨h, fun ⟨o, ho⟩ => by cases ho⟩
  | @ingest rs t u f r _ hi ih =>
    obtain ⟨hready, hdone⟩ := ih
    obtain ⟨hready', hend, hknown⟩ := hready.ingests he hi
    refine ⟨hready', fun ⟨o, ho⟩ => ?_⟩
    -- after a success the event is concluded, and then this ingest has succeeded as well
    have hok : ∃ o, r = .ok o := by
      rcases List.mem_append.1 ho with ho | ho
      · exact ⟨_, hknown (hdone ⟨o, ho⟩)⟩
      · exact ⟨o, (List.mem_singleton.1 ho).symm⟩
    obtain ⟨o', rfl⟩ := hok
    rcases hend with ⟨_, -, hc⟩ | ⟨x, hx, -⟩
    · exact hc
    · cases hx

/-- An event is ingested again and again, one ingest at a time, from a quiet state in which its
reservation is gone, or `done` with the event stored. Once an ingest has succeeded, its reservation
is `done`, and every later ingest is told of a duplicate. The tables are as they were at the start if
the event was stored by then; if not, it has been added to them, so that it is stored, the rows of
its video and of the video's day have counted it once, and all other rows are as they were.
An ingest that does not succeed fails with an error after which it may be tried again, and
leaves no reservation. If it survives the faults that it meets, it succeeds or its deadline has
come; and if its commits are done in time and it is prompt, it can go on until it succeeds. -/
theorem retries_come_to_one_ingestion {s₀ : State} {tables : Tables} (hb : s₀.Begins tables)
    (hr : s₀.Reaches Orderly s) (hq : s.Quiet) (hf : s.KeysFree) (he : Event.ofRaw raw = .ok e)
    (hk : s.value? e.eventId = none ∨ s.Concluded e) {rs : List Result}
    (h : s.Retries raw e.eventId rs t) :
    (Succeeded rs → t.Concluded e ∧
      (s.tables.events.has e.eventId = true → t.tables = s.tables) ∧
      (s.tables.events.has e.eventId = false →
        t.tables = s.tables.apply (Store.writesOf e) ∧ s.tables.Adds e t.tables)) ∧
    (∀ f r u, t.Ingests raw e.eventId f r u →
      (Succeeded rs → r = .ok .duplicate) ∧
      ((∃ o, r = .ok o) ∨ ∃ x, r = .error x ∧ x.isRetryable = true ∧ u.value? e.eventId = none)) ∧
    ∀ f, t.Survives e f →
      (∀ r u, t.Ingests raw e.eventId f r u → (∃ o, r = .ok o) ∨
        r = .error (.timeout t.settings.timeout) ∧
          t.now + t.settings.timeout.ticks ≤ u.now) ∧
      (t.InTime e f → ∀ u,
        (t.begun f raw).Reaches (Prompt t.attempts.length e.eventId) u →
          (∀ r, u.result? t.attempts.length = some r → ∃ o, r = .ok o) ∧
          ∃ v o, u.Reaches (Prompt t.attempts.length e.eventId) v ∧
            v.result? t.attempts.length = some (.ok o)) := by
  have hcustody : s.Custody :=
    hr.keeps (I := Custody) (fun _ _ _ hs hp h => h.step hp hs) (.of_begins hb)
  have hready : s.Ready s.tables e := ⟨hcustody, hf, hq, .inl rfl, hk⟩
  obtain ⟨ht, hdone⟩ := hready.retries he h
  refine ⟨fun hok => ?_, fun f r u hi => ?_,
    fun f hs => ⟨fun r u hi => ?_, fun htime u hu => ?_⟩⟩
  · have htab := ht.gained.eq_of_has (hdone hok).stored
    refine ⟨hdone hok, fun hold => ?_, fun hnew => ?_⟩
    · rw [htab, if_pos hold]
    · rw [htab, hnew]
      exact ⟨rfl, Tables.adds_writesOf ..⟩
  · obtain ⟨-, hend, hknown⟩ := ht.ingests he hi
    refine ⟨fun hok => hknown (hdone hok), ?_⟩
    rcases hend with ⟨o, ho, -⟩ | hfail
    · exact .inl ⟨o, ho⟩
    · exact .inr hfail
  · -- time is free to pass, so that the deadline may come first
    obtain ⟨hrun, hret⟩ := hi
    obtain ⟨n, hway⟩ := ht.onWay he hs False False.elim
    obtain ⟨-, ⟨n', hway'⟩ | hl⟩ :=
      hway.run (ht.begun he f) hrun fun _ _ hp => ⟨hp, False.elim⟩
    · exact .inl (hway'.result hret)
    · exact .inr ⟨hl.result hret, hl.late⟩
  · obtain ⟨n, hway⟩ := ht.onWay he hs True fun _ => htime
    obtain ⟨hsolo, ⟨n', hway'⟩ | hl⟩ :=
      hway.run (ht.begun he f) hu fun _ _ hp => ⟨hp.1, fun _ => hp⟩
    · exact ⟨fun r hret => hway'.result hret, hway'.arrives hsolo trivial⟩
    · exact absurd trivial hl.untimely

/-- An ingest that fails to begin, and one whose event is stored without its knowledge. -/
def twoFailures (s : State) : Option (State × State) :=
  ((s.begun { failBegin := true } aView).run (List.replicate 3 (.advance 0))).bind fun t =>
    ((t.begun { nextCommit := some .acknowledgementLost, failCheck := true } aView).run
      (List.replicate 8 (.advance 1))).map fun u => (t, u)

theorem quiet_initial : initial.Quiet := ⟨rfl, rfl, rfl⟩

theorem one_ingestion_after_two_failures : ∃ e x y t u o, Event.ofRaw aView = .ok e ∧
    initial.Begins .empty ∧ initial.Quiet ∧ initial.KeysFree ∧ initial.value? e.eventId = none ∧
    initial.Retries aView e.eventId [.error x, .error y] t ∧ t.Survives e {} ∧ t.InTime e {} ∧
    t.Ingests aView e.eventId {} (.ok o) u ∧ u.Concluded e ∧
    u.tables = Tables.empty.apply (Store.writesOf e) ∧ Tables.empty.Adds e u.tables := by
  obtain ⟨e, he⟩ : ∃ e, Event.ofRaw aView = .ok e := ⟨_, rfl⟩
  obtain ⟨⟨s, t⟩, ht⟩ := Option.isSome_iff_exists.1
    (show (twoFailures initial).isSome = true by decide +kernel)
  have hends : (twoFailures initial).map (fun x => (x.1.result? 0, x.2.result? 1,
      x.1.attempts.length)) = some (some (.error (.storage (.connection .poolTimedOut))),
        some (.error (.storage (.commit (.transport "connection reset while awaiting commit")))),
        1) := by rfl
  rw [ht] at hends
  simp only [Option.map_some, Option.some.injEq, Prod.mk.injEq] at hends
  obtain ⟨hx, hy, hlen⟩ := hends
  obtain ⟨s', hs, hrest⟩ := Option.bind_eq_some_iff.1 ht
  obtain ⟨t', ht', hpair⟩ := Option.map_eq_some_iff.1 hrest
  cases hpair
  have hfirst : initial.Ingests aView e.eventId { failBegin := true } _ s :=
    ⟨.of_run hs (by simp [Alone]), hx⟩
  have hsecond : s.Ingests aView e.eventId
      { nextCommit := some .acknowledgementLost, failCheck := true } _ t :=
    ⟨.of_run ht' (by simp [Alone]), by rw [hlen]; exact hy⟩
  have htwo := (Retries.start.ingest hfirst).ingest hsecond
  have hone : initial.value? e.eventId = none := rfl
  have hsurvives : t.Survives e {} := .inr ⟨rfl, .inr ⟨Nat.zero_le _, .inl rfl⟩⟩
  have htime : t.InTime e {} := .inr (by simp)
  obtain ⟨-, -, hcovered⟩ := retries_come_to_one_ingestion begins_initial .refl quiet_initial
    keysFree_initial he (.inl hone) htwo
  obtain ⟨-, u, o, hu, ho⟩ := (hcovered {} hsurvives).2 htime _ .refl
  have hthird : t.Ingests aView e.eventId {} (.ok o) u := ⟨hu.mono fun _ _ hp => hp.1, ho⟩
  obtain ⟨hend, -⟩ := retries_come_to_one_ingestion begins_initial .refl quiet_initial
    keysFree_initial he (.inl hone) (htwo.ingest hthird)
  obtain ⟨hc, -, hnew⟩ := hend ⟨o, by simp⟩
  obtain ⟨htab, hadds⟩ := hnew rfl
  exact ⟨e, _, _, t, u, o, he, begins_initial, quiet_initial, keysFree_initial, hone, htwo,
    hsurvives, htime, hthird, hc, htab, hadds⟩

end Intake.Ingest.State
