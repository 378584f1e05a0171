import Intake.Proofs.Forecast
import Intake.Proofs.ReservationCalls
import Intake.Proofs.Retrying

/-!
# An ingest that nothing disturbs

`undisturbed_ingest_comes_as_forecast`: an ingest that has the two stores to itself, and loses no
time, returns what `Outset.forecast` says, at the time at which it says so, after as many commits,
and leaves the store with these tables and without the faults that these commits drew. It does come
to that. Its reservation ends at `done` if it succeeds, and is gone if it fails.

A run keeps the attempt on its course (`OnCourse`), because time passes only while it waits for its
commit, and not beyond the end of that or the deadline. Each step of it lowers the same weight as
for an ingest that survives its faults, so it cannot go on forever.
-/

namespace Intake.Ingest

open Store (Tables Faults Memory)

/-- Whether a commit was started. -/
def Act.isCommit : Act → Bool
  | .call .commit => true
  | .command .. | .call _ => false

namespace State

open Reservation (doneValue)

variable {o : Outset} {base : Tables} {s t u : State} {a : Action} {i n : Nat} {id : Uuid}
  {e : Event} {known : Prop} {raw : RawEvent} {f : Faults} {r : Running} {event : Event}

/-! ### Commits -/

/-- How many commits attempt `i` has started. -/
def commits (s : State) (i : Nat) : Nat := (s.did i).countP Act.isCommit

theorem commits_of_acts (h : t.acts = s.acts) (i : Nat) : t.commits i = s.commits i := by
  rw [commits, did_of_acts h, commits]

theorem commits_reserve (s : State) (i : Nat) (event : Event) :
    (s.reserve i event).commits i = s.commits i := by
  rw [commits, did_of_act (acts_reserve s i event), if_pos rfl, List.countP_append]
  rfl

theorem commits_proceed (h : s.proceed i r = some t) :
    t.commits i = s.commits i + r.commits := by
  rw [commits, did_proceed h]
  obtain ⟨⟨event, step, retries⟩, reserved, deadline, _ | _⟩ := r
  · rw [if_pos ⟨rfl, rfl⟩, List.countP_append]
    cases step <;> rfl
  · rw [if_neg (by simp)]
    rfl

theorem commits_settle (s : State) (i : Nat) (event : Event) (reserved : Bool)
    (ending : Except Error Written) :
    (s.settle i event reserved ending).commits i = s.commits i := by
  rw [commits, did_settle]
  split
  · rw [List.countP_append]
    rfl
  · rfl

/-! ### On course -/

/-- Attempt `i` is where it is foreseen to be. -/
structure OnCourse (o : Outset) (i n : Nat) (s : State) : Prop where
  party : o.party = .attempt i
  settings : o.settings = s.settings
  begins : o.faults.failBegin = false
  place : ∃ m st, s.store = .memory m ∧ s.status? i = some st ∧ Plan.weight m st = n ∧
    o.Foreseen (s.commits i) s.now m st
  unreserved : s.status? i = some (.reserving o.event) → s.value? o.event.eventId = none

/-- What the next step of an attempt on its course is. -/
inductive Comes (o : Outset) (i n : Nat) (s : State) : Option State → Prop
  | there (h : s.status? i = some (.returned o.forecast.result)) : s.Comes o i n none
  | goes {t : State} {n' : Nat} (h : t.OnCourse o i n') (hlt : n' < n) : s.Comes o i n (some t)
  | waits {r : Running} {due : Nat} (hi : s.status? i = some (.running r)) (hw : r.waiting = true)
    (hdue : s.store.due? (.attempt i) = some due) (hlt : s.now < due) (hd : s.now < r.deadline) :
    s.Comes o i n none

namespace OnCourse

variable (h : s.OnCourse o i n)
include h

theorem comes_reserve (hf : s.KeysFree) (hi : s.status? i = some (.reserving event)) :
    s.Comes o i n (some (s.reserve i event)) := by
  obtain ⟨hparty, hset, hbegin, ⟨m, st, hst, hi', hw, hplace⟩, hnone⟩ := h
  cases hi.symm.trans hi'
  obtain ⟨rfl, hc, hnow, rfl⟩ := hplace.of_reserving
  have hbegun := status?_reserve_of_none hf hi (hnone hi)
  have hrun : Status.running
      { writing := { event := o.event }, reserved := true,
        deadline := s.now + s.settings.timeout.ticks } = .running (o.run .begin 0 false) := by
    rw [hnow, ← hset]
    rfl
  rw [hrun] at hbegun
  have hfirst := Outset.Foreseen.begin (Outset.Round.zero (o := o))
  rw [Store.Faults.spent_zero, o.time_zero] at hfirst
  refine .goes ⟨hparty, hset, hbegin, ⟨_, _, hst, hbegun, rfl, ?_⟩, fun hno => ?_⟩ ?_
  · rw [commits_reserve, now_reserve, hc, hnow]
    exact hfirst
  · cases hbegun.symm.trans hno
  · rw [← hw]
    simp [Plan.distance, Outset.run]

theorem comes_proceed (hi : s.status? i = some (.running r)) : s.Comes o i n (s.proceed i r) := by
  obtain ⟨hparty, hset, hbegin, ⟨m, st, hst, hi', hw, hplace⟩, -⟩ := h
  cases hi.symm.trans hi'
  have hwent := hplace.went hbegin
  have hturn := proceed_turn hst hi
  rw [hparty, hset] at hwent
  cases hr : r.turn s.settings s.now (.attempt i) m with
  | none =>
    rw [hr, Option.map_none, Option.map_eq_none_iff] at hturn
    rw [hturn]
    rw [hr] at hwent
    cases hwent with
    | @waits due hdue hwait hlt hd =>
      refine .waits hi hwait ?_ hlt hd
      rw [hparty] at hdue
      rw [hst]
      exact hdue
  | some x =>
    rw [hr, Option.map_some, Option.map_eq_some_iff] at hturn
    obtain ⟨t, ht, hview⟩ := hturn
    simp only [Prod.mk.injEq] at hview
    obtain ⟨hstore, hstatus, hnow⟩ := hview
    rw [ht]
    rw [hr] at hwent
    cases hwent with
    | goes hon hlt =>
      refine .goes ⟨hparty, hset.trans (settings_proceed ht).symm, hbegin,
        ⟨_, _, hstore, hstatus, rfl, ?_⟩, fun hno => ?_⟩ (hw ▸ hlt)
      · rw [commits_proceed ht, hnow]
        exact hon
      · -- an attempt that writes does not reserve again
        rcases status?_proceed_self hi ht with ⟨r', hr', -⟩ | ⟨ending, hend⟩
        · cases hr'.symm.trans hno
        · cases hend.symm.trans hno

/-- The step with which the attempt returns. -/
theorem comes_settle {reserved : Bool} {ending : Except Error Written}
    (hi : s.status? i = some (.settling event reserved ending)) :
    s.Comes o i n (some (s.settle i event reserved ending)) := by
  obtain ⟨hparty, hset, hbegin, ⟨m, st, hst, hi', hw, hplace⟩, -⟩ := h
  cases hi.symm.trans hi'
  obtain ⟨-, hend, hc, -, hm⟩ := hplace.of_settling
  have hret := status?_settle_self hi
  rw [hend] at hret
  refine .goes ⟨hparty, hset.trans (settings_settle ..).symm, hbegin,
    ⟨m, _, (store_settle ..).trans hst, hret, rfl, ?_⟩, fun hno => ?_⟩ ?_
  · rw [commits_settle, hc, hm]
    exact .returned
  · cases hret.symm.trans hno
  · rw [← hw]
    simp [Plan.weight, Plan.distance]

theorem comes (hsolo : s.Solo known base e i) : s.Comes o i n (s.advance i) := by
  have hcourse := h
  obtain ⟨-, -, -, ⟨m, st, -, hi, -, hplace⟩, -⟩ := h
  have hpl := hsolo.placed
  rw [hi] at hpl
  rcases st with event | r | ⟨event, reserved, ending⟩ | r | _
  · rw [show s.advance i = _ from step_reserve hi]
    exact hcourse.comes_reserve hsolo.keysFree hi
  · rw [show s.advance i = _ from step_proceed hi]
    exact hcourse.comes_proceed hi
  · rw [show s.advance i = _ from step_settle hi]
    exact hcourse.comes_settle hi
  · obtain rfl := hplace.of_returned
    rw [show s.advance i = none by simp [advance, hi]]
    exact .there hi
  · exact hpl.elim

theorem elapse (hsolo : s.Solo known base e i) {ms : Nat} (hnone : s.advance i = none)
    (htime : ∀ time ∈ s.timers i, s.now + ms ≤ time) : (s.elapse ms).OnCourse o i n := by
  have hcomes := h.comes hsolo
  rw [hnone] at hcomes
  obtain ⟨hparty, hset, hbegin, ⟨m, st, hst, hi, hw, hplace⟩, hno⟩ := h
  refine ⟨hparty, hset, hbegin, ⟨m, st, hst, hi, hw, hplace.elapse ?_⟩, hno⟩
  cases hcomes with
  | there hret => exact .inl ⟨_, Option.some.inj (hi.symm.trans hret)⟩
  | @waits r due hrun hwait hdue =>
    have htimers : s.timers i = [r.deadline, due] := by simp [timers, hrun, hwait, hdue]
    rw [htimers] at htime
    refine .inr ⟨r, Option.some.inj (hi.symm.trans hrun), hwait, htime _ (by simp), ?_⟩
    intro due' hdue'
    rw [hst] at hdue
    rw [hparty] at hdue'
    cases (show m.due? (.attempt i) = some due from hdue).symm.trans hdue'
    exact htime _ (by simp)

theorem age (nanos : Nat) : OnCourse o i n { s with keys := s.keys.age nanos } := by
  obtain ⟨hparty, hset, hbegin, hplace, hnone⟩ := h
  exact ⟨hparty, hset, hbegin, hplace,
    fun hi => Reservation.KeyStore.value?_age_of_none (hnone hi) nanos⟩

theorem step (hsolo : s.Solo known base e i) (hp : s.Prompt i e.eventId a)
    (hs : s.step a = some t) : ∃ n', t.OnCourse o i n' := by
  have hadvanced : s.advance i = some t → ∃ n', t.OnCourse o i n' := by
    intro hadv
    have hcomes := h.comes hsolo
    rw [hadv] at hcomes
    cases hcomes with
    | goes hcourse _ => exact ⟨_, hcourse⟩
  cases hsolo.moves hp.1 hs with
  | reserve | proceed | settle => exact hadvanced hs
  | @elapse ms ht =>
    obtain ⟨hnone, htime⟩ := hp.2 ms rfl
    exact ⟨n, ht ▸ h.elapse hsolo hnone htime⟩
  | @age nanos ht => exact ⟨n, ht ▸ h.age nanos⟩

/-- A run in which no time is lost leaves the attempt on its course. -/
theorem run (hsolo : s.Solo known base e i) (hr : s.Reaches (Prompt i e.eventId) t) :
    t.Solo known base e i ∧ ∃ n', t.OnCourse o i n' := by
  refine hr.keeps (I := fun u => u.Solo known base e i ∧ ∃ n', u.OnCourse o i n') ?_
    ⟨hsolo, n, h⟩
  rintro u a v hs hp ⟨hu, n', hcourse⟩
  exact ⟨hu.step hp.1 hs, hcourse.step hu hp hs⟩

/-! ### The end of the course -/

theorem closer_of_advance (hsolo : s.Solo known base e i) (hs : s.advance i = some t) :
    ∃ n', s.Reaches (Prompt i e.eventId) t ∧ t.Solo known base e i ∧ t.OnCourse o i n' ∧ n' < n := by
  have hcomes := h.comes hsolo
  rw [hs] at hcomes
  cases hcomes with
  | @goes _ n' hcourse hlt =>
    have hp := prompt_advance s i e.eventId
    exact ⟨n', .single hp hs, hsolo.step hp.1 hs, hcourse, hlt⟩

/-- An attempt has returned, or comes closer to that: if it waits, time passes up to the end of its
commit, or to its deadline, first. -/
theorem closer (hsolo : s.Solo known base e i) :
    s.result? i = some o.forecast.result ∨ ∃ t n', s.Reaches (Prompt i e.eventId) t ∧
      t.Solo known base e i ∧ t.OnCourse o i n' ∧ n' < n := by
  have hcomes := h.comes hsolo
  cases hadv : s.advance i with
  | some t =>
    obtain ⟨n', hend⟩ := h.closer_of_advance hsolo hadv
    exact .inr ⟨t, n', hend⟩
  | none =>
    rw [hadv] at hcomes
    cases hcomes with
    | there hret => exact .inl (result?_eq_some.2 hret)
    | @waits r due hi hw hdue hlt hd =>
      let ms := min due r.deadline - s.now
      have htimers : ∀ time ∈ s.timers i, s.now + ms ≤ time := by
        intro time htime
        have hcases : time = r.deadline ∨ time = due := by
          simpa [timers, hi, hw, hdue] using htime
        rcases hcases with rfl | rfl <;> omega
      have hp : s.Prompt i e.eventId (.elapse ms) := by
        refine ⟨trivial, fun ms' hms => ?_⟩
        cases hms
        exact ⟨hadv, htimers⟩
      have hsolo' : (s.elapse ms).Solo known base e i := hsolo.step hp.1 rfl
      have hcourse' := h.elapse hsolo hadv htimers
      cases hadv' : (s.elapse ms).advance i with
      | some t =>
        obtain ⟨n', hr, hend⟩ := hcourse'.closer_of_advance hsolo' hadv'
        exact .inr ⟨t, n', .trans (.single hp rfl) hr, hend⟩
      | none =>
        -- the commit has come to its end, or the deadline has come, so there is a step
        have hcomes' := hcourse'.comes hsolo'
        rw [hadv'] at hcomes'
        cases hcomes' with
        | there hret => cases hi.symm.trans hret
        | @waits r' due' hi' _ hdue' hlt' hd' =>
          cases hdue.symm.trans hdue'
          cases hi.symm.trans hi'
          have hnow : (s.elapse ms).now = s.now + ms := rfl
          omega

theorem arrives (hsolo : s.Solo known base e i) :
    ∃ t, s.Reaches (Prompt i e.eventId) t ∧ t.result? i = some o.forecast.result := by
  induction n using Nat.strongRecOn generalizing s with
  | _ n ih =>
    rcases h.closer hsolo with hret | ⟨t, n', hr, hsolo', hcourse', hlt⟩
    · exact ⟨s, .refl, hret⟩
    · obtain ⟨u, hr', hret⟩ := ih n' hlt hcourse' hsolo'
      exact ⟨u, hr.trans hr', hret⟩

/-- The attempt returns when and as forecast. -/
theorem returns (hsolo : s.Solo known base e i) {result : Result} (hs : s.advance i = some t)
    (hr : t.result? i = some result) :
    result = o.forecast.result ∧ t.now = o.start + o.forecast.lasts ∧
      t.commits i = o.forecast.commits ∧
      t.store = .memory (.rest o.forecast.tables (o.faults.spent o.forecast.commits)) := by
  obtain ⟨-, -, -, ⟨m, st, hst, hi, -, hplace⟩, hnone⟩ := h
  have hret := result?_eq_some.1 hr
  rcases st with event | r | ⟨event, reserved, ending⟩ | r | _
  · obtain ⟨rfl, -⟩ := hplace.of_reserving
    cases (step_reserve hi).symm.trans hs
    cases (status?_reserve_of_none hsolo.keysFree hi (hnone hi)).symm.trans hret
  · have hp : s.proceed i r = some t := (step_proceed hi).symm.trans hs
    rcases status?_proceed_self hi hp with ⟨r', hr', -⟩ | ⟨ending, hend⟩
    · cases hr'.symm.trans hret
    · cases hend.symm.trans hret
  · obtain ⟨-, hend, hc, hnow, rfl⟩ := hplace.of_settling
    cases (step_settle hi).symm.trans hs
    cases (status?_settle_self hi).symm.trans hret
    exact ⟨hend, by rw [now_settle, hnow], by rw [commits_settle, hc], (store_settle ..).trans hst⟩
  · simp [advance, hi] at hs
  · simp [advance, hi] at hs

end OnCourse

/-- The ingest of `e` that begins now with these faults. -/
def outset (s : State) (e : Event) (f : Faults) : Outset :=
  { event := e, party := .attempt s.attempts.length, settings := s.settings, start := s.now
    tables := s.tables, faults := f }

theorem Ready.onCourse (h : s.Ready base e) (he : Event.ofRaw raw = .ok e)
    (hk : s.value? e.eventId = none) (hbegin : f.failBegin = false)
    (hnew : s.did s.attempts.length = []) :
    ∃ n, (s.begun f raw).OnCourse (s.outset e f) s.attempts.length n := by
  have hrest : ({ s.memory with faults := f } : Memory) = .rest s.tables f := by
    rw [h.custody.sound.eq_rest h.quiet.free]
    rfl
  have hstore := h.custody.store_begun f raw
  rw [hrest] at hstore
  have hfirst := Outset.Foreseen.reserving (o := s.outset e f)
  rw [Store.Faults.spent_zero, Outset.time_zero] at hfirst
  refine ⟨_, rfl, (settings_begun ..).symm, hbegin, ⟨_, .reserving e, hstore, ?_, rfl, ?_⟩,
    fun _ => ?_⟩
  · rw [status?_begun, if_pos rfl]
    simp [Status.first, he]
  · have hacts : (s.begun f raw).acts = s.acts := by
      rw [State.begun, acts_submit]
      unfold setFaults
      split <;> rfl
    rw [now_begun, commits_of_acts hacts, commits, hnew]
    exact hfirst
  · rw [value?_of_keys (keys_begun s f raw)]
    exact hk

/-- An ingest of an event that is not reserved, from a quiet state, while nothing else happens and no
time is lost: the attempt always can go on to the result of the forecast, and when it returns it
returns that result, at the time and after the commits of the forecast. The faults that these
commits drew are used up and no other, the tables are those of the forecast, and the reservation is
`done` if the ingest has succeeded and gone if not. Where the forecast has the event written, it is
stored, the rows of its video and of the video's day have counted it, and no other row has changed. -/
theorem undisturbed_ingest_comes_as_forecast {s₀ : State} {tables : Tables} (hb : s₀.Begins tables)
    (hr : s₀.Reaches Orderly s) (hq : s.Quiet) (hf : s.KeysFree) (he : Event.ofRaw raw = .ok e)
    (hk : s.value? e.eventId = none) (hbegin : f.failBegin = false)
    (hu : (s.begun f raw).Reaches (Prompt s.attempts.length e.eventId) u) :
    let x := (s.outset e f).forecast
    s.tables.Adds e (s.outset e f).written ∧
    (∃ v, u.Reaches (Prompt s.attempts.length e.eventId) v ∧
      v.result? s.attempts.length = some x.result) ∧
    ∀ v r, u.advance s.attempts.length = some v → v.result? s.attempts.length = some r →
      r = x.result ∧ v.now = s.now + x.lasts ∧ v.commits s.attempts.length = x.commits ∧
      v.store = .memory (.rest x.tables (f.spent x.commits)) ∧
      v.value? e.eventId = match r with
        | .ok _ => some doneValue
        | .error _ => none := by
  have hcustody : s.Custody :=
    hr.keeps (I := Custody) (fun _ _ _ hs hp h => h.step hp hs) (.of_begins hb)
  have hready : s.Ready s.tables e := ⟨hcustody, hf, hq, .inl rfl, .inl hk⟩
  obtain ⟨as, has, -⟩ := hr
  have hnew : s.did s.attempts.length = [] :=
    ((plays_of_run has).dealt hb.fresh).unstarted (by simp [status?])
  obtain ⟨n, hcourse⟩ := hready.onCourse he hk hbegin hnew
  obtain ⟨hsolo, n', hcourse'⟩ := hcourse.run (hready.begun he f) hu
  refine ⟨Tables.adds_writesOf .., hcourse'.arrives hsolo, fun v r hv hret => ?_⟩
  obtain ⟨hresult, hnow, hcommits, hstore⟩ := hcourse'.returns hsolo hv hret
  have hp := prompt_advance u s.attempts.length e.eventId
  have hpl := (hsolo.step hp.1 hv).placed
  rw [result?_eq_some.1 hret] at hpl
  refine ⟨hresult, hnow, hcommits, hstore, ?_⟩
  rcases r with x | o
  · exact hpl.2.2
  · exact hpl.1.value

/-- Two commits take three seconds each, and the deadline comes after five. -/
def slow : Faults := { conflicts := 1, commitDelay := some 3000 }

/-- The states in which the first commit is awaited, and the second, and the two after the
deadline. -/
def twoCommits (s : State) : Option (State × State × State × State) :=
  (s.run (List.replicate 6 (.advance 0))).bind fun t =>
    ((t.elapse 3000).run (List.replicate 6 (.advance 0))).bind fun u =>
      ((u.elapse 2000).run (List.replicate 1 (.advance 0))).bind fun v =>
        (v.advance 0).map fun w => (t, u, v, w)

theorem Reaches.of_advances {k : Nat} (h : s.run (List.replicate k (.advance i)) = some t) :
    s.Reaches (Prompt i id) t := by
  refine .of_run h fun a ha s => ?_
  rw [List.eq_of_mem_replicate ha]
  exact prompt_advance s i id

theorem Reaches.of_wait {ms : Nat} (hnone : s.advance i = none)
    (htime : ∀ time ∈ s.timers i, s.now + ms ≤ time) : s.Reaches (Prompt i id) (s.elapse ms) := by
  have hp : s.Prompt i id (.elapse ms) := by
    refine ⟨trivial, fun ms' hms => ?_⟩
    cases hms
    exact ⟨hnone, htime⟩
  exact .single hp rfl

theorem deadline_in_second_commit : ∃ e u v, initial.Begins .empty ∧ initial.Quiet ∧
    initial.KeysFree ∧ Event.ofRaw aView = .ok e ∧ initial.value? e.eventId = none ∧
    slow.failBegin = false ∧ (initial.begun slow aView).Reaches (Prompt 0 e.eventId) u ∧
    u.advance 0 = some v ∧ v.result? 0 = some (.error (.timeout (.ofSecs 5))) ∧ v.now = 5000 ∧
    v.commits 0 = 2 ∧ v.store = .memory (.rest .empty { commitDelay := some 3000 }) ∧
    v.value? e.eventId = none := by
  obtain ⟨e, he⟩ : ∃ e, Event.ofRaw aView = .ok e := ⟨_, rfl⟩
  obtain ⟨⟨s, t, u, v⟩, hall⟩ := Option.isSome_iff_exists.1
    (show (twoCommits (initial.begun slow aView)).isSome = true by decide +kernel)
  have hviews : (twoCommits (initial.begun slow aView)).map (fun x =>
      (x.1.timers 0, x.1.now, x.2.1.timers 0, x.2.1.now, x.2.2.2.result? 0)) =
        some ([5000, 3000], 0, [5000, 6000], 3000, some (.error (.timeout (.ofSecs 5)))) := by rfl
  have hnones : (twoCommits (initial.begun slow aView)).map (fun x =>
      ((x.1.advance 0).isSome, (x.2.1.advance 0).isSome)) = some (false, false) := by rfl
  rw [hall] at hviews hnones
  simp only [Option.map_some, Option.some.injEq, Prod.mk.injEq, Option.isSome_eq_false_iff,
    Option.isNone_iff_eq_none] at hviews hnones
  obtain ⟨htimers, hnow, htimers', hnow', hret⟩ := hviews
  obtain ⟨hnone, hnone'⟩ := hnones
  obtain ⟨_, hs, hrest⟩ := Option.bind_eq_some_iff.1 hall
  obtain ⟨_, ht, hrest⟩ := Option.bind_eq_some_iff.1 hrest
  obtain ⟨_, hu, hrest⟩ := Option.bind_eq_some_iff.1 hrest
  obtain ⟨_, hv, hpair⟩ := Option.map_eq_some_iff.1 hrest
  cases hpair
  have hfirst : s.Reaches (Prompt 0 e.eventId) (s.elapse 3000) :=
    .of_wait hnone (by simp [htimers, hnow])
  have hsecond : t.Reaches (Prompt 0 e.eventId) (t.elapse 2000) :=
    .of_wait hnone' (by simp [htimers', hnow'])
  have hreach : (initial.begun slow aView).Reaches (Prompt 0 e.eventId) u :=
    ((((Reaches.of_advances hs).trans hfirst).trans (.of_advances ht)).trans hsecond).trans
      (.of_advances hu)
  have hkey : initial.value? e.eventId = none := rfl
  obtain ⟨-, -, hends⟩ := undisturbed_ingest_comes_as_forecast begins_initial .refl quiet_initial
    keysFree_initial he hkey rfl hreach
  obtain ⟨-, htime, hcommits, hstore, hvalue⟩ := hends v _ hv hret
  have hnew : (initial.outset e slow).IsNew := rfl
  have hticks : (initial.outset e slow).ticks = 5000 :=
    show initial.settings.timeout.ticks = 5000 by rfl
  have hdelay : (initial.outset e slow).delay = 3000 := rfl
  have hretries : 1 ≤ (initial.outset e slow).settings.maxRetries := show 1 ≤ 3 by decide
  have hround : (initial.outset e slow).Round 1 :=
    ⟨fun hid => Bool.noConfusion (hnew.symm.trans hid), Nat.le_refl 1, hretries, by omega⟩
  rw [Outset.forecast_late hnew hround (by omega), hticks] at htime hcommits hstore
  exact ⟨e, u, v, begins_initial, quiet_initial, keysFree_initial, he, hkey, rfl, hreach, hv, hret,
    htime, hcommits, hstore, hvalue⟩

end State

end Intake.Ingest
