import Intake.Http.Endpoint
import Intake.Proofs.RoundTrip
import Intake.Proofs.Surroundings

/-!
# What a client cannot see

An error of the store carries the command that failed, the kind of fault, the code and the text that
the server gave; a failure of the key store carries its kind and its text. None of it may reach the
client who posted an event, and none of it may change what is asked of the two stores. What does
matter of an error of the store is its `Kind`, since a conflict is run again and an error of a
commit is looked into.

`Parallel` are pairs of runs from one state in which the same steps are taken and the same is told
to the attempts, up to what errors carry. What is left of a status without it is `Status.bare`. The
two states of such a pair are `Alike`: their attempts have come equally far and have asked the same.
A step keeps this since `Writing.answered` commutes with `bare`.
-/

namespace Intake

namespace Store.Error

/-- What decides where an error of the store leads. -/
inductive Kind
  | conflict
  | commit
  | other
deriving DecidableEq

def kind : Error → Kind
  | conflict .. => .conflict
  | commit _ => .commit
  | connection _ | query .. => .other

/-- One error of each kind. -/
def Kind.error : Kind → Error
  | conflict => .conflict "" .poolClosed
  | commit => .commit .poolClosed
  | other => .connection .poolClosed

/-- An error without what it carries. -/
def bare (x : Error) : Error := x.kind.error

@[simp] theorem isConflict_bare (x : Error) : x.bare.isConflict = x.isConflict := by cases x <;> rfl

@[simp] theorem isAmbiguous_bare (x : Error) : x.bare.isAmbiguous = x.isAmbiguous := by
  cases x <;> rfl

end Store.Error

namespace Ingest

open Store (Call Answer)

/-! ### Without what errors carry -/

/-- An answer of the store, or the result of a writing, without what its error carries. -/
def bareOf {α : Type} (a : Except Store.Error α) : Except Store.Error α :=
  a.mapError Store.Error.bare

theorem bareOf_eq {α : Type} {a b : Except Store.Error α}
    (h : a.mapError Store.Error.kind = b.mapError Store.Error.kind) : bareOf a = bareOf b := by
  have hfactor : ∀ c : Except Store.Error α,
      bareOf c = (c.mapError Store.Error.kind).mapError Store.Error.Kind.error := by
    intro c
    cases c <;> rfl
  rw [hfactor, hfactor, h]

def Error.bare : Error → Error
  | storage x => storage x.bare
  | invalid flaw => invalid flaw
  | timeout limit => timeout limit

def Step.bare : Step → Step
  | check x => check x.bare
  | step => step

namespace Writing

def bare (w : Writing) : Writing := { w with step := w.step.bare }

@[simp] theorem call_bare (w : Writing) : w.bare.call = w.call := by
  obtain ⟨event, step, retries⟩ := w
  cases step <;> rfl

end Writing

def Progress.bare : Progress → Progress
  | going w => going w.bare
  | settled r => settled (bareOf r)

namespace Writing

theorem failed_bare (k : Nat) (w : Writing) (x : Store.Error) :
    (w.failed k x).bare = w.bare.failed k x.bare := by
  have hretries : w.bare.retries? k x.bare = w.retries? k x := by
    unfold retries?
    rw [Store.Error.isConflict_bare]
    rfl
  unfold failed
  rw [hretries, Store.Error.isAmbiguous_bare]
  split
  · rfl
  · split <;> rfl

/-- Where an answer leads does not depend on what its error carries. -/
theorem answered_bare (k : Nat) (w : Writing) (a : Answer) :
    (w.answered k a).bare = w.bare.answered k (bareOf a) := by
  obtain ⟨event, step, retries⟩ := w
  have hrows : (rowsStep event).bare = rowsStep event := by
    unfold rowsStep
    split <;> rfl
  cases step with
  | begin | counters | daily | commit =>
    cases a with
    | error x => exact failed_bare ..
    | ok b => rfl
  | insert =>
    rcases a with x | _ | _
    · exact failed_bare ..
    · rfl
    · exact congrArg (fun step => Progress.going ⟨event, step, retries⟩) hrows
  | rollback => rfl
  | check y => rcases a with x | _ | _ <;> rfl

end Writing

def Running.bare (r : Running) : Running := { r with writing := r.writing.bare }

def Status.bare : Status → Status
  | running r => running r.bare
  | settling event reserved ending => settling event reserved (ending.mapError Error.bare)
  | returned r => returned (r.mapError Error.bare)
  | reserving event => reserving event
  | cancelled => cancelled

theorem Running.next_bare (k : Nat) (r : Running) (a : Answer) :
    (r.next k a).bare = r.bare.next k (bareOf a) := by
  have h := r.writing.answered_bare k a
  unfold next
  rw [show r.bare.writing = r.writing.bare from rfl, ← h]
  cases r.writing.answered k a with
  | going w => rfl
  | settled res => cases res <;> rfl

theorem Status.eq_reserving {st : Status} {event : Event} (h : st.bare = .reserving event) :
    st = .reserving event := by
  cases st <;> simp_all [Status.bare]

theorem Status.eq_running {st : Status} {b : Running} (h : st.bare = .running b) :
    ∃ r, st = .running r ∧ r.bare = b := by
  cases st <;> simp_all [Status.bare]

theorem Status.eq_settling {st : Status} {event : Event} {reserved : Bool}
    {b : Except Error Written} (h : st.bare = .settling event reserved b) :
    ∃ ending, st = .settling event reserved ending ∧ ending.mapError Error.bare = b := by
  cases st <;> simp_all [Status.bare]

/-! ### What is asked and what is told -/

/-- A command or a call, without its answer. -/
inductive Asked
  | command (c : Reservation.Command)
  | call (c : Call)
deriving DecidableEq

def Act.asked : Act → Asked
  | command c _ => .command c
  | call c => .call c

/-- An answer, or that there is none yet, without what an error carries. -/
inductive Told
  | command (b : Except Unit Bool)
  | call (o : Option (Except Store.Error.Kind Bool))

def Told.ofCommand (b : Reservation.Answer) : Told := .command (b.mapError fun _ => ())

def Told.ofCall (o : Option Answer) : Told := .call (o.map fun a => a.mapError Store.Error.kind)

/-- How much time an action takes. -/
def Action.lasts : Action → Nat
  | .elapse ms => ms
  | _ => 0

namespace State

variable {s t t' u u' : State} {a : Action} {i : Nat}

/-- What the attempts asked of the two stores, the newest first. -/
def asked (s : State) : List (Nat × Asked) := s.acts.map fun x => (x.1, x.2.asked)

/-- What the attempt that takes this step is told. -/
def told (s : State) : Action → Option Told
  | .advance i =>
    match s.status? i with
    | some (.reserving event) =>
      some (.ofCommand (s.keys.run (s.settings.terms.reserve event.eventId)).2)
    | some (.running r) => some (.ofCall (s.ask (.attempt i) r.waiting r.writing.call).2)
    | some (.settling event true ending) =>
      some (.ofCommand (s.keys.run (s.closing event.eventId ending)).2)
    | _ => none
  | .release j => s.releases[j]?.map fun x => .ofCommand (s.keys.run (Reservation.release x.2)).2
  | _ => none

/-- Two runs from `s`, to `t` and to `t'`, among any stores. The same steps are taken, and in each
of them the same is told. -/
inductive Parallel (s : State) : State → State → Prop
  | start : s.Parallel s s
  | step {t t' u u' : State} {store store' : Store} {keys keys' : Reservation.KeyStore} {a : Action}
    (h : s.Parallel t t') (ht : (t.among store keys).told a = (t'.among store' keys').told a)
    (hs : (t.among store keys).step a = some u) (hs' : (t'.among store' keys').step a = some u') :
    s.Parallel u u'

/-! ### Alike states -/

/-- How far the attempts have come. -/
def progress (s : State) : List Status := s.attempts.map (·.status.bare)

theorem getElem?_progress (s : State) (i : Nat) :
    s.progress[i]? = (s.status? i).map Status.bare := by
  rw [progress, List.getElem?_map, status?, Option.map_map]
  rfl

theorem progress_of_attempts (h : t.attempts = s.attempts) : t.progress = s.progress := by
  rw [progress, h, progress]

theorem progress_setStatus (s : State) (i : Nat) (st : Status) :
    (s.setStatus i st).progress = s.progress.modify i fun _ => st.bare := by
  refine List.ext_getElem? fun j => ?_
  simp only [List.getElem?_modify, getElem?_progress, status?_setStatus]
  by_cases hj : j = i
  · subst hj
    cases s.status? j <;> simp
  · simp [hj, Ne.symm hj]

theorem progress_submit (s : State) (raw : RawEvent) :
    (s.submit raw).progress = s.progress ++ [(Status.first raw).bare] := by
  rw [progress, attempts_submit, List.map_append]
  rfl

/-- Two states that differ only in what errors carry, apart from their stores. -/
structure Alike (s s' : State) : Prop where
  settings : s'.settings = s.settings
  now : s'.now = s.now
  releases : s'.releases = s.releases
  progress : s'.progress = s.progress
  asked : s'.asked = s.asked

theorem Alike.refl (s : State) : s.Alike s := ⟨rfl, rfl, rfl, rfl, rfl⟩

theorem Alike.symm (h : t.Alike t') : t'.Alike t :=
  ⟨h.settings.symm, h.now.symm, h.releases.symm, h.progress.symm, h.asked.symm⟩

theorem Alike.among (h : t.Alike t') (store store' : Store) (keys keys' : Reservation.KeyStore) :
    (t.among store keys).Alike (t'.among store' keys') :=
  ⟨h.settings, h.now, h.releases, h.progress, h.asked⟩

theorem Alike.status? (h : t.Alike t') (i : Nat) :
    (t'.status? i).map Status.bare = (t.status? i).map Status.bare := by
  rw [← getElem?_progress, ← getElem?_progress, h.progress]

theorem Alike.exists_status (h : t.Alike t') {st : Status} (hi : t.status? i = some st) :
    ∃ st', t'.status? i = some st' ∧ st'.bare = st.bare := by
  have hst := h.status? i
  rw [hi] at hst
  exact Option.map_eq_some_iff.1 hst

theorem Alike.length (h : t.Alike t') : t'.attempts.length = t.attempts.length := by
  simpa [State.progress] using congrArg List.length h.progress

/-- The same attempts have returned, with the same result up to what an error carries. -/
theorem Alike.result? (h : t.Alike t') (i : Nat) :
    (t'.result? i).map (·.mapError Error.bare) = (t.result? i).map (·.mapError Error.bare) := by
  have hst := h.status? i
  unfold State.result?
  generalize t.status? i = o at hst
  generalize t'.status? i = o' at hst
  rcases o with _ | st <;> rcases o' with _ | st'
  · rfl
  · cases hst
  · cases hst
  · cases st <;> cases st' <;> simp_all [Status.bare]

theorem asked_of_acts (h : t.acts = s.acts) : t.asked = s.asked := by
  rw [asked, h, asked]

theorem asked_of_command {c : Reservation.Command} {b : Reservation.Answer}
    (h : t.acts = (i, .command c b) :: s.acts) : t.asked = (i, .command c) :: s.asked := by
  rw [asked, h, asked, List.map_cons]
  rfl

theorem asked_proceed {r : Running} (h : s.proceed i r = some t) : t.asked =
    if r.waiting then s.asked else (i, .call r.writing.call) :: s.asked := by
  rw [asked, acts_proceed h]
  split <;> rfl

/-- Where an attempt with this reservation comes to does not depend on why the key store failed. -/
theorem Alike.reserved (h : t.Alike t') (event : Event) {b b' : Reservation.Answer}
    (hb : Told.ofCommand b = Told.ofCommand b') : t'.reserved event b' = t.reserved event b := by
  unfold State.reserved
  rw [h.settings, h.now]
  rcases b with f | _ | _ <;> rcases b' with f' | _ | _ <;>
    simp_all [Told.ofCommand, Except.mapError, Reservation.Status.ofAnswer]

/-! ### Steps of alike states -/

theorem now_setFaults (s : State) (f : Store.Faults) : (s.setFaults f).now = s.now := by
  unfold setFaults
  split <;> rfl

theorem now_clientLeave (s : State) (k : Nat) (isOpen : Bool) :
    (s.clientLeave k isOpen).now = s.now := by
  unfold clientLeave
  split <;> rfl

theorem now_outside (ha : a.isOutside = true) (h : s.step a = some t) :
    t.now = s.now + a.lasts := by
  cases a with
  | submit | advance | cancel | release => simp [Action.isOutside] at ha
  | faults f => cases h; exact now_setFaults s f
  | clientCall k waiting call => cases h; exact now_ask ..
  | clientLeave k isOpen => cases h; exact now_clientLeave ..
  | _ => cases h; rfl

theorem exists_step_outside (ha : a.isOutside = true) (s : State) : ∃ t, s.step a = some t := by
  cases a with
  | submit | advance | cancel | release => simp [Action.isOutside] at ha
  | _ => exact ⟨_, rfl⟩

theorem Alike.outside (h : t.Alike t') (ha : a.isOutside = true) (hs : t.step a = some u) :
    ∃ u', t'.step a = some u' ∧ u.Alike u' := by
  obtain ⟨u', hs'⟩ := exists_step_outside ha t'
  obtain ⟨hat, hrel, hset, hacts⟩ := outside_step ha hs
  obtain ⟨hat', hrel', hset', hacts'⟩ := outside_step ha hs'
  refine ⟨u', hs', ?_, ?_, ?_, ?_, ?_⟩
  · rw [hset, hset', h.settings]
  · rw [now_outside ha hs, now_outside ha hs', h.now]
  · rw [hrel, hrel', h.releases]
  · rw [progress_of_attempts hat, progress_of_attempts hat', h.progress]
  · rw [asked_of_acts hacts, asked_of_acts hacts', h.asked]

theorem Alike.reserve (h : t.Alike t') (event : Event)
    (hb : Told.ofCommand (t.keys.run (t.settings.terms.reserve event.eventId)).2 =
      Told.ofCommand (t'.keys.run (t'.settings.terms.reserve event.eventId)).2) :
    (t.reserve i event).Alike (t'.reserve i event) where
  settings := h.settings
  now := h.now
  releases := h.releases
  progress := by
    have hprogress : ∀ s : State, (s.reserve i event).progress = s.progress.modify i fun _ =>
        (s.reserved event (s.keys.run (s.settings.terms.reserve event.eventId)).2).bare :=
      fun s => progress_setStatus s i _
    rw [hprogress, hprogress, h.progress, h.reserved event hb]
  asked := by
    rw [asked_of_command (acts_reserve ..), asked_of_command (acts_reserve ..), h.asked, h.settings]

theorem progress_ask (s : State) (p : Store.Party) (waiting : Bool) (call : Call) :
    (s.ask p waiting call).1.progress = s.progress := progress_of_attempts (attempts_ask ..)

theorem progress_answer (s : State) (i : Nat) (r : Running) (b : Answer) :
    (s.answer i r b).progress =
      s.progress.modify i fun _ => r.bare.next s.settings.maxRetries (bareOf b) := by
  rw [progress_of_attempts (attempts_answer ..), progress_setStatus, Running.next_bare]

theorem progress_expire (s : State) (i : Nat) (r : Running) : (s.expire i r).progress =
    s.progress.modify i fun _ => .settling r.bare.writing.event r.bare.reserved
      (.error (.timeout s.settings.timeout)) := by
  rw [progress_of_attempts (attempts_expire ..), progress_setStatus]
  rfl

/-- An attempt that writes does the same in both states: it gets an answer, is cut off, or begins to
wait. -/
theorem Alike.progress_proceed (h : t.Alike t') {r r' : Running} (hr : r'.bare = r.bare)
    (hb : Told.ofCall (t.ask (.attempt i) r.waiting r.writing.call).2 =
      Told.ofCall (t'.ask (.attempt i) r'.waiting r'.writing.call).2)
    (hs : t.proceed i r = some u) : ∃ u', t'.proceed i r' = some u' ∧ u'.progress = u.progress := by
  have hdeadline : r'.bare.deadline = r.bare.deadline := congrArg Running.deadline hr
  have hwaiting : r'.bare.waiting = r.bare.waiting := congrArg Running.waiting hr
  have hd : r'.deadline ≤ t'.now ↔ r.deadline ≤ t.now := by
    rw [h.now]
    exact iff_of_eq (congrArg (· ≤ t.now) hdeadline)
  have hmap := Told.call.inj hb
  rcases proceed_cases hs with ⟨b, hsome, rfl⟩ | ⟨hnone, hdue, rfl⟩ | ⟨hnone, hdue, hw, rfl⟩
  · rw [hsome] at hmap
    obtain ⟨b', hsome', hkind⟩ := Option.map_eq_some_iff.1 hmap.symm
    have hp : t'.proceed i r' = some
        ((t'.ask (.attempt i) r'.waiting r'.writing.call).1.answer i r' b') := by
      simp only [State.proceed, hsome']
    refine ⟨_, hp, ?_⟩
    rw [progress_answer, progress_answer, progress_ask, progress_ask, settings_ask, settings_ask,
      h.progress, h.settings, hr, bareOf_eq hkind]
  · rw [hnone] at hmap
    have hnone' := Option.map_eq_none_iff.1 hmap.symm
    have hp : t'.proceed i r' = some
        ((t'.ask (.attempt i) r'.waiting r'.writing.call).1.expire i r') := by
      simp only [State.proceed, hnone', if_pos (hd.2 hdue)]
    refine ⟨_, hp, ?_⟩
    rw [progress_expire, progress_expire, progress_ask, progress_ask, settings_ask, settings_ask,
      h.progress, h.settings, hr]
  · rw [hnone] at hmap
    have hnone' := Option.map_eq_none_iff.1 hmap.symm
    have hw' : ¬r'.waiting = true := ne_true_of_eq_false (hwaiting.trans hw)
    have hdue' : ¬r'.deadline ≤ t'.now := fun hle => Nat.not_le.2 hdue (hd.1 hle)
    have hwait : Status.bare (.running { r' with waiting := true }) =
        Status.bare (.running { r with waiting := true }) :=
      congrArg (fun x : Running => Status.running { x with waiting := true }) hr
    have hp : t'.proceed i r' = some
        ((t'.ask (.attempt i) r'.waiting r'.writing.call).1.setStatus i
          (.running { r' with waiting := true })) := by
      simp only [State.proceed, hnone', if_neg hdue', if_neg hw']
    refine ⟨_, hp, ?_⟩
    rw [progress_setStatus, progress_setStatus, progress_ask, progress_ask, h.progress, hwait]

theorem Alike.proceed (h : t.Alike t') {r r' : Running} (hr : r'.bare = r.bare)
    (hb : Told.ofCall (t.ask (.attempt i) r.waiting r.writing.call).2 =
      Told.ofCall (t'.ask (.attempt i) r'.waiting r'.writing.call).2)
    (hs : t.proceed i r = some u) : ∃ u', t'.proceed i r' = some u' ∧ u.Alike u' := by
  have hwaiting : r'.bare.waiting = r.bare.waiting := congrArg Running.waiting hr
  have hcall : r'.writing.call = r.writing.call := by
    have hbare := congrArg (fun x => x.writing.call) hr
    exact (Writing.call_bare _).symm.trans (hbare.trans (Writing.call_bare _))
  obtain ⟨u', hs', hprogress⟩ := h.progress_proceed hr hb hs
  refine ⟨u', hs', ?_, ?_, ?_, hprogress, ?_⟩
  · rw [settings_proceed hs, settings_proceed hs', h.settings]
  · rw [now_proceed hs, now_proceed hs', h.now]
  · rw [releases_proceed hs, releases_proceed hs', h.releases]
  · have hwait : r'.waiting = r.waiting := hwaiting
    rw [asked_proceed hs, asked_proceed hs', hcall, h.asked, hwait]

/-- An attempt whose writing has ended settles its reservation with the same command. -/
theorem Alike.settle (h : t.Alike t') (event : Event) (reserved : Bool)
    {ending ending' : Except Error Written}
    (he : ending'.mapError Error.bare = ending.mapError Error.bare) :
    (t.settle i event reserved ending).Alike (t'.settle i event reserved ending') where
  settings := by rw [settings_settle, settings_settle, h.settings]
  now := by rw [now_settle, now_settle, h.now]
  releases := by rw [releases_settle, releases_settle, h.releases]
  progress := by
    have hresult : Status.bare (.returned (ending'.map ofWritten)) =
        Status.bare (.returned (ending.map ofWritten)) := by
      cases ending <;> cases ending' <;> simp_all [Status.bare, Except.mapError, Except.map]
    rw [progress_of_attempts (attempts_settle ..), progress_of_attempts (attempts_settle ..),
      progress_setStatus, progress_setStatus, h.progress, hresult]
  asked := by
    have hclosing : t'.closing event.eventId ending' = t.closing event.eventId ending := by
      unfold closing
      rw [h.settings]
      cases ending <;> cases ending' <;> simp_all [Except.mapError]
    have hacts := acts_settle t i event reserved ending
    have hacts' := acts_settle t' i event reserved ending'
    cases reserved with
    | true =>
      rw [if_pos rfl] at hacts hacts'
      rw [asked_of_command hacts, asked_of_command hacts', h.asked, hclosing]
    | false =>
      rw [if_neg Bool.false_ne_true] at hacts hacts'
      rw [asked_of_acts hacts, asked_of_acts hacts', h.asked]

theorem now_cutOff (s : State) (i : Nat) (r : Running) (inside : Bool) :
    (s.cutOff i r inside).now = s.now := by
  unfold State.cutOff
  split <;> simp

theorem Alike.cutOff (h : t.Alike t') {r r' : Running} (hr : r'.bare = r.bare) (inside : Bool) :
    (t.cutOff i r inside).Alike (t'.cutOff i r' inside) where
  settings := by rw [settings_cutOff, settings_cutOff, h.settings]
  now := by rw [now_cutOff, now_cutOff, h.now]
  releases := by
    have hreserved : r'.bare.reserved = r.bare.reserved := congrArg Running.reserved hr
    have hevent : r'.bare.writing.event = r.bare.writing.event :=
      congrArg (fun x => x.writing.event) hr
    rw [releases_cutOff, releases_cutOff, h.releases,
      show r'.reserved = r.reserved from hreserved,
      show r'.writing.event = r.writing.event from hevent]
  progress := by
    rw [progress_of_attempts (attempts_cutOff ..), progress_of_attempts (attempts_cutOff ..),
      progress_setStatus, progress_setStatus, h.progress]
  asked := by rw [asked_of_acts (acts_cutOff ..), asked_of_acts (acts_cutOff ..), h.asked]

/-- A step keeps states alike if the same is told in both; that it can be taken in the other state
is part of this. -/
theorem Alike.step (h : t.Alike t') (ht : t.told a = t'.told a) (hs : t.step a = some u) :
    ∃ u', t'.step a = some u' ∧ u.Alike u' := by
  cases step_moves hs with
  | submit raw =>
    refine ⟨_, rfl, by simp [h.settings], by simp [h.now], by simp [h.releases], ?_, ?_⟩
    · rw [progress_submit, progress_submit, h.progress]
    · rw [asked_of_acts (acts_submit ..), asked_of_acts (acts_submit ..), h.asked]
  | @reserve i event hi =>
    obtain ⟨st', hi', hbare⟩ := h.exists_status hi
    cases Status.eq_reserving hbare
    simp only [told, hi, hi', Option.some.injEq] at ht
    exact ⟨_, step_reserve hi', h.reserve event ht⟩
  | @proceed i r _ hi hp =>
    obtain ⟨st', hi', hbare⟩ := h.exists_status hi
    obtain ⟨r', rfl, hr⟩ := Status.eq_running hbare
    simp only [told, hi, hi', Option.some.injEq] at ht
    rw [step_proceed hi']
    exact h.proceed hr ht hp
  | @settle i event reserved ending hi =>
    obtain ⟨st', hi', hbare⟩ := h.exists_status hi
    obtain ⟨ending', rfl, he⟩ := Status.eq_settling hbare
    exact ⟨_, step_settle hi', h.settle event reserved he⟩
  | @cancel i r inside hi =>
    obtain ⟨st', hi', hbare⟩ := h.exists_status hi
    obtain ⟨r', rfl, hr⟩ := Status.eq_running hbare
    exact ⟨_, by simp only [State.step, cancel, hi'], h.cutOff hr inside⟩
  | @release j i id hj =>
    have hj' : t'.releases[j]? = some (i, id) := by rwa [h.releases]
    have hstep : t'.step (.release j) = some (t'.releaseAt j i id) := by
      simp only [State.step, release, hj']
    refine ⟨_, hstep, h.settings, h.now, ?_, h.progress, ?_⟩
    · rw [releases_releaseAt, releases_releaseAt, h.releases]
    · rw [asked_of_command (acts_releaseAt ..), asked_of_command (acts_releaseAt ..), h.asked]
  | outside ha hs => exact h.outside ha hs

theorem Parallel.alike (h : s.Parallel t t') : t.Alike t' := by
  induction h with
  | start => exact .refl s
  | @step t t' u u' store store' keys keys' a _ ht hs hs' ih =>
    obtain ⟨v, hv, halike⟩ := (ih.among store store' keys keys').step ht hs
    cases hv.symm.trans hs'
    exact halike

theorem Alike.isSome_step (h : t.Alike t') (ht : t.told a = t'.told a) :
    (t.step a).isSome = (t'.step a).isSome := by
  rw [Bool.eq_iff_iff, Option.isSome_iff_exists, Option.isSome_iff_exists]
  constructor
  · rintro ⟨u, hs⟩
    exact (h.step ht hs).imp fun _ hs' => hs'.1
  · rintro ⟨u', hs'⟩
    exact (h.symm.step ht.symm hs').imp fun _ hs => hs.1

/-- The stores may be exchanged without a step. -/
theorem Parallel.of_among (s : State) (store store' : Store) (keys keys' : Reservation.KeyStore) :
    s.Parallel (s.among store keys) (s.among store' keys') :=
  @Parallel.step s s s _ _ store store' keys keys' (.elapse 0) .start rfl rfl rfl

/-- What is told in the course of these actions. -/
def tells (s : State) : List Action → List (Option Told)
  | [] => []
  | a :: as => s.told a ::
    match s.step a with
    | some t => t.tells as
    | none => []

/-- Two ordinary runs in which the same is told are parallel. -/
theorem Parallel.append_runs (h : s.Parallel t t') {as : List Action} (hr : t.run as = some u)
    (hr' : t'.run as = some u') (ht : t.tells as = t'.tells as) : s.Parallel u u' := by
  induction as generalizing t t' with
  | nil =>
    cases hr
    cases hr'
    exact h
  | cons a as ih =>
    rw [run] at hr hr'
    obtain ⟨v, hv, hr⟩ := Option.bind_eq_some_iff.1 hr
    obtain ⟨v', hv', hr'⟩ := Option.bind_eq_some_iff.1 hr'
    rw [tells, tells, hv, hv'] at ht
    obtain ⟨hfirst, hrest⟩ := List.cons.inj ht
    exact ih (h.step hfirst hv hv') hr hr' hrest

end State

end Ingest

/-! ### Requests -/

namespace Http

open Ingest (State)

/-- A response does not depend on what the error of a result carries. -/
theorem Response.ofResult_bare (r : Ingest.Result) :
    ofResult (r.mapError Ingest.Error.bare) = ofResult r := by
  rcases r with (_ | _ | _) | _ | _ <;> rfl

namespace Request

/-- The state in which a request is answered: a posted event has been submitted. -/
def posted (q : Request) (exported : Bool) (s : State) : State :=
  match q.reply exported with
  | .respond _ => s
  | .ingest raw => s.submit raw

/-- The response to a request that came in at `s`, if there is one at `t`. -/
def response? (q : Request) (exported : Bool) (s t : State) : Option Response :=
  match q.reply exported with
  | .respond x => some x
  | .ingest _ => (t.result? s.attempts.length).map Response.ofResult

theorem response?_eq (q : Request) (exported : Bool) (s : State) {t t' : State} (h : t.Alike t') :
    q.response? exported s t = q.response? exported s t' := by
  unfold response?
  cases q.reply exported with
  | respond x => rfl
  | ingest raw =>
    have hbare : ∀ u : State, (u.result? s.attempts.length).map Response.ofResult =
        ((u.result? s.attempts.length).map (·.mapError Ingest.Error.bare)).map
          Response.ofResult := by
      intro u
      rw [Option.map_map]
      exact congrArg (Option.map · _) (funext fun r => (Response.ofResult_bare r).symm)
    simp only [hbare, h.result?]

/-- Whatever request comes in, and whatever errors of the two stores say in either of two runs: as
long as they are of the same kinds, the response is the same, if there is one, the same commands
are given to the key store and the same calls are made of the store, in the same order, and where
the one run can go on the other can. -/
theorem response_hides_error_contents (q : Request) (exported : Bool) {s t t' : State}
    (h : (q.posted exported s).Parallel t t') :
    q.response? exported s t = q.response? exported s t' ∧ t.asked = t'.asked ∧
    ∀ store store' keys keys' a,
      (t.among store keys).told a = (t'.among store' keys').told a →
      ((t.among store keys).step a).isSome = ((t'.among store' keys').step a).isSome :=
  ⟨response?_eq q exported s h.alike, h.alike.asked.symm,
    fun store store' keys keys' _ ht => (h.alike.among store store' keys keys').isSome_step ht⟩

def viewRequest : Request where
  method := "POST"
  uri := "/events"
  contentType := some "application/json"
  body := State.aView.encode

theorem reply_viewRequest : viewRequest.reply true = .ingest State.aView := by
  have hresource : resource? true (pathOf viewRequest.uri) = some .events := by decide
  have htype : viewRequest.contentType.any namesJson = true := by decide
  have hsize : ¬maxBody < viewRequest.body.length := by decide +kernel
  have hbody : RawEvent.decode viewRequest.body = .ok State.aView := by
    rw [show viewRequest.body = State.aView.encode from rfl, RawEvent.decode_encode]
    rfl
  unfold reply
  rw [hresource]
  unfold decode
  rw [htype, if_neg hsize, hbody]
  rfl

/-- Nothing is reserved and yet events are written. -/
def openHanded : State := { settings := { policy := .failOpen }, store := .closed }

/-- The first insert meets a conflict, the answer to the second commit gets lost, and so does the
one to the check. -/
def failing (conflict commit check : Store.Cause) : Store := .scripted
  { replies := ((Keyed.empty.set .insert [⟨.error (.conflict "INSERT events" conflict), 0⟩]).set
      .commit [⟨.error (.commit commit), 3⟩]).set
      .check [⟨.error (.query "SELECT events" check), 0⟩] }

/-- The view has come in, and the key store is timed out. -/
def oneWay : State :=
  (openHanded.submit State.aView).among
    (failing (.server (some "40001") "key (id)=(7) is taken") (.transport "10.0.0.7:5432 hung up")
      .poolTimedOut) { outage := some .timeout }

/-- The same with other errors: the key store refuses connections. -/
def anotherWay : State :=
  (openHanded.submit State.aView).among
    (failing (.server (some "40P01") "") .workerCrashed (.protocol "no rows"))
    { outage := some (.transport .connectionRefused) }

def lostCommit : List Ingest.Action :=
  List.replicate 8 (.advance 0) ++ .elapse 3 :: List.replicate 3 (.advance 0)

theorem lost_commit_told_alike : ∃ t t',
    (viewRequest.posted true openHanded).Parallel t t' ∧ t.result? 0 ≠ t'.result? 0 ∧
    viewRequest.response? true openHanded t = some ⟨500, .error "internal error"⟩ ∧
    viewRequest.response? true openHanded t' = some ⟨500, .error "internal error"⟩ ∧
    t.asked = t'.asked ∧ t.asked.length = 9 := by
  have hposted : viewRequest.posted true openHanded = openHanded.submit State.aView := by
    rw [posted, reply_viewRequest]
  obtain ⟨t, ht⟩ := Option.isSome_iff_exists.1
    (show (oneWay.run lostCommit).isSome = true by decide +kernel)
  obtain ⟨t', ht'⟩ := Option.isSome_iff_exists.1
    (show (anotherWay.run lostCommit).isSome = true by decide +kernel)
  have hr : (oneWay.run lostCommit).map (fun t => (t.result? 0, t.asked.length)) =
      some (some (.error (.storage (.commit (.transport "10.0.0.7:5432 hung up")))), 9) := by rfl
  have hr' : (anotherWay.run lostCommit).map (·.result? 0) =
      some (some (.error (.storage (.commit .workerCrashed)))) := by rfl
  rw [ht] at hr
  rw [ht'] at hr'
  simp only [Option.map_some, Option.some.injEq, Prod.mk.injEq] at hr hr'
  have hstart : (openHanded.submit State.aView).Parallel oneWay anotherWay := .of_among ..
  have htells : oneWay.tells lostCommit = anotherWay.tells lostCommit := by rfl
  have hpar := hstart.append_runs ht ht' htells
  rw [← hposted] at hpar
  obtain ⟨hresponse, hasked, -⟩ := response_hides_error_contents viewRequest true hpar
  have hfirst : viewRequest.response? true openHanded t = some ⟨500, .error "internal error"⟩ := by
    rw [response?, reply_viewRequest]
    exact congrArg (Option.map Response.ofResult) hr.1
  refine ⟨t, t', hpar, ?_, hfirst, hresponse.symm.trans hfirst, hasked, hr.2⟩
  rw [hr.1, hr']
  simp

end Request

end Http

end Intake
