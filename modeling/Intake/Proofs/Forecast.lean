import Intake.Proofs.Survival

/-!
# What an undisturbed ingest comes to

`forecast` says beforehand how the ingest of an event ends that nothing disturbs: its result, how
long it takes, how many commits it starts and which tables it leaves. The commits come one after
the other and each of them takes the delay that is set, so round `n` begins when `n` delays have
passed. One deadline spans all rounds. If it comes first it finds the attempt in the round in which
it falls; a commit that ends at the deadline is still heard. Otherwise the last round decides: it is
the one in which no conflict is left, or no retry.

`Outset.Foreseen` lists the places on the way with the time of each, the faults left over and the
number of commits started; a step leads from one place to the next (`Foreseen.went`). That the
places of the deadline and of the last round are those of the forecast is arithmetic
(`forecast_late`, `forecast_exhausted`, `forecast_decided`).
-/

namespace Intake

open Store (Party Memory Tables Faults Fate CommitFault)

namespace Store

/-! ### Faults used up -/

/-- The faults left when `n` commits have started: conflicts go first, and then the fault of the
next commit. -/
def Faults.spent (f : Faults) (n : Nat) : Faults :=
  { f with
    conflicts := f.conflicts - n
    nextCommit := if f.conflicts < n then none else f.nextCommit }

namespace Faults

variable (f : Faults) {n : Nat}

@[simp] theorem spent_zero : f.spent 0 = f := by simp [spent]

theorem draw_spent (n : Nat) : (f.spent n).draw.2 = f.spent (n + 1) := by
  unfold draw
  split
  · next k hk =>
    have hk : f.conflicts - n = k + 1 := hk
    have hlt : ¬f.conflicts < n := by omega
    have hlt' : ¬f.conflicts < n + 1 := by omega
    simp only [spent, if_neg hlt, if_neg hlt']
    congr 1
    omega
  · next hk =>
    have hk : f.conflicts - n = 0 := hk
    have hlt : f.conflicts < n + 1 := by omega
    have hzero : f.conflicts - (n + 1) = 0 := by omega
    split
    · simp only [spent, if_pos hlt, hk, hzero]
    · next hc =>
      have hc : (if f.conflicts < n then none else f.nextCommit) = none := hc
      simp only [spent, if_pos hlt, hk, hzero, hc]

variable {f}

theorem fate_of_lt (h : n < f.conflicts) : (f.spent n).draw.1 = .conflict := by
  unfold draw
  have hk : (f.spent n).conflicts = f.conflicts - n := rfl
  obtain ⟨k, hk'⟩ := Nat.exists_eq_add_of_lt h
  rw [hk, show f.conflicts - n = k + 1 by omega]

theorem fate_last : (f.spent f.conflicts).draw.1 =
    match f.nextCommit with
    | none => .stored
    | some fault => .fault fault := by
  have hk : (f.spent f.conflicts).conflicts = 0 := Nat.sub_self _
  have hc : (f.spent f.conflicts).nextCommit = f.nextCommit := if_neg (Nat.lt_irrefl _)
  unfold draw
  rw [hk]
  simp only [hc]
  cases f.nextCommit <;> rfl

end Faults

/-- The error of a commit that met a conflict. -/
def serializationFailure : Error :=
  .conflict "COMMIT" (.protocol "could not serialize access due to read/write dependencies")

/-- The error of a commit of which nobody knows whether it was done. -/
def connectionReset : Error := .commit (.transport "connection reset while awaiting commit")

theorem Memory.ask_check_rest (T : Tables) (f : Faults) (p : Party) (now : Nat) (id : Uuid) :
    (Memory.rest T f).ask now p false (.check id) = (Memory.rest T f,
      some (if f.failCheck then .error (.ofQuery "SELECT events" .poolTimedOut)
        else .ok (T.events.has id))) := by
  cases hf : f.failCheck with
  | true => simp [Memory.ask, Memory.start, Memory.rest, hf]
  | false =>
    have hgot : (Memory.rest T f).start now p (.check id) =
        (Memory.taken T f p [] none).resume now p (.check id) := by
      simp [Memory.start, Memory.rest, Memory.taken, hf]
    simp only [Memory.ask, Bool.false_eq_true, if_false, hgot, Memory.resume, Memory.leave_taken]
    simp [Memory.taken]

end Store

namespace Ingest

open Store (serializationFailure connectionReset writesOf)
open Store.Memory (rest taken)

/-! ### The forecast -/

/-- What an ingest comes to. -/
structure Forecast where
  result : Result
  /-- The milliseconds from its start to its result. -/
  lasts : Nat
  /-- The commits that it starts. -/
  commits : Nat
  tables : Tables

/-- An ingest that begins, and what it finds. -/
structure Outset where
  event : Event
  party : Party
  settings : Settings
  start : Nat
  tables : Tables
  faults : Faults

namespace Outset

variable (o : Outset)

/-- How long a commit takes. -/
def delay : Nat := o.faults.commitDelay.getD 0

def ticks : Nat := o.settings.timeout.ticks

def deadline : Nat := o.start + o.ticks

/-- The commits that are started if the deadline leaves time for them. -/
def rounds : Nat := min o.faults.conflicts o.settings.maxRetries + 1

/-- The tables with the event added. -/
def written : Tables := o.tables.apply (writesOf o.event)

/-- What the last commit leads to if all of them end in time. -/
def decision : Result × Tables :=
  if o.settings.maxRetries < o.faults.conflicts then
    (.error (.storage serializationFailure), o.tables)
  else
    match o.faults.nextCommit with
    | none => (.ok .inserted, o.written)
    | some .acknowledgementLost =>
      (if o.faults.failCheck then .error (.storage connectionReset) else .ok .inserted, o.written)
    | some .failedBeforeWrite => (.error (.storage connectionReset), o.tables)

def forecast : Forecast :=
  if o.tables.events.has o.event.eventId then
    { result := .ok .duplicate, lasts := 0, commits := 0, tables := o.tables }
  else if o.ticks < o.rounds * o.delay then
    { result := .error (.timeout o.settings.timeout), lasts := o.ticks
      commits := o.ticks / o.delay + 1, tables := o.tables }
  else
    { result := o.decision.1, lasts := o.rounds * o.delay, commits := o.rounds
      tables := o.decision.2 }

variable {o : Outset} {n : Nat}

/-- The tables do not hold the event. -/
def IsNew (o : Outset) : Prop := o.tables.events.has o.event.eventId = false

theorem forecast_stored (h : o.tables.events.has o.event.eventId = true) : o.forecast =
    { result := .ok .duplicate, lasts := 0, commits := 0, tables := o.tables } := if_pos h

/-- Round `n` is one that is not spared: there are conflicts and retries for all before it, and the
deadline does not come before its start. -/
structure Round (o : Outset) (n : Nat) : Prop where
  stored : o.tables.events.has o.event.eventId = true → n = 0
  conflicts : n ≤ o.faults.conflicts
  retries : n ≤ o.settings.maxRetries
  time : n * o.delay ≤ o.ticks

theorem Round.zero : o.Round 0 := ⟨fun _ => rfl, Nat.zero_le _, Nat.zero_le _, by simp⟩

theorem Round.lt_rounds (h : o.Round n) : n < o.rounds :=
  Nat.lt_succ_of_le (Nat.le_min.2 ⟨h.conflicts, h.retries⟩)

/-- The deadline falls into the round in which a commit does not come to its end. -/
theorem forecast_late (hnew : o.IsNew) (h : o.Round n) (hlt : o.ticks < (n + 1) * o.delay) :
    o.forecast = { result := .error (.timeout o.settings.timeout), lasts := o.ticks
                   commits := n + 1, tables := o.tables } := by
  have hround : (n + 1) * o.delay ≤ o.rounds * o.delay := Nat.mul_le_mul_right _ h.lt_rounds
  have hdiv : o.ticks / o.delay = n := Nat.div_eq_of_lt_le h.time hlt
  unfold forecast
  rw [if_neg (by simp [show _ = false from hnew]), if_pos (Nat.lt_of_lt_of_le hlt hround), hdiv]

theorem forecast_of_rounds (hnew : o.IsNew) (hn : n + 1 = o.rounds)
    (hle : (n + 1) * o.delay ≤ o.ticks) : o.forecast =
      { result := o.decision.1, lasts := (n + 1) * o.delay, commits := n + 1
        tables := o.decision.2 } := by
  unfold forecast
  rw [hn] at hle
  rw [if_neg (by simp [show _ = false from hnew]), if_neg (Nat.not_lt.2 hle), hn]

/-- No retry is left for the conflict of this round. -/
theorem forecast_exhausted (hnew : o.IsNew) (hn : n = o.settings.maxRetries)
    (hk : n < o.faults.conflicts) (hle : (n + 1) * o.delay ≤ o.ticks) : o.forecast =
      { result := .error (.storage serializationFailure), lasts := (n + 1) * o.delay
        commits := n + 1, tables := o.tables } := by
  have hrounds : n + 1 = o.rounds := by unfold rounds; omega
  have hdecision : o.decision = (.error (.storage serializationFailure), o.tables) :=
    if_pos (hn ▸ hk)
  rw [forecast_of_rounds hnew hrounds hle, hdecision]

/-- No conflict is left for this round. -/
theorem forecast_decided (hnew : o.IsNew) (hn : n = o.faults.conflicts)
    (hr : n ≤ o.settings.maxRetries) (hle : (n + 1) * o.delay ≤ o.ticks) : o.forecast =
      { result := o.decision.1, lasts := (n + 1) * o.delay, commits := n + 1
        tables := o.decision.2 } :=
  forecast_of_rounds hnew (by unfold rounds; omega) hle

/-! ### The places on the way -/

/-- The time at which round `n` begins. -/
def time (o : Outset) (n : Nat) : Nat := o.start + n * o.delay

theorem time_succ (o : Outset) (n : Nat) : o.time (n + 1) = o.time n + o.delay := by
  unfold time
  rw [Nat.succ_mul, Nat.add_assoc]

/-- The attempt at a step of its writing, after `n` retries. -/
def run (o : Outset) (step : Step) (n : Nat) (waiting : Bool) : Running :=
  { writing := ⟨o.event, step, n⟩, reserved := true, deadline := o.deadline, waiting }

/-- The store while the commit of round `n` is awaited. -/
def awaiting (o : Outset) (n : Nat) : Memory :=
  taken o.tables (o.faults.spent (n + 1)) o.party (writesOf o.event)
    (some ((o.faults.spent n).draw.1, o.time (n + 1)))

/-- Where an attempt is that has started so many commits, and the store with it. -/
inductive Foreseen (o : Outset) : (commits now : Nat) → Memory → Status → Prop
  | reserving : o.Foreseen 0 (o.time 0) (rest o.tables (o.faults.spent 0)) (.reserving o.event)
  | begin {n : Nat} (h : o.Round n) :
    o.Foreseen n (o.time n) (rest o.tables (o.faults.spent n)) (.running (o.run .begin n false))
  | insert {n : Nat} (h : o.Round n) :
    o.Foreseen n (o.time n) (taken o.tables (o.faults.spent n) o.party [] none)
      (.running (o.run .insert n false))
  | counters {n : Nat} {u : Aggregate.Update} (hu : Aggregate.Update.ofEvent o.event = some u)
    (hnew : o.IsNew) (h : o.Round n) :
    o.Foreseen n (o.time n) (taken o.tables (o.faults.spent n) o.party [.event o.event] none)
      (.running (o.run (.counters u) n false))
  | daily {n : Nat} {u : Aggregate.Update} (hu : Aggregate.Update.ofEvent o.event = some u)
    (hnew : o.IsNew) (h : o.Round n) :
    o.Foreseen n (o.time n)
      (taken o.tables (o.faults.spent n) o.party [.event o.event, .counters u] none)
      (.running (o.run (.daily u) n false))
  | commit {n : Nat} (hnew : o.IsNew) (h : o.Round n) :
    o.Foreseen n (o.time n) (taken o.tables (o.faults.spent n) o.party (writesOf o.event) none)
      (.running (o.run .commit n false))
  | waits {n now : Nat} (hnew : o.IsNew) (h : o.Round n) (hnow : o.time n ≤ now)
    (hdue : now ≤ o.time (n + 1)) (hlate : now ≤ o.deadline) :
    o.Foreseen (n + 1) now (o.awaiting n) (.running (o.run .commit n true))
  | rollback (hid : o.tables.events.has o.event.eventId = true) :
    o.Foreseen 0 (o.time 0) (taken o.tables (o.faults.spent 0) o.party [] none)
      (.running (o.run .rollback 0 false))
  | check {n : Nat} {fault : CommitFault} (hnew : o.IsNew) (hn : n = o.faults.conflicts)
    (hr : n ≤ o.settings.maxRetries) (hle : (n + 1) * o.delay ≤ o.ticks)
    (hc : o.faults.nextCommit = some fault) :
    o.Foreseen (n + 1) (o.time (n + 1)) (rest
        (if (Fate.fault fault).applies then o.written else o.tables) (o.faults.spent (n + 1)))
      (.running (o.run (.check connectionReset) n false))
  | settling {ending : Except Error Written}
    (h : ending.map State.ofWritten = o.forecast.result) :
    o.Foreseen o.forecast.commits (o.start + o.forecast.lasts)
      (rest o.forecast.tables (o.faults.spent o.forecast.commits))
      (.settling o.event true ending)
  | returned {now : Nat} :
    o.Foreseen o.forecast.commits now
      (rest o.forecast.tables (o.faults.spent o.forecast.commits)) (.returned o.forecast.result)

/-- The writing has ended as forecast. -/
theorem Foreseen.ended {x : Forecast} {ending : Except Error Written} (hx : o.forecast = x)
    (h : ending.map State.ofWritten = x.result) :
    o.Foreseen x.commits (o.start + x.lasts) (rest x.tables (o.faults.spent x.commits))
      (.settling o.event true ending) := by
  subst hx
  exact .settling h

end Outset

/-- How many commits an attempt starts with its present call. -/
def Running.commits (r : Running) : Nat :=
  match r.waiting, r.writing.step with
  | false, .commit => 1
  | _, _ => 0

namespace Outset

open Plan (weight distance)

variable {o : Outset} {n c now : Nat} {m m' : Memory} {st : Status} {r : Running}

/-- What a step of an attempt that writes comes to: it goes on, or waits for its commit. -/
inductive Went (o : Outset) (c now : Nat) (m : Memory) (r : Running) :
    Option (Memory × Status) → Prop
  | goes {m' : Memory} {st : Status} (h : o.Foreseen (c + r.commits) now m' st)
    (hlt : weight m' st < weight m (.running r)) : o.Went c now m r (some (m', st))
  | waits {due : Nat} (hdue : m.due? o.party = some due) (hw : r.waiting = true) (hlt : now < due)
    (hd : now < r.deadline) : o.Went c now m r none

/-- An answer that leads on. -/
theorem Went.of_answer {a : Store.Answer}
    (ha : m.ask now o.party r.waiting r.writing.call = (m', some a))
    (hd : r.writing.drops a = false) (hc : r.commits = 0) (h : o.Foreseen c now m' st)
    (hn : r.next o.settings.maxRetries a = st) (hlt : weight m' st < weight m (.running r)) :
    o.Went c now m r (r.turn o.settings now o.party m) := by
  rw [Running.turn_of_answer ha hd, hn]
  refine .goes ?_ hlt
  rwa [hc]

/-- The end of the commit of round `n` leads on: to the next round, to the check, or to the end. -/
def LeadsOn (o : Outset) (n : Nat) (waiting : Bool) (fate : Fate) : Prop :=
  ∃ st, (o.run .commit n waiting).next o.settings.maxRetries fate.answer = st ∧
    o.Foreseen (n + 1) (o.time (n + 1))
      (rest (if fate.applies then o.written else o.tables) (o.faults.spent (n + 1))) st ∧
    10 * (o.faults.spent (n + 1)).conflicts + distance st < 10 * (o.faults.conflicts - n) + 3

theorem conflicts_spent (o : Outset) (n : Nat) :
    (o.faults.spent (n + 1)).conflicts = o.faults.conflicts - (n + 1) := rfl

theorem Round.conflicted (h : o.Round n) (hnew : o.IsNew) (hle : (n + 1) * o.delay ≤ o.ticks)
    (waiting : Bool) (hlt : n < o.faults.conflicts) : o.LeadsOn n waiting .conflict := by
  have hspent := o.conflicts_spent n
  by_cases hr : n < o.settings.maxRetries
  · -- one more round, with one conflict and one retry less
    have hnext : (o.run .commit n waiting).next o.settings.maxRetries (Fate.answer .conflict) =
        .running (o.run .begin (n + 1) false) := by
      simp [Running.next, run, Writing.answered, Writing.failed, Writing.retries?, Fate.answer,
        Store.Error.isConflict, hr]
    have hround : o.Round (n + 1) :=
      ⟨fun hid => Bool.noConfusion (hnew.symm.trans hid), hlt, hr, hle⟩
    refine ⟨_, hnext, .begin hround, ?_⟩
    simp only [distance, run]
    omega
  · have hnext : (o.run .commit n waiting).next o.settings.maxRetries (Fate.answer .conflict) =
        .settling o.event true (.error (.storage serializationFailure)) := by
      simp [Running.next, run, Writing.answered, Writing.failed, Writing.retries?, Fate.answer,
        Store.Error.isConflict, Store.Error.isAmbiguous, hr, serializationFailure]
      rfl
    have hlast := Nat.le_antisymm h.retries (Nat.not_lt.1 hr)
    refine ⟨_, hnext, .ended (forecast_exhausted hnew hlast hlt hle) rfl, ?_⟩
    simp only [distance]
    omega

theorem Round.decided (h : o.Round n) (hnew : o.IsNew) (hle : (n + 1) * o.delay ≤ o.ticks)
    (waiting : Bool) (hn : n = o.faults.conflicts) :
    o.LeadsOn n waiting (o.faults.spent n).draw.1 := by
  have hspent := o.conflicts_spent n
  have hdecided := forecast_decided hnew hn h.retries hle
  rw [hn, Faults.fate_last, ← hn]
  cases hc : o.faults.nextCommit with
  | none =>
    have hresult : o.decision = (.ok .inserted, o.written) := by
      unfold decision
      rw [if_neg (Nat.not_lt.2 (hn ▸ h.retries)), hc]
    have hnext : (o.run .commit n waiting).next o.settings.maxRetries (Fate.answer .stored) =
        .settling o.event true (.ok .inserted) := rfl
    rw [hresult] at hdecided
    exact ⟨_, hnext, .ended hdecided rfl, by simp only [distance]; omega⟩
  | some fault =>
    have hnext : (o.run .commit n waiting).next o.settings.maxRetries (Fate.answer (.fault fault)) =
        .running (o.run (.check connectionReset) n false) := rfl
    exact ⟨_, hnext, .check hnew hn h.retries hle hc, by simp only [distance, run]; omega⟩

theorem Round.answered (h : o.Round n) (hnew : o.IsNew) (hle : (n + 1) * o.delay ≤ o.ticks)
    (waiting : Bool) : o.LeadsOn n waiting (o.faults.spent n).draw.1 := by
  rcases Nat.lt_or_eq_of_le h.conflicts with hlt | hn
  · rw [Faults.fate_of_lt hlt]
    exact h.conflicted hnew hle waiting hlt
  · exact h.decided hnew hle waiting hn

theorem decision_of_fault {fault : CommitFault} (hr : o.faults.conflicts ≤ o.settings.maxRetries)
    (hc : o.faults.nextCommit = some fault) : o.decision =
      (if (Fate.fault fault).applies && !o.faults.failCheck then .ok .inserted
        else .error (.storage connectionReset),
      if (Fate.fault fault).applies then o.written else o.tables) := by
  unfold decision
  rw [if_neg (Nat.not_lt.2 hr), hc]
  cases fault <;> cases o.faults.failCheck <;> rfl

/-- The check after a commit that may have been done leads to the end. -/
theorem checked {fault : CommitFault} (hnew : o.IsNew) (hn : n = o.faults.conflicts)
    (hr : n ≤ o.settings.maxRetries) (hle : (n + 1) * o.delay ≤ o.ticks)
    (hc : o.faults.nextCommit = some fault) :
    o.Went (n + 1) (o.time (n + 1)) (rest
        (if (Fate.fault fault).applies then o.written else o.tables) (o.faults.spent (n + 1)))
      (o.run (.check connectionReset) n false)
      ((o.run (.check connectionReset) n false).turn o.settings (o.time (n + 1)) o.party (rest
        (if (Fate.fault fault).applies then o.written else o.tables) (o.faults.spent (n + 1)))) := by
  have hdecided := forecast_decided hnew hn hr hle
  rw [decision_of_fault (hn ▸ hr) hc] at hdecided
  have hstored : o.written.events.has o.event.eventId = true := by
    rw [written, Tables.has_writesOf]
    simp
  have hhas : (if (Fate.fault fault).applies then o.written else o.tables).events.has
      o.event.eventId = (Fate.fault fault).applies := by
    cases (Fate.fault fault).applies with
    | true => exact hstored
    | false => exact hnew
  have hask := Store.Memory.ask_check_rest
    (if (Fate.fault fault).applies then o.written else o.tables)
    (o.faults.spent (n + 1)) o.party (o.time (n + 1)) o.event.eventId
  rw [hhas, show (o.faults.spent (n + 1)).failCheck = o.faults.failCheck from rfl] at hask
  -- only a check that works and finds the event makes a success of it
  obtain ⟨ending, hnext, hend⟩ : ∃ ending : Except Error Written,
      (o.run (.check connectionReset) n false).next o.settings.maxRetries
        (if o.faults.failCheck then .error (.ofQuery "SELECT events" .poolTimedOut)
          else .ok (Fate.fault fault).applies) = .settling o.event true ending ∧
      ending.map State.ofWritten =
        if (Fate.fault fault).applies && !o.faults.failCheck then .ok .inserted
        else .error (.storage connectionReset) := by
    cases (Fate.fault fault).applies <;> cases o.faults.failCheck <;> exact ⟨_, rfl, rfl⟩
  exact .of_answer hask rfl rfl (.ended hdecided hend) hnext (by simp [distance, run])

theorem ask_awaiting (o : Outset) (n now : Nat) : (o.awaiting n).ask now o.party true .commit =
    if o.time (n + 1) ≤ now then
      (rest (if (o.faults.spent n).draw.1.applies then o.written else o.tables)
        (o.faults.spent (n + 1)), some (o.faults.spent n).draw.1.answer)
    else (o.awaiting n, none) := Store.Memory.ask_commit_waiting ..

theorem weight_awaiting (o : Outset) (n : Nat) : weight (o.awaiting n) st =
    10 * (o.faults.conflicts - n) + distance st := by
  have hdrawn := Plan.conflicts_draw (o.faults.spent n)
  rw [Faults.draw_spent] at hdrawn
  have hahead : Plan.conflictsAhead (o.awaiting n) = o.faults.conflicts - n := by
    rw [show o.faults.conflicts - n = (o.faults.spent n).conflicts from rfl, ← hdrawn]
    simp [Plan.conflictsAhead, awaiting, taken]
  rw [weight, hahead]

/-- A step of an attempt that commits, or waits for its commit: if the commit has come to its end
that leads on, else the deadline may have come. -/
theorem Round.went_commit (h : o.Round n) (hnew : o.IsNew) (hnow : o.time n ≤ now)
    (hdue : now ≤ o.time (n + 1)) (hlate : now ≤ o.deadline) {waiting : Bool}
    (hask : m.ask now o.party waiting .commit = (o.awaiting n).ask now o.party true .commit)
    (hc : c + (o.run .commit n waiting).commits = n + 1)
    (hwait : if waiting then m = o.awaiting n
      else weight (o.awaiting n) (.running (o.run .commit n true)) <
        weight m (.running (o.run .commit n waiting))) :
    o.Went c now m (o.run .commit n waiting)
      ((o.run .commit n waiting).turn o.settings now o.party m) := by
  have hr : m.ask now o.party (o.run .commit n waiting).waiting
      (o.run .commit n waiting).writing.call = _ := hask.trans (o.ask_awaiting n now)
  have hm : 10 * (o.faults.conflicts - n) + 3 ≤ weight m (.running (o.run .commit n waiting)) := by
    have hsame : weight (o.awaiting n) (.running (o.run .commit n true)) =
        10 * (o.faults.conflicts - n) + 3 := weight_awaiting o n
    rw [← hsame]
    cases waiting with
    | true => exact Nat.le_of_eq (congrArg (weight · _) (Eq.symm hwait))
    | false => exact Nat.le_of_lt hwait
  by_cases hend : o.time (n + 1) ≤ now
  · -- the commit has come to its end in time
    obtain rfl : now = o.time (n + 1) := Nat.le_antisymm hdue hend
    have hle : (n + 1) * o.delay ≤ o.ticks := Nat.add_le_add_iff_left.1 hlate
    obtain ⟨st, hnext, hst, hlt⟩ := h.answered hnew hle waiting
    rw [if_pos hend] at hr
    rw [Running.turn_of_answer hr rfl, hnext]
    refine .goes (hc ▸ hst) (Nat.lt_of_lt_of_le ?_ hm)
    exact hlt
  · rw [if_neg hend] at hr
    rw [Running.turn_of_none hr]
    by_cases hd : o.deadline ≤ now
    · -- the deadline has come first
      obtain rfl : now = o.deadline := Nat.le_antisymm hlate hd
      have hlt : o.ticks < (n + 1) * o.delay :=
        Nat.add_lt_add_iff_left.1 (Nat.lt_of_not_le hend)
      rw [if_pos (show (o.run .commit n waiting).deadline ≤ o.deadline from hd)]
      have hleft : (o.awaiting n).leave o.party = rest o.tables (o.faults.spent (n + 1)) :=
        Store.Memory.leave_taken _
      rw [hleft]
      refine .goes (hc ▸ .ended (forecast_late hnew h hlt) rfl) (Nat.lt_of_lt_of_le ?_ hm)
      simp only [Plan.weight_rest, distance]
      have hspent := o.conflicts_spent n
      omega
    · rw [if_neg (show ¬(o.run .commit n waiting).deadline ≤ now from hd)]
      cases waiting with
      | true =>
        rw [if_pos (show (o.run .commit n true).waiting = true from rfl)]
        obtain rfl : m = o.awaiting n := hwait
        exact .waits (by simp [Memory.due?, awaiting, taken]) rfl (Nat.lt_of_not_le hend)
          (Nat.lt_of_not_le hd)
      | false =>
        rw [if_neg (show ¬(o.run .commit n false).waiting = true from Bool.false_ne_true)]
        exact .goes (hc ▸ .waits hnew h hnow hdue hlate) hwait

theorem Round.went_insert (h : o.Round n) : o.Went n (o.time n)
    (taken o.tables (o.faults.spent n) o.party [] none) (o.run .insert n false)
    ((o.run .insert n false).turn o.settings (o.time n) o.party
      (taken o.tables (o.faults.spent n) o.party [] none)) := by
  cases hid : o.tables.events.has o.event.eventId with
  | true =>
    obtain rfl := h.stored hid
    have hnext : (o.run .insert 0 false).next o.settings.maxRetries (.ok false) =
        .running (o.run .rollback 0 false) := rfl
    exact .of_answer (Store.Memory.ask_insert_stored hid) rfl rfl (.rollback hid) hnext
      (by simp [distance, run])
  | false =>
    have hnext : (o.run .insert n false).next o.settings.maxRetries (.ok true) =
        .running (o.run (Writing.rowsStep o.event) n false) := rfl
    cases hu : Aggregate.Update.ofEvent o.event with
    | some u =>
      have hstep : Writing.rowsStep o.event = .counters u := by simp [Writing.rowsStep, hu]
      rw [hstep] at hnext
      exact .of_answer (Store.Memory.ask_insert_new hid) rfl rfl (.counters hu hid h) hnext
        (by simp [distance, run])
    | none =>
      have hstep : Writing.rowsStep o.event = .commit := by simp [Writing.rowsStep, hu]
      have hws : writesOf o.event = [.event o.event] := by simp only [writesOf, hu]
      have hcommit := Foreseen.commit hid h
      rw [hstep] at hnext
      rw [hws] at hcommit
      exact .of_answer (Store.Memory.ask_insert_new hid) rfl rfl hcommit hnext
        (by simp [distance, run])

/-- An attempt that writes goes on as foreseen, or waits for its commit. -/
theorem Foreseen.went (h : o.Foreseen c now m (.running r)) (hbegin : o.faults.failBegin = false) :
    o.Went c now m r (r.turn o.settings now o.party m) := by
  cases h with
  | begin h =>
    exact .of_answer (Store.Memory.ask_begin_rest hbegin) rfl rfl (.insert h) rfl
      (by simp [distance, run])
  | insert h => exact h.went_insert
  | counters hu hnew h =>
    exact .of_answer (Store.Memory.ask_counters_taken _) rfl rfl (.daily hu hnew h) rfl
      (by simp [distance, run])
  | @daily _ u hu hnew h =>
    have hask : (taken o.tables (o.faults.spent c) o.party [.event o.event, .counters u] none).ask
        (o.time c) o.party false (.daily u) = _ := Store.Memory.ask_daily_taken u
    have hws : [Store.Write.event o.event, .counters u] ++ [.daily u] = writesOf o.event := by
      simp only [writesOf, hu]
      rfl
    rw [hws] at hask
    exact .of_answer hask rfl rfl (.commit hnew h) rfl (by simp [distance, run])
  | commit hnew h =>
    have hask : (taken o.tables (o.faults.spent c) o.party (writesOf o.event) none).ask (o.time c)
        o.party false .commit = (o.awaiting c).ask (o.time c) o.party true .commit := by
      rw [Store.Memory.ask_commit_taken, awaiting, Faults.draw_spent, time_succ]
      rfl
    refine h.went_commit hnew (Nat.le_refl _) ?_ (Nat.add_le_add_left h.time _) hask rfl ?_
    · rw [time_succ]
      exact Nat.le_add_right ..
    · rw [weight_awaiting]
      exact Nat.lt_succ_self _
  | waits hnew h hnow hdue hlate => exact h.went_commit hnew hnow hdue hlate rfl rfl rfl
  | rollback hid =>
    have hresult : (Except.ok .alreadyStored : Except Error Written).map State.ofWritten =
      .ok .duplicate := rfl
    have hend := Foreseen.ended (forecast_stored hid) hresult
    rw [show o.start + 0 = o.time 0 by simp [time]] at hend
    exact .of_answer Store.Memory.ask_rollback_taken rfl rfl hend rfl (by simp [distance, run])
  | check hnew hn hr hle hc => exact checked hnew hn hr hle hc

/-! ### Places without a call -/

section places

variable {event : Event} {reserved : Bool} {ending : Except Error Written} {result : Result}

theorem time_zero (o : Outset) : o.time 0 = o.start := by simp [time]

theorem Foreseen.of_reserving (h : o.Foreseen c now m (.reserving event)) :
    event = o.event ∧ c = 0 ∧ now = o.start ∧ m = rest o.tables o.faults := by
  cases h
  exact ⟨rfl, rfl, o.time_zero, by rw [Faults.spent_zero]⟩

theorem Foreseen.of_settling (h : o.Foreseen c now m (.settling event reserved ending)) :
    event = o.event ∧ ending.map State.ofWritten = o.forecast.result ∧ c = o.forecast.commits ∧
      now = o.start + o.forecast.lasts ∧
      m = rest o.forecast.tables (o.faults.spent o.forecast.commits) := by
  cases h
  next hend => exact ⟨rfl, hend, rfl, rfl, rfl⟩

theorem Foreseen.of_returned (h : o.Foreseen c now m (.returned result)) :
    result = o.forecast.result := by
  cases h
  rfl

/-- Time does not change the place of an attempt that waits or has returned. -/
theorem Foreseen.elapse {ms : Nat} (h : o.Foreseen c now m st)
    (hst : (∃ result, st = .returned result) ∨ ∃ r, st = .running r ∧ r.waiting = true ∧
      now + ms ≤ r.deadline ∧ ∀ due, m.due? o.party = some due → now + ms ≤ due) :
    o.Foreseen c (now + ms) m st := by
  rcases hst with ⟨result, rfl⟩ | ⟨r, rfl, hw, hd, hdue⟩
  · cases h
    exact .returned
  · cases h with
    | waits hnew h hnow _ _ =>
      refine .waits hnew h (Nat.le_trans hnow (Nat.le_add_right ..)) (hdue _ ?_) hd
      simp [Memory.due?, awaiting, taken]
    | begin | insert | counters | daily | commit | rollback | check => cases hw

end places

end Outset

end Ingest

end Intake
