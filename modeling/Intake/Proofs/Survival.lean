import Intake.Proofs.Standing

/-!
# Faults that a writing survives

An attempt that has the store in memory to itself takes the same way every time, and the faults that
are set decide where the way ends. It leads to success if `begin` works, no more commits conflict
than are run again, and the commit after them is stored, with a check that makes up for a lost
acknowledgement (`Plan.Passes`). An event that is already stored needs `begin` only.

`Plan.OnTrack` lists the places on the way, each with the store as it is there and with what is left
of the faults. A step leads from one place to another that is nearer to the end (`Plan.weight`:
every conflict that is left costs one more round). Only the deadline can cut the way short, while a
commit is awaited (`Plan.Turned`). In a timely plan it does not: the delays of the commits to come
fit in before the deadline, and no time passes except while a commit is awaited.

Everything is proved of `Running.turn`, which is `State.proceed` as the store in memory and the one
attempt see it (`State.proceed_turn`).
-/

namespace Intake

open Store (Party Call Memory Tables Faults Fate CommitFault)

namespace Store.Memory

variable {m : Memory} {T : Tables} {f : Faults} {p : Party} {ws : List Write} {now : Nat}

/-- The store while nobody has the tables. -/
def rest (T : Tables) (f : Faults) : Memory := { tables := T, faults := f }

/-- The store while `p` has the tables and nobody waits for them. -/
def taken (T : Tables) (f : Faults) (p : Party) (ws : List Write)
    (committing : Option (Fate × Nat)) : Memory :=
  { tables := T, lock := ⟨some p, []⟩, staged := ws, committing, faults := f }

theorem Sound.eq_rest (h : m.Sound) (hfree : m.lock.holder = none) :
    m = rest m.tables m.faults := by
  obtain ⟨hs, hc⟩ := h.idle hfree
  have hw := h.order hfree
  obtain ⟨T, ⟨holder, waiting⟩, ws, c, f⟩ := m
  cases hfree
  cases hs
  cases hc
  cases hw
  rfl

@[simp] theorem leave_taken (c : Option (Fate × Nat)) : (taken T f p ws c).leave p = rest T f := by
  simp [leave, taken, rest, Lock.leave, Lock.free]

@[simp] theorem settle_taken (c : Option (Fate × Nat)) (fate : Fate) :
    (taken T f p ws c).settle p fate = rest (if fate.applies then T.apply ws else T) f := by
  simp only [settle, leave_taken, Tables.replay_eq_apply]
  rfl

/-! ### Calls of a party that nobody disturbs -/

theorem ask_begin_rest (hf : f.failBegin = false) :
    (rest T f).ask now p false .begin = (taken T f p [] none, some (.ok true)) := by
  simp [ask, start, resume, rest, taken, hf]

theorem ask_insert_stored {e : Event} (h : T.events.has e.eventId = true) :
    (taken T f p [] none).ask now p false (.insert e) =
      (taken T f p [] none, some (.ok false)) := by
  simp [ask, start, knows, taken, h]

theorem ask_insert_new {e : Event} (h : T.events.has e.eventId = false) :
    (taken T f p [] none).ask now p false (.insert e) =
      (taken T f p [.event e] none, some (.ok true)) := by
  simp [ask, start, knows, taken, h]

theorem ask_counters_taken (u : Aggregate.Update) :
    (taken T f p ws none).ask now p false (.counters u) =
      (taken T f p (ws ++ [.counters u]) none, some (.ok true)) := rfl

theorem ask_daily_taken (u : Aggregate.Update) :
    (taken T f p ws none).ask now p false (.daily u) =
      (taken T f p (ws ++ [.daily u]) none, some (.ok true)) := rfl

theorem ask_rollback_taken :
    (taken T f p ws none).ask now p false .rollback = (rest T f, some (.ok true)) := by
  simp [ask, start]

theorem ask_check_stored {id : Uuid} (hf : f.failCheck = false) (h : T.events.has id = true) :
    (rest T f).ask now p false (.check id) = (rest T f, some (.ok true)) := by
  have hgot : (rest T f).start now p (.check id) =
      (taken T f p [] none).resume now p (.check id) := by
    simp [start, rest, taken, hf]
  simp only [ask, Bool.false_eq_true, if_false, hgot, resume, leave_taken]
  simp [taken, h]

/-- A commit under way comes to the end that its fate says, once its time has come. -/
theorem ask_commit_waiting (fate : Fate) (due : Nat) :
    (taken T f p ws (some (fate, due))).ask now p true .commit =
      if due ≤ now then (rest (if fate.applies then T.apply ws else T) f, some fate.answer)
      else (taken T f p ws (some (fate, due)), none) := by
  have hgot : (taken T f p ws (some (fate, due))).ask now p true .commit =
      if due ≤ now then ((taken T f p ws (some (fate, due))).settle p fate, some fate.answer)
      else (taken T f p ws (some (fate, due)), none) := rfl
  rw [hgot, settle_taken]

/-- A commit that is made now is one under way with the fate that is drawn. -/
theorem ask_commit_taken : (taken T f p ws none).ask now p false .commit =
    (taken T f.draw.2 p ws (some (f.draw.1, now + f.commitDelay.getD 0))).ask now p true .commit :=
  rfl

end Store.Memory

namespace Ingest

open Store.Memory (rest taken)

/-! ### Turns of an attempt over a store in memory -/

/-- What a step of an attempt that writes makes of the store in memory and of the attempt. There is
no step if the attempt waits already and goes on waiting. -/
def Running.turn (r : Running) (settings : Settings) (now : Nat) (p : Party) (m : Memory) :
    Option (Memory × Status) :=
  match m.ask now p r.waiting r.writing.call with
  | (m', some a) =>
    some (if r.writing.drops a then m'.leave p else m', r.next settings.maxRetries a)
  | (m', none) =>
    if r.deadline ≤ now then
      some (m'.leave p,
        .settling r.writing.event r.reserved (.error (.timeout settings.timeout)))
    else if r.waiting then none
    else some (m', .running { r with waiting := true })

theorem State.proceed_turn {s : State} {i : Nat} {r : Running} {m : Memory}
    (hst : s.store = .memory m) (hi : s.status? i = some (.running r)) :
    (s.proceed i r).map (fun t => (t.store, t.status? i, t.now)) =
      (r.turn s.settings s.now (.attempt i) m).map fun x => (.memory x.1, some x.2, s.now) := by
  have hstore := store_ask hst (.attempt i) r.waiting r.writing.call
  have hans := answer_ask hst (.attempt i) r.waiting r.writing.call
  unfold proceed Running.turn
  rcases hm : m.ask s.now (.attempt i) r.waiting r.writing.call with ⟨m', _ | a⟩
  · rw [hm] at hstore hans
    simp only [hans]
    split
    · rw [Option.map_some, Option.map_some, status?_expire_self hi]
      simp [expire, hstore, Store.leave]
    · split
      · rfl
      · rw [Option.map_some, Option.map_some, status?_ask_self hi]
        simp [hstore]
  · rw [hm] at hstore hans
    simp only [hans]
    rw [Option.map_some, Option.map_some, status?_answer_self hi, store_answer, hstore, now_answer,
      now_ask]
    split <;> rfl

/-! ### The way of a writing that succeeds -/

/-- What an attempt by itself writes, and under which conditions. If `timely` holds its deadline is
met; in any case the deadline is not before `limit`. -/
structure Plan where
  event : Event
  party : Party
  settings : Settings
  timely : Prop
  limit : Nat

namespace Plan

variable {P : Plan} {now now' : Nat} {T : Tables} {f : Faults} {n d d' due : Nat} {m : Memory}
  {st : Status} {fate : Fate}

/-- The attempt at a step of its writing, after `n` retries and with deadline `d`. -/
def run (P : Plan) (step : Step) (n d : Nat) (waiting : Bool) : Running :=
  { writing := ⟨P.event, step, n⟩, reserved := true, deadline := d, waiting }

/-- A transaction for a new event succeeds in the end if it begins or goes on now: the faults that
are left are covered by the retries that are left and by the deadline `d`. -/
structure Passes (P : Plan) (now : Nat) (f : Faults) (n d : Nat) : Prop where
  begins : f.failBegin = false
  late : P.limit ≤ d
  retries : n + f.conflicts ≤ P.settings.maxRetries
  commit : f.nextCommit = none ∨ f.nextCommit = some .acknowledgementLost ∧ f.failCheck = false
  time : P.timely → now + (f.conflicts + 1) * f.commitDelay.getD 0 ≤ d

/-- The end of a commit under way is one after which the writing succeeds. -/
def Promises (P : Plan) (due : Nat) (f : Faults) (n d : Nat) : Fate → Prop
  | .stored => True
  | .conflict => n < P.settings.maxRetries ∧ P.Passes due f (n + 1) d
  | .fault .acknowledgementLost => f.failCheck = false
  | .fault .failedBeforeWrite => False

/-- Where an attempt is that will succeed, and the store with it. -/
inductive OnTrack (P : Plan) (now : Nat) : Memory → Status → Prop
  | reserving {T : Tables} {f : Faults}
    (h : T.events.has P.event.eventId = true ∧ f.failBegin = false ∨
      T.events.has P.event.eventId = false ∧ P.Passes now f 0 (now + P.settings.timeout.ticks)) :
    P.OnTrack now (rest T f) (.reserving P.event)
  | begin {T : Tables} {f : Faults} {n d : Nat}
    (h : T.events.has P.event.eventId = true ∧ f.failBegin = false ∨
      T.events.has P.event.eventId = false ∧ P.Passes now f n d) :
    P.OnTrack now (rest T f) (.running (P.run .begin n d false))
  | insert {T : Tables} {f : Faults} {n d : Nat}
    (h : T.events.has P.event.eventId = true ∨
      T.events.has P.event.eventId = false ∧ P.Passes now f n d) :
    P.OnTrack now (taken T f P.party [] none) (.running (P.run .insert n d false))
  | counters {T : Tables} {f : Faults} {n d : Nat} {u : Aggregate.Update}
    (hu : Aggregate.Update.ofEvent P.event = some u)
    (hnew : T.events.has P.event.eventId = false) (h : P.Passes now f n d) :
    P.OnTrack now (taken T f P.party [.event P.event] none)
      (.running (P.run (.counters u) n d false))
  | daily {T : Tables} {f : Faults} {n d : Nat} {u : Aggregate.Update}
    (hu : Aggregate.Update.ofEvent P.event = some u)
    (hnew : T.events.has P.event.eventId = false) (h : P.Passes now f n d) :
    P.OnTrack now (taken T f P.party [.event P.event, .counters u] none)
      (.running (P.run (.daily u) n d false))
  | commit {T : Tables} {f : Faults} {n d : Nat}
    (hnew : T.events.has P.event.eventId = false) (h : P.Passes now f n d) :
    P.OnTrack now (taken T f P.party (Store.writesOf P.event) none)
      (.running (P.run .commit n d false))
  | waits {T : Tables} {f : Faults} {n d due : Nat} {fate : Fate}
    (hnew : T.events.has P.event.eventId = false) (hd : P.limit ≤ d)
    (ht : P.timely → now ≤ due ∧ due ≤ d) (h : P.Promises due f n d fate) :
    P.OnTrack now (taken T f P.party (Store.writesOf P.event) (some (fate, due)))
      (.running (P.run .commit n d true))
  | rollback {T : Tables} {f : Faults} {n d : Nat}
    (hid : T.events.has P.event.eventId = true) :
    P.OnTrack now (taken T f P.party [] none) (.running (P.run .rollback n d false))
  | check {T : Tables} {f : Faults} {n d : Nat} {x : Store.Error} (hc : f.failCheck = false)
    (hid : T.events.has P.event.eventId = true) :
    P.OnTrack now (rest T f) (.running (P.run (.check x) n d false))
  | settling {m : Memory} {w : Written} : P.OnTrack now m (.settling P.event true (.ok w))
  | returned {m : Memory} {o : Outcome} : P.OnTrack now m (.returned (.ok o))

theorem Passes.mono (h : P.Passes now f n d) (hd : d ≤ d') (ht : P.timely → now' ≤ now) :
    P.Passes now' f n d' := by
  refine ⟨h.begins, Nat.le_trans h.late hd, h.retries, h.commit, fun hp => ?_⟩
  have hle := ht hp
  have htime := h.time hp
  omega

/-- A commit that is made now draws a fate after which the writing succeeds. -/
theorem Passes.draw (h : P.Passes now f n d) :
    P.Promises (now + f.commitDelay.getD 0) f.draw.2 n d f.draw.1 := by
  unfold Faults.draw
  cases hk : f.conflicts with
  | succ k =>
    have hretries := h.retries
    refine ⟨by omega, h.begins, h.late, ?_, h.commit, fun hp => ?_⟩
    · show n + 1 + k ≤ P.settings.maxRetries
      omega
    · have htime := h.time hp
      rw [hk, Nat.succ_mul] at htime
      show now + f.commitDelay.getD 0 + (k + 1) * f.commitDelay.getD 0 ≤ d
      omega
  | zero =>
    rcases h.commit with hc | ⟨hc, hcheck⟩
    · simp only [hc]
      trivial
    · simp only [hc]
      exact hcheck

/-- The commits that will meet a conflict. -/
def conflictsAhead (m : Memory) : Nat :=
  m.faults.conflicts + if m.committing.any (·.1 = .conflict) then 1 else 0

/-- How far the end of the transaction is, if it meets no conflict. -/
def distance : Status → Nat
  | .reserving _ => 9
  | .running r =>
    match r.writing.step with
    | .begin => 8
    | .insert => 7
    | .counters _ => 6
    | .daily _ => 5
    | .commit => if r.waiting then 3 else 4
    | .rollback | .check _ => 2
  | .settling .. => 1
  | .returned _ | .cancelled => 0

/-- A number that every step of an attempt on its way lowers. -/
def weight (m : Memory) (st : Status) : Nat := 10 * conflictsAhead m + distance st

@[simp] theorem weight_rest : weight (rest T f) st = 10 * f.conflicts + distance st := rfl

@[simp] theorem weight_taken {p : Party} {ws : List Store.Write} :
    weight (taken T f p ws none) st = 10 * f.conflicts + distance st := rfl

/-- What a step of an attempt on its way comes to: it goes on, is cut off by its deadline, or waits
for its commit. -/
inductive Turned (P : Plan) (now : Nat) (m : Memory) (r : Running) : Option (Memory × Status) → Prop
  | goes {m' : Memory} {st : Status} (h : P.OnTrack now m' st)
    (hlt : weight m' st < weight m (.running r)) : P.Turned now m r (some (m', st))
  | late {m' : Memory} (hl : P.limit ≤ now) (ht : ¬P.timely) :
    P.Turned now m r
      (some (m', .settling P.event true (.error (.timeout P.settings.timeout))))
  | waits {due : Nat} (hdue : m.due? P.party = some due) (hlt : now < due)
    (ht : P.timely → due ≤ r.deadline) (hw : r.waiting = true) : P.Turned now m r none

end Plan

theorem Running.turn_of_answer {r : Running} {settings : Settings} {now : Nat} {p : Party}
    {m m' : Memory} {a : Store.Answer}
    (ha : m.ask now p r.waiting r.writing.call = (m', some a)) (hd : r.writing.drops a = false) :
    r.turn settings now p m = some (m', r.next settings.maxRetries a) := by
  simp [turn, ha, hd]

theorem Running.turn_of_none {r : Running} {settings : Settings} {now : Nat} {p : Party}
    {m m' : Memory} (ha : m.ask now p r.waiting r.writing.call = (m', none)) :
    r.turn settings now p m =
      if r.deadline ≤ now then
        some (m'.leave p,
          .settling r.writing.event r.reserved (.error (.timeout settings.timeout)))
      else if r.waiting then none
      else some (m', .running { r with waiting := true }) := by
  simp [turn, ha]

namespace Plan

variable {P : Plan} {now : Nat} {T : Tables} {f : Faults} {n d due : Nat} {m m' : Memory}
  {st : Status} {fate : Fate} {r : Running}

/-- The end of a commit leads on. -/
theorem Promises.next (h : P.Promises due f n d fate)
    (ht : P.timely → now ≤ due) (hnew : T.events.has P.event.eventId = false) (waiting : Bool) :
    P.OnTrack now (rest (if fate.applies then T.apply (Store.writesOf P.event) else T) f)
        ((P.run .commit n d waiting).next P.settings.maxRetries fate.answer) ∧
      weight (rest (if fate.applies then T.apply (Store.writesOf P.event) else T) f)
          ((P.run .commit n d waiting).next P.settings.maxRetries fate.answer) <
        10 * (f.conflicts + if fate = .conflict then 1 else 0) + 3 := by
  have hstored : (T.apply (Store.writesOf P.event)).events.has P.event.eventId = true := by
    rw [Tables.has_writesOf]
    simp
  rcases fate with _ | _ | _ | _
  · have hnext : (P.run .commit n d waiting).next P.settings.maxRetries (Fate.answer .stored) =
        .settling P.event true (.ok .inserted) := rfl
    rw [hnext]
    exact ⟨.settling, by simp [distance]⟩
  · -- the round that begins anew weighs more, the conflict that is used up makes up for it
    obtain ⟨hn, hp⟩ := h
    have hnext : (P.run .commit n d waiting).next P.settings.maxRetries (Fate.answer .conflict) =
        .running (P.run .begin (n + 1) d false) := by
      simp [Running.next, run, Writing.answered, Writing.failed, Writing.retries?, Fate.answer,
        Store.Error.isConflict, hn]
    rw [hnext]
    refine ⟨.begin (.inr ⟨hnew, hp.mono (Nat.le_refl d) ht⟩), ?_⟩
    simp [distance, run]
    omega
  · have hnext : ∃ x, (P.run .commit n d waiting).next P.settings.maxRetries
        (Fate.answer (.fault .acknowledgementLost)) = .running (P.run (.check x) n d false) :=
      ⟨_, rfl⟩
    obtain ⟨x, hnext⟩ := hnext
    rw [hnext]
    exact ⟨.check h hstored, by simp [distance, run]⟩
  · exact h.elim

theorem turned_waits (hnew : T.events.has P.event.eventId = false) (hd : P.limit ≤ d)
    (ht : P.timely → now ≤ due ∧ due ≤ d) (h : P.Promises due f n d fate) :
    P.Turned now (taken T f P.party (Store.writesOf P.event) (some (fate, due)))
      (P.run .commit n d true) ((P.run .commit n d true).turn P.settings now P.party
        (taken T f P.party (Store.writesOf P.event) (some (fate, due)))) := by
  have hask : (taken T f P.party (Store.writesOf P.event) (some (fate, due))).ask now P.party
      (P.run .commit n d true).waiting (P.run .commit n d true).writing.call = _ :=
    Store.Memory.ask_commit_waiting fate due
  by_cases hdue : due ≤ now
  · rw [if_pos hdue] at hask
    rw [Running.turn_of_answer hask rfl]
    obtain ⟨hnext, hlt⟩ := h.next (fun hp => (ht hp).1) hnew true
    refine .goes hnext ?_
    have hweight : weight (taken T f P.party (Store.writesOf P.event) (some (fate, due)))
        (.running (P.run .commit n d true)) =
          10 * (f.conflicts + if fate = .conflict then 1 else 0) + 3 := by
      simp [weight, conflictsAhead, taken, distance, run]
    rw [hweight]
    exact hlt
  · rw [if_neg hdue] at hask
    rw [Running.turn_of_none hask]
    by_cases hlate : d ≤ now
    · rw [if_pos (show (P.run .commit n d true).deadline ≤ now from hlate)]
      refine .late (Nat.le_trans hd hlate) fun hp => hdue ?_
      exact Nat.le_trans (ht hp).2 hlate
    · rw [if_neg (show ¬(P.run .commit n d true).deadline ≤ now from hlate),
        if_pos (show (P.run .commit n d true).waiting = true from rfl)]
      exact .waits (by simp [Store.Memory.due?, taken]) (Nat.lt_of_not_le hdue)
        (fun hp => (ht hp).2) rfl

theorem conflicts_draw (f : Faults) :
    f.draw.2.conflicts + (if f.draw.1 = .conflict then 1 else 0) = f.conflicts := by
  unfold Faults.draw
  cases hk : f.conflicts with
  | succ k => rfl
  | zero =>
    cases hc : f.nextCommit with
    | some fault => rfl
    | none => simp [hk]

theorem Passes.due_le (h : P.Passes now f n d) (hp : P.timely) :
    now + f.commitDelay.getD 0 ≤ d := by
  have hone : f.commitDelay.getD 0 ≤ (f.conflicts + 1) * f.commitDelay.getD 0 :=
    Nat.le_mul_of_pos_left _ (Nat.succ_pos _)
  have htime := h.time hp
  omega

theorem turned_commit (hnew : T.events.has P.event.eventId = false) (h : P.Passes now f n d) :
    P.Turned now (taken T f P.party (Store.writesOf P.event) none) (P.run .commit n d false)
      ((P.run .commit n d false).turn P.settings now P.party
        (taken T f P.party (Store.writesOf P.event) none)) := by
  -- to commit is to draw a fate and to wait for it, perhaps for no time at all
  have hask : (taken T f P.party (Store.writesOf P.event) none).ask now P.party
      (P.run .commit n d false).waiting (P.run .commit n d false).writing.call = _ :=
    Store.Memory.ask_commit_taken.trans (Store.Memory.ask_commit_waiting f.draw.1 _)
  have hdrawn := conflicts_draw f
  by_cases hdue : now + f.commitDelay.getD 0 ≤ now
  · rw [if_pos hdue] at hask
    rw [Running.turn_of_answer hask rfl]
    obtain ⟨hnext, hlt⟩ := h.draw.next (fun _ => Nat.le_add_right ..) hnew false
    rw [hdrawn] at hlt
    exact .goes hnext (Nat.lt_succ_of_lt hlt)
  · rw [if_neg hdue] at hask
    rw [Running.turn_of_none hask]
    by_cases hlate : d ≤ now
    · rw [if_pos (show (P.run .commit n d false).deadline ≤ now from hlate)]
      exact .late (Nat.le_trans h.late hlate) fun hp =>
        hdue (Nat.le_trans (h.due_le hp) hlate)
    · rw [if_neg (show ¬(P.run .commit n d false).deadline ≤ now from hlate),
        if_neg (show ¬(P.run .commit n d false).waiting = true from Bool.false_ne_true)]
      refine .goes (.waits hnew h.late (fun hp => ⟨Nat.le_add_right .., h.due_le hp⟩) h.draw) ?_
      rw [weight_taken]
      simp only [weight, conflictsAhead, taken, distance, run]
      simp [hdrawn]

/-- An answer that leads on. -/
theorem Turned.of_answer {a : Store.Answer}
    (ha : m.ask now P.party r.waiting r.writing.call = (m', some a))
    (hd : r.writing.drops a = false) (h : P.OnTrack now m' st)
    (hn : r.next P.settings.maxRetries a = st) (hlt : weight m' st < weight m (.running r)) :
    P.Turned now m r (r.turn P.settings now P.party m) := by
  rw [Running.turn_of_answer ha hd, hn]
  exact .goes h hlt

/-- An attempt on its way stays on it, if its deadline does not come first. -/
theorem OnTrack.turned (h : P.OnTrack now m (.running r)) :
    P.Turned now m r (r.turn P.settings now P.party m) := by
  cases h with
  | begin h =>
    rcases h with ⟨hid, hf⟩ | ⟨hnew, hp⟩
    · exact .of_answer (Store.Memory.ask_begin_rest hf) rfl (.insert (.inl hid)) rfl
        (by simp [distance, run])
    · exact .of_answer (Store.Memory.ask_begin_rest hp.begins) rfl (.insert (.inr ⟨hnew, hp⟩)) rfl
        (by simp [distance, run])
  | @insert T f n d h =>
    rcases h with hid | ⟨hnew, hp⟩
    · exact .of_answer (Store.Memory.ask_insert_stored hid) rfl (.rollback hid) rfl
        (by simp [distance, run])
    · have hnext : (P.run .insert n d false).next P.settings.maxRetries (.ok true) =
          .running (P.run (Writing.rowsStep P.event) n d false) := rfl
      cases hu : Aggregate.Update.ofEvent P.event with
      | some u =>
        have hstep : Writing.rowsStep P.event = .counters u := by simp [Writing.rowsStep, hu]
        rw [hstep] at hnext
        exact .of_answer (Store.Memory.ask_insert_new hnew) rfl (.counters hu hnew hp) hnext
          (by simp [distance, run])
      | none =>
        have hstep : Writing.rowsStep P.event = .commit := by simp [Writing.rowsStep, hu]
        have hws : Store.writesOf P.event = [.event P.event] := by simp only [Store.writesOf, hu]
        have hcommit : P.OnTrack now (taken T f P.party (Store.writesOf P.event) none)
            (.running (P.run .commit n d false)) := .commit hnew hp
        rw [hstep] at hnext
        rw [hws] at hcommit
        exact .of_answer (Store.Memory.ask_insert_new hnew) rfl hcommit hnext
          (by simp [distance, run])
  | counters hu hnew h =>
    exact .of_answer (Store.Memory.ask_counters_taken _) rfl (.daily hu hnew h) rfl
      (by simp [distance, run])
  | @daily T f n d u hu hnew h =>
    have hask : (taken T f P.party [.event P.event, .counters u] none).ask now P.party false
        (.daily u) = _ := Store.Memory.ask_daily_taken u
    have hws : [Store.Write.event P.event, .counters u] ++ [.daily u] = Store.writesOf P.event := by
      simp only [Store.writesOf, hu]
      rfl
    rw [hws] at hask
    exact .of_answer hask rfl (.commit hnew h) rfl (by simp [distance, run])
  | commit hnew h => exact turned_commit hnew h
  | waits hnew hd ht h => exact turned_waits hnew hd ht h
  | rollback hid =>
    exact .of_answer Store.Memory.ask_rollback_taken rfl .settling rfl (by simp [distance, run])
  | check hc hid =>
    exact .of_answer (Store.Memory.ask_check_stored hc hid) rfl .settling rfl
      (by simp [distance, run])

/-- Time does not lead off the way. If the deadline is to be met, it passes only while the attempt
waits for its commit, and not beyond the end of that. -/
theorem OnTrack.elapse {ms : Nat} (h : P.OnTrack now m st)
    (hp : P.timely → (∀ e, st ≠ .reserving e) ∧ ∀ r, st = .running r →
      r.waiting = true ∧ ∀ due, m.due? P.party = some due → now + ms ≤ due) :
    P.OnTrack (now + ms) m st := by
  -- time passes for an attempt that could go on only if nobody promised to be timely
  have hstill : ∀ r, st = .running r → r.waiting = false → ¬P.timely := by
    intro r hr hw ht
    rw [((hp ht).2 r hr).1] at hw
    cases hw
  cases h with
  | reserving h =>
    refine .reserving (h.imp_right fun ⟨hnew, hpass⟩ => ⟨hnew, hpass.mono (by omega) ?_⟩)
    exact fun ht => absurd rfl ((hp ht).1 _)
  | begin h =>
    refine .begin (h.imp_right fun ⟨hnew, hpass⟩ => ⟨hnew, hpass.mono (Nat.le_refl _) ?_⟩)
    exact fun ht => absurd ht (hstill _ rfl rfl)
  | insert h =>
    refine .insert (h.imp_right fun ⟨hnew, hpass⟩ => ⟨hnew, hpass.mono (Nat.le_refl _) ?_⟩)
    exact fun ht => absurd ht (hstill _ rfl rfl)
  | counters hu hnew h =>
    exact .counters hu hnew (h.mono (Nat.le_refl _) fun ht => absurd ht (hstill _ rfl rfl))
  | daily hu hnew h =>
    exact .daily hu hnew (h.mono (Nat.le_refl _) fun ht => absurd ht (hstill _ rfl rfl))
  | commit hnew h =>
    exact .commit hnew (h.mono (Nat.le_refl _) fun ht => absurd ht (hstill _ rfl rfl))
  | waits hnew hd ht h =>
    refine .waits hnew hd (fun htime => ⟨?_, (ht htime).2⟩) h
    exact ((hp htime).2 _ rfl).2 _ (by simp [Store.Memory.due?, taken])
  | rollback hid => exact .rollback hid
  | check hc hid => exact .check hc hid
  | settling => exact .settling
  | returned => exact .returned

end Plan

end Ingest

end Intake
