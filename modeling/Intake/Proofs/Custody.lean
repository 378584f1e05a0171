import Intake.Store.Memory

/-!
# Who has the tables

A party is away from the tables of a store in memory, waits for them, has them with some writes
staged, or has a commit of those writes under way (`Place`). A step of one party leaves every other
party where it is: it may hand the tables on, but then nothing is staged (`Spares`). The party that
has the tables is the only one whose steps change them, so what it has read of them stays true until
it gives them up.

`Sound` is what every step keeps: the lock is free only if nobody waits, no party is in its queue
twice, and nothing is staged while it is free.
-/

namespace Intake.Store.Memory

variable {m m' m'' : Memory} {p q : Party}

/-- The lock is in order, and nothing is staged while nobody has the tables. -/
structure Sound (m : Memory) : Prop where
  order : m.lock.holder = none → m.lock.waiting = []
  nodup : m.lock.queue.Nodup
  idle : m.lock.holder = none → m.staged = [] ∧ m.committing = none

/-- What a step of `p` leaves to the other parties. -/
structure Spares (m m' : Memory) (p : Party) : Prop where
  queue : ∀ q, q ≠ p → (q ∈ m'.lock.queue ↔ q ∈ m.lock.queue)
  kept : ∀ q, q ≠ p → m.lock.holder = some q → m'.lock.holder = some q ∧ m'.staged = m.staged ∧
    m'.committing = m.committing ∧ m'.tables = m.tables
  handed : ∀ q, q ≠ p → m'.lock.holder = some q →
    m.lock.holder = some q ∨ m'.staged = [] ∧ m'.committing = none
  grows : ∀ id, m.tables.events.has id = true → m'.tables.events.has id = true

/-- Where a party is. -/
inductive Place
  | away
  | waits
  | has (staged : List Write)
  | commits (staged : List Write)

/-- A party that waits may have been handed the tables already; then nothing is staged. -/
def At (m : Memory) (p : Party) : Place → Prop
  | .away => p ∉ m.lock.queue
  | .waits => p ∈ m.lock.queue ∧ (m.lock.holder = some p → m.staged = [] ∧ m.committing = none)
  | .has ws => m.lock.holder = some p ∧ m.staged = ws ∧ m.committing = none
  | .commits ws => m.lock.holder = some p ∧ m.staged = ws ∧ ∃ x, m.committing = some x

/-! ### What a party leaves to the others -/

namespace Spares

theorem refl : m.Spares m p :=
  ⟨fun _ _ => .rfl, fun _ _ h => ⟨h, rfl, rfl, rfl⟩, fun _ _ h => .inl h, fun _ h => h⟩

theorem trans (h : m.Spares m' p) (h' : m'.Spares m'' p) : m.Spares m'' p where
  queue q hq := (h'.queue q hq).trans (h.queue q hq)
  kept q hq hm := by
    obtain ⟨h1, h2, h3, h4⟩ := h.kept q hq hm
    obtain ⟨k1, k2, k3, k4⟩ := h'.kept q hq h1
    exact ⟨k1, k2.trans h2, k3.trans h3, k4.trans h4⟩
  handed q hq hm := by
    rcases h'.handed q hq hm with hm' | hm'
    · obtain ⟨-, k2, k3, -⟩ := h'.kept q hq hm'
      rcases h.handed q hq hm' with hm | ⟨e1, e2⟩
      · exact .inl hm
      · exact .inr ⟨k2.trans e1, k3.trans e2⟩
    · exact .inr hm'
  grows id hid := h'.grows id (h.grows id hid)

theorem at_of_ne (h : m.Spares m' p) (hq : q ≠ p) {pl : Place} (hat : m.At q pl) : m'.At q pl := by
  cases pl with
  | away => exact fun hm => hat ((h.queue q hq).1 hm)
  | waits =>
    refine ⟨(h.queue q hq).2 hat.1, fun hm => ?_⟩
    rcases h.handed q hq hm with hm' | hm'
    · obtain ⟨-, k2, k3, -⟩ := h.kept q hq hm'
      rw [k2, k3]
      exact hat.2 hm'
    · exact hm'
  | has ws =>
    obtain ⟨k1, k2, k3, -⟩ := h.kept q hq hat.1
    exact ⟨k1, k2.trans hat.2.1, k3.trans hat.2.2⟩
  | commits ws =>
    obtain ⟨k1, k2, k3, -⟩ := h.kept q hq hat.1
    exact ⟨k1, k2.trans hat.2.1, by rw [k3]; exact hat.2.2⟩

/-- The party that has the tables may do with its writes what it likes. -/
theorem of_holder (hp : m.lock.holder = some p) (hl : m'.lock = m.lock)
    (hg : ∀ id, m.tables.events.has id = true → m'.tables.events.has id = true) :
    m.Spares m' p where
  queue q _ := by rw [hl]
  kept q hq hm := absurd (Option.some.inj (hm.symm.trans hp)) hq
  handed q hq hm := by rw [hl] at hm; exact absurd (Option.some.inj (hm.symm.trans hp)) hq
  grows := hg

end Spares

/-! ### Asking for the tables and giving them up -/

theorem Sound.request (h : m.Sound) (hp : p ∉ m.lock.queue) :
    ({ m with lock := m.lock.request p } : Memory).Sound where
  order hn := (Lock.request_holder m.lock p hn).elim
  nodup := by
    show (m.lock.request p).queue.Nodup
    rw [Lock.queue_request h.order, List.nodup_append]
    refine ⟨h.nodup, by simp, fun q hq x hx e => ?_⟩
    rw [List.mem_singleton.1 hx] at e
    exact hp (e ▸ hq)
  idle hn := (Lock.request_holder m.lock p hn).elim

theorem Sound.spares_request (h : m.Sound) :
    m.Spares { m with lock := m.lock.request p } p where
  queue q hq := by
    show q ∈ (m.lock.request p).queue ↔ _
    rw [Lock.queue_request h.order]
    simp [hq]
  kept q _ hm := ⟨Lock.holder_request_of_holder hm, rfl, rfl, rfl⟩
  handed q hq hm := .inl (Lock.holder_request_of_ne hm hq)
  grows _ h := h

/-- A party that asked for the tables has them only if they were free. -/
theorem Sound.at_request (h : m.Sound) (hp : p ∉ m.lock.queue) :
    ({ m with lock := m.lock.request p } : Memory).At p .waits := by
  constructor
  · show p ∈ (m.lock.request p).queue
    rw [Lock.queue_request h.order]
    simp
  · intro hh
    cases hn : m.lock.holder with
    | none => exact h.idle hn
    | some x =>
      have hx : (m.lock.request p).holder = some x := Lock.holder_request_of_holder hn
      cases hh.symm.trans hx
      exact absurd (Lock.mem_queue_of_holder hn) hp

@[simp] theorem tables_leave : (m.leave p).tables = m.tables := by
  unfold leave; split <;> rfl

@[simp] theorem lock_leave : (m.leave p).lock = m.lock.leave p := by
  unfold leave; split <;> rfl

theorem leave_of_holder (h : m.lock.holder = some p) :
    (m.leave p).staged = [] ∧ (m.leave p).committing = none := by
  simp [leave, h]

theorem leave_of_ne (h : m.lock.holder ≠ some p) :
    (m.leave p).staged = m.staged ∧ (m.leave p).committing = m.committing := by
  simp [leave, h]

theorem Sound.leave (h : m.Sound) (p : Party) : (m.leave p).Sound where
  order := by rw [lock_leave]; exact Lock.leave_waiting p h.order
  nodup := by
    rw [lock_leave, Lock.queue_leave h.order h.nodup]
    exact h.nodup.filter _
  idle hn := by
    by_cases hp : m.lock.holder = some p
    · exact leave_of_holder hp
    · obtain ⟨e1, e2⟩ := leave_of_ne hp
      rw [lock_leave, Lock.holder_leave_of_ne hp] at hn
      rw [e1, e2]
      exact h.idle hn

theorem Sound.spares_leave (h : m.Sound) (p : Party) : m.Spares (m.leave p) p where
  queue q hq := by
    rw [lock_leave, Lock.mem_queue_leave h.order h.nodup]
    simp [hq]
  kept q hq hm := by
    have hp : m.lock.holder ≠ some p := fun hp => hq (Option.some.inj (hm.symm.trans hp))
    obtain ⟨e1, e2⟩ := leave_of_ne hp
    exact ⟨by rw [lock_leave, Lock.holder_leave_of_ne hp, hm], e1, e2, tables_leave⟩
  handed q hq hm := by
    by_cases hp : m.lock.holder = some p
    · exact .inr (leave_of_holder hp)
    · rw [lock_leave, Lock.holder_leave_of_ne hp] at hm
      exact .inl hm
  grows id hid := by rw [tables_leave]; exact hid

theorem Sound.away_leave (h : m.Sound) (p : Party) : (m.leave p).At p .away := by
  show p ∉ (m.leave p).lock.queue
  rw [lock_leave, Lock.mem_queue_leave h.order h.nodup]
  simp

/-! ### The end of a commit -/

theorem tables_settle (fate : Fate) : (m.settle p fate).tables =
    if fate.applies then m.tables.apply m.staged else m.tables := by
  rw [← Tables.replay_eq_apply]
  rfl

theorem Sound.settle (h : m.Sound) (p : Party) (fate : Fate) : (m.settle p fate).Sound :=
  ⟨(h.leave p).order, (h.leave p).nodup, (h.leave p).idle⟩

theorem grows_settle (fate : Fate) (id : Uuid) (h : m.tables.events.has id = true) :
    (m.settle p fate).tables.events.has id = true := by
  rw [tables_settle]
  split
  · rw [Tables.has_events_apply, h, Bool.true_or]
  · exact h

theorem Sound.spares_settle (h : m.Sound) (hp : m.lock.holder = some p) (fate : Fate) :
    m.Spares (m.settle p fate) p where
  queue := (h.spares_leave p).queue
  kept _ hq hm := absurd (Option.some.inj (hm.symm.trans hp)) hq
  handed := (h.spares_leave p).handed
  grows := grows_settle fate

theorem Sound.away_settle (h : m.Sound) (p : Party) (fate : Fate) :
    (m.settle p fate).At p .away := h.away_leave p

/-! ### Calls -/

/-- Makes a call, or asks after it. -/
def ask (m : Memory) (now : Nat) (p : Party) (waiting : Bool) (call : Call) :
    Memory × Option Answer :=
  if waiting then m.resume now p call else m.start now p call

/-- A step of `p` that carried out these writes. -/
structure Took (m m' : Memory) (p : Party) (ws : List Write) : Prop where
  sound : m'.Sound
  spares : m.Spares m' p
  tables : m'.tables = m.tables.apply ws

/-- What a call comes to: its answer, the writes it carried out, and where `p` is afterwards. -/
structure Gives (m : Memory) (p : Party) (got : Memory × Option Answer) (a : Option Answer)
    (ws : List Write) (pl : Place) : Prop where
  answer : got.2 = a
  took : m.Took got.1 p ws
  place : got.1.At p pl

variable {waiting : Bool} {ws vs : List Write} {a : Option Answer} {pl : Place}
  {got : Memory × Option Answer}

theorem Sound.took_refl (h : m.Sound) : m.Took m p [] := ⟨h, .refl, rfl⟩

theorem Took.trans (h : m.Took m' p []) (h' : m'.Took m'' p ws) : m.Took m'' p ws :=
  ⟨h'.sound, h.spares.trans h'.spares, by rw [h'.tables, h.tables, Tables.apply_nil]⟩

theorem Took.trans_gives (h : m.Took m' p []) (h' : m'.Gives p got a ws pl) :
    m.Gives p got a ws pl := ⟨h'.answer, h.trans h'.took, h'.place⟩

theorem Sound.took_request (h : m.Sound) (hp : p ∉ m.lock.queue) :
    m.Took { m with lock := m.lock.request p } p [] :=
  ⟨h.request hp, h.spares_request, rfl⟩

theorem Sound.took_leave (h : m.Sound) (p : Party) : m.Took (m.leave p) p [] :=
  ⟨h.leave p, h.spares_leave p, tables_leave⟩

/-- The party that has the tables changes what it has staged. -/
theorem Sound.took_stage (h : m.Sound) (hp : m.lock.holder = some p) (hl : m'.lock = m.lock)
    (ht : m'.tables = m.tables) : m.Took m' p [] where
  sound := by
    refine ⟨by rw [hl]; exact h.order, by rw [hl]; exact h.nodup, fun hn => ?_⟩
    rw [hl, hp] at hn
    cases hn
  spares := .of_holder hp hl fun _ hid => by rw [ht]; exact hid
  tables := ht

theorem At.handed (hat : m.At p .waits) (hp : m.lock.holder = some p) : m.At p (.has []) :=
  ⟨hp, hat.2 hp⟩

theorem Sound.begin_waits (h : m.Sound) (hat : m.At p .waits) (now : Nat) :
    m.Gives p (m.resume now p .begin) (some (.ok true)) [] (.has []) ∨
      m.Gives p (m.resume now p .begin) none [] .waits := by
  simp only [resume]
  by_cases hp : m.lock.holder = some p
  · rw [if_pos hp]
    exact .inl ⟨rfl, h.took_refl, hat.handed hp⟩
  · rw [if_neg hp]
    exact .inr ⟨rfl, h.took_refl, hat⟩

/-- `begin` fails, opens a transaction, or waits. -/
theorem Sound.ask_begin (h : m.Sound) (hat : m.At p (if waiting then .waits else .away)) (now : Nat) :
    m.Gives p (m.ask now p waiting .begin) (some (.error (.connection .poolTimedOut))) [] .away ∨
      m.Gives p (m.ask now p waiting .begin) (some (.ok true)) [] (.has []) ∨
      m.Gives p (m.ask now p waiting .begin) none [] .waits := by
  cases waiting with
  | true => exact .inr (h.begin_waits hat now)
  | false =>
    simp only [ask, start, Bool.false_eq_true, if_false]
    by_cases hf : m.faults.failBegin = true
    · rw [if_pos hf]
      exact .inl ⟨rfl, h.took_refl, hat⟩
    · rw [if_neg hf]
      refine .inr ?_
      rcases (h.request hat).begin_waits (h.at_request hat) now with hg | hg
      · exact .inl ((h.took_request hat).trans_gives hg)
      · exact .inr ((h.took_request hat).trans_gives hg)

theorem Sound.check_waits (h : m.Sound) (hat : m.At p .waits) (now : Nat) (id : Uuid) :
    m.Gives p (m.resume now p (.check id)) (some (.ok (m.tables.events.has id))) [] .away ∨
      m.Gives p (m.resume now p (.check id)) none [] .waits := by
  simp only [resume]
  by_cases hp : m.lock.holder = some p
  · rw [if_pos hp]
    exact .inl ⟨rfl, h.took_leave p, h.away_leave p⟩
  · rw [if_neg hp]
    exact .inr ⟨rfl, h.took_refl, hat⟩

/-- `check` fails, tells whether the event is stored, or waits. -/
theorem Sound.ask_check (h : m.Sound) (hat : m.At p (if waiting then .waits else .away)) (now : Nat)
    (id : Uuid) :
    (∃ e, m.Gives p (m.ask now p waiting (.check id)) (some (.error e)) [] .away) ∨
      m.Gives p (m.ask now p waiting (.check id)) (some (.ok (m.tables.events.has id))) [] .away ∨
      m.Gives p (m.ask now p waiting (.check id)) none [] .waits := by
  cases waiting with
  | true => exact .inr (h.check_waits hat now id)
  | false =>
    simp only [ask, start, Bool.false_eq_true, if_false]
    by_cases hf : m.faults.failCheck = true
    · rw [if_pos hf]
      exact .inl ⟨_, rfl, h.took_refl, hat⟩
    · rw [if_neg hf]
      refine .inr ?_
      rcases (h.request hat).check_waits (h.at_request hat) now id with hg | hg
      · exact .inl ((h.took_request hat).trans_gives hg)
      · exact .inr ((h.took_request hat).trans_gives hg)

/-- `insert` tells whether the event is new to a transaction that has staged nothing. -/
theorem Sound.start_insert (h : m.Sound) (hat : m.At p (.has [])) (now : Nat) (e : Event) :
    m.tables.events.has e.eventId = true ∧
        m.Gives p (m.start now p (.insert e)) (some (.ok false)) [] (.has []) ∨
      m.tables.events.has e.eventId = false ∧
        m.Gives p (m.start now p (.insert e)) (some (.ok true)) [] (.has [.event e]) := by
  obtain ⟨hp, hw, hc⟩ := hat
  have hk : m.knows e.eventId = m.tables.events.has e.eventId := by simp [knows, hw]
  simp only [start, hk]
  cases hid : m.tables.events.has e.eventId with
  | true =>
    rw [if_pos rfl]
    exact .inl ⟨rfl, rfl, h.took_refl, hp, hw, hc⟩
  | false =>
    rw [if_neg (by simp)]
    exact .inr ⟨rfl, rfl, h.took_stage hp rfl rfl, hp, by simp [hw], hc⟩

theorem Sound.start_counters (h : m.Sound) (hat : m.At p (.has ws)) (now : Nat) (u : Aggregate.Update) :
    m.Gives p (m.start now p (.counters u)) (some (.ok true)) [] (.has (ws ++ [.counters u])) :=
  ⟨rfl, h.took_stage hat.1 rfl rfl, hat.1, by simp [start, hat.2.1], hat.2.2⟩

theorem Sound.start_daily (h : m.Sound) (hat : m.At p (.has ws)) (now : Nat) (u : Aggregate.Update) :
    m.Gives p (m.start now p (.daily u)) (some (.ok true)) [] (.has (ws ++ [.daily u])) :=
  ⟨rfl, h.took_stage hat.1 rfl rfl, hat.1, by simp [start, hat.2.1], hat.2.2⟩

theorem Sound.start_rollback (h : m.Sound) (now : Nat) :
    m.Gives p (m.start now p .rollback) (some (.ok true)) [] .away :=
  ⟨rfl, h.took_leave p, h.away_leave p⟩

theorem Sound.commit_waits (h : m.Sound) (hat : m.At p (.commits ws)) (now : Nat) :
    (∃ fate : Fate, m.Gives p (m.resume now p .commit) (some fate.answer)
        (if fate.applies then ws else []) .away) ∨
      m.Gives p (m.resume now p .commit) none [] (.commits ws) := by
  obtain ⟨hp, hw, ⟨fate, due⟩, hc⟩ := hat
  simp only [resume, hc]
  split
  · refine .inl ⟨fate, rfl, ⟨h.settle p fate, h.spares_settle hp fate, ?_⟩, h.away_settle p fate⟩
    rw [tables_settle, hw]
    split <;> rfl
  · exact .inr ⟨rfl, h.took_refl, hp, hw, _, hc⟩

/-- `commit` comes to the end that its fate says, or waits. -/
theorem Sound.ask_commit (h : m.Sound) (hat : m.At p (if waiting then .commits ws else .has ws))
    (now : Nat) :
    (∃ fate : Fate, m.Gives p (m.ask now p waiting .commit) (some fate.answer)
        (if fate.applies then ws else []) .away) ∨
      m.Gives p (m.ask now p waiting .commit) none [] (.commits ws) := by
  cases waiting with
  | true => exact h.commit_waits hat now
  | false =>
    obtain ⟨hp, hw, -⟩ := hat
    simp only [ask, start, Bool.false_eq_true, if_false]
    generalize hm : ({ m with
      faults := m.faults.draw.2
      committing := some (m.faults.draw.1, now + m.faults.commitDelay.getD 0) } : Memory) = m₁
    have h₁ : m.Took m₁ p [] := h.took_stage hp (by rw [← hm]) (by rw [← hm])
    have hat₁ : m₁.At p (.commits ws) := by
      rw [← hm]
      exact ⟨hp, hw, _, rfl⟩
    rcases h₁.sound.commit_waits hat₁ now with ⟨fate, hg⟩ | hg
    · exact .inl ⟨fate, h₁.trans_gives hg⟩
    · exact .inr (h₁.trans_gives hg)

/-! ### Calls of any party -/

/-- A party uses a transaction only while it has the tables, and asks for them only if it neither
has them nor waits for them. -/
def Permits (m : Memory) (p : Party) (waiting : Bool) : Call → Prop
  | .begin | .check _ => waiting = true ∨ p ∉ m.lock.queue
  | .insert _ | .counters _ | .daily _ | .commit => m.lock.holder = some p
  | .rollback => True

/-- A party that has the tables has staged nothing. -/
def Clean (m : Memory) (p : Party) : Prop := m.lock.holder = some p → m.staged = []

theorem Sound.took_faults (h : m.Sound) (f : Faults) : m.Took { m with faults := f } p [] :=
  ⟨⟨h.order, h.nodup, h.idle⟩,
    ⟨fun _ _ => .rfl, fun _ _ hm => ⟨hm, rfl, rfl, rfl⟩, fun _ _ hm => .inl hm, fun _ h => h⟩, rfl⟩

theorem Spares.clean (h : m.Spares m' p) (hq : q ≠ p) (hc : m.Clean q) : m'.Clean q := by
  intro hm
  rcases h.handed q hq hm with hm' | ⟨hs, -⟩
  · rw [(h.kept q hq hm').2.1]
    exact hc hm'
  · exact hs

/-- A call that was made carries out what is staged, or nothing. -/
theorem Sound.took_resume (h : m.Sound) {call : Call}
    (hc : call = .commit → m.lock.holder = some p) (now : Nat) :
    ∃ ws, m.Took (m.resume now p call).1 p ws ∧
      (ws = [] ∨ call = .commit ∧ m.lock.holder = some p ∧ ws = m.staged) := by
  cases call with
  | check id =>
    refine ⟨[], ?_, .inl rfl⟩
    simp only [resume]
    split
    · exact h.took_leave p
    · exact h.took_refl
  | commit =>
    have hp := hc rfl
    simp only [resume]
    split
    · next fate due _ =>
      split
      · refine ⟨if fate.applies then m.staged else [],
          ⟨h.settle p fate, h.spares_settle hp fate, ?_⟩, ?_⟩
        · rw [tables_settle]
          split <;> rfl
        · split
          · exact .inr ⟨trivial, hp, rfl⟩
          · exact .inl rfl
      · exact ⟨[], h.took_refl, .inl rfl⟩
    · exact ⟨[], h.took_refl, .inl rfl⟩
  | begin | insert | counters | daily | rollback => exact ⟨[], h.took_refl, .inl rfl⟩

/-- A permitted call carries out what the party has staged, or nothing. -/
theorem Sound.took_ask (h : m.Sound) {call : Call} (hc : m.Permits p waiting call) (now : Nat) :
    ∃ ws, m.Took (m.ask now p waiting call).1 p ws ∧
      (ws = [] ∨ call = .commit ∧ m.lock.holder = some p ∧ ws = m.staged) := by
  cases waiting with
  | true => exact h.took_resume (by rintro rfl; exact hc) now
  | false =>
    simp only [ask, Bool.false_eq_true, if_false]
    cases call with
    | begin =>
      have hq : p ∉ m.lock.queue := by simpa [Permits] using hc
      refine ⟨[], ?_, .inl rfl⟩
      simp only [start, resume]
      split
      · exact h.took_refl
      · exact h.took_request hq
    | check id =>
      have hq : p ∉ m.lock.queue := by simpa [Permits] using hc
      refine ⟨[], ?_, .inl rfl⟩
      simp only [start]
      split
      · exact h.took_refl
      · have hr := h.took_request hq
        simp only [resume]
        split
        · exact hr.trans (hr.sound.took_leave p)
        · exact hr
    | insert e =>
      refine ⟨[], ?_, .inl rfl⟩
      simp only [start]
      split
      · exact h.took_refl
      · exact h.took_stage hc rfl rfl
    | counters u => exact ⟨[], h.took_stage hc rfl rfl, .inl rfl⟩
    | daily u => exact ⟨[], h.took_stage hc rfl rfl, .inl rfl⟩
    | rollback => exact ⟨[], h.took_leave p, .inl rfl⟩
    | commit =>
      have h₁ : m.Took { m with
          faults := m.faults.draw.2
          committing := some (m.faults.draw.1, now + m.faults.commitDelay.getD 0) } p [] :=
        h.took_stage hc rfl rfl
      obtain ⟨ws, ht, hws⟩ := h₁.sound.took_resume (fun _ : Call.commit = .commit => hc) now
      exact ⟨ws, h₁.trans ht, hws⟩

theorem staged_leave (m : Memory) (p : Party) :
    (m.leave p).staged = m.staged ∨ (m.leave p).staged = [] := by
  unfold leave
  split <;> simp

theorem staged_resume (m : Memory) (now : Nat) (p : Party) (call : Call) :
    (m.resume now p call).1.staged = m.staged ∨ (m.resume now p call).1.staged = [] := by
  cases call with
  | begin => exact .inl rfl
  | check id =>
    simp only [resume]
    split
    · exact staged_leave m p
    · exact .inl rfl
  | commit =>
    simp only [resume]
    split
    · split
      · exact staged_leave m p
      · exact .inl rfl
    · exact .inl rfl
  | insert | counters | daily | rollback => exact .inl rfl

theorem Sound.clean_ask (h : m.Sound) {call : Call} (hc : m.Permits p waiting call)
    (hw : call.writes = false) (hp : m.Clean p) (now : Nat) :
    (m.ask now p waiting call).1.Clean p := by
  obtain ⟨ws, ht, -⟩ := h.took_ask hc now
  have hs : (m.ask now p waiting call).1.staged = m.staged ∨
      (m.ask now p waiting call).1.staged = [] := by
    cases waiting with
    | true => exact staged_resume m now p call
    | false =>
      simp only [ask, Bool.false_eq_true, if_false]
      cases call with
      | insert | counters | daily => cases hw
      | rollback => exact staged_leave m p
      | commit =>
        simp only [start]
        exact staged_resume _ now p .commit
      | begin =>
        simp only [start]
        split
        · exact .inl rfl
        · exact staged_resume _ now p .begin
      | check id =>
        simp only [start]
        split
        · exact .inl rfl
        · exact staged_resume _ now p (.check id)
  intro hm'
  rcases hs with hs | hs
  · rw [hs]
    cases hm : m.lock.holder with
    | none => exact (h.idle hm).1
    | some q =>
      by_cases hq : q = p
      · exact hp (hq ▸ hm)
      · cases hm'.symm.trans (ht.spares.kept q hq hm).1
        exact absurd rfl hq
  · exact hs

end Intake.Store.Memory
