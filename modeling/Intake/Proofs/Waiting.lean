import Intake.Proofs.Standing

/-!
# Who waits for whom

Attempts wait for the tables, for the delay of a commit, and for nothing else. What keeps them from
waiting for each other in a circle is that an attempt which asks for the tables, to begin or to check
what became of a commit, has given them up before: `Custody` says where each attempt is, so the party
that has the tables is either about to use them or sits in the delay of its commit
(`Custody.moves_on`). `tables_never_deadlocked` puts this together, and adds that the lock is not left
behind: when nobody is at work it is free, however the attempts ended.
-/

namespace Intake.Ingest.State

open Store (Party)

variable {s t : State} {i : Nat} {r : Running}

/-- Attempt `i` can take a step now. -/
def CanGo (s : State) (i : Nat) : Prop := (s.advance i).isSome = true

/-- Attempt `i` has the tables and sits in the delay of its commit, whose end is still to come. -/
def Delayed (s : State) (i : Nat) : Prop :=
  ∃ r fate due, s.status? i = some (.running r) ∧ r.waiting = true ∧ r.writing.step = .commit ∧
    s.memory.lock.holder = some (.attempt i) ∧ s.memory.committing = some (fate, due) ∧ s.now < due

/-- Attempt `i` waits for the tables, to begin a transaction or to check its event, and they have
not been handed to it. -/
def Awaits (s : State) (i : Nat) : Prop :=
  ∃ r, s.status? i = some (.running r) ∧ r.waiting = true ∧
    (r.writing.step = .begin ∨ ∃ x, r.writing.step = .check x) ∧
    s.memory.lock.holder ≠ some (.attempt i)

/-- The party has a transaction. Of a client nothing is known but that it has the tables. -/
def HasTransaction (s : State) : Party → Prop
  | .attempt i => ∃ r, s.status? i = some (.running r) ∧ r.writing.isOpen = true
  | .client k => s.memory.lock.holder = some (.client k)

/-- The party goes on by itself, now or when its commit is due, or it is a client. -/
def MovesOn (s : State) : Party → Prop
  | .attempt i => s.CanGo i ∨ s.Delayed i
  | .client _ => True

/-! ### Steps that are there -/

theorem canGo_of_proceed (hi : s.status? i = some (.running r)) (h : s.proceed i r ≠ none) :
    s.CanGo i := by
  unfold CanGo advance
  rw [hi]
  exact Option.isSome_iff_ne_none.2 h

/-- An attempt that has not made its present call can make it. -/
theorem canGo_of_not_waiting (hi : s.status? i = some (.running r)) (hw : r.waiting = false) :
    s.CanGo i := by
  refine canGo_of_proceed hi fun hn => ?_
  simp only [proceed, hw, Bool.false_eq_true, if_false] at hn
  split at hn
  · cases hn
  · split at hn <;> cases hn

/-- An attempt whose present call is answered can take the answer. -/
theorem canGo_of_answer (hi : s.status? i = some (.running r)) {a : Store.Answer}
    (ha : (s.ask (.attempt i) r.waiting r.writing.call).2 = some a) : s.CanGo i := by
  refine canGo_of_proceed hi fun hn => ?_
  simp only [proceed, ha] at hn
  cases hn

/-- An attempt that has a step to come goes on, unless it writes and waits for an answer. -/
theorem canGo_or_waiting (h : s.isRunning i = true) :
    s.CanGo i ∨ ∃ r, s.status? i = some (.running r) ∧ r.waiting = true := by
  unfold isRunning at h
  split at h
  · next hi => exact .inl (by simp [CanGo, advance, hi])
  · next r hi =>
    cases hw : r.waiting with
    | false => exact .inl (canGo_of_not_waiting hi hw)
    | true => exact .inr ⟨r, hi, hw⟩
  · next hi => exact .inl (by simp [CanGo, advance, hi])
  · cases h

/-! ### Where the attempts are -/

namespace Custody

variable (h : s.Custody)
include h

/-- An attempt in the queue of the lock is writing. -/
theorem running_of_mem_queue (hq : .attempt i ∈ s.memory.lock.queue) :
    ∃ r, s.status? i = some (.running r) ∧ r.writing.Stands s.memory (.attempt i) r.waiting := by
  have hstands := h.stands i
  cases hi : s.status? i with
  | none => exact absurd hq (h.away hi (by simp))
  | some st =>
    cases st with
    | running r =>
      rw [hi] at hstands
      exact ⟨r, rfl, hstands⟩
    | _ => exact absurd hq (h.away hi (by simp))

/-- Nothing else keeps an attempt waiting than the lock and the delay of its own commit. -/
theorem waiting_step (hi : s.status? i = some (.running r)) (hw : r.waiting = true) :
    (r.writing.step = .begin ∨ ∃ x, r.writing.step = .check x) ∨ r.writing.step = .commit := by
  have hstands := h.stands i
  rw [hi] at hstands
  have hfits := Writing.Stands.fits hstands
  unfold Writing.Fits at hfits
  cases hstep : r.writing.step with
  | begin => exact .inl (.inl rfl)
  | check x => exact .inl (.inr ⟨x, rfl⟩)
  | commit => exact .inr rfl
  | insert => simp_all
  | rollback => simp_all
  | counters u => simp_all
  | daily u => simp_all

/-- A transaction that is open has the tables. -/
theorem holder_of_hasTransaction {p : Party} (hp : s.HasTransaction p) :
    s.memory.lock.holder = some p := by
  cases p with
  | client k => exact hp
  | attempt i =>
    obtain ⟨r, hi, hopen⟩ := hp
    have hstands := h.stands i
    rw [hi] at hstands
    have hat := Writing.Stands.place hstands
    unfold Writing.isOpen at hopen
    unfold Writing.place at hat
    split at hopen
    any_goals cases hopen
    all_goals
      next hstep =>
        simp only [hstep] at hat
        try split at hat
        all_goals exact hat.1

/-- The party that has the tables does not wait for another one. -/
theorem movesOn {p : Party} (hp : s.memory.lock.holder = some p) : s.MovesOn p := by
  cases p with
  | client k => trivial
  | attempt i =>
    obtain ⟨r, hi, hstands⟩ := h.running_of_mem_queue (Store.Lock.mem_queue_of_holder hp)
    cases hw : r.waiting with
    | false => exact .inl (canGo_of_not_waiting hi hw)
    | true =>
      have hans : ∀ {a : Store.Answer},
          (s.memory.resume s.now (.attempt i) r.writing.call).2 = some a → s.CanGo i := by
        intro a ha
        refine canGo_of_answer hi (a := a) ?_
        rw [answer_ask h.store, hw]
        exact ha
      rcases h.waiting_step hi hw with (hstep | ⟨x, hstep⟩) | hstep
      -- the tables were handed over, so what it waits for is answered now
      · exact .inl (hans (a := .ok true) (by simp [Writing.call, hstep, Store.Memory.resume, hp]))
      · refine .inl (hans (a := .ok (s.tables.events.has r.writing.event.eventId)) ?_)
        simp [Writing.call, hstep, Store.Memory.resume, hp, tables]
      · have hat := hstands.place
        simp only [Writing.place, hstep, hw] at hat
        obtain ⟨-, -, ⟨fate, due⟩, hc⟩ := hat
        by_cases hd : due ≤ s.now
        · refine .inl (hans (a := fate.answer) ?_)
          simp [Writing.call, hstep, Store.Memory.resume, hc, hd]
        · exact .inr ⟨r, fate, due, hi, hw, hstep, hp, hc, Nat.lt_of_not_le hd⟩

/-- An attempt that waits for the tables has no transaction, and somebody else has them. -/
theorem holder_of_awaits (hi : s.Awaits i) :
    ¬s.HasTransaction (.attempt i) ∧
      ∃ p, s.memory.lock.holder = some p ∧ p ≠ .attempt i ∧ s.MovesOn p := by
  obtain ⟨r, hr, hw, hstep, hne⟩ := hi
  refine ⟨fun hopen => hne (h.holder_of_hasTransaction hopen), ?_⟩
  have hstands := h.stands i
  rw [hr] at hstands
  have hat := Writing.Stands.place hstands
  have hq : .attempt i ∈ s.memory.lock.queue := by
    rcases hstep with hstep | ⟨x, hstep⟩
    all_goals
      simp only [Writing.place, hstep, hw, if_true] at hat
      exact hat.1
  cases hp : s.memory.lock.holder with
  | none =>
    rw [Store.Lock.queue, hp, h.sound.order hp] at hq
    cases hq
  | some p => exact ⟨p, rfl, fun e => hne (e ▸ hp), h.movesOn hp⟩

/-- Without an attempt at work and without a client that has the tables nobody has them. -/
theorem free_of_isIdle (hidle : s.isIdle = true) (hk : ∀ k, ¬s.HasTransaction (.client k)) :
    s.memory.lock = .free ∧ s.memory.staged = [] ∧ s.memory.committing = none := by
  have hn : s.memory.lock.holder = none := by
    cases hp : s.memory.lock.holder with
    | none => rfl
    | some p =>
      cases p with
      | client k => exact absurd hp (hk k)
      | attempt i =>
        obtain ⟨r, hr, -⟩ := h.running_of_mem_queue (Store.Lock.mem_queue_of_holder hp)
        have hi := isRunning_of_isIdle hidle i
        simp [isRunning, hr] at hi
  refine ⟨?_, h.sound.idle hn⟩
  have hlock : s.memory.lock = ⟨s.memory.lock.holder, s.memory.lock.waiting⟩ := rfl
  rw [hlock, hn, h.sound.order hn]
  rfl

end Custody

/-- At most one transaction is open. An attempt that has a step to come goes on now, or when its
commit is due, or waits for the tables; then it has no transaction, and the party that has the tables
is another one, which goes on now, or when its commit is due, or is a client. An attempt that has a
transaction and cannot go on sits in the delay of its commit. When no attempt has a step to come
and no client has the tables, the lock is free and nothing is left staged. -/
theorem tables_never_deadlocked {tables : Store.Tables} (h : s.Begins tables)
    (hr : s.Reaches Orderly t) :
    (∀ p q, t.HasTransaction p → t.HasTransaction q → p = q) ∧
    (∀ i, t.isRunning i = true → t.CanGo i ∨ t.Delayed i ∨ t.Awaits i) ∧
    (∀ i, t.Awaits i → ¬t.HasTransaction (.attempt i) ∧
      ∃ p, t.memory.lock.holder = some p ∧ p ≠ .attempt i ∧ t.MovesOn p) ∧
    (∀ i, t.HasTransaction (.attempt i) → ¬t.CanGo i → t.Delayed i) ∧
    (t.isIdle = true → (∀ k, ¬t.HasTransaction (.client k)) →
      t.memory.lock = .free ∧ t.memory.staged = [] ∧ t.memory.committing = none) := by
  have hc : t.Custody := hr.keeps (fun _ _ _ hs hp h => h.step hp hs) (.of_begins h)
  refine ⟨fun p q hp hq => ?_, fun i hi => ?_, fun i hi => hc.holder_of_awaits hi,
    fun i hi hno => ?_, fun hidle hk => hc.free_of_isIdle hidle hk⟩
  · have hp := hc.holder_of_hasTransaction hp
    rw [hc.holder_of_hasTransaction hq] at hp
    exact (Option.some.inj hp).symm
  · rcases canGo_or_waiting hi with hgo | ⟨r, hr, hw⟩
    · exact .inl hgo
    by_cases hp : t.memory.lock.holder = some (.attempt i)
    · rcases hc.movesOn hp with hgo | hd
      · exact .inl hgo
      · exact .inr (.inl hd)
    · refine .inr (.inr ⟨r, hr, hw, ?_, hp⟩)
      rcases hc.waiting_step hr hw with hstep | hstep
      · exact hstep
      -- a commit is made by the party that has the tables
      · have hopen : t.HasTransaction (.attempt i) := ⟨r, hr, by simp [Writing.isOpen, hstep]⟩
        exact absurd (hc.holder_of_hasTransaction hopen) hp
  · rcases hc.movesOn (hc.holder_of_hasTransaction hi) with hgo | hd
    · exact absurd hgo hno
    · exact hd

/-- A commit that takes 100 ms, and another attempt that begins meanwhile. -/
def beginsDuringCommit : List Action :=
  [.faults { commitDelay := some 100 }, .submit aView, .submit { aView with eventId := some ⟨4, by decide⟩ }] ++
    List.replicate 6 (.advance 0) ++ [.advance 1, .advance 1]

theorem waits_for_delayed_commit : ∃ t, initial.Begins .empty ∧ initial.Reaches Orderly t ∧
    t.Awaits 1 ∧ ¬t.HasTransaction (.attempt 1) ∧ t.memory.lock.holder = some (.attempt 0) ∧
      t.Delayed 0 := by
  obtain ⟨t, ht⟩ := Option.isSome_iff_exists.1
    (show (initial.run beginsDuringCommit).isSome = true by decide +kernel)
  have hr : initial.Reaches Orderly t :=
    .of_run ht (by simp [beginsDuringCommit, Orderly])
  have hend : (initial.run beginsDuringCommit).map (fun t => (t.isRunning 1, (t.advance 1).isSome,
      (t.advance 0).isSome, t.memory.lock.holder)) =
        some (true, false, false, some (.attempt 0)) := by rfl
  rw [ht] at hend
  simp only [Option.map_some, Option.some.injEq, Prod.mk.injEq] at hend
  obtain ⟨hrun, hgo, hgo', hp⟩ := hend
  obtain ⟨-, hways, hwaits, -, -⟩ := tables_never_deadlocked begins_initial hr
  have hawaits : t.Awaits 1 := by
    rcases hways 1 hrun with h | ⟨r, fate, due, -, -, -, h, -⟩ | h
    · exact absurd (hgo.symm.trans h) Bool.false_ne_true
    · cases h.symm.trans hp
    · exact h
  obtain ⟨hno, p, hp', -, hmoves⟩ := hwaits 1 hawaits
  cases hp.symm.trans hp'
  refine ⟨t, begins_initial, hr, hawaits, hno, hp, ?_⟩
  rcases hmoves with h | h
  · exact absurd (hgo'.symm.trans h) Bool.false_ne_true
  · exact h

end Intake.Ingest.State
