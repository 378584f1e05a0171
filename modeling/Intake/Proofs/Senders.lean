import Intake.Proofs.View

/-!
# Who sends signals

An attempt sends the signal of its event in the step in which it returns that it inserted the event,
and in no other. `outbox_step` says what a step adds to the signals that are sent, and `owed_step`
reads the same off the results: what an attempt has sent is what its result says.
-/

namespace Intake.Ingest

/-- The signals that go out when the writing of an event has ended in this way. -/
def sent (event : Event) : Except Error Written → List Signal.Update
  | .ok .inserted => [.ofEvent event]
  | _ => []

/-- The signals that an attempt sends in its next step when it has come this far. -/
def Status.sends : Option Status → List Signal.Update
  | some (.settling event _ ending) => sent event ending
  | _ => []

namespace State

variable {s t : State} {a : Action} {i : Nat}

/-- The signals that a step sends, each with its attempt. -/
def signalled (s : State) : Action → List (Nat × Signal.Update)
  | .advance i => (Status.sends (s.status? i)).map (i, ·)
  | _ => []

/-- The signals that a run sends, in their order, each with its attempt. -/
def signals (s : State) : List Action → List (Nat × Signal.Update)
  | [] => []
  | a :: as =>
    match s.step a with
    | some t => s.signalled a ++ t.signals as
    | none => []

/-- The signals that attempt `i` has to have sent, as its result says. -/
def owed (s : State) (i : Nat) : List Signal.Update :=
  match s.event? i, s.result? i with
  | some e, some (.ok .inserted) => [.ofEvent e]
  | _, _ => []

/-! ### What a step sends -/

section outbox

variable {r : Running}

theorem outbox_settle (s : State) (i : Nat) (event : Event) (reserved : Bool)
    (ending : Except Error Written) :
    (s.settle i event reserved ending).outbox = s.outbox ++ sent event ending := by
  unfold settle settleReservation signal
  cases reserved <;> rcases ending with e | _ | _ <;> simp [sent] <;> rfl

theorem outbox_abandon (s : State) (i : Nat) (r : Running) :
    (s.abandon i r).outbox = s.outbox := by
  unfold abandon
  split <;> rfl

theorem outbox_ask (s : State) (p : Store.Party) (waiting : Bool) (call : Store.Call) :
    (s.ask p waiting call).1.outbox = s.outbox := by
  unfold ask
  split <;> rfl

theorem outbox_proceed (h : s.proceed i r = some t) : t.outbox = s.outbox := by
  rw [← outbox_ask s (.attempt i) r.waiting r.writing.call]
  rcases proceed_cases h with ⟨b, -, rfl⟩ | ⟨-, -, rfl⟩ | ⟨-, -, -, rfl⟩
  · unfold answer
    split
    · exact outbox_abandon ..
    · rfl
  · exact outbox_abandon ..
  · rfl

theorem outbox_outside (ha : a.isOutside = true) (h : s.step a = some t) :
    t.outbox = s.outbox := by
  cases a with
  | submit | advance | cancel | release => simp [Action.isOutside] at ha
  | elapse | command | reservation | evict | age | outage | override => cases h; rfl
  | faults f =>
    cases h
    unfold setFaults
    split <;> rfl
  | clientCall => cases h; exact outbox_ask ..
  | clientLeave k isOpen =>
    cases h
    unfold clientLeave
    split <;> rfl

theorem outbox_step (hs : s.step a = some t) :
    t.outbox = s.outbox ++ (s.signalled a).map (·.2) := by
  cases step_moves hs with
  | submit raw => simp [signalled, outbox_submit]
  | reserve hi =>
    simp only [signalled, hi, Status.sends, List.map_nil, List.append_nil]
    rfl
  | proceed hi ht =>
    simp only [signalled, hi, Status.sends, List.map_nil, List.append_nil]
    exact outbox_proceed ht
  | settle hi => simp [signalled, hi, Status.sends, outbox_settle, Function.comp_def]
  | @cancel i r inside =>
    have h : (s.cutOff i r inside).outbox = s.outbox := by
      unfold cutOff
      split <;> exact outbox_abandon ..
    simp [signalled, h]
  | release =>
    simp only [signalled, List.map_nil, List.append_nil]
    rfl
  | outside ha ht =>
    have hnone : s.signalled a = [] := by
      cases a with
      | advance => simp [Action.isOutside] at ha
      | _ => rfl
    simp [hnone, outbox_outside ha ht]

end outbox

theorem sends_cases (o : Option Status) : Status.sends o = [] ∨ ∃ u, Status.sends o = [u] := by
  unfold Status.sends sent
  split
  · split <;> simp
  · exact .inl rfl

theorem signalled_cases (s : State) (a : Action) :
    s.signalled a = [] ∨ ∃ i u, s.signalled a = [(i, u)] := by
  cases a with
  | advance i =>
    rcases sends_cases (s.status? i) with h | ⟨u, h⟩
    · exact .inl (by simp [signalled, h])
    · exact .inr ⟨i, u, by simp [signalled, h]⟩
  | _ => exact .inl rfl

/-! ### What results say -/

theorem owed_eq_nil (h : s.status? i ≠ some (.returned (.ok .inserted))) : s.owed i = [] := by
  unfold owed
  split
  · next hr => exact absurd (result?_eq_some.1 hr) h
  · rfl

/-- The signals that attempt `i` sends in a step. -/
def sends (s : State) (i : Nat) (a : Action) : List Signal.Update :=
  ((s.signalled a).filter (·.1 = i)).map (·.2)

theorem sends_advance (s : State) (i : Nat) :
    s.sends i (.advance i) = Status.sends (s.status? i) := by
  simp [sends, signalled, List.filter_map, Function.comp_def]

theorem sends_of_ne (h : a ≠ .advance i) : s.sends i a = [] := by
  cases a with
  | advance k =>
    have hk : k ≠ i := fun hk => h (hk ▸ rfl)
    simp [sends, signalled, List.filter_map, Function.comp_def, hk]
  | _ => rfl

theorem owed_settle (ho : s.Own) {event : Event} {reserved : Bool} {ending : Except Error Written}
    (hi : s.status? i = some (.settling event reserved ending)) :
    (s.settle i event reserved ending).owed i = sent event ending := by
  unfold owed result?
  rw [event?_settle, ho i _ _ hi rfl, status?_settle_self hi]
  rcases ending with e | _ | _ <;> rfl

/-- What an attempt has sent is what its result says, and stays so. -/
theorem owed_step (ho : s.Own) (hs : s.step a = some t) (i : Nat) :
    t.owed i = s.owed i ++ s.sends i a := by
  cases step_turns hs i with
  | same hst =>
    have hsame : t.owed i = s.owed i := by
      unfold owed result?
      rw [hst]
      cases hi : s.status? i with
      | none => cases s.event? i <;> cases t.event? i <;> rfl
      | some st => rw [event?_step_of_started hs (by simp [hi])]
    -- an attempt that sends does not stay as far as it was
    have hnone : s.sends i a = [] := by
      by_cases ha : a = .advance i
      · subst ha
        rw [sends_advance]
        cases hi : s.status? i with
        | none => rfl
        | some st =>
          cases st with
          | settling event reserved ending =>
            cases (step_settle hi).symm.trans hs
            cases (status?_settle_self hi).symm.trans (hst.trans hi)
          | _ => rfl
      · exact sends_of_ne ha
    rw [hsame, hnone, List.append_nil]
  | @submit raw hi hn ht =>
    subst ht hn
    have hold : s.owed s.attempts.length = [] := owed_eq_nil (by simp [hi])
    have hnew : (s.submit raw).owed s.attempts.length = [] := by
      refine owed_eq_nil ?_
      rw [status?_submit_self]
      unfold Status.first
      split <;> simp
    rw [sends_of_ne (by simp), hold, hnew, List.append_nil]
  | @reserve event hi ht =>
    subst ht
    have hold : s.owed i = [] := owed_eq_nil (by simp [hi])
    have hnew : (s.reserve i event).owed i = [] := by
      refine owed_eq_nil ?_
      rw [status?_reserve_self hi]
      unfold reserved
      split <;> simp
    rw [sends_advance, hi, hold, hnew]
    rfl
  | @proceed r hi ht =>
    have hold : s.owed i = [] := owed_eq_nil (by simp [hi])
    have hnew : t.owed i = [] := by
      refine owed_eq_nil ?_
      rcases status?_proceed_self hi ht with ⟨r', hr', -⟩ | ⟨ending, hr'⟩ <;> simp [hr']
    rw [sends_advance, hi, hold, hnew]
    rfl
  | @settle event reserved ending hi ht =>
    subst ht
    have hold : s.owed i = [] := owed_eq_nil (by simp [hi])
    rw [sends_advance, hi, hold, owed_settle ho hi]
    rfl
  | @cancel r inside hi ht =>
    subst ht
    have hold : s.owed i = [] := owed_eq_nil (by simp [hi])
    have hnew : (s.cutOff i r inside).owed i = [] :=
      owed_eq_nil (by simp [status?_cutOff_self hi])
    rw [sends_of_ne (by simp), hold, hnew, List.append_nil]

/-! ### Runs -/

variable {as : List Action}

/-- In the course of a run every attempt sends what its result says then, and nothing else. -/
theorem owed_run (ho : s.Own) (hr : s.run as = some t) (i : Nat) :
    t.owed i = s.owed i ++ ((s.signals as).filter (·.1 = i)).map (·.2) := by
  induction as generalizing s with
  | nil =>
    cases hr
    simp [signals]
  | cons a as ih =>
    rw [run] at hr
    obtain ⟨u, hu, hr⟩ := Option.bind_eq_some_iff.1 hr
    rw [ih (ho.step hu) hr, owed_step ho hu, signals, hu, List.append_assoc]
    simp [sends]

theorem mem_owed {u : Signal.Update} (h : u ∈ s.owed i) :
    s.result? i = some (.ok .inserted) ∧ ∃ e, s.event? i = some e ∧ u = .ofEvent e := by
  unfold owed at h
  split at h
  · next e he hr => exact ⟨hr, e, he, List.mem_singleton.1 h⟩
  · cases h

end State

end Intake.Ingest
