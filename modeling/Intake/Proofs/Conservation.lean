import Intake.Proofs.Interference
import Intake.Proofs.Outcomes
import Intake.Proofs.Surroundings
import Intake.Proofs.Traffic

/-!
# No signal is lost unless the worker is stopped

In a run of the service the updates that were handed to the pipeline are those of the insertions, one
for each, and those that a client dispatched. `Service.Conserved` puts this next to the account of
the pipeline. Each step keeps it (`Conserved.step`), so it holds in every state that a run reaches.

Stopping the worker is the exception that the account has to name: the update that it holds and
those that wait are gone without having been counted (`lost_when_stopped`).
-/

namespace Intake.Service

open Signal (Accounts Pipeline Traffic Update Refusal)

variable {s t : Service} {as : List Action} {a : Action} {x : Traffic} {i : Nat}

/-- What has gone through the pipeline after a step from `s`. -/
def passes (s : Service) (x : Traffic) : Action → Traffic
  | .ingest a => x.offer ((s.ingest.signalled a).map fun y => (some y.1, y.2))
  | .dispatch u => x.offer [(none, u)]
  | .launch => x.start s.signals.held.toList
  | .stopWorker => x.lose (s.signals.held.toList ++ s.signals.queue)
  | .touched t => x.touch t
  | .receive | .turn _ | .signalFaults _ _ => x

/-- What has gone through the pipeline after a run from `s`. -/
def traffic (s : Service) (x : Traffic) : List Action → Traffic
  | [] => x
  | a :: as =>
    match s.step a with
    | some t => t.traffic (s.passes x a) as
    | none => x

/-- Nothing has been ingested, and nothing has gone through the pipeline, whose worker is there. -/
structure Starts (s : Service) : Prop where
  ingest : s.ingest.Fresh
  outbox : s.ingest.outbox = []
  queue : s.signals.queue = []
  held : s.signals.held = none
  tasks : s.signals.tasks = []
  log : s.signals.log = []
  isOpen : s.signals.isOpen = true
  seen : s.signals.ledger.seen = .empty

/-- The account of the pipeline, and of the attempts that hand updates to it. -/
structure Conserved (x : Traffic) (s : Service) : Prop where
  own : s.ingest.Own
  outbox : s.ingest.outbox = []
  named : ∀ i, s.ingest.result? i = some (.ok .inserted) → ∃ e, s.ingest.event? i = some e
  sent : ∀ i, x.sentBy (some i) = s.ingest.owed i
  accounts : Accounts x s.signals

/-! ### Steps -/

/-- What a step does to the pipeline. -/
inductive Works (s t : Service) : Action → Prop
  | ingest {b : Ingest.Action} {v : Ingest.State} (hv : s.ingest.step b = some v)
    (h : t.signals = v.outbox.foldl .dispatch s.signals) : s.Works t (.ingest b)
  | dispatch {u : Update} (h : t.signals = s.signals.dispatch u) : s.Works t (.dispatch u)
  | receive (h : s.signals.receive = some t.signals) : s.Works t .receive
  | launch (h : s.signals.launch = some t.signals) : s.Works t .launch
  | turn {j : Nat} (h : s.signals.turn s.ingest.now j = some t.signals) : s.Works t (.turn j)
  | stop (h : t.signals = s.signals.stop) : s.Works t .stopWorker
  | faults {failing : Bool} {delay : Option Nat}
    (h : t.signals = { s.signals with ledger := { s.signals.ledger with failing, delay } }) :
    s.Works t (.signalFaults failing delay)
  | touched {k : Signal.Touch}
    (h : t.signals = { s.signals with ledger := s.signals.ledger.endTouch k }) :
    s.Works t (.touched k)

theorem step_works (hs : s.step a = some t) : s.Works t a := by
  cases a with
  | ingest b =>
    obtain ⟨v, hv, -, ht⟩ := step_ingest hs
    exact .ingest hv ht
  | receive =>
    obtain ⟨p, hp, rfl⟩ := Option.map_eq_some_iff.1 hs
    exact .receive hp
  | launch =>
    obtain ⟨p, hp, rfl⟩ := Option.map_eq_some_iff.1 hs
    exact .launch hp
  | turn j =>
    obtain ⟨p, hp, rfl⟩ := Option.map_eq_some_iff.1 hs
    exact .turn hp
  | dispatch => cases hs; exact .dispatch rfl
  | stopWorker => cases hs; exact .stop rfl
  | signalFaults => cases hs; exact .faults rfl
  | touched => cases hs; exact .touched rfl

/-- The signals that a step of ingestion leaves to be handed on are those that it sends. -/
theorem outbox_of_signalled {b : Ingest.Action} {v : Ingest.State} (ho : s.ingest.outbox = [])
    (hv : s.ingest.step b = some v) : v.outbox = (s.ingest.signalled b).map (·.2) := by
  rw [Ingest.State.outbox_step hv, ho, List.nil_append]

theorem accounts_offer (l : List (Nat × Update)) {p : Pipeline} (h : Accounts x p) :
    Accounts (x.offer (l.map fun y => (some y.1, y.2))) ((l.map (·.2)).foldl .dispatch p) := by
  induction l generalizing x p with
  | nil =>
    rw [List.map_nil, Traffic.offer, List.append_nil]
    exact h
  | cons y l ih =>
    have hl := ih (h.dispatch (some y.1) y.2)
    rw [Traffic.offer, Traffic.offer, List.append_assoc] at hl
    exact hl

theorem passes_of_other (ha : a.ingest? = none) (x : Traffic) (i : Nat) :
    (s.passes x a).sentBy (some i) = x.sentBy (some i) := by
  cases a with
  | ingest => cases ha
  | dispatch u => simp [passes, Traffic.sentBy_offer]
  | _ => rfl

theorem accounts_step (ho : s.ingest.outbox = []) (h : Accounts x s.signals)
    (hs : s.step a = some t) : Accounts (s.passes x a) t.signals := by
  cases step_works hs with
  | ingest hv ht =>
    rw [ht, outbox_of_signalled ho hv]
    exact accounts_offer _ h
  | @dispatch u ht => exact ht ▸ h.dispatch none u
  | receive ht => exact h.receive ht
  | launch ht => exact h.launch ht
  | turn ht => exact h.turn ht
  | stop ht => exact ht ▸ h.stop
  | @faults failing delay ht => exact ht ▸ h.faults failing delay
  | @touched k ht => exact ht ▸ h.touched k

theorem Conserved.step (h : Conserved x s) (hs : s.step a = some t) :
    Conserved (s.passes x a) t := by
  have haccounts := accounts_step h.outbox h.accounts hs
  have hrun : s.run [a] = some t := by simp [run, hs]
  have hout := outbox_run h.outbox hrun
  cases ha : a.ingest? with
  | none =>
    have hsame := ingest_of_other ha hs
    refine ⟨hsame ▸ h.own, hout, hsame ▸ h.named, fun i => ?_, haccounts⟩
    rw [passes_of_other ha, h.sent, hsame]
  | some b =>
    cases a with
    | ingest b' =>
      obtain ⟨v, hv, hvt, -⟩ := step_ingest hs
      have hown : v.Own := h.own.step hv
      have howed : ∀ i, t.ingest.owed i = v.owed i := fun i => by rw [hvt]; rfl
      refine ⟨hvt ▸ hown, hout, fun i hi => ?_, fun i => ?_, haccounts⟩
      · have hi' : v.result? i = some (.ok .inserted) := by
          rw [hvt] at hi
          exact hi
        have he : ∃ e, v.event? i = some e := by
          rcases Ingest.State.returned_step hv hi' with hold | ⟨e, _, w, -, hst, -⟩ | ⟨_, _, _, hx⟩
          · obtain ⟨e, he⟩ := h.named i hold
            exact ⟨e, Ingest.State.event?_step hv he⟩
          · exact ⟨e, Ingest.State.event?_step hv (h.own i _ e hst rfl)⟩
          · cases hx
        rw [hvt]
        exact he
      · rw [howed, Ingest.State.owed_step h.own hv, ← h.sent]
        simp [passes, Traffic.sentBy_offer, Ingest.State.sends, List.filter_map, Function.comp_def]
    | _ => cases ha

/-- A step that counts a refusal takes place where there is a reason for it. -/
theorem refuses_step (ho : s.ingest.outbox = []) (h : Accounts x s.signals) {r : Refusal}
    (hs : s.step a = some t)
    (hr : t.signals.met (· = .dropped r) ≠ s.signals.met (· = .dropped r)) :
    s.signals.Refuses r := by
  cases step_works hs with
  | @ingest b v hv ht =>
    rw [ht, outbox_of_signalled ho hv] at hr
    rcases Ingest.State.signalled_cases s.ingest b with hnone | ⟨i, u, hone⟩
    · rw [hnone] at hr
      exact absurd rfl hr
    · rw [hone] at hr
      exact h.refuses hr
  | dispatch ht =>
    rw [ht] at hr
    exact h.refuses hr
  | receive ht => exact absurd (congrFun (Pipeline.met_receive ht) _) hr
  | launch ht => exact absurd (congrFun (Pipeline.met_launch ht) _) hr
  | turn ht => exact absurd (Pipeline.met_dropped_turn ht) hr
  | stop ht | faults ht | touched ht =>
    rw [ht] at hr
    exact absurd rfl hr

theorem fixed_step (hs : s.step a = some t) (ha : a ≠ .stopWorker) :
    t.signals.fixed = s.signals.fixed := by
  cases step_works hs with
  | @ingest b v _ ht => rw [ht, Pipeline.fixed_dispatches]
  | dispatch ht => rw [ht, Pipeline.fixed_dispatch]
  | receive ht => exact Pipeline.fixed_receive ht
  | launch ht => exact Pipeline.fixed_launch ht
  | turn ht => exact Pipeline.fixed_turn ht
  | stop => exact absurd rfl ha
  | faults ht | touched ht =>
    rw [ht]
    rfl

/-! ### Runs -/

theorem Starts.conserved (h : s.Starts) : Conserved {} s := by
  have hno : ∀ i r, s.ingest.result? i ≠ some r := fun i r hi => by
    cases (h.ingest.status?_eq_none i).symm.trans (Ingest.State.result?_eq_some.1 hi)
  have hmet : ∀ f, s.signals.met f = [] := fun f => by simp [Pipeline.met, h.log]
  refine ⟨h.ingest.own, h.outbox, fun i hi => absurd hi (hno i _), fun i => ?_, ?_⟩
  · exact (Ingest.State.owed_eq_nil fun hi => hno i _ (Ingest.State.result?_eq_some.2 hi)).symm
  · constructor
    case shut => exact fun hshut => by cases h.isOpen.symm.trans hshut
    case seen => exact ⟨fun key => by simp [h.seen, hmet], fun key t ht => by simp [h.seen] at ht⟩
    all_goals simp [Traffic.updates, Pipeline.running, h.queue, h.held, h.tasks, h.log, hmet]

theorem Conserved.run (h : Conserved x s) (hr : s.run as = some t) :
    Conserved (s.traffic x as) t := by
  induction as generalizing s x with
  | nil =>
    cases hr
    exact h
  | cons a as ih =>
    obtain ⟨u, hu, hr⟩ := Option.bind_eq_some_iff.1 hr
    rw [traffic, hu]
    exact ih (h.step hu) hr

theorem isOpen_run (hr : s.run as = some t) (ha : .stopWorker ∉ as) :
    t.signals.isOpen = s.signals.isOpen := by
  induction as generalizing s with
  | nil =>
    cases hr
    rfl
  | cons a as ih =>
    obtain ⟨u, hu, hr⟩ := Option.bind_eq_some_iff.1 hr
    rw [ih hr (List.not_mem_of_not_mem_cons ha)]
    exact congrArg Prod.snd (fixed_step hu (List.ne_of_not_mem_cons ha).symm)

theorem settings_run (hr : s.run as = some t) : t.signals.settings = s.signals.settings := by
  induction as generalizing s with
  | nil =>
    cases hr
    rfl
  | cons a as ih =>
    obtain ⟨u, hu, hr⟩ := Option.bind_eq_some_iff.1 hr
    rw [ih hr]
    cases a with
    | stopWorker =>
      cases hu
      rfl
    | _ => exact congrArg Prod.fst (fixed_step hu (by simp))

theorem direct_traffic (ha : ∀ k, .touched k ∉ as) : (s.traffic x as).direct = x.direct := by
  induction as generalizing s x with
  | nil => rfl
  | cons a as ih =>
    have hrest : ∀ k, .touched k ∉ as := fun k hk => ha k (List.mem_cons_of_mem _ hk)
    rw [traffic]
    split
    · rw [ih hrest]
      cases a with
      | touched k => exact absurd List.mem_cons_self (ha k)
      | _ => rfl
    · rfl

/-- Every insertion hands one update to the pipeline, with the user of its event as the key, or the
session if there is no user, and with its time, and no other attempt hands one over. What was handed over is in one place each (`Accounts`): it was dropped,
waits, is held, runs, or has ended, or it was lost when the worker was stopped, and without a stop
nothing is lost. Each end is counted once, and updates are dropped for the reason that is counted.
Updates are started in the order in which they came. The ledger has the latest of the updates of each
key that succeeded. -/
theorem signals_conserved_unless_stopped (hs : s.Starts) (hr : s.run as = some t) :
    Accounts (s.traffic {} as) t.signals ∧ t.signals.settings = s.signals.settings ∧
    (∀ i, t.ingest.result? i = some (.ok .inserted) → ∃ e, t.ingest.event? i = some e ∧
      (s.traffic {} as).sentBy (some i) =
        [{ key := match e.userId with | some u => u.text | none => e.sessionId
           seenAt := e.timestamp }]) ∧
    (∀ i, t.ingest.result? i ≠ some (.ok .inserted) →
      (s.traffic {} as).sentBy (some i) = []) ∧
    (∀ f : Signal.Fate, (t.signals.log.flatMap (·.2.samples)).count f.counter =
      (t.signals.met (· = f)).length) ∧
    (∀ r a u, t.step a = some u →
      u.signals.met (· = .dropped r) ≠ t.signals.met (· = .dropped r) → t.signals.Refuses r) ∧
    (.stopWorker ∉ as → t.signals.isOpen = true ∧ (s.traffic {} as).lost = []) ∧
    ((∀ k, .touched k ∉ as) → (s.traffic {} as).direct = []) := by
  have h := hs.conserved.run hr
  refine ⟨h.accounts, settings_run hr, fun i hi => ?_, fun i hi => ?_,
    t.signals.count_counter, fun r a u hu => refuses_step h.outbox h.accounts hu,
    fun hstop => ?_, fun hno => direct_traffic hno⟩
  · obtain ⟨e, he⟩ := h.named i hi
    refine ⟨e, he, ?_⟩
    rw [h.sent, Ingest.State.owed, he, hi]
    rfl
  · rw [h.sent]
    exact Ingest.State.owed_eq_nil fun hst => hi (Ingest.State.result?_eq_some.2 hst)
  · have hopen : t.signals.isOpen = true := (isOpen_run hr hstop).trans hs.isOpen
    exact ⟨hopen, h.accounts.opened hopen⟩

/-! ### An update that arrives, and updates that are lost -/

theorem starts_initial : initial.Starts :=
  ⟨⟨rfl, rfl, rfl⟩, rfl, rfl, rfl, rfl, rfl, rfl, rfl⟩

theorem one_signal_for_insertion : ∃ t, ∃ e : Event, ∃ key : String, initial.Starts ∧
    initial.run insertAndSignal = some t ∧
    t.ingest.result? 0 = some (.ok .inserted) ∧ .stopWorker ∉ insertAndSignal ∧
    t.ingest.event? 0 = some e ∧
    (key = match e.userId with | some u => u.text | none => e.sessionId) ∧
    (initial.traffic {} insertAndSignal).sentBy (some 0) = [⟨key, e.timestamp⟩] ∧
    t.signals.met (· = .finished .success) = [⟨key, e.timestamp⟩] ∧
    t.signals.ledger.seen.get? key = some e.timestamp ∧
    (initial.traffic {} insertAndSignal).lost = [] := by
  obtain ⟨t, ht⟩ := Option.isSome_iff_exists.1
    (show (initial.run insertAndSignal).isSome = true by decide +kernel)
  have hend : (initial.run insertAndSignal).map (fun t => (t.ingest.result? 0, decide
      (t.signals.met (· = .finished .success) = (t.ingest.event? 0).toList.map .ofEvent))) =
      some (some (.ok .inserted), true) := by decide +kernel
  rw [ht] at hend
  simp only [Option.map_some, Option.some.injEq, Prod.mk.injEq, decide_eq_true_eq] at hend
  have hstop : .stopWorker ∉ insertAndSignal := by simp [insertAndSignal, insertOne]
  have htouch : ∀ k, .touched k ∉ insertAndSignal := by simp [insertAndSignal, insertOne]
  obtain ⟨haccounts, -, hsent, -, -, -, hlost, hdirect⟩ :=
    signals_conserved_unless_stopped starts_initial ht
  obtain ⟨e, he, hone⟩ := hsent 0 hend.1
  have hmet : t.signals.met (· = .finished .success) = [.ofEvent e] := by rw [hend.2, he]; rfl
  have hshows := haccounts.seen
  rw [hmet, hdirect htouch, List.append_nil] at hshows
  refine ⟨t, e, e.signalKey, starts_initial, ht, hend.1, hstop, he, rfl, hone, hmet, ?_,
    (hlost hstop).2⟩
  cases hseen : t.signals.ledger.seen.get? e.signalKey with
  | none => exact absurd rfl ((hshows.absent _).1 hseen (.ofEvent e) (by simp))
  | some time =>
    obtain ⟨⟨u, hu, rfl⟩, -⟩ := hshows.latest _ _ hseen
    cases List.mem_singleton.1 (List.mem_of_mem_filter hu)
    rfl

/-- A pipeline that runs one update at a time. -/
def oneAtATime : Service :=
  { ingest := .initial, signals := { settings := { inFlight := 1 } } }

def ping (key : String) : Update := ⟨key, .epoch⟩

/-- Of three updates one is running, one is held and one waits when the worker is stopped. -/
def stoppedWithTwo : List Action :=
  [.signalFaults false (some 100), .dispatch (ping "first"), .dispatch (ping "second"),
    .dispatch (ping "third"), .receive, .launch, .turn 0, .receive, .stopWorker]

theorem lost_when_stopped : ∃ t, oneAtATime.Starts ∧ oneAtATime.run stoppedWithTwo = some t ∧
    (oneAtATime.traffic {} stoppedWithTwo).updates = [ping "first", ping "second", ping "third"] ∧
    t.signals.running = [ping "first"] ∧
    ¬(oneAtATime.traffic {} stoppedWithTwo).updates.Perm
      (t.signals.log.map (·.1) ++ t.signals.running ++ t.signals.held.toList ++
        t.signals.queue) := by
  obtain ⟨t, ht⟩ := Option.isSome_iff_exists.1
    (show (oneAtATime.run stoppedWithTwo).isSome = true by decide +kernel)
  have hend : (oneAtATime.run stoppedWithTwo).map (fun t => (t.signals.log.map (·.1),
      t.signals.running, t.signals.held.toList, t.signals.queue)) =
      some ([], [ping "first"], [], []) := by decide +kernel
  rw [ht] at hend
  simp only [Option.map_some, Option.some.injEq, Prod.mk.injEq] at hend
  obtain ⟨hlog, hrunning, hheld, hqueue⟩ := hend
  have hupdates : (oneAtATime.traffic {} stoppedWithTwo).updates =
      [ping "first", ping "second", ping "third"] := by decide +kernel
  refine ⟨t, ⟨⟨rfl, rfl, rfl⟩, rfl, rfl, rfl, rfl, rfl, rfl, rfl⟩, ht, hupdates, hrunning,
    fun hperm => ?_⟩
  rw [hupdates, hlog, hrunning, hheld, hqueue] at hperm
  exact absurd hperm.length_eq (by decide)

end Intake.Service
