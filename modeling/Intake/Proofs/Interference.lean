import Intake.Http.Endpoint
import Intake.Proofs.Conditions
import Intake.Proofs.Senders
import Intake.Service

/-!
# Ingestion beside the pipeline

The pipeline has no say in ingestion. The ingestion of a run of the service is a run of ingestion
alone, which knows nothing of a worker, of running updates or of the settings and faults of signals
(`run_ingest`). So two runs of the service that take the same steps of ingestion agree on all that
ingestion has and does, at the same times, whatever else they do (`run_agree`). And a run may be
changed in everything else: what is not a step of the worker or of a running update is always
possible (`run_exists`).

Ingestion alone keeps the signals that it sends in its outbox, while the service hands them on in
the step in which they are sent. No step looks into the outbox, and that is the one thing to show
(`step_cleared`).
-/

namespace Intake

namespace Ingest.State

/-- The state with nothing left to be handed on. -/
def cleared (s : State) : State := { s with outbox := [] }

section cleared

variable (s : State) (i : Nat) (r : Running)

theorem ask_cleared (p : Store.Party) (waiting : Bool) (call : Store.Call) :
    s.cleared.ask p waiting call = ((s.ask p waiting call).1.cleared, (s.ask p waiting call).2) := by
  cases waiting <;> rfl

theorem abandon_cleared : s.cleared.abandon i r = (s.abandon i r).cleared := by
  unfold abandon
  split <;> rfl

theorem answer_cleared (b : Store.Answer) :
    (s.cleared.answer i r b).cleared = (s.answer i r b).cleared := by
  unfold answer
  split
  · rw [abandon_cleared]
    rfl
  · rfl

theorem expire_cleared : (s.cleared.expire i r).cleared = (s.expire i r).cleared := by
  unfold expire
  rw [abandon_cleared]
  rfl

theorem proceed_cleared :
    (s.cleared.proceed i r).map cleared = (s.proceed i r).map cleared := by
  have hnow : s.cleared.now = s.now := rfl
  unfold proceed
  simp only [ask_cleared, hnow]
  split
  · next b hb => exact congrArg some (answer_cleared _ i r b)
  · split
    · exact congrArg some (expire_cleared _ i r)
    · split <;> rfl

theorem settle_cleared (event : Event) (reserved : Bool) (ending : Except Error Written) :
    (s.cleared.settle i event reserved ending).cleared =
      (s.settle i event reserved ending).cleared := by
  unfold settle settleReservation signal
  cases reserved <;> rcases ending with e | _ | _ <;> rfl

theorem cutOff_cleared (inside : Bool) :
    (s.cleared.cutOff i r inside).cleared = (s.cutOff i r inside).cleared := by
  unfold cutOff
  rw [abandon_cleared]
  split <;> rfl

/-- No step looks at the signals that were sent. -/
theorem step_cleared (a : Action) : (s.cleared.step a).map cleared = (s.step a).map cleared := by
  cases a with
  | submit raw =>
    simp only [step, submit]
    cases Event.ofRaw raw <;> rfl
  | advance i =>
    have hi : s.cleared.status? i = s.status? i := rfl
    simp only [step, advance, hi]
    split
    · rfl
    · exact proceed_cleared s i _
    · exact congrArg some (settle_cleared s i _ _ _)
    · rfl
  | cancel i inside =>
    have hi : s.cleared.status? i = s.status? i := rfl
    simp only [step, cancel, hi]
    split
    · exact congrArg some (cutOff_cleared s i _ inside)
    · rfl
  | release j =>
    have hj : s.cleared.releases = s.releases := rfl
    simp only [step, release, hj]
    split <;> rfl
  | elapse | command | reservation | evict | age | outage | override => rfl
  | faults f =>
    have hst : s.cleared.store = s.store := rfl
    simp only [step, setFaults, hst]
    split <;> rfl
  | clientCall k waiting call =>
    simp only [step, ask_cleared]
    rfl
  | clientLeave k isOpen => cases isOpen <;> rfl

theorem run_cleared (as : List Action) : (s.cleared.run as).map cleared = (s.run as).map cleared := by
  induction as generalizing s with
  | nil => rfl
  | cons a as ih =>
    have hstep := step_cleared s a
    simp only [run]
    cases h : s.step a with
    | none =>
      rw [h, Option.map_none, Option.map_eq_none_iff] at hstep
      rw [hstep]
    | some t =>
      rw [h, Option.map_some, Option.map_eq_some_iff] at hstep
      obtain ⟨u, hu, hut⟩ := hstep
      rw [hu, Option.bind_some, Option.bind_some, ← ih u, ← ih t, hut]

end cleared

end Ingest.State

namespace Service

open Ingest (sent)

variable {s s' t t' u : Service} {as bs : List Action} {a : Action}

/-- The step of ingestion, if the action is one. -/
def Action.ingest? : Action → Option Ingest.Action
  | .ingest a => some a
  | _ => none

/-- Whether the action is a step of the worker or of a running update. -/
def Action.isBackground : Action → Bool
  | .receive | .launch | .turn _ => true
  | _ => false

/-- The steps of ingestion among these actions. -/
def ingestion (as : List Action) : List Ingest.Action := as.filterMap Action.ingest?

/-- What the request is told for which attempt `i` was started. -/
def response? (s : Service) (i : Nat) : Option Http.Response :=
  (s.ingest.result? i).map .ofResult

theorem step_ingest {b : Ingest.Action} (h : s.step (.ingest b) = some t) :
    ∃ v, s.ingest.step b = some v ∧ t.ingest = v.cleared ∧
      t.signals = v.outbox.foldl .dispatch s.signals := by
  obtain ⟨v, hv, rfl⟩ := Option.map_eq_some_iff.1 h
  exact ⟨v, hv, rfl, rfl⟩

theorem ingest_of_other (ha : a.ingest? = none) (h : s.step a = some t) : t.ingest = s.ingest := by
  cases a with
  | ingest => cases ha
  | dispatch | stopWorker | signalFaults | touched => cases h; rfl
  | receive | launch | turn =>
    obtain ⟨p, -, rfl⟩ := Option.map_eq_some_iff.1 h
    rfl

/-- Whatever is no step of the background is possible as soon as ingestion allows it. -/
theorem isSome_step (ha : a.isBackground = false)
    (hi : ∀ b, a = .ingest b → (s.ingest.step b).isSome) : (s.step a).isSome := by
  cases a with
  | ingest b => simpa [step] using hi b rfl
  | dispatch | stopWorker | signalFaults | touched => rfl
  | receive | launch | turn => cases ha

/-- Between two steps of the service there is no signal left to be handed on. -/
theorem outbox_run (ho : s.ingest.outbox = []) (hr : s.run as = some t) : t.ingest.outbox = [] := by
  induction as generalizing s with
  | nil =>
    cases hr
    exact ho
  | cons a as ih =>
    obtain ⟨u, hu, hr⟩ := Option.bind_eq_some_iff.1 hr
    refine ih ?_ hr
    cases ha : a.ingest? with
    | none => rw [ingest_of_other ha hu, ho]
    | some b =>
      cases a with
      | ingest b' =>
        obtain ⟨v, -, hv, -⟩ := step_ingest hu
        rw [hv]
        rfl
      | _ => cases ha

theorem cleared_of_outbox {i : Ingest.State} (h : i.outbox = []) : i.cleared = i := by
  cases i
  cases h
  rfl

/-- The ingestion of a run of the service is a run of ingestion alone. -/
theorem run_ingest (hr : s.run as = some t) :
    ∃ v, s.ingest.run (ingestion as) = some v ∧ t.ingest.cleared = v.cleared := by
  induction as generalizing s with
  | nil =>
    cases hr
    exact ⟨_, rfl, rfl⟩
  | cons a as ih =>
    obtain ⟨u, hu, hr⟩ := Option.bind_eq_some_iff.1 hr
    obtain ⟨v, hv, htv⟩ := ih hr
    cases ha : a.ingest? with
    | none =>
      rw [ingest_of_other ha hu] at hv
      exact ⟨v, by rwa [ingestion, List.filterMap_cons_none ha], htv⟩
    | some b =>
      cases a with
      | ingest b' =>
        obtain ⟨w, hw, hwu, -⟩ := step_ingest hu
        -- the run goes on from `w` as it does without the signals of `w`
        have hrun := w.run_cleared (ingestion as)
        rw [← hwu, hv, Option.map_some] at hrun
        obtain ⟨x, hx, hxv⟩ := Option.map_eq_some_iff.1 hrun.symm
        exact ⟨x, by simpa [ingestion, Action.ingest?, Ingest.State.run, hw] using hx,
          htv.trans hxv.symm⟩
      | _ => cases ha

/-- Runs that take the same steps of ingestion agree on it. -/
theorem run_agree (hs : s'.ingest.cleared = s.ingest.cleared) (h : ingestion bs = ingestion as)
    (hr : s.run as = some t) (hr' : s'.run bs = some t') :
    t'.ingest.cleared = t.ingest.cleared := by
  obtain ⟨v, hv, htv⟩ := run_ingest hr
  obtain ⟨v', hv', htv'⟩ := run_ingest hr'
  have hrun := s.ingest.run_cleared (ingestion as)
  rw [← hs, ← h, s'.ingest.run_cleared, h, ← h, hv', h, hv] at hrun
  rw [htv, htv', Option.some.inj hrun]

/-- What ingestion alone can do it can do in the service, whatever else happens that is no step of the
background. -/
theorem run_exists (hb : ∀ b ∈ bs, b.isBackground = false) {v : Ingest.State}
    (hv : s.ingest.run (ingestion bs) = some v) : ∃ t, s.run bs = some t := by
  induction bs generalizing s v with
  | nil => exact ⟨s, rfl⟩
  | cons b bs ih =>
    have hrest : ∀ c ∈ bs, c.isBackground = false := fun c hc => hb c (List.mem_cons_of_mem _ hc)
    obtain ⟨u, hu, w, hw⟩ : ∃ u, s.step b = some u ∧
        ∃ w, u.ingest.run (ingestion bs) = some w := by
      cases hc : b.ingest? with
      | none =>
        have hsome : (s.step b).isSome := by
          refine isSome_step (hb b (by simp)) fun c hbc => ?_
          subst hbc
          cases hc
        obtain ⟨u, hu⟩ := Option.isSome_iff_exists.1 hsome
        refine ⟨u, hu, v, ?_⟩
        rw [ingest_of_other hc hu]
        rwa [ingestion, List.filterMap_cons_none hc] at hv
      | some c =>
        cases b with
        | ingest c' =>
          have hrun : s.ingest.run (c' :: ingestion bs) = some v := hv
          obtain ⟨x, hx, hxv⟩ := Option.bind_eq_some_iff.1 hrun
          refine ⟨_, by rw [step, hx]; rfl, ?_⟩
          have hclear := x.run_cleared (ingestion bs)
          rw [hxv] at hclear
          obtain ⟨w, hw, -⟩ := Option.map_eq_some_iff.1 hclear
          exact ⟨w, hw⟩
        | _ => cases hc
    obtain ⟨t, ht⟩ := ih hrest hw
    exact ⟨t, by rw [run, hu, Option.bind_some, ht]⟩

/-- An attempt returns in the very step in which its signal is handed to the pipeline, whatever the
pipeline does with it. -/
theorem settles_at_once (ho : s.ingest.outbox = []) {i : Nat} {event : Event} {reserved : Bool}
    {ending : Except Ingest.Error Ingest.Written}
    (hi : s.ingest.status? i = some (.settling event reserved ending)) :
    ∃ t, s.step (.ingest (.advance i)) = some t ∧
      t.ingest.result? i = some (ending.map Ingest.State.ofWritten) ∧
      t.ingest.now = s.ingest.now ∧ t.signals = (sent event ending).foldl .dispatch s.signals := by
  have hstep := Ingest.State.step_settle hi
  have hout : (s.ingest.settle i event reserved ending).outbox = sent event ending := by
    rw [Ingest.State.outbox_settle, ho, List.nil_append]
  refine ⟨_, by rw [step, hstep]; rfl, ?_, Ingest.State.now_settle .., ?_⟩
  · exact Ingest.State.result?_eq_some.2 (Ingest.State.status?_settle_self hi)
  · rw [← hout]
    rfl

/-- The ingestion of a run of the service is a run of ingestion alone. So the service may start with
any other pipeline, with other settings, faults and updates in it, and do anything else beside the
same steps of ingestion: that is a run if it leaves out the steps of the worker and of the running
updates, and every run of that kind comes to the same state of ingestion, with the same results and
responses, the same calls and commands at the same times, the same tables and the same keys. And
ingestion never waits for the pipeline: it can take every step that it could take alone, and an
attempt returns in the step in which it hands on its signal. -/
theorem signals_do_not_interfere (ho : s.ingest.outbox = []) (hr : s.run as = some t) :
    (∃ v, s.ingest.run (ingestion as) = some v ∧ t.ingest = v.cleared) ∧
    (∀ (s' : Service) bs, s'.ingest = s.ingest → ingestion bs = ingestion as →
      ((∀ b ∈ bs, b.isBackground = false) → ∃ t', s'.run bs = some t') ∧
      ∀ t', s'.run bs = some t' → t'.ingest = t.ingest ∧ t'.response? = t.response?) ∧
    (∀ b, (t.step (.ingest b)).isSome = (t.ingest.step b).isSome) ∧
    ∀ i event reserved ending, t.ingest.status? i = some (.settling event reserved ending) →
      ∃ u, t.step (.ingest (.advance i)) = some u ∧
        u.ingest.result? i = some (ending.map Ingest.State.ofWritten) ∧
        u.ingest.now = t.ingest.now ∧
        u.signals = (sent event ending).foldl .dispatch t.signals := by
  have hot := outbox_run ho hr
  obtain ⟨v, hv, htv⟩ := run_ingest hr
  refine ⟨⟨v, hv, by rw [← htv, cleared_of_outbox hot]⟩, fun s' bs hs hb => ⟨fun hno => ?_,
    fun t' hr' => ?_⟩, fun b => by simp [step], fun i _ _ _ hi => settles_at_once hot hi⟩
  · exact run_exists hno (by rw [hs, hb, hv])
  · have hot' : t'.ingest.outbox = [] := outbox_run (by rw [hs, ho]) hr'
    have hagree : t'.ingest.cleared = t.ingest.cleared := run_agree (by rw [hs]) hb hr hr'
    rw [cleared_of_outbox hot, cleared_of_outbox hot'] at hagree
    exact ⟨hagree, by funext i; rw [response?, hagree, response?]⟩

/-! ### An insertion whose signal is written, and one whose signal is dropped -/

/-- The service with default settings over an empty store in memory. -/
def initial : Service := { ingest := .initial, signals := { settings := {} } }

/-- The same with a pipeline that takes nothing: its worker is gone, and its ledger fails. -/
def deaf : Service :=
  { ingest := .initial
    signals := { settings := { capacity := 0, inFlight := 0 }, ledger := { failing := true },
                 isOpen := false } }

def insertOne : List Action :=
  .ingest (.submit Ingest.State.aView) :: List.replicate 7 (.ingest (.advance 0))

/-- An insertion, and the signal of it is written. -/
def insertAndSignal : List Action :=
  .signalFaults false (some 20) :: insertOne ++
    [.receive, .launch, .turn 0, .ingest (.elapse 20), .turn 0]

/-- The same steps of ingestion without a worker. -/
def insertOnly : List Action :=
  insertOne ++ [.stopWorker, .ingest (.elapse 20), .signalFaults true none]

theorem same_insertion_without_worker : ∃ t t', initial.ingest.outbox = [] ∧
    initial.run insertAndSignal = some t ∧ deaf.ingest = initial.ingest ∧
    ingestion insertOnly = ingestion insertAndSignal ∧ deaf.run insertOnly = some t' ∧
    t'.ingest = t.ingest ∧ t'.response? 0 = some ⟨201, .inserted true⟩ ∧
    t.signals.log.map (·.2) = [.finished .success] ∧
    t'.signals.log.map (·.2) = [.dropped .closed] := by
  obtain ⟨t, ht⟩ := Option.isSome_iff_exists.1
    (show (initial.run insertAndSignal).isSome = true by decide +kernel)
  have hend : (initial.run insertAndSignal).map (fun t => (t.response? 0,
      t.signals.log.map (·.2))) = some (some ⟨201, .inserted true⟩, [.finished .success]) := by
    decide +kernel
  have hend' : (deaf.run insertOnly).map (fun t => t.signals.log.map (·.2)) =
      some [.dropped .closed] := by decide +kernel
  obtain ⟨-, hany, -⟩ := signals_do_not_interfere (s := initial) rfl ht
  obtain ⟨hexists, hagree⟩ := hany deaf insertOnly rfl rfl
  obtain ⟨t', ht'⟩ := hexists (by decide)
  obtain ⟨hsame, hresp⟩ := hagree t' ht'
  rw [ht] at hend
  rw [ht'] at hend'
  simp only [Option.map_some, Option.some.injEq, Prod.mk.injEq] at hend hend'
  exact ⟨t, t', rfl, ht, rfl, rfl, ht', hsame, by rw [hresp, hend.1], hend.2, hend'⟩

end Service

end Intake
