import Intake.Proofs.StoreCalls

/-!
# How often transactions are begun

An attempt begins a transaction when it comes to the store, and again each time one is to be run
again (`Doing.Paced`). The repetition is counted just before the call that begins it, so the two may
differ by one while an attempt is between them; an attempt that waits is not.
-/

namespace Intake.Ingest

open Store (Call)

namespace Doing

/-- No transaction has been begun, or one is to be run again. -/
def resting (ds : List Doing) : Bool := ds.getLast?.all (· = .retried)

/-- As many transactions were begun as were run again, and one more unless it is to come. -/
def Paced (ds : List Doing) : Prop :=
  ds.count (.call .begin) + (if resting ds then 1 else 0) = ds.count .retried + 1

namespace Paced

variable {ds : List Doing}

theorem nil : Paced [] := rfl

theorem call (h : Paced ds) {c : Call} (hc : resting ds = true ↔ c = .begin) :
    Paced (ds ++ [.call c]) ∧ resting (ds ++ [.call c]) = false := by
  have hrest : resting (ds ++ [.call c]) = false := by simp [resting]
  refine ⟨?_, hrest⟩
  unfold Paced at *
  rw [hrest, List.count_append, List.count_append]
  by_cases hb : c = .begin
  · rw [hc.2 hb] at h
    simp [hb] at h ⊢
    omega
  · have hno : resting ds = false := by simpa using fun hr => hb (hc.1 hr)
    rw [hno] at h
    simpa [hb] using h

theorem dropped (h : Paced ds) (hd : resting ds = false) (b : Bool) :
    Paced (ds ++ if b then [.dropped] else []) ∧
      resting (ds ++ if b then [.dropped] else []) = false := by
  cases b with
  | false => simpa using ⟨h, hd⟩
  | true =>
    have hrest : resting (ds ++ [.dropped]) = false := by simp [resting]
    refine ⟨?_, hrest⟩
    unfold Paced at *
    simp [hrest, hd] at h ⊢
    exact h

theorem retried (h : Paced ds) (hd : resting ds = false) (b : Bool) :
    Paced (ds ++ if b then [.retried] else []) ∧
      resting (ds ++ if b then [.retried] else []) = b := by
  cases b with
  | false => simpa using ⟨h, hd⟩
  | true =>
    have hrest : resting (ds ++ [.retried]) = true := by simp [resting]
    refine ⟨?_, hrest⟩
    unfold Paced at *
    simp [hrest, hd] at h ⊢
    exact h

end Paced

end Doing

/-- A writing that goes on begins a transaction next if it has one run again, and only then. -/
theorem Writing.step_going {k : Nat} {w w' : Writing} {b : Store.Answer}
    (h : w.answered k b = .going w') : w'.step = .begin ↔ w.repeats k b = true := by
  have hrows : ∀ e, rowsStep e ≠ .begin := by
    intro e
    unfold rowsStep
    split <;> simp
  unfold answered failed at h
  unfold repeats
  split at h <;> (try split at h) <;> (try split at h) <;>
    simp_all [withStep]
  all_goals subst h; simp [hrows]

theorem Writing.not_repeats_settled {k : Nat} {w : Writing} {b : Store.Answer}
    {res : Except Store.Error Written} (h : w.answered k b = .settled res) :
    w.repeats k b = false := by
  unfold answered failed at h
  unfold repeats
  split at h <;> (try split at h) <;> (try split at h) <;> simp_all

/-- The transactions of an attempt that has come this far are paced. Once it writes no more and
`careful` holds, none is to be run again. -/
def Status.Paced (careful : Prop) (ds : List Doing) : Option Status → Prop
  | none | some (.reserving _) => ds = []
  | some (.running r) => Doing.Paced ds ∧
    (Doing.resting ds = true ↔ r.waiting = false ∧ r.writing.step = .begin)
  | some _ => Doing.Paced ds ∧ (careful → ds.getLast? ≠ some .retried)

namespace State

variable {s t : State} {a : Action} {i : Nat} {r : Running} {careful : Prop}

/-- Only attempts that wait are cut off. -/
def CutsWaiting (s : State) : Action → Prop
  | .cancel i _ => ∀ r, s.status? i = some (.running r) → r.waiting = true
  | _ => True

def Paced (careful : Prop) (s : State) (i : Nat) : Prop :=
  Status.Paced careful (s.doings i) (s.status? i)

theorem Writing.begin_iff_call {w : Writing} : w.call = .begin ↔ w.step = .begin := by
  unfold Writing.call
  split <;> simp_all

theorem getLast?_ne_retried {ds : List Doing} (h : Doing.resting ds = false) :
    ds.getLast? ≠ some .retried := by
  intro hd
  simp [Doing.resting, hd] at h

theorem Paced.proceed (h : s.Paced careful i) (hi : s.status? i = some (.running r))
    (ht : s.proceed i r = some t) : t.Paced careful i := by
  unfold Paced at *
  rw [hi] at h
  obtain ⟨hpaced, hrest⟩ := h
  -- whether it was made before or just now, the present call is the last dealing
  have hasked : Doing.Paced ((s.ask (.attempt i) r.waiting r.writing.call).1.doings i) ∧
      Doing.resting ((s.ask (.attempt i) r.waiting r.writing.call).1.doings i) = false := by
    rw [doings_ask]
    cases hw : r.waiting with
    | true =>
      have hno : Doing.resting (s.doings i) = false := by simpa [hw] using hrest
      simpa using ⟨hpaced, hno⟩
    | false =>
      rw [if_pos ⟨rfl, rfl⟩]
      refine hpaced.call ?_
      rw [hrest, Writing.begin_iff_call]
      simp [hw]
  rcases proceed_cases ht with ⟨b, -, rfl⟩ | ⟨-, -, rfl⟩ | ⟨-, -, hw, rfl⟩
  · rw [status?_answer_self hi, doings_answer, if_pos rfl, settings_ask, ← List.append_assoc]
    have hdropped := hasked.1.dropped hasked.2 (r.writing.drops b)
    obtain ⟨hd, hr⟩ := hdropped.1.retried hdropped.2 (r.writing.repeats s.settings.maxRetries b)
    unfold Running.next
    cases hw : r.writing.answered s.settings.maxRetries b with
    | going w =>
      refine ⟨hd, ?_⟩
      rw [hr, Writing.step_going hw]
      simp
    | settled res =>
      refine ⟨hd, fun _ => getLast?_ne_retried ?_⟩
      rw [hr, Writing.not_repeats_settled hw]
  · rw [status?_expire_self hi, doings_expire]
    have hdropped := hasked.1.dropped hasked.2 r.writing.isOpen
    simp only [true_and]
    exact ⟨hdropped.1, fun _ => getLast?_ne_retried hdropped.2⟩
  · rw [status?_ask_self hi, doings_setStatus]
    refine ⟨hasked.1, ?_⟩
    rw [hasked.2]
    simp

theorem Paced.cutOff {inside : Bool} (h : s.Paced careful i) (hi : s.status? i = some (.running r))
    (hc : careful → r.waiting = true) : (s.cutOff i r inside).Paced careful i := by
  unfold Paced at *
  rw [hi] at h
  obtain ⟨hpaced, hrest⟩ := h
  rw [status?_cutOff_self hi, doings_cutOff]
  simp only [true_and]
  cases hr : Doing.resting (s.doings i) with
  | false =>
    obtain ⟨hd, hr'⟩ := hpaced.dropped hr r.writing.isOpen
    exact ⟨hd, fun _ => getLast?_ne_retried hr'⟩
  | true =>
    -- before a transaction is begun there is none to give up
    obtain ⟨hw, hb⟩ := hrest.1 hr
    have hopen : r.writing.isOpen = false := by simp [Writing.isOpen, hb]
    rw [hopen]
    refine ⟨by simpa using hpaced, fun hcareful => ?_⟩
    rw [hc hcareful] at hw
    cases hw

theorem Paced.step (h : s.Paced careful i) (hs : s.step a = some t)
    (hc : careful → s.CutsWaiting a) : t.Paced careful i := by
  rcases doings_step hs i with ⟨hd, -, hstays⟩ | ⟨r, rfl, hi, ht⟩ | ⟨r, inside, rfl, hi, rfl⟩
  · have hsame : t.status? i = s.status? i → t.Paced careful i := by
      intro hst
      unfold Paced at *
      rwa [hst, hd]
    cases step_turns hs i with
    | same hst => exact hsame hst
    | @submit raw hi hlen ht =>
      subst hlen ht
      unfold Paced at *
      rw [hi] at h
      rw [status?_submit_self, hd, h]
      unfold Status.first
      split
      · exact ⟨.nil, by simp⟩
      · rfl
    | @reserve event hi ht =>
      subst ht
      unfold Paced at *
      rw [hi] at h
      rw [status?_reserve_self hi, hd, h]
      unfold State.reserved
      split
      · exact ⟨.nil, by simp [Doing.resting]⟩
      · exact ⟨.nil, by simp [Doing.resting]⟩
      · exact ⟨.nil, by simp⟩
      · exact ⟨.nil, by simp⟩
    | @settle event reserved ending hi ht =>
      subst ht
      unfold Paced at *
      rw [hi] at h
      rw [status?_settle_self hi, hd]
      exact h
    | proceed hi => exact hsame (hstays _ hi)
    | cancel hi => exact hsame (hstays _ hi)
  · exact h.proceed hi ht
  · exact h.cutOff hi fun hcareful => hc hcareful r hi

end State

end Intake.Ingest
