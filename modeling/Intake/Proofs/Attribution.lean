import Mathlib.Data.List.Nodup
import Intake.Proofs.Atomicity
import Intake.Proofs.Senders

/-!
# Who inserted an event

Does an attempt that reports an insertion own the row? It does if it hears so from its own commit,
and it does if it lost the acknowledgement and the check finds the event. It need not if its commit
came to nothing: the check asks only whether an event of this id is stored, not by whom, so an
attempt for the same id that stored its event in between makes it say yes. That case is `Mistaken`;
it takes two attempts at work on one id, so the reservation must have been lost or done without.

The argument asks where the answer came from. An attempt comes to the check from a commit with an
ambiguous error (`checks_of_step`): either it has made its addition, or it has missed it and the id
was not stored. In the second case the attempt adds nothing any more, so whatever the check finds
later was added by somebody else since.
-/

namespace Intake

namespace Store.Tables

/-- The ids that are stored after the writes of some events. -/
theorem has_flatMap_writesOf (t : Tables) (es : List Event) (id : Uuid) :
    (t.apply (es.flatMap writesOf)).events.has id =
      (t.events.has id || es.any (·.eventId = id)) := by
  induction es generalizing t with
  | nil => simp
  | cons e es ih =>
    rw [List.flatMap_cons, apply_append, ih, has_writesOf, List.any_cons, Bool.or_assoc]

end Store.Tables

namespace Ingest

open Store (Fate)

namespace Writing

variable {k : Nat} {w w' : Writing} {a : Store.Answer} {x : Store.Error}

theorem failed_ne_inserted {e : Store.Error} : w.failed k e ≠ .settled (.ok .inserted) := by
  unfold failed
  split <;> (try split) <;> simp

theorem ambiguous_of_failed {e : Store.Error} (h : w.failed k e = .going w')
    (hw : w'.step = .check x) : e = x ∧ x.isAmbiguous = true := by
  unfold failed at h
  split at h
  · cases h
    cases hw
  · split at h
    · next he =>
      cases h
      cases hw
      exact ⟨rfl, he⟩
    · cases h

theorem check_ne_rowsStep (e : Event) : rowsStep e ≠ .check x := by
  unfold rowsStep
  split <;> simp

/-- Only the answer to a commit or to a check makes an insertion of a writing. -/
theorem commit_or_check_of_inserted (h : w.answered k a = .settled (.ok .inserted)) :
    w.step = .commit ∧ (∃ b, a = .ok b) ∨ ∃ x, w.step = .check x ∧ a = .ok true := by
  unfold answered at h
  split at h
  case h_10 hw => exact .inl ⟨hw, _, rfl⟩
  case h_1 hw => exact .inr ⟨_, hw, rfl⟩
  case h_4 => exact absurd h failed_ne_inserted
  all_goals cases h

/-- A writing comes to the check by an ambiguous error, and not from a check. -/
theorem ambiguous_of_check (h : w.answered k a = .going w') (hw : w'.step = .check x) :
    a = .error x ∧ x.isAmbiguous = true ∧ ∀ y, w.step ≠ .check y := by
  unfold answered at h
  split at h
  case h_4 hne _ =>
    obtain ⟨rfl, hx⟩ := ambiguous_of_failed h hw
    exact ⟨rfl, hx, fun y hy => hne y hy⟩
  case h_7 =>
    cases h
    exact absurd hw (check_ne_rowsStep _)
  all_goals
    cases h
    try cases hw

variable {m : Store.Memory} {p : Store.Party} {waiting : Bool} {now : Nat}

/-- Over a store in memory only a commit fails with an ambiguous error. -/
theorem Stands.commit_of_ambiguous (hw : w.Stands m p waiting) (h : m.Sound)
    (ha : (m.ask now p waiting w.call).2 = some (.error x)) (hx : x.isAmbiguous = true)
    (hne : ∀ y, w.step ≠ .check y) : w.step = .commit := by
  obtain ⟨hat, hf⟩ := hw
  obtain ⟨e, step, n⟩ := w
  cases step with
  | begin =>
    rcases h.ask_begin hat now with hg | hg | hg
    all_goals cases hg.answer.symm.trans ha
    cases hx
  | insert =>
    cases hf
    rcases h.start_insert hat now e with ⟨-, hg⟩ | ⟨-, hg⟩
    all_goals cases hg.answer.symm.trans ha
  | counters u =>
    cases hf.1
    cases (h.start_counters hat now u).answer.symm.trans ha
  | daily u =>
    cases hf.1
    cases (h.start_daily hat now u).answer.symm.trans ha
  | commit => rfl
  | rollback =>
    cases hf.1
    cases (h.start_rollback now).answer.symm.trans ha
  | check y => exact absurd rfl (hne y)

end Writing

/-- The attempt checks what became of its commit, or its writing is over. -/
def Status.Spent : Option Status → Prop
  | some (.running r) => ∃ x, r.writing.step = .check x
  | some (.settling ..) | some (.returned _) | some .cancelled => True
  | _ => False

namespace State

variable {s t u v w : State} {a : Action} {as bs cs : List Action} {i j : Nat} {e f : Event}
  {x : Store.Error} {r : Running}

/-! ### What a run adds -/

namespace Unspoilt

/-- Whatever was not stored and is stored now was added in the meantime. -/
theorem exists_addition (h : s.Unspoilt) (hr : s.run as = some t) (hp : s.Along ReadOnly as)
    {id : Uuid} (hno : s.tables.events.has id = false) (hyes : t.tables.events.has id = true) :
    ∃ y ∈ s.additions as, y.2.eventId = id := by
  have htab := h.tables_additions hr hp
  rw [htab, ← List.flatMap_map, Store.Tables.has_flatMap_writesOf, hno, Bool.false_or,
    List.any_map, List.any_eq_true] at hyes
  obtain ⟨y, hy, hid⟩ := hyes
  exact ⟨y, hy, by simpa using hid⟩

end Unspoilt

theorem spent_step (h : Status.Spent (s.status? i)) (hs : s.step a = some t) :
    Status.Spent (t.status? i) := by
  cases step_turns hs i with
  | same hst => rwa [hst]
  | submit hi | reserve hi =>
    rw [hi] at h
    exact h.elim
  | @proceed r hi ht =>
    rw [hi] at h
    obtain ⟨x, hx⟩ := h
    rcases status?_proceed_cases hi ht with ⟨b, hb⟩ | hb | hb
    · have hover : ∃ result, r.writing.answered s.settings.maxRetries b = .settled result := by
        cases b with
        | error => simp [Writing.answered, hx]
        | ok c => cases c <;> simp [Writing.answered, hx]
      obtain ⟨result, hres⟩ := hover
      rw [hb, Running.next, hres]
      trivial
    · rw [hb]
      trivial
    · rw [hb]
      exact ⟨x, hx⟩
  | settle hi ht =>
    subst ht
    rw [status?_settle_self hi]
    trivial
  | cancel hi ht =>
    subst ht
    rw [status?_cutOff_self hi]
    trivial

/-- An attempt that has heard of its last commit adds nothing any more. -/
theorem Unspoilt.not_added_of_spent (h : s.Unspoilt) (hp : s.Along ReadOnly as)
    (hi : Status.Spent (s.status? i)) : (i, e) ∉ s.additions as := by
  induction as generalizing s with
  | nil => simp [additions]
  | cons a as ih =>
    intro hmem
    rw [additions] at hmem
    split at hmem
    · next t hs =>
      rcases List.mem_append.1 hmem with hmem | hmem
      · obtain ⟨rfl, hne, r, hr, -⟩ := mem_added hmem
        have hstep := (h.custody.commit_step hr ((step_proceed hr).symm.trans hs) hne).1
        rw [hr] at hi
        obtain ⟨x, hx⟩ := hi
        cases hstep.symm.trans hx
      · exact ih (h.step hp.1 hs) (hp.2 t hs) (spent_step hi hs) hmem
    · cases hmem

/-! ### How an attempt comes to the check, and to its result -/

/-- The step to `v` ends the commit of attempt `i` at `e` before anything is written. The attempt
hears of the ambiguous error `x`, and checks. -/
structure Misses (u : State) (i : Nat) (e : Event) (x : Store.Error) (v : State) : Prop where
  step : u.step (.advance i) = some v
  commits : ∃ r, u.status? i = some (.running r) ∧ r.writing.event = e ∧ r.writing.step = .commit ∧
    u.memory.fate? r.waiting = some (.fault .failedBeforeWrite)
  tables : v.tables = u.tables
  absent : v.tables.events.has e.eventId = false
  ambiguous : x.isAmbiguous = true
  checks : v.Checks i x

theorem Unspoilt.check_of_answer (h : s.Unspoilt) (hi : s.status? i = some (.running r))
    (hs : s.step (.advance i) = some t) {b : Store.Answer} {w : Writing}
    (hb : (s.ask (.attempt i) r.waiting r.writing.call).2 = some b)
    (hw : r.writing.answered s.settings.maxRetries b = .going w) (hx : w.step = .check x)
    (hc : t.Checks i x) : (i, r.writing.event) ∈ s.added t (.advance i) ∨
      s.Misses i r.writing.event x t := by
  have ht : s.proceed i r = some t := (step_proceed hi).symm.trans hs
  obtain ⟨rfl, hamb, hne⟩ := Writing.ambiguous_of_check hw hx
  have hans : (s.memory.ask s.now (.attempt i) r.waiting r.writing.call).2 = some (.error x) := by
    rwa [answer_ask h.custody.store] at hb
  have hstep : r.writing.step = .commit :=
    (h.custody.stands_running hi).commit_of_ambiguous h.custody.sound hans hamb hne
  obtain ⟨hnew, fate, hfate, hans, htab⟩ := h.custody.commit_answer hi hstep hb ht
  rcases fate with _ | _ | _ | _
  · cases hans
  · cases hans
    cases hamb
  · refine .inl ?_
    rw [added_of_applied hi hnew htab]
    exact List.mem_singleton.2 rfl
  · have hsame : t.tables = s.tables := htab
    exact .inr ⟨hs, ⟨r, hi, rfl, hstep, hfate⟩, hsame, by rwa [hsame], hamb, hc⟩

/-- An attempt comes to the check by a commit, which has added its event or has missed it. -/
theorem Unspoilt.checks_of_step (h : s.Unspoilt) (hs : s.step a = some t) (hx : t.Checks i x) :
    s.Checks i x ∨ ∃ e, s.event? i = some e ∧
      ((i, e) ∈ s.added t a ∨ a = .advance i ∧ s.Misses i e x t) := by
  obtain ⟨r', hr', hstep⟩ := id hx
  cases step_turns hs i with
  | same hst => exact .inl ⟨r', hst.symm.trans hr', hstep⟩
  | @submit raw hi hn ht =>
    subst hn ht
    rw [status?_submit_self] at hr'
    unfold Status.first at hr'
    split at hr' <;> cases hr'
  | @reserve event hi ht =>
    subst ht
    rw [status?_reserve_self hi] at hr'
    unfold reserved at hr'
    split at hr' <;> cases hr' <;> cases hstep
  | @proceed r hi ht =>
    rcases proceed_cases ht with ⟨b, hb, hend⟩ | ⟨-, -, rfl⟩ | ⟨-, -, -, rfl⟩
    · have hself : t.status? i = some (r.next s.settings.maxRetries b) := by
        rw [hend]
        exact status?_answer_self hi
      have hnext := Option.some.inj (hself.symm.trans hr')
      unfold Running.next at hnext
      split at hnext
      · next w hw =>
        cases hnext
        refine .inr ⟨_, h.own i _ _ hi rfl, ?_⟩
        rcases h.check_of_answer hi hs hb hw hstep hx with hadd | hmiss
        · exact .inl hadd
        · exact .inr ⟨rfl, hmiss⟩
      · cases hnext
    · cases (status?_expire_self hi).symm.trans hr'
    · cases (status?_ask_self hi).symm.trans hr'
      exact .inl ⟨r, hi, hstep⟩
  | @settle event reserved ending hi ht =>
    subst ht
    cases (status?_settle_self hi).symm.trans hr'
  | @cancel r inside hi ht =>
    subst ht
    cases (status?_cutOff_self hi).symm.trans hr'

/-- An attempt comes to know of an insertion by its commit, which has added the event, or by the
check, which finds one. -/
theorem Unspoilt.learnt_of_step (h : s.Unspoilt) (hs : s.step a = some t)
    (hl : Status.Learnt (t.status? i)) : Status.Learnt (s.status? i) ∨
      ∃ e, s.event? i = some e ∧ ((i, e) ∈ s.added t a ∨
        a = .advance i ∧ (∃ x, s.Checks i x) ∧ s.tables.events.has e.eventId = true ∧
          s.heard i a = some (.check e.eventId, .ok true)) := by
  cases step_turns hs i with
  | same hst => exact .inl (hst ▸ hl)
  | @submit raw hi hn ht =>
    subst hn ht
    rw [status?_submit_self] at hl
    unfold Status.first at hl
    split at hl <;> cases hl
  | @reserve event hi ht =>
    subst ht
    rw [status?_reserve_self hi] at hl
    unfold reserved at hl
    split at hl <;> cases hl
  | @proceed r hi ht =>
    rcases proceed_cases ht with ⟨b, hb, hend⟩ | ⟨-, -, rfl⟩ | ⟨-, -, -, rfl⟩
    · have hself : t.status? i = some (r.next s.settings.maxRetries b) := by
        rw [hend]
        exact status?_answer_self hi
      rw [hself, Running.next] at hl
      split at hl
      · cases hl
      · next result hres =>
        have hins : result = .ok .inserted := by
          rcases result with y | y
          · cases hl
          · cases hl
            rfl
        subst hins
        refine .inr ⟨_, h.own i _ _ hi rfl, ?_⟩
        rcases Writing.commit_or_check_of_inserted hres with ⟨hstep, c, rfl⟩ | ⟨x, hstep, rfl⟩
        · obtain ⟨hnew, fate, -, hans, htab⟩ := h.custody.commit_answer hi hstep hb ht
          have happ : fate.applies = true := by
            rcases fate with _ | _ | _ | _
            · rfl
            all_goals cases hans
          rw [if_pos happ] at htab
          refine .inl ?_
          rw [added_of_applied hi hnew htab]
          exact List.mem_singleton.2 rfl
        · have hcall : r.writing.call = .check r.writing.event.eventId := by
            simp [Writing.call, hstep]
          have hheard : s.heard i (.advance i) = some (r.writing.call, .ok true) := by
            simp [heard, hi, hb]
          exact .inr ⟨rfl, ⟨x, r, hi, hstep⟩, (h.custody.check_answer hi hstep hb).symm,
            hcall ▸ hheard⟩
    · rw [status?_expire_self hi] at hl
      cases hl
    · rw [status?_ask_self hi] at hl
      cases hl
  | @settle event reserved ending hi ht =>
    subst ht
    rw [status?_settle_self hi] at hl
    refine .inl ?_
    rw [hi]
    rcases ending with y | _ | _
    · cases hl
    · rfl
    · cases hl
  | @cancel r inside hi ht =>
    subst ht
    rw [status?_cutOff_self hi] at hl
    cases hl

/-! ### Whose row it is -/

/-- On the run `as` to `t`, attempt `i` has missed its commit of `e`. -/
def Missed (s : State) (as : List Action) (t : State) (i : Nat) (e : Event) : Prop :=
  ∃ bs cs u v x, as = bs ++ .advance i :: cs ∧ s.run bs = some u ∧ u.Misses i e x v ∧
    v.run cs = some t

/-- On the run `as`, attempt `i` missed its commit of `e`, but before it checked, another attempt
stored an event of the same id, and so the check said yes. -/
def Mistaken (s : State) (as : List Action) (i : Nat) (e : Event) : Prop :=
  ∃ bs cs ds u v w x j f, as = bs ++ .advance i :: (cs ++ .advance i :: ds) ∧
    s.run bs = some u ∧ u.Misses i e x v ∧ v.run cs = some w ∧
    (j ≠ i ∧ (j, f) ∈ v.additions cs ∧ f.eventId = e.eventId) ∧
    w.heard i (.advance i) = some (.check e.eventId, .ok true)

theorem Missed.concat (h : s.Missed as t i e) (hs : t.step a = some u) :
    s.Missed (as ++ [a]) u i e := by
  obtain ⟨bs, cs, v, w, x, rfl, hv, hm, hw⟩ := h
  exact ⟨bs, cs ++ [a], v, w, x, by simp, hv, hm, run_concat hw hs⟩

theorem Mistaken.concat (h : s.Mistaken as i e) (a : Action) : s.Mistaken (as ++ [a]) i e := by
  obtain ⟨bs, cs, ds, u, v, w, x, j, f, rfl, h⟩ := h
  exact ⟨bs, cs, ds ++ [a], u, v, w, x, j, f, by simp, h⟩

theorem Unspoilt.run (h : s.Unspoilt) (hr : s.run as = some t) (hp : s.Along ReadOnly as) :
    t.Unspoilt := (h.traced hr hp).1

theorem Misses.spent (h : u.Misses i e x v) : Status.Spent (v.status? i) := by
  obtain ⟨r, hr, hx⟩ := h.checks
  rw [hr]
  exact ⟨x, hx⟩

/-- An attempt that has missed its commit has added nothing. -/
theorem Missed.not_added (h : s.Missed as t i e) (hun : s.Unspoilt) (hp : s.Along ReadOnly as) :
    (i, f) ∉ s.additions as := by
  obtain ⟨bs, cs, u, v, x, rfl, hu, hm, -⟩ := h
  have hpu : u.Along ReadOnly (.advance i :: cs) := hp.of_append_right hu
  obtain ⟨hun', htraced⟩ := hun.traced hu hp.of_append
  have hv := hun'.step hpu.1 hm.step
  intro hmem
  rw [additions_append hu, additions, hm.step] at hmem
  rcases List.mem_append.1 hmem with hmem | hmem
  · -- before the commit: it would have been of the same event, which is not stored
    obtain ⟨r, hi, hre, -⟩ := hm.commits
    have hf := htraced i f hmem
    have hef : f = e := by
      rw [← hre]
      exact Option.some.inj (hf.event.symm.trans (hun'.own i _ _ hi rfl))
    have hst := hf.stored
    rw [← hm.tables, hef, hm.absent] at hst
    cases hst
  · rcases List.mem_append.1 hmem with hmem | hmem
    · exact (mem_added hmem).2.1 hm.tables
    · exact hv.not_added_of_spent (hpu.2 v hm.step) hm.spent hmem

/-- The invariant: what attempts have added is stored as they added it, and an attempt that checks,
or knows of an insertion, has made its addition, or has missed it. -/
structure Attributed (s : State) (as : List Action) (t : State) : Prop where
  along : s.Along ReadOnly as
  unspoilt : t.Unspoilt
  rows : ∀ i e, (i, e) ∈ s.additions as → t.tables.events.get? e.eventId = some e
  once : ((s.additions as).map (·.2.eventId)).Nodup
  checks : ∀ i x, t.Checks i x → ∃ e, t.event? i = some e ∧
    ((i, e) ∈ s.additions as ∨ s.Missed as t i e)
  learnt : ∀ i, Status.Learnt (t.status? i) → ∃ e, t.event? i = some e ∧
    ((i, e) ∈ s.additions as ∨ s.Mistaken as i e)

namespace Attributed

theorem of_begins {tables : Store.Tables} (h : s.Begins tables) : s.Attributed [] s := by
  refine ⟨trivial, .of_begins h, by simp [additions], .nil, fun i x hx => ?_, fun i hl => ?_⟩
  · obtain ⟨r, hr, -⟩ := hx
    cases (h.status?_eq_none i).symm.trans hr
  · rw [h.status?_eq_none i] at hl
    exact hl.elim

variable (h : s.Attributed as t) (hr : s.run as = some t) (hp : t.ReadOnly a)
  (hs : t.step a = some u)
include h hr hp hs

theorem rows_step (hmem : (i, e) ∈ s.additions (as ++ [a])) :
    u.tables.events.get? e.eventId = some e := by
  rw [additions_concat hr hs] at hmem
  rcases h.unspoilt.added_cases hp hs with ⟨htab, hadd⟩ | ⟨k, r, -, -, hnew, hadd, htab⟩
  · rw [hadd, List.append_nil] at hmem
    rw [htab]
    exact h.rows i e hmem
  · rw [htab, Store.Tables.events_writesOf, Keyed.get?_set]
    rw [hadd] at hmem
    rcases List.mem_append.1 hmem with hmem | hmem
    · have hrow := h.rows i e hmem
      have hne : e.eventId ≠ r.writing.event.eventId := by
        intro heq
        rw [heq] at hrow
        simp [Keyed.has, hrow] at hnew
      rw [if_neg hne]
      exact hrow
    · cases List.mem_singleton.1 hmem
      rw [if_pos rfl]

theorem once_step : ((s.additions (as ++ [a])).map (·.2.eventId)).Nodup := by
  rw [additions_concat hr hs, List.map_append, List.nodup_append]
  rcases h.unspoilt.added_cases hp hs with ⟨-, hadd⟩ | ⟨k, r, -, -, hnew, hadd, -⟩ <;> rw [hadd]
  · exact ⟨h.once, .nil, by simp⟩
  · refine ⟨h.once, by simp, fun id hid id' hid' heq => ?_⟩
    obtain ⟨y, hy, rfl⟩ := List.mem_map.1 hid
    rw [List.map_singleton, List.mem_singleton] at hid'
    have hrow := h.rows y.1 y.2 hy
    rw [heq, hid'] at hrow
    simp [Keyed.has, hrow] at hnew

theorem checks_step (hx : u.Checks i x) : ∃ e, u.event? i = some e ∧
    ((i, e) ∈ s.additions (as ++ [a]) ∨ s.Missed (as ++ [a]) u i e) := by
  rw [additions_concat hr hs]
  rcases h.unspoilt.checks_of_step hs hx with hold | ⟨e, he, hadd | ⟨rfl, hm⟩⟩
  · obtain ⟨e, he, hadd | hmiss⟩ := h.checks i x hold
    · exact ⟨e, event?_step hs he, .inl (List.mem_append_left _ hadd)⟩
    · exact ⟨e, event?_step hs he, .inr (hmiss.concat hs)⟩
  · exact ⟨e, event?_step hs he, .inl (List.mem_append_right _ hadd)⟩
  · exact ⟨e, event?_step hs he, .inr ⟨as, [], t, u, x, rfl, hr, hm, rfl⟩⟩

/-- An attempt that missed its commit and finds its event stored has found another one's. -/
theorem mistaken (hun : s.Unspoilt) (hmiss : s.Missed as t i e)
    (hhas : t.tables.events.has e.eventId = true) (ha : a = .advance i)
    (hheard : t.heard i a = some (.check e.eventId, .ok true)) :
    s.Mistaken (as ++ [a]) i e := by
  subst ha
  obtain ⟨bs, cs, v, w, x, rfl, hv, hm, hw⟩ := hmiss
  have hpv : v.Along ReadOnly (.advance i :: cs) := h.along.of_append_right hv
  have hunw : w.Unspoilt := (hun.run hv h.along.of_append).step hpv.1 hm.step
  have hpw : w.Along ReadOnly cs := hpv.2 w hm.step
  obtain ⟨⟨j, f⟩, hadd, hid⟩ := hunw.exists_addition hw hpw hm.absent hhas
  have hj : j ≠ i := by
    rintro rfl
    exact hunw.not_added_of_spent hpw hm.spent hadd
  exact ⟨bs, cs, [], v, w, t, x, j, f, by simp, hv, hm, hw, ⟨hj, hadd, hid⟩, hheard⟩

theorem learnt_step (hun : s.Unspoilt) (hl : Status.Learnt (u.status? i)) :
    ∃ e, u.event? i = some e ∧
      ((i, e) ∈ s.additions (as ++ [a]) ∨ s.Mistaken (as ++ [a]) i e) := by
  rw [additions_concat hr hs]
  rcases h.unspoilt.learnt_of_step hs hl with hold | ⟨e, he, hadd | ⟨ha, ⟨x, hx⟩, hhas, hheard⟩⟩
  · obtain ⟨e, he, hadd | hmis⟩ := h.learnt i hold
    · exact ⟨e, event?_step hs he, .inl (List.mem_append_left _ hadd)⟩
    · exact ⟨e, event?_step hs he, .inr (hmis.concat a)⟩
  · exact ⟨e, event?_step hs he, .inl (List.mem_append_right _ hadd)⟩
  · refine ⟨e, event?_step hs he, ?_⟩
    obtain ⟨e', he', hadd | hmiss⟩ := h.checks i x hx
    · cases he.symm.trans he'
      exact .inl (List.mem_append_left _ hadd)
    · cases he.symm.trans he'
      exact .inr (h.mistaken hr hp hs hun hmiss hhas ha hheard)

theorem step (hun : s.Unspoilt) : s.Attributed (as ++ [a]) u where
  along := h.along.concat hr hp
  unspoilt := h.unspoilt.step hp hs
  rows _ _ hmem := h.rows_step hr hp hs hmem
  once := h.once_step hr hp hs
  checks _ _ hx := h.checks_step hr hp hs hx
  learnt _ hl := h.learnt_step hr hp hs hun hl

end Attributed

theorem Begins.attributed {tables : Store.Tables} (hb : s.Begins tables) (hr : s.run as = some t)
    (hp : s.Along ReadOnly as) : s.Attributed as t :=
  run_induction (I := fun as t => s.Attributed as t) (.of_begins hb)
    (fun _ _ _ _ hr h hp hs => h.step hr hp hs (.of_begins hb)) hr hp

theorem Mistaken.missed (h : s.Mistaken as i e) (hr : s.run as = some t) :
    s.Missed as t i e ∧ ∃ j f, j ≠ i ∧ (j, f) ∈ s.additions as ∧ f.eventId = e.eventId := by
  obtain ⟨bs, cs, ds, u, v, w, x, j, f, rfl, hu, hm, hw, ⟨hj, hadd, hid⟩, -⟩ := h
  refine ⟨⟨bs, cs ++ .advance i :: ds, u, v, x, rfl, hu, hm, ?_⟩, j, f, hj, ?_, hid⟩
  · rw [run_append, hu] at hr
    simpa [run, hm.step] using hr
  · rw [additions_append hu, additions, hm.step]
    simp only
    rw [additions_append hw]
    simp [hadd]

theorem Attributed.author_unique (h : s.Attributed as t) (hi : (i, e) ∈ s.additions as)
    (hj : (j, f) ∈ s.additions as) (hid : f.eventId = e.eventId) : j = i ∧ f = e := by
  have heq := List.inj_on_of_nodup_map h.once hj hi hid
  cases heq
  exact ⟨rfl, rfl⟩

theorem signalled_of_begins {tables : Store.Tables} (hb : s.Begins tables)
    (hr : s.run as = some t) {y : Signal.Update} (hy : (j, y) ∈ s.signals as) :
    t.result? j = some (.ok .inserted) ∧ ∃ f, t.event? j = some f ∧ y = .ofEvent f := by
  refine mem_owed ?_
  rw [owed_run hb.own hr]
  refine List.mem_append_right _ (List.mem_map.2 ⟨(j, y), List.mem_filter.2 ⟨hy, ?_⟩, rfl⟩)
  simp

theorem Attributed.own_or_mistaken (h : s.Attributed as t)
    (hi : t.result? i = some (.ok .inserted)) :
    ∃ e, t.event? i = some e ∧ ((i, e) ∈ s.additions as ∨ s.Mistaken as i e) := by
  refine h.learnt i ?_
  rw [result?_eq_some.1 hi]
  rfl

theorem Attributed.own (h : s.Attributed as t) (hi : t.result? i = some (.ok .inserted))
    (he : t.event? i = some e) (hno : ¬s.Mistaken as i e) : (i, e) ∈ s.additions as := by
  obtain ⟨e', he', hend⟩ := h.own_or_mistaken hi
  cases he.symm.trans he'
  exact hend.resolve_right hno

/-- Over a store to which only ingestion writes, with any key store, an attempt that reports an
insertion has added the row of its event itself, and the row is its event, if it was not mistaken
about its commit. If it was, it has added nothing, and the row is that of another attempt. Of two
attempts for one id that report an insertion or send a signal one is therefore mistaken, and only
attempts that report an insertion send signals. -/
theorem insertion_is_own_unless_mistaken {tables : Store.Tables} (hb : s.Begins tables)
    (hr : s.run as = some t) (hp : s.Along ReadOnly as) :
    (∀ i, t.result? i = some (.ok .inserted) → ∃ e, t.event? i = some e ∧
      (¬s.Mistaken as i e →
        (i, e) ∈ s.additions as ∧ t.tables.events.get? e.eventId = some e) ∧
      (s.Mistaken as i e → (∀ f, (i, f) ∉ s.additions as) ∧
        ∃ j f, j ≠ i ∧ (j, f) ∈ s.additions as ∧ f.eventId = e.eventId ∧
          t.tables.events.get? e.eventId = some f)) ∧
    (∀ i j e f, t.result? i = some (.ok .inserted) → t.event? i = some e → ¬s.Mistaken as i e →
      j ≠ i → t.event? j = some f → f.eventId = e.eventId →
        (∀ g, (j, g) ∉ s.additions as) ∧
        (t.result? j = some (.ok .inserted) ∨ (∃ y, (j, y) ∈ s.signals as) →
          s.Mistaken as j f)) ∧
    ∀ j y, (j, y) ∈ s.signals as →
      t.result? j = some (.ok .inserted) ∧ ∃ f, t.event? j = some f ∧ y = .ofEvent f := by
  have h := hb.attributed hr hp
  have hun := Unspoilt.of_begins hb
  refine ⟨fun i hi => ?_, fun i j e f hi he hno hj hf hid => ?_, fun j y hy =>
    signalled_of_begins hb hr hy⟩
  · obtain ⟨e, he, -⟩ := h.own_or_mistaken hi
    refine ⟨e, he, fun hno => ⟨h.own hi he hno, h.rows i e (h.own hi he hno)⟩, fun hmis => ?_⟩
    obtain ⟨hmiss, j, f, hj, hadd, hid⟩ := hmis.missed hr
    exact ⟨fun g => hmiss.not_added hun hp, j, f, hj, hadd, hid, hid ▸ h.rows j f hadd⟩
  · have hadd := h.own hi he hno
    have hnone : ∀ g, (j, g) ∉ s.additions as := by
      intro g hg
      cases hf.symm.trans ((hun.traced hr hp).2 j g hg).event
      exact hj (h.author_unique hadd hg hid).1
    refine ⟨hnone, fun hend => ?_⟩
    have hins : t.result? j = some (.ok .inserted) := by
      rcases hend with hend | ⟨y, hy⟩
      · exact hend
      · exact (signalled_of_begins hb hr hy).1
    exact Classical.byContradiction fun hno' => hnone f (h.own hins hf hno')

/-! ### Two attempts for one id -/

/-- A like with the id of `aView`, from another session. -/
def aLike : RawEvent := { aView with kind := "like", sessionId := "other" }

/-- Ingestion that lets events in when the key store is not to be had, over an empty store. -/
def failingOpen : State := { initial with settings := { policy := .failOpen } }

theorem begins_failingOpen : failingOpen.Begins .empty := ⟨rfl, rfl, rfl, {}, rfl⟩

/-- Two attempts for one id are let in without the key store. The commit of the first comes to
nothing, the second stores its event, and only then does the first check. -/
def missedThenFound : List Action :=
  ([.outage (some .timeout), .faults { nextCommit := some .failedBeforeWrite }, .submit aView,
    .submit aLike, .advance 0, .advance 1] : List Action) ++
  (List.replicate 5 (.advance 0) : List Action) ++ (List.replicate 6 (.advance 1) : List Action) ++
  ([.advance 0, .advance 0] : List Action)

theorem mistaken_when_missed_then_found : ∃ t e f, failingOpen.Begins .empty ∧
    failingOpen.run missedThenFound = some t ∧ failingOpen.Along ReadOnly missedThenFound ∧
    t.result? 0 = some (.ok .inserted) ∧ t.event? 0 = some e ∧
    failingOpen.Mistaken missedThenFound 0 e ∧ (1, f) ∈ failingOpen.additions missedThenFound ∧
    t.tables.events.get? e.eventId = some f := by
  obtain ⟨t, ht⟩ := Option.isSome_iff_exists.1
    (show (failingOpen.run missedThenFound).isSome = true by decide +kernel)
  have hp : failingOpen.Along ReadOnly missedThenFound :=
    .of_forall (by simp [missedThenFound, ReadOnly, Orderly])
  have hend : (failingOpen.run missedThenFound).map (fun t => (t.result? 0)) =
      some (some (.ok .inserted)) := by decide +kernel
  have hadds : (failingOpen.additions missedThenFound).map (·.1) = [1] := by decide +kernel
  rw [ht, Option.map_some, Option.some.injEq] at hend
  have hauthor : ∀ i f, (i, f) ∈ failingOpen.additions missedThenFound → i = 1 := by
    intro i f hmem
    have hi : i ∈ (failingOpen.additions missedThenFound).map (·.1) :=
      List.mem_map.2 ⟨(i, f), hmem, rfl⟩
    rw [hadds] at hi
    exact List.mem_singleton.1 hi
  obtain ⟨hown, -⟩ := insertion_is_own_unless_mistaken begins_failingOpen ht hp
  obtain ⟨e, he, hno, hyes⟩ := hown 0 hend
  have hmis : failingOpen.Mistaken missedThenFound 0 e := by
    refine Classical.byContradiction fun hmis => ?_
    cases hauthor 0 e (hno hmis).1
  obtain ⟨-, j, f, -, hadd, -, hrow⟩ := hyes hmis
  cases hauthor j f hadd
  exact ⟨t, e, f, begins_failingOpen, ht, hp, hend, he, hmis, hadd, hrow⟩

/-- Both attempts report an insertion and send a signal, and the row that is stored is not the event
of the first. -/
theorem both_report_insertion : ∃ t e f, failingOpen.Begins .empty ∧
    failingOpen.run missedThenFound = some t ∧ failingOpen.Along ReadOnly missedThenFound ∧
    t.result? 0 = some (.ok .inserted) ∧ t.result? 1 = some (.ok .inserted) ∧
    t.event? 0 = some e ∧ t.event? 1 = some f ∧ e.eventId = f.eventId ∧ e ≠ f ∧
    t.tables.events.get? e.eventId = some f ∧
    (failingOpen.signals missedThenFound).map (·.1) = [1, 0] := by
  obtain ⟨t, ht⟩ := Option.isSome_iff_exists.1
    (show (failingOpen.run missedThenFound).isSome = true by decide +kernel)
  have hp : failingOpen.Along ReadOnly missedThenFound :=
    .of_forall (by simp [missedThenFound, ReadOnly, Orderly])
  obtain ⟨e, he⟩ := Option.isSome_iff_exists.1
    (show (Event.ofRaw aView).toOption.isSome = true by decide +kernel)
  obtain ⟨f, hf⟩ := Option.isSome_iff_exists.1
    (show (Event.ofRaw aLike).toOption.isSome = true by decide +kernel)
  have hend : (failingOpen.run missedThenFound).map (fun t => (t.result? 0, t.result? 1, t.event? 0,
      t.event? 1, t.tables.events.get? ⟨1, by decide⟩)) =
      some (some (.ok .inserted), some (.ok .inserted), (Event.ofRaw aView).toOption,
        (Event.ofRaw aLike).toOption, (Event.ofRaw aLike).toOption) := by rfl
  have hids : (Event.ofRaw aView).toOption.map (·.eventId) = some ⟨1, by decide⟩ ∧
      (Event.ofRaw aLike).toOption.map (·.eventId) = some ⟨1, by decide⟩ ∧
      (Event.ofRaw aView).toOption ≠ (Event.ofRaw aLike).toOption := by decide +kernel
  rw [ht] at hend
  simp only [Option.map_some, Option.some.injEq, Prod.mk.injEq] at hend
  rw [he, hf] at hend hids
  obtain ⟨h0, h1, he0, hf1, hrow⟩ := hend
  have hide : e.eventId = ⟨1, by decide⟩ := Option.some.inj hids.1
  have hidf : f.eventId = ⟨1, by decide⟩ := Option.some.inj hids.2.1
  refine ⟨t, e, f, begins_failingOpen, ht, hp, h0, h1, he0, hf1, hide.trans hidf.symm, ?_, ?_,
    by decide +kernel⟩
  · rintro rfl
    exact hids.2.2 rfl
  · rw [hide]
    exact hrow

end State

end Ingest

end Intake
