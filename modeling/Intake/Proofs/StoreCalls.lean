import Intake.Proofs.Surroundings

/-!
# What an attempt asks of the store

`store_calls_in_order`: whatever the store answers, and wherever the attempt is cut off, the calls
that it makes and the answers that it gets are those of a proper course, as far as it has come. The
log agrees with that course entry by entry: each call is there once, a transaction that fails inside
is dropped before the next one begins, and each transaction that is run again is counted.

The invariant is `Status.Recounts`. While the attempt is running its writing follows the course
(`Writing.Follows`), and one answer takes both on; when it stops, the course is what is left of it.
-/

namespace Intake.Ingest

open Store (Party Call Answer)

/-- What is noted of the dealings of an attempt with the store. -/
def Occurrence.doing? : Occurrence → Option Doing
  | .call c => some (.call c)
  | .dropped => some .dropped
  | .sample x => if x = Count.retried then some .retried else none
  | .command .. => none

namespace Count

theorem retried_notMem_ended (r : Result) : retried ∉ ended r := by
  rcases r with x | _ | _ <;>
    simp [ended, retried, failed, inserted, duplicate, Metrics.Series.label, timer]

theorem retried_notMem_reserved (p : Reservation.Policy) (a : Reservation.Answer) :
    retried ∉ reserved p a := by
  have h := retried_notMem_ended (.ok .duplicate)
  unfold reserved
  split
  · simp
  · simp
  · exact h
  · exact fun hm => by
      rcases List.mem_cons.1 hm with hm | hm
      · simp [retried, unreserved] at hm
      · exact h hm

theorem retried_notMem_reservation (v : Reservation.Verb) (a : Reservation.Answer) :
    retried ∉ reservation v a := by
  cases a <;> simp [reservation, reservationError, retried]

end Count

/-- Samples of other series do not count a transaction that is run again. -/
theorem doings_samples_of_notMem {series : List Metrics.Series} (h : Count.retried ∉ series) :
    (series.filterMap fun x => (Occurrence.sample x).doing?) = [] := by
  refine List.filterMap_eq_nil_iff.2 fun x hx => ?_
  have hne : x ≠ Count.retried := fun e => h (e ▸ hx)
  simp [Occurrence.doing?, hne]

theorem Writing.doings_samples (k : Nat) (w : Writing) (a : Answer) :
    ((w.samples k a).filterMap fun x => (Occurrence.sample x).doing?) =
      if w.repeats k a then [.retried] else [] := by
  split
  · next h =>
    have hs : w.samples k a = [Count.retried] := by
      unfold repeats at h
      unfold samples
      split at h <;> simp_all
    rw [hs]
    rfl
  · next h =>
    refine doings_samples_of_notMem ?_
    unfold repeats at h
    unfold samples
    split at h <;> (try split) <;> simp_all [Count.ambiguous, Count.retried]

/-- What the calls of an attempt have come to: its course, the end of the last transaction if there
was one, and the call that was left without an answer. `cut` says that the attempt was cut off. -/
structure Account (k : Nat) (e : Event) (l : List Line) (ds : List Doing) (c : Course)
    (o : Option (Except Store.Error Written)) (pending : Option Call) (cut : Bool) : Prop where
  lines : c.lines = l
  proper : c.Proper k e o
  next : ∀ p ∈ pending, ∀ a, Conforms k e (l ++ [(p, a)])
  doings : ds = c.doings ++ pending.toList.map .call ++ if cut && c.isOpen o then [.dropped] else []

namespace Account

variable {k : Nat} {e : Event} {l : List Line} {ds : List Doing} {c : Course}
  {o : Option (Except Store.Error Written)} {pending : Option Call} {cut : Bool}

theorem count_retried (h : Account k e l ds c o pending cut) :
    ds.count .retried = c.again.length := by
  have hpending : (pending.toList.map Doing.call).count .retried = 0 := by
    cases pending <;> rfl
  have hdropped : (if cut && c.isOpen o then [Doing.dropped] else []).count .retried = 0 := by
    split <;> rfl
  rw [h.doings, List.count_append, List.count_append, c.count_retried, hpending, hdropped]
  rfl

/-- Before the first call there is nothing to tell. -/
theorem start (k : Nat) (e : Event) : Account k e [] [] {} none none false where
  lines := rfl
  proper := ⟨by simp, Nat.zero_le k, .going ⟨_, rfl⟩ (by simp), by simp, by simp⟩
  next := by simp
  doings := rfl

end Account

/-- What is left of the calls of an attempt whose writing ended so: the verdict of its course, or,
if its deadline came, a course that was not finished. -/
def Finished (k : Nat) (e : Event) (l : List Line) (ds : List Doing)
    (ending : Except Error Written) : Prop :=
  (∃ c o res, Account k e l ds c o none false ∧ c.verdict o = some res ∧
    ending = res.mapError .storage) ∨
  ∃ c o p d, Account k e l ds c o (some p) true ∧ ending = .error (.timeout d)

/-- What an attempt at `e` that has come this far has said to the store and heard from it. -/
def Status.Recounts (k : Nat) (e : Event) (l : List Line) (ds : List Doing) : Status → Prop
  | .reserving _ => l = [] ∧ ds = []
  | .running r => ∃ c, r.writing.event = e ∧ r.writing.Follows k c ∧ c.lines = l ∧
    ds = c.doings ++ if r.waiting then [.call r.writing.call] else []
  | .settling _ _ ending => Finished k e l ds ending
  | .returned r => r = .ok .duplicate ∧ l = [] ∧ ds = [] ∨
    ∃ ending, Finished k e l ds ending ∧ r = ending.map State.ofWritten
  | .cancelled => ∃ c o pending, Account k e l ds c o pending true

/-- The attempt was cut off, by its deadline or from outside. -/
def Status.isCutOff : Status → Bool
  | .settling _ _ ending => timedOut ending
  | .returned r => timedOut r
  | .cancelled => true
  | .reserving _ | .running _ => false

theorem Finished.account {k : Nat} {e : Event} {l : List Line} {ds : List Doing}
    {ending : Except Error Written} (h : Finished k e l ds ending) :
    ∃ c o pending, Account k e l ds c o pending (timedOut ending) ∧
      (timedOut ending = false → pending = none ∧
        ∃ res, c.verdict o = some res ∧ ending = res.mapError .storage) := by
  rcases h with ⟨c, o, res, ha, hv, rfl⟩ | ⟨c, o, p, d, ha, rfl⟩
  · have hcut : timedOut (res.mapError Error.storage) = false := by
      cases res <;> rfl
    rw [hcut]
    exact ⟨c, o, none, ha, fun _ => ⟨rfl, res, hv, rfl⟩⟩
  · exact ⟨c, o, some p, ha, fun hcut => by cases hcut⟩

/-- However far an attempt has come, there is an account of what it said to the store. -/
theorem Status.Recounts.account {k : Nat} {e : Event} {l : List Line} {ds : List Doing}
    {st : Status} (h : st.Recounts k e l ds) :
    ∃ c o pending, Account k e l ds c o pending st.isCutOff ∧
      ∀ r, st = .returned r → ds ≠ [] → st.isCutOff = false → pending = none ∧
        ∃ res, c.verdict o = some res ∧ r = (res.mapError .storage).map State.ofWritten := by
  cases st with
  | reserving event =>
    obtain ⟨rfl, rfl⟩ := h
    exact ⟨_, _, _, .start k e, by simp⟩
  | running r =>
    obtain ⟨c, rfl, hc, rfl, hds⟩ := h
    obtain ⟨o, ho, -⟩ := hc.proper
    refine ⟨c, o, if r.waiting then some r.writing.call else none, ⟨rfl, ho, ?_, ?_⟩, by simp⟩
    · intro p hp b
      split at hp
      · cases hp
        exact hc.conforms b
      · cases hp
    · rw [hds]
      cases r.waiting <;> simp [isCutOff]
  | settling event b ending =>
    obtain ⟨c, o, pending, ha, -⟩ := Finished.account h
    exact ⟨c, o, pending, ha, by simp⟩
  | returned r =>
    rcases h with ⟨rfl, rfl, rfl⟩ | ⟨ending, hf, rfl⟩
    · exact ⟨_, _, _, .start k e, fun _ _ hd => absurd rfl hd⟩
    · obtain ⟨c, o, pending, ha, hv⟩ := Finished.account hf
      rw [isCutOff, timedOut_map]
      refine ⟨c, o, pending, ha, ?_⟩
      rintro r hr - hno
      cases hr
      obtain ⟨hp, res, hres, rfl⟩ := hv hno
      exact ⟨hp, res, hres, rfl⟩
  | cancelled =>
    obtain ⟨c, o, pending, ha⟩ := h
    exact ⟨c, o, pending, ha, by simp⟩

namespace State

variable {s t : State} {a : Action} {i j : Nat}

/-- The dealings of attempt `i` with the store, the oldest first. -/
def doings (s : State) (i : Nat) : List Doing :=
  (s.log.filterMap fun x => if x.party = .attempt i then x.what.doing? else none).reverse

theorem doings_of_log (h : t.log = s.log) : t.doings = s.doings := by
  funext i
  rw [doings, h, doings]

/-! ### What operations leave in the log -/

section operations

variable (s : State) (p : Party) (what : Occurrence) (r : Running) (c : Reservation.Command)

theorem doings_note (j : Nat) : (s.note p what).doings j =
    s.doings j ++ if p = .attempt j then what.doing?.toList else [] := by
  unfold doings note
  rw [List.filterMap_cons]
  dsimp only
  split
  · next hn =>
    split at hn
    · simp [*]
    · simp [*]
  · next hn =>
    split at hn
    · simp [*]
    · cases hn

theorem doings_note_of_none {what : Occurrence} (h : what.doing? = none) :
    (s.note p what).doings = s.doings := by
  funext j
  rw [doings_note, h]
  simp

theorem doings_noteAll (series : List Metrics.Series) (j : Nat) : (s.noteAll p series).doings j =
    s.doings j ++
      if p = .attempt j then series.filterMap fun x => (Occurrence.sample x).doing? else [] := by
  unfold doings noteAll
  rw [List.filterMap_append, List.reverse_append, List.filterMap_reverse, List.reverse_reverse,
    List.filterMap_map]
  congr 1
  split
  · next hp => exact congrArg (List.filterMap · series) (funext fun _ => if_pos hp)
  · next hp => exact List.filterMap_eq_nil_iff.2 fun _ _ => if_neg hp

theorem doings_noteAll_of_notMem {series : List Metrics.Series} (h : Count.retried ∉ series) :
    (s.noteAll p series).doings = s.doings := by
  funext j
  rw [doings_noteAll, doings_samples_of_notMem h]
  simp

@[simp] theorem doings_setStatus (st : Status) : (s.setStatus i st).doings = s.doings := rfl

theorem doings_reservation : (s.reservation p c).1.doings = s.doings :=
  (doings_noteAll_of_notMem _ _ (Count.retried_notMem_reservation _ _)).trans
    (doings_note_of_none _ _ rfl)

theorem doings_releaseBy (id : Uuid) : (s.releaseBy i id).doings = s.doings :=
  (doings_note_of_none _ _ rfl).trans (doings_reservation ..)

theorem doings_submit (raw : RawEvent) : (s.submit raw).doings = s.doings := by
  unfold submit
  cases Event.ofRaw raw with
  | error flaw => exact (doings_note_of_none _ _ rfl).trans (doings_note_of_none _ _ rfl)
  | ok event => exact doings_note_of_none _ _ rfl

theorem doings_reserve (event : Event) : (s.reserve i event).doings = s.doings :=
  (doings_noteAll_of_notMem _ _ (Count.retried_notMem_reserved _ _)).trans (doings_reservation ..)

theorem doings_settle (event : Event) (reserved : Bool) (ending : Except Error Written) :
    (s.settle i event reserved ending).doings = s.doings := by
  have hreserved : (s.settleReservation i event.eventId reserved ending).doings = s.doings := by
    unfold settleReservation
    cases reserved with
    | false => rfl
    | true =>
      cases ending with
      | ok w => exact doings_reservation ..
      | error x => exact doings_releaseBy ..
  have hsignal : ∀ u : State, (u.signal event ending).doings = u.doings := fun u => by
    unfold signal
    split <;> rfl
  refine (doings_noteAll_of_notMem _ _ (Count.retried_notMem_ended _)).trans ?_
  exact (hsignal _).trans hreserved

theorem doings_ask (waiting : Bool) (call : Call) : (s.ask p waiting call).1.doings j =
    s.doings j ++ if p = .attempt j ∧ waiting = false then [.call call] else [] := by
  unfold ask
  cases waiting with
  | true => simp [doings_of_log (s := s)]
  | false =>
    refine (doings_note ..).trans ?_
    simp [doings_of_log (s := s), Occurrence.doing?]

theorem doings_abandon : (s.abandon i r).doings j =
    s.doings j ++ if i = j ∧ r.writing.isOpen = true then [.dropped] else [] := by
  unfold abandon
  cases r.writing.isOpen with
  | true =>
    refine (doings_note ..).trans ?_
    simp [doings_of_log (s := s), Occurrence.doing?]
  | false => simp [doings_of_log (s := s)]

theorem doings_cutOff (inside : Bool) : (s.cutOff i r inside).doings j =
    s.doings j ++ if i = j ∧ r.writing.isOpen = true then [.dropped] else [] := by
  rw [← doings_abandon]
  unfold cutOff
  split <;> exact congrFun (doings_note_of_none _ _ rfl) j

theorem doings_expire : (s.expire i r).doings j =
    s.doings j ++ if i = j ∧ r.writing.isOpen = true then [.dropped] else [] :=
  doings_abandon ..

/-- The last dealing over a call: what its answer does to the transaction. -/
theorem doings_answer (b : Answer) : (s.answer i r b).doings j = s.doings j ++
    if i = j then
      (if r.writing.drops b then [.dropped] else []) ++
        if r.writing.repeats s.settings.maxRetries b then [.retried] else []
    else [] := by
  have hdrops : (if r.writing.drops b then s.abandon i r else s).doings j =
      s.doings j ++ if i = j then (if r.writing.drops b then [.dropped] else []) else [] := by
    split
    · next hd =>
      -- a transaction that is dropped is open
      have hopen : r.writing.isOpen = true := by
        unfold Writing.drops at hd
        unfold Writing.isOpen
        split at hd <;> simp_all
      rw [doings_abandon, hopen]
      simp
    · simp
  have hsamples : ∀ u : State,
      (u.noteAll (.attempt i) (r.writing.samples s.settings.maxRetries b)).doings j =
        u.doings j ++ if i = j then
          (if r.writing.repeats s.settings.maxRetries b then [.retried] else []) else [] := by
    intro u
    rw [doings_noteAll, Writing.doings_samples]
    by_cases hij : i = j <;> simp [hij]
  refine (hsamples _).trans ?_
  rw [hdrops]
  split <;> simp

theorem doings_outside (ha : a.isOutside = true) (h : s.step a = some t) :
    t.doings i = s.doings i := by
  cases a with
  | submit | advance | cancel | release => simp [Action.isOutside] at ha
  | elapse | evict | age | outage | override => cases h; rfl
  | command k c => cases h; exact congrFun (doings_note_of_none _ _ rfl) i
  | reservation k c => cases h; exact congrFun (doings_reservation ..) i
  | faults f => cases h; unfold setFaults; split <;> rfl
  | clientCall k waiting call =>
    cases h
    rw [doings_ask]
    simp
  | clientLeave k isOpen =>
    cases h
    unfold clientLeave
    split
    · rw [doings_note]
      simp [doings_of_log (s := s)]
    · rfl

end operations

/-! ### What a step adds -/

section steps

variable {event : Event} {r : Running} {l : List Line}

/-- Nothing happens between attempt `i` and the store unless it writes and goes on, or is cut
off. -/
theorem doings_step (hs : s.step a = some t) (i : Nat) :
    (t.doings i = s.doings i ∧ s.heard i a = none ∧
      ∀ r, s.status? i = some (.running r) → t.status? i = s.status? i) ∨
    (∃ r, a = .advance i ∧ s.status? i = some (.running r) ∧ s.proceed i r = some t) ∨
    ∃ r inside, a = .cancel i inside ∧ s.status? i = some (.running r) ∧
      t = s.cutOff i r inside := by
  cases step_moves hs with
  | submit raw =>
    refine .inl ⟨congrFun (doings_submit s raw) i, rfl, fun r hi => ?_⟩
    have hlt := isSome_status?.1 (hi ▸ rfl : (s.status? i).isSome)
    rw [status?_submit, if_neg (Nat.ne_of_lt hlt)]
  | @reserve k event hk =>
    refine .inl ⟨congrFun (doings_reserve s event) i, by simp [heard, hk], fun r hi => ?_⟩
    have hne : i ≠ k := by
      rintro rfl
      cases hi.symm.trans hk
    rw [status?_reserve, if_neg hne]
  | @proceed k r _ hk ht =>
    by_cases hi : i = k
    · subst hi
      exact .inr (.inl ⟨r, rfl, hk, ht⟩)
    · refine .inl ⟨?_, by simp [heard, hk, Ne.symm hi], fun _ _ => status?_proceed_of_ne ht hi⟩
      have hki : ¬k = i := Ne.symm hi
      rcases proceed_cases ht with ⟨b, -, rfl⟩ | ⟨-, -, rfl⟩ | ⟨-, -, -, rfl⟩
      · simp [doings_answer, doings_ask, hki]
      · simp [doings_expire, doings_ask, hki]
      · simp [doings_ask, hki]
  | @settle k event reserved ending hk =>
    refine .inl ⟨congrFun (doings_settle s event reserved ending) i, by simp [heard, hk],
      fun r hi => ?_⟩
    have hne : i ≠ k := by
      rintro rfl
      cases hi.symm.trans hk
    rw [status?_settle, if_neg hne]
  | @cancel k r inside hk =>
    by_cases hi : i = k
    · subst hi
      exact .inr (.inr ⟨r, inside, rfl, hk, rfl⟩)
    · refine .inl ⟨?_, rfl, fun _ _ => by rw [status?_cutOff, if_neg hi]⟩
      rw [doings_cutOff, if_neg (by simp [Ne.symm hi]), List.append_nil]
  | release => exact .inl ⟨congrFun (doings_releaseBy ..) i, rfl, fun _ _ => rfl⟩
  | outside ha ht =>
    refine .inl ⟨doings_outside s ha ht, ?_, fun _ _ => by rw [status?_outside ha ht]⟩
    cases a <;> first | rfl | simp [Action.isOutside] at ha

/-- Attempt `i`, which was told `l`, has said to the store and heard from it what its status
says. -/
def Recounted (s : State) (i : Nat) (l : List Line) : Prop :=
  match s.status? i with
  | none => l = [] ∧ s.doings i = []
  | some st => ∀ e, s.event? i = some e → st.Recounts s.settings.maxRetries e l (s.doings i)

theorem Recounted.of_status? {st : Status} (h : s.Recounted i l) (hi : s.status? i = some st)
    {e : Event} (he : s.event? i = some e) :
    st.Recounts s.settings.maxRetries e l (s.doings i) := by
  unfold Recounted at h
  rw [hi] at h
  exact h e he

theorem recounted_iff {st : Status} (hi : t.status? i = some st) : t.Recounted i l ↔
    ∀ e, t.event? i = some e → st.Recounts t.settings.maxRetries e l (t.doings i) := by
  unfold Recounted
  rw [hi]

/-- One answer takes the writing of an attempt and its course on. -/
theorem recounts_next {c : Course} {k : Nat} (hc : r.writing.Follows k c) (b : Answer) :
    (r.next k b).Recounts k r.writing.event (c.lines ++ [(r.writing.call, b)])
      (c.doings ++ Line.doings (r.writing.call, b) ++
        if r.writing.repeats k b then [.retried] else []) := by
  have hnext := hc.answered b
  unfold Running.next
  cases hw : r.writing.answered k b with
  | going w =>
    rw [hw] at hnext
    obtain ⟨hev, hf⟩ := hnext
    refine ⟨_, hev, hf, Writing.lines_extend hc, ?_⟩
    rw [Writing.doings_extend hc]
    simp
  | settled res =>
    rw [hw] at hnext
    obtain ⟨o, ho, hv⟩ := hnext
    refine .inl ⟨_, o, res, ⟨Writing.lines_extend hc, ho, by simp, ?_⟩, hv, rfl⟩
    rw [Writing.doings_extend hc]
    simp

/-- A writing that is cut off leaves its course as it is, perhaps with a call without an answer. -/
theorem account_cut {c : Course} {k : Nat} (hc : r.writing.Follows k c) (asked : Bool) :
    ∃ o, Account k r.writing.event c.lines
      (c.doings ++ (if asked then [.call r.writing.call] else []) ++
        if r.writing.isOpen then [.dropped] else [])
      c o (if asked then some r.writing.call else none) true := by
  obtain ⟨o, ho, -, hopen⟩ := hc.proper
  refine ⟨o, rfl, ho, fun p hp b => ?_, ?_⟩
  · cases asked with
    | false => cases hp
    | true =>
      cases hp
      exact hc.conforms b
  · rw [hopen, Bool.true_and]
    cases asked <;> rfl

theorem Recounted.proceed (h : s.Recounted i l) (ho : s.Own) (hi : s.status? i = some (.running r))
    (ht : s.proceed i r = some t) : t.Recounted i (l ++ (s.heard i (.advance i)).toList) := by
  obtain ⟨c, -, hc, rfl, hds⟩ := h.of_status? hi (ho i _ _ hi rfl)
  have hset := settings_proceed ht
  have hev : ∀ e, t.event? i = some e → e = r.writing.event := by
    intro e he
    rw [event?_proceed ht, ho i _ _ hi rfl] at he
    exact (Option.some.inj he).symm
  have hheard : s.heard i (.advance i) =
      (s.ask (.attempt i) r.waiting r.writing.call).2.map fun a => (r.writing.call, a) := by
    simp [heard, hi]
  -- whether it was made before or just now, the present call is in the log
  have hasked : (s.ask (.attempt i) r.waiting r.writing.call).1.doings i =
      c.doings ++ [.call r.writing.call] := by
    rw [doings_ask, hds]
    cases r.waiting <;> simp
  rw [hheard]
  rcases proceed_cases ht with ⟨b, hb, rfl⟩ | ⟨hb, -, rfl⟩ | ⟨hb, -, hw, rfl⟩
  · rw [recounted_iff (status?_answer_self hi), hset, doings_answer, hasked, hb]
    intro e he
    rw [hev e he, settings_ask]
    have hnext := recounts_next hc b
    rw [Writing.doings_line] at hnext
    simpa using hnext
  · rw [recounted_iff (status?_expire_self hi), hset, doings_expire, hasked, hb]
    intro e he
    rw [hev e he]
    obtain ⟨o, hcut⟩ := account_cut hc true
    refine .inr ⟨c, o, r.writing.call, _, ?_, rfl⟩
    simpa using hcut
  · rw [recounted_iff (status?_ask_self hi), hset, doings_setStatus, hasked, hb]
    intro e he
    exact ⟨c, (hev e he).symm, hc, by simp, by simp⟩

/-- What an attempt has said to the store and heard from it stays what its status says. -/
theorem Recounted.step (h : s.Recounted i l) (ho : s.Own) (hs : s.step a = some t) :
    t.Recounted i (l ++ (s.heard i a).toList) := by
  rcases doings_step hs i with ⟨hd, hn, hstays⟩ | ⟨r, rfl, hi, ht⟩ | ⟨r, inside, rfl, hi, rfl⟩
  · have hsame : t.status? i = s.status? i → t.Recounted i l := by
      intro hst
      unfold Recounted at h ⊢
      rw [hst, hd, settings_step hs]
      cases hi : s.status? i with
      | none => rwa [hi] at h
      | some st =>
        rw [hi] at h
        intro e he
        rw [event?_step_of_started hs (by simp [hi])] at he
        exact h e he
    rw [hn, Option.toList_none, List.append_nil]
    cases step_turns hs i with
    | same hst => exact hsame hst
    | @submit raw hi hlen ht =>
      subst hlen ht
      unfold Recounted at h
      rw [hi] at h
      rw [recounted_iff (status?_submit_self s raw), hd]
      intro e he
      rw [event?_submit, if_pos rfl] at he
      unfold Status.first
      cases hr : Event.ofRaw raw with
      | error flaw =>
        rw [hr] at he
        cases he
      | ok x => exact h
    | @reserve event hi ht =>
      subst ht
      rw [recounted_iff (status?_reserve_self hi), hd]
      intro e he
      rw [event?_reserve, ho i _ _ hi rfl] at he
      cases he
      obtain ⟨rfl, hds⟩ := h.of_status? hi (ho i _ _ hi rfl)
      rw [hds]
      unfold reserved
      split
      · exact ⟨{}, rfl, Writing.follows_start .., rfl, rfl⟩
      · exact ⟨{}, rfl, Writing.follows_start .., rfl, rfl⟩
      · exact .inl ⟨rfl, rfl, rfl⟩
      · exact .inl ⟨rfl, rfl, rfl⟩
    | @settle event reserved ending hi ht =>
      subst ht
      rw [recounted_iff (status?_settle_self hi), hd, settings_settle]
      intro e he
      rw [event?_settle] at he
      exact .inr ⟨ending, h.of_status? hi he, rfl⟩
    | proceed hi => exact hsame (hstays _ hi)
    | cancel hi => exact hsame (hstays _ hi)
  · exact h.proceed ho hi ht
  · obtain ⟨c, -, hc, rfl, hds⟩ := h.of_status? hi (ho i _ _ hi rfl)
    rw [recounted_iff (status?_cutOff_self hi), doings_cutOff, hds, settings_cutOff]
    intro e he
    rw [event?_cutOff, ho i _ _ hi rfl] at he
    cases he
    obtain ⟨o, hcut⟩ := account_cut hc r.waiting
    refine ⟨c, o, if r.waiting then some r.writing.call else none, ?_⟩
    simpa [heard] using hcut

end steps

/-- Attempt `i` was cut off, by its deadline or from outside. -/
def isCutOff (s : State) (i : Nat) : Bool := (s.status? i).any Status.isCutOff

theorem Plays.recounted {l : List Line} (h : s.Plays i t l) (hs : s.Fresh) : t.Recounted i l := by
  refine (h.keeps (I := fun t l => t.Own ∧ t.Recounted i l) ⟨hs.own, ?_⟩ (fun _ _ _ _ h => h) ?_).2
  · unfold Recounted
    rw [hs.status?_eq_none]
    exact ⟨rfl, by simp [doings, hs.log]⟩
  · exact fun _ _ _ _ hs h => ⟨h.1.step hs, h.2.step h.1 hs⟩

/-- What an attempt at a valid event says to a store that may answer anything, or nothing: its
calls, in their order, are those of a proper course with at most as many transactions run again as the
settings allow, and one more call may be left without an answer. The log has nothing else of it but
the transactions that were dropped, each before the next one begins, and one sample for each that
was run again. Once an answer has left open whether a transaction was committed no other is begun.
An attempt that asked the store and was not cut off returns the verdict of its course. -/
theorem store_calls_in_order {l : List Line} {e : Event} (hs : s.Fresh) (hp : s.Plays i t l)
    (he : t.event? i = some e) : ∃ c o pending,
      Account s.settings.maxRetries e l (t.doings i) c o pending (t.isCutOff i) ∧
      (t.doings i).count .retried = c.again.length ∧
      (l.Pairwise fun x y => x.leavesOpen → y.1 = .check e.eventId) ∧
      ∀ r, t.result? i = some r → t.doings i ≠ [] → t.isCutOff i = false →
        pending = none ∧
          ∃ res, c.verdict o = some res ∧ r = (res.mapError .storage).map ofWritten := by
  have hrec := hp.recounted hs
  have hown := hp.own hs.own
  rw [← hp.settings]
  obtain ⟨st, hi⟩ := Option.isSome_iff_exists.1 (isSome_status?_of_event? he)
  obtain ⟨c, o, pending, ha, hret⟩ := (hrec.of_status? hi he).account
  have hcut : t.isCutOff i = st.isCutOff := by simp [isCutOff, hi]
  rw [hcut]
  refine ⟨c, o, pending, ha, ha.count_retried, ?_, fun r hr => ?_⟩
  · rw [← ha.lines]
    exact ha.proper.pairwise
  · rw [result?_eq_some, hi] at hr
    exact hret r (Option.some.inj hr)

/-- The first commit meets a conflict, and the second is acknowledged by nobody. -/
def conflictThenLoss : List Action :=
  [.faults { conflicts := 1, nextCommit := some .acknowledgementLost }, .submit aView] ++
    List.replicate 13 (.advance 0)

theorem inserted_after_conflict_and_loss : ∃ t l c o pending, initial.Fresh ∧
    initial.Plays 0 t l ∧ l.length = 11 ∧ t.result? 0 = some (.ok .inserted) ∧
    (t.doings 0).count .retried = 1 ∧ Course.lines c = l ∧ c.again.length = 1 ∧
    pending = (none : Option Call) ∧ c.verdict o = some (.ok .inserted) := by
  obtain ⟨t, ht⟩ := Option.isSome_iff_exists.1
    (show (initial.run conflictThenLoss).isSome = true by decide +kernel)
  have hend : (initial.run conflictThenLoss).map (fun t => (t.result? 0, (t.event? 0).isSome,
      (t.doings 0).count .retried, (t.doings 0).isEmpty, t.isCutOff 0)) =
        some (some (.ok .inserted), true, 1, false, false) := by rfl
  have hlen : (initial.hears 0 conflictThenLoss).length = 11 := by rfl
  rw [ht] at hend
  simp only [Option.map_some, Option.some.injEq, Prod.mk.injEq] at hend
  obtain ⟨hr, he, hcount, hdid, hcut⟩ := hend
  obtain ⟨e, he⟩ := Option.isSome_iff_exists.1 he
  have hplays : initial.Plays 0 t _ := plays_of_run ht
  obtain ⟨c, o, pending, ha, hagain, -, hret⟩ := store_calls_in_order begins_initial.fresh hplays he
  obtain ⟨hp, res, hv, hres⟩ := hret _ hr (by rintro h; simp [h] at hdid) hcut
  refine ⟨t, _, c, o, pending, begins_initial.fresh, hplays, hlen, hr, hcount, ha.lines,
    hagain.symm.trans hcount, hp, ?_⟩
  rcases res with x | _ | _
  · cases hres
  · exact hv
  · cases hres

end State

end Intake.Ingest
