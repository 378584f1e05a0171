import Intake.Proofs.Notes
import Intake.Proofs.Surroundings

/-!
# What is counted of an attempt

Two things are counted in ways of their own. Releases and failures of the key store are counted
with the command itself (`Balanced`). All the rest tells how far an attempt has come, so the
milestones in its notes are those of its status (`Status.Passed`). `Booked` adds what holds of the log
as a whole: it tells of nobody but attempts that were started and clients of the two stores.
-/

namespace Intake.Ingest

open Store (Party Call)
open Metrics (Series)
open Reservation (Policy)

namespace Occurrence

/-- A sample of this metric, whatever its labels. -/
def isOf (name : String) : Occurrence → Bool
  | .sample x => x.name = name
  | _ => false

/-- A sample of this series. -/
def isIn (x : Series) : Occurrence → Bool
  | .sample y => y = x
  | _ => false

/-- A command that failed. -/
def isFailure : Occurrence → Bool
  | .command _ b => !b.toBool
  | _ => false

/-- A command that releases a reservation. -/
def isRelease : Occurrence → Bool
  | .command c _ => c.verb = .delete
  | _ => false

/-- A try to reserve that failed while the policy is to drop such events. -/
def isShut (policy : Policy) : Occurrence → Bool
  | .command c b => c.verb = .setNew && !b.toBool && policy = .failClosed
  | _ => false

/-- An occurrence of the dealings with the store. -/
def isDealing : Occurrence → Bool
  | .sample x => x.name = "ingest_serialization_retries_total" ||
    x.name = "ingest_ambiguous_commits_total"
  | .call _ | .dropped => true
  | .command .. => false

/-- An occurrence that tells how far an attempt has come: its try to reserve, and every sample that
belongs neither to a reservation nor to the dealings with the store. -/
def isMilestone : Occurrence → Bool
  | .command c _ => c.verb = .setNew
  | .sample x => !(x.name = "ingest_reservation_released_total" ||
    x.name = "ingest_reservation_errors_total" || (Occurrence.sample x).isDealing)
  | .call _ | .dropped => false

end Occurrence

open Occurrence

variable {δ ε : List Occurrence} {c : Reservation.Command} {b : Reservation.Answer}
  {policy : Policy}

/-! ### What operations add -/

theorem isDealing_samples (k : Nat) (w : Writing) (b : Store.Answer) :
    ∀ o ∈ (w.samples k b).map Occurrence.sample, o.isDealing = true := by
  unfold Writing.samples
  split <;> (try split) <;> simp [isDealing, Count.ambiguous, Count.retried]

/-- Releases and failures of the key store are each counted once. -/
structure Balanced (δ : List Occurrence) : Prop where
  released : δ.countP (isOf "ingest_reservation_released_total") = δ.countP isRelease
  errors : δ.countP (isOf "ingest_reservation_errors_total") = δ.countP isFailure

namespace Balanced

theorem append (h : Balanced δ) (h' : Balanced ε) : Balanced (δ ++ ε) := by
  constructor
  · rw [List.countP_append, List.countP_append, h.released, h'.released]
  · rw [List.countP_append, List.countP_append, h.errors, h'.errors]

theorem nil : Balanced [] := ⟨rfl, rfl⟩

/-- What is neither a command nor a sample of one has no part in the balance. -/
theorem of_others (h : ∀ o ∈ δ, o.isRelease = false ∧ o.isFailure = false ∧
    o.isOf "ingest_reservation_released_total" = false ∧
    o.isOf "ingest_reservation_errors_total" = false) : Balanced δ := by
  constructor
  · rw [List.countP_eq_zero.2 fun o ho => by simp [(h o ho).2.2.1],
      List.countP_eq_zero.2 fun o ho => by simp [(h o ho).1]]
  · rw [List.countP_eq_zero.2 fun o ho => by simp [(h o ho).2.2.2],
      List.countP_eq_zero.2 fun o ho => by simp [(h o ho).2.1]]

theorem dealings (h : ∀ o ∈ δ, o.isDealing = true) : Balanced δ := by
  refine of_others fun o ho => ?_
  have hd := h o ho
  cases o with
  | command c b => simp [isDealing] at hd
  | call c => simp [isRelease, isFailure, isOf]
  | dropped => simp [isRelease, isFailure, isOf]
  | sample x =>
    simp only [isDealing, Bool.or_eq_true, decide_eq_true_eq] at hd
    rcases hd with hd | hd <;> simp [isRelease, isFailure, isOf, hd]

theorem ended (r : Result) : Balanced ((Count.ended r).map .sample) := by
  refine of_others fun o ho => ?_
  rcases r with e | _ | _ <;>
    simp only [Count.ended, List.map_cons, List.map_nil, List.mem_cons, List.not_mem_nil,
      or_false] at ho <;>
    rcases ho with rfl | rfl <;>
    simp [isRelease, isFailure, isOf, Count.failed, Count.inserted, Count.duplicate, Count.timer,
      Series.label]

theorem reserved (policy : Policy) (b : Reservation.Answer) :
    Balanced ((Count.reserved policy b).map .sample) := by
  have hended := ended (.ok .duplicate)
  unfold Count.reserved
  split
  · exact nil
  · exact nil
  · exact hended
  · refine append (δ := [.sample Count.unreserved]) (of_others ?_) hended
    simp [isRelease, isFailure, isOf, Count.unreserved]

theorem commanded (h : c.verb ≠ .delete) : Balanced (commanded c b) := by
  cases b with
  | ok x =>
    refine of_others ?_
    simp [Ingest.commanded, Count.reservation, isRelease, isFailure, isOf, h, Except.toBool]
  | error f =>
    constructor
    · simp [Ingest.commanded, Count.reservation, Count.reservationError, isRelease, isOf, h]
    · simp [Ingest.commanded, Count.reservation, Count.reservationError, isFailure, isOf,
        Except.toBool]

theorem closed : Balanced (closed c b) := by
  unfold Ingest.closed
  by_cases hc : c.verb = .delete
  · rw [if_pos hc]
    cases b with
    | ok x =>
      constructor <;>
        simp [Ingest.commanded, Count.reservation, isRelease, isFailure, isOf, Count.released, hc,
          Except.toBool]
    | error f =>
      constructor <;>
        simp [Ingest.commanded, Count.reservation, Count.reservationError, isRelease, isFailure,
          isOf, Count.released, hc, Except.toBool]
  · rw [if_neg hc, List.append_nil]
    exact commanded hc

end Balanced

/-! ### Milestones -/

/-- The policy keeps an attempt from writing after this answer to its try to reserve. -/
def shuts (policy : Policy) (b : Reservation.Answer) : Bool := !b.toBool && policy = .failClosed

/-- The milestones of an attempt that has come this far; `valid` says whether its event is. -/
def Status.Passed (policy : Policy) (valid : Bool) (l : List Occurrence) : Option Status → Prop
  | none => l = []
  | some (.reserving _) => valid = true ∧ l = [.sample Count.received]
  | some (.running _) => valid = true ∧ ∃ c b, c.verb = .setNew ∧ shuts policy b = false ∧
    l = [.sample Count.received, .command c b]
  | some (.settling _ _ ending) => valid = true ∧ (∀ flaw, ending ≠ .error (.invalid flaw)) ∧
    ∃ c b, c.verb = .setNew ∧ shuts policy b = false ∧ l = [.sample Count.received, .command c b]
  | some (.returned r) =>
    (∃ flaw, valid = false ∧ r = .error (.invalid flaw) ∧
      l = [.sample Count.received, .sample (Count.invalid flaw)]) ∨
    valid = true ∧ (∀ flaw, r ≠ .error (.invalid flaw)) ∧
      ∃ c b, c.verb = .setNew ∧ (shuts policy b = true → r = .ok .duplicate) ∧
        l = [.sample Count.received, .command c b] ++
          (if shuts policy b then [.sample Count.unreserved] else []) ++
            (Count.ended r).map .sample
  | some .cancelled => valid = true ∧ ∃ c b, c.verb = .setNew ∧ shuts policy b = false ∧
    l = [.sample Count.received, .command c b, .sample Count.timer]

theorem milestones_dealings (h : ∀ o ∈ δ, o.isDealing = true) : δ.filter isMilestone = [] := by
  refine List.filter_eq_nil_iff.2 fun o ho hm => ?_
  have hd := h o ho
  cases o with
  | sample x => simp [isMilestone, hd] at hm
  | command c b => simp [isDealing] at hd
  | call | dropped => simp [isMilestone] at hm

theorem milestones_commanded : (commanded c b).filter isMilestone =
    if c.verb = .setNew then [.command c b] else [] := by
  have hsample : ((Count.reservation c.verb b).map Occurrence.sample).filter isMilestone = [] := by
    cases b with
    | ok x => rfl
    | error f => simp [Count.reservation, Count.reservationError, isMilestone]
  unfold commanded
  rw [List.filter_cons, hsample]
  simp [isMilestone]

theorem milestones_closed (h : c.verb ≠ .setNew) : (closed c b).filter isMilestone = [] := by
  unfold closed
  rw [List.filter_append, milestones_commanded, if_neg h]
  split
  · simp [isMilestone, Count.released]
  · rfl

theorem milestones_ended (r : Result) : ((Count.ended r).map Occurrence.sample).filter isMilestone =
    (Count.ended r).map .sample := by
  rcases r with e | _ | _ <;>
    simp [Count.ended, isMilestone, isDealing, Count.failed, Count.inserted, Count.duplicate,
      Count.timer, Series.label]

theorem milestones_reserved : ((Count.reserved policy b).map Occurrence.sample).filter isMilestone =
    (Count.reserved policy b).map .sample := by
  have hended := milestones_ended (.ok .duplicate)
  unfold Count.reserved
  split
  · rfl
  · rfl
  · exact hended
  · rw [List.map_cons, List.filter_cons, hended]
    rfl

namespace State

variable {s t : State} {a : Action} {i j : Nat} {r : Running}

/-- Attempt `i` has passed the milestones of its status. -/
def Passed (s : State) (i : Nat) : Prop :=
  Status.Passed s.settings.policy (s.event? i).isSome ((s.noted i).filter isMilestone) (s.status? i)

/-- A step that takes attempt `i` no further leaves its milestones as they are. -/
theorem Passed.keep (h : s.Passed i) (hs : s.step a = some t) (hi : t.status? i = s.status? i)
    (hn : (t.noted i).filter isMilestone = (s.noted i).filter isMilestone) : t.Passed i := by
  unfold Passed at *
  rw [hi, hn, settings_step hs]
  cases hst : s.status? i with
  | none => rwa [hst] at h
  | some st =>
    rw [hst] at h
    rwa [event?_step_of_started hs (by simp [hst])]

theorem milestones_of_adds {p : Party} (h : s.Adds p δ t) (i : Nat) :
    (t.noted i).filter isMilestone =
      (s.noted i).filter isMilestone ++ if p = .attempt i then δ.filter isMilestone else [] := by
  rw [h.noted]
  split
  · rw [List.filter_append]
  · rw [List.append_nil]

theorem proceed_dealings (h : s.proceed i r = some t) :
    ∃ δ, s.Adds (.attempt i) δ t ∧ ∀ o ∈ δ, o.isDealing = true := by
  obtain ⟨δ, hadds, hδ⟩ := adds_proceed h
  refine ⟨_, hadds, fun o ho => ?_⟩
  rcases List.mem_append.1 ho with ho | ho
  · split at ho
    · cases ho
    · rw [List.mem_singleton.1 ho]
      rfl
  · rcases hδ with rfl | rfl | ⟨b, rfl⟩
    · cases ho
    · rw [List.mem_singleton.1 ho]
      rfl
    · rcases List.mem_append.1 ho with ho | ho
      · split at ho
        · rw [List.mem_singleton.1 ho]
          rfl
        · cases ho
      · exact isDealing_samples _ _ _ o ho

theorem Passed.submit (h : s.Passed s.attempts.length) (raw : RawEvent) :
    (s.submit raw).Passed s.attempts.length := by
  have hnone : s.status? s.attempts.length = none := by simp [status?]
  unfold Passed at *
  rw [hnone] at h
  rw [milestones_of_adds (adds_submit s raw), if_pos rfl, h, status?_submit_self, settings_submit,
    event?_submit, if_pos rfl]
  unfold Status.first
  cases Event.ofRaw raw with
  | ok event => exact ⟨rfl, rfl⟩
  | error flaw => exact .inl ⟨flaw, rfl, rfl, by simp [isMilestone, isDealing, Count.invalid, Count.received]⟩

theorem Passed.reserve {event : Event} (h : s.Passed i)
    (hi : s.status? i = some (.reserving event)) : (s.reserve i event).Passed i := by
  unfold Passed at *
  rw [hi] at h
  obtain ⟨hvalid, hl⟩ := h
  have hverb : (s.settings.terms.reserve event.eventId).verb = .setNew := rfl
  rw [milestones_of_adds (adds_reserve s i event), if_pos rfl, hl, status?_reserve_self hi,
    event?_reserve, settings_reserve, List.filter_append, milestones_commanded, if_pos hverb,
    milestones_reserved, hvalid]
  generalize s.keys.run (s.settings.terms.reserve event.eventId) = ran
  generalize s.settings.terms.reserve event.eventId = c at *
  obtain ⟨keys, b⟩ := ran
  rcases b with f | _ | _
  · cases hp : s.settings.policy with
    | failOpen =>
      rw [State.reserved, hp]
      exact ⟨rfl, c, .error f, hverb, rfl, rfl⟩
    | failClosed =>
      rw [State.reserved, hp]
      exact .inr ⟨rfl, by simp, c, .error f, hverb, fun _ => rfl, rfl⟩
  · exact .inr ⟨rfl, by simp, c, .ok false, hverb, fun _ => rfl, rfl⟩
  · exact ⟨rfl, c, .ok true, hverb, rfl, rfl⟩

theorem Passed.proceed (h : s.Passed i) (hi : s.status? i = some (.running r))
    (ht : s.proceed i r = some t) : t.Passed i := by
  obtain ⟨δ, hadds, hδ⟩ := proceed_dealings ht
  unfold Passed at *
  rw [hi] at h
  obtain ⟨hvalid, c, b, hverb, hshut, hl⟩ := h
  rw [milestones_of_adds hadds, if_pos rfl, milestones_dealings hδ, hl, event?_proceed ht, hvalid,
    settings_proceed ht]
  have hwritten : ∀ res : Except Store.Error Written, ∀ flaw : Event.Flaw,
      res.mapError Error.storage ≠ .error (.invalid flaw) := by
    intro res flaw
    cases res <;> simp [Except.mapError]
  rcases status?_proceed_cases hi ht with ⟨x, hst⟩ | hst | hst
  · rw [hst]
    unfold Running.next
    split
    · exact ⟨rfl, c, b, hverb, hshut, rfl⟩
    · exact ⟨rfl, hwritten _, c, b, hverb, hshut, rfl⟩
  · rw [hst]
    exact ⟨rfl, by simp, c, b, hverb, hshut, rfl⟩
  · rw [hst]
    exact ⟨rfl, c, b, hverb, hshut, rfl⟩

theorem Passed.settle {event : Event} {reserved : Bool} {ending : Except Error Written}
    (h : s.Passed i) (hi : s.status? i = some (.settling event reserved ending)) :
    (s.settle i event reserved ending).Passed i := by
  unfold Passed at *
  rw [hi] at h
  obtain ⟨hvalid, hending, c, b, hverb, hshut, hl⟩ := h
  have hclosed : (if reserved then closed (s.closing event.eventId ending)
      (s.keys.run (s.closing event.eventId ending)).2 else []).filter isMilestone = [] := by
    split
    · exact milestones_closed (verb_closing_ne s ending event.eventId)
    · rfl
  rw [milestones_of_adds (adds_settle s i event reserved ending), if_pos rfl, hl,
    List.filter_append, hclosed, milestones_ended, status?_settle_self hi, event?_settle,
    settings_settle, hvalid]
  refine .inr ⟨rfl, fun flaw => ?_, c, b, hverb, by simp [hshut], by simp [hshut]⟩
  cases ending with
  | ok w => simp [Except.map]
  | error x => simpa [Except.map] using hending flaw

theorem Passed.cutOff {inside : Bool} (h : s.Passed i) (hi : s.status? i = some (.running r)) :
    (s.cutOff i r inside).Passed i := by
  unfold Passed at *
  rw [hi] at h
  obtain ⟨hvalid, c, b, hverb, hshut, hl⟩ := h
  have hdropped : (if r.writing.isOpen then [Occurrence.dropped] else []).filter isMilestone = [] := by
    split <;> rfl
  rw [milestones_of_adds (adds_cutOff s i r inside), if_pos rfl, hl, List.filter_append, hdropped,
    status?_cutOff_self hi, event?_cutOff, settings_cutOff, hvalid]
  exact ⟨rfl, c, b, hverb, hshut, rfl⟩

theorem Passed.step (hall : ∀ i, s.Passed i) (hs : s.step a = some t) (i : Nat) : t.Passed i := by
  have h := hall i
  -- a step of another attempt adds nothing to the milestones of this one
  have hother : ∀ {j δ}, j ≠ i → s.Adds (.attempt j) δ t →
      (t.noted i).filter isMilestone = (s.noted i).filter isMilestone := by
    intro j δ hj hadds
    rw [milestones_of_adds hadds, if_neg (fun e => hj (Party.attempt.inj e)), List.append_nil]
  cases step_moves hs with
  | submit raw =>
    by_cases hi : s.attempts.length = i
    · subst hi
      exact h.submit raw
    · exact h.keep hs (by rw [status?_submit, if_neg (Ne.symm hi)]) (hother hi (adds_submit s raw))
  | @reserve j event hj =>
    by_cases hi : j = i
    · subst hi
      exact h.reserve hj
    · exact h.keep hs (by rw [status?_reserve, if_neg (Ne.symm hi)])
        (hother hi (adds_reserve s j event))
  | @proceed j r _ hj ht =>
    by_cases hi : j = i
    · subst hi
      exact h.proceed hj ht
    · obtain ⟨δ, hadds, -⟩ := proceed_dealings ht
      exact h.keep hs (status?_proceed_of_ne ht (Ne.symm hi)) (hother hi hadds)
  | @settle j event reserved ending hj =>
    by_cases hi : j = i
    · subst hi
      exact h.settle hj
    · exact h.keep hs (by rw [status?_settle, if_neg (Ne.symm hi)])
        (hother hi (adds_settle s j event reserved ending))
  | @cancel j r inside hj =>
    by_cases hi : j = i
    · subst hi
      exact h.cutOff hj
    · exact h.keep hs (by rw [status?_cutOff, if_neg (Ne.symm hi)])
        (hother hi (adds_cutOff s j r inside))
  | @release k j id hj =>
    refine h.keep hs (by rw [status?_releaseAt]) ?_
    rw [milestones_of_adds (adds_releaseAt s k j id), milestones_closed (by simp [Reservation.release,
      Reservation.Command.verb])]
    simp
  | outside ha ht =>
    obtain ⟨k, δ, hadds, -⟩ := adds_outside ha ht
    refine h.keep hs (by rw [status?_outside ha ht]) ?_
    rw [milestones_of_adds hadds, if_neg (by simp), List.append_nil]

/-! ### The whole log -/

/-- How often this happened, to whomever. -/
def total (s : State) (q : Occurrence → Bool) : Nat := s.notes.countP fun x => q x.2

/-- What holds of the log as a whole. -/
structure Booked (s : State) : Prop where
  released : s.count (isOf "ingest_reservation_released_total") = s.count isRelease
  errors : s.count (isOf "ingest_reservation_errors_total") = s.count isFailure
  started : ∀ x ∈ s.notes, ∀ i, x.1 = .attempt i → i < s.attempts.length
  clients : ∀ k x, (.client k, .sample x) ∈ s.notes → x.name = "ingest_reservation_errors_total"

theorem length_attempts_step (h : s.step a = some t) : s.attempts.length ≤ t.attempts.length := by
  cases step_moves h with
  | submit raw => simp [attempts_submit]
  | reserve => simp [State.reserve, setStatus]
  | proceed _ ht =>
    obtain ⟨st, hst⟩ := attempts_proceed ht
    simp [hst, setStatus]
  | settle => simp [attempts_settle, setStatus]
  | cancel => simp [attempts_cutOff, setStatus]
  | release => exact Nat.le_refl _
  | outside ha ht => rw [(outside_step ha ht).1]

/-- A step tells of one party: of an attempt that was started, and what it adds is balanced, or of a
client. -/
theorem step_adds (hsp : s.Spoken) (hs : s.step a = some t) :
    (∃ i δ, s.Adds (.attempt i) δ t ∧ i < t.attempts.length ∧ Balanced δ) ∨
    ∃ k δ, s.Adds (.client k) δ t ∧
      ∀ x, .sample x ∈ δ → x.name = "ingest_reservation_errors_total" := by
  have hlen := length_attempts_step hs
  have hstarted : ∀ {i st}, s.status? i = some st → i < t.attempts.length := by
    intro i st hi
    have hlt : i < s.attempts.length := isSome_status?.1 (by rw [hi]; rfl)
    omega
  cases step_moves hs with
  | submit raw =>
    refine .inl ⟨_, _, adds_submit s raw, by simp [attempts_submit], ?_⟩
    refine .of_others fun o ho => ?_
    rcases List.mem_cons.1 ho with rfl | ho
    · simp [isRelease, isFailure, isOf, Count.received]
    · split at ho
      · rw [List.mem_singleton.1 ho]
        simp [isRelease, isFailure, isOf, Count.invalid]
      · cases ho
  | reserve hi =>
    refine .inl ⟨_, _, adds_reserve .., hstarted hi, .append (.commanded ?_) (.reserved ..)⟩
    simp [Reservation.Terms.reserve, Reservation.Command.verb]
  | proceed hi ht =>
    obtain ⟨δ, hadds, hδ⟩ := proceed_dealings ht
    exact .inl ⟨_, _, hadds, hstarted hi, .dealings hδ⟩
  | settle hi =>
    refine .inl ⟨_, _, adds_settle .., hstarted hi, .append ?_ (.ended _)⟩
    split
    · exact .closed
    · exact .nil
  | cancel inside hi =>
    refine .inl ⟨_, _, adds_cutOff .., hstarted hi, .of_others fun o ho => ?_⟩
    rcases List.mem_append.1 ho with ho | ho
    · split at ho
      · rw [List.mem_singleton.1 ho]
        exact ⟨rfl, rfl, rfl, rfl⟩
      · cases ho
    · rw [List.mem_singleton.1 ho]
      simp [isRelease, isFailure, isOf, Count.timer]
  | release hj =>
    have hcancelled := (hsp.left _ _ (List.mem_of_getElem? hj)).1
    exact .inl ⟨_, _, adds_releaseAt .., hstarted hcancelled, .closed⟩
  | outside ha ht =>
    obtain ⟨k, δ, hadds, hδ⟩ := adds_outside ha ht
    refine .inr ⟨k, δ, hadds, fun x hx => ?_⟩
    obtain ⟨v, f, rfl⟩ := hδ x hx
    rfl

theorem Booked.step (h : s.Booked) (hsp : s.Spoken) (hs : s.step a = some t) : t.Booked := by
  have hlen := length_attempts_step hs
  have hstarted : ∀ x ∈ s.notes, ∀ i, x.1 = .attempt i → i < t.attempts.length :=
    fun x hx i hi => Nat.lt_of_lt_of_le (h.started x hx i hi) hlen
  rcases step_adds hsp hs with ⟨i, δ, hadds, hi, hδ⟩ | ⟨k, δ, hadds, hδ⟩
  · constructor
    · rw [hadds.count, hadds.count, h.released, isAttempt, if_pos rfl, if_pos rfl, hδ.released]
    · rw [hadds.count, hadds.count, h.errors, isAttempt, if_pos rfl, if_pos rfl, hδ.errors]
    · rw [hadds]
      intro x hx j hj
      rcases List.mem_append.1 hx with hx | hx
      · exact hstarted x hx j hj
      · obtain ⟨o, -, rfl⟩ := List.mem_map.1 hx
        cases hj
        exact hi
    · rw [hadds]
      intro k x hx
      rcases List.mem_append.1 hx with hx | hx
      · exact h.clients k x hx
      · simp at hx
  · constructor
    · simpa [hadds.count, isAttempt] using h.released
    · simpa [hadds.count, isAttempt] using h.errors
    · rw [hadds]
      intro x hx j hj
      rcases List.mem_append.1 hx with hx | hx
      · exact hstarted x hx j hj
      · obtain ⟨o, -, rfl⟩ := List.mem_map.1 hx
        cases hj
    · rw [hadds]
      intro k' x hx
      rcases List.mem_append.1 hx with hx | hx
      · exact h.clients k' x hx
      · obtain ⟨o, ho, he⟩ := List.mem_map.1 hx
        cases he
        exact hδ x ho

end State

end Intake.Ingest
