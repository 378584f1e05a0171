import Intake.Proofs.Exclusion

/-!
# An ingest by itself

A client sends an event, waits for the result, and sends the event again. While one of its ingests
is at work nothing else uses the two stores (`Alone`); before it the faults of the store are set as
anybody likes (`Ingests`).

`Ready` is what holds between two ingests: nothing is going on, the reservation is gone or `done`
with the event stored, and the tables are those of the beginning, or those with the event added
once. An ingest keeps it however it ends, because the reservation is settled by its last step: to
`done` if the event is stored, and to nothing if it failed. In between `Solo` holds. A failed ingest
may have stored its event all the same; then the next one finds it in the tables and does not add
it again.
-/

namespace Intake

open Store (Tables)

/-- `t` is `base`, or `base` with an event added that it does not hold. -/
def Store.Tables.Gained (base : Tables) (e : Event) (t : Tables) : Prop :=
  t = base ∨ base.events.has e.eventId = false ∧ t = base.apply (writesOf e)

/-- A table that holds the event holds it as it did, or it was added once. -/
theorem Store.Tables.Gained.eq_of_has {base t : Tables} {e : Event} (h : base.Gained e t)
    (hid : t.events.has e.eventId = true) :
    t = if base.events.has e.eventId then base else base.apply (writesOf e) := by
  rcases h with rfl | ⟨hnew, rfl⟩
  · rw [if_pos hid]
  · rw [hnew]
    rfl

/-- A key that is gone does not come back with time. -/
theorem Reservation.KeyStore.value?_age_of_none {s : KeyStore} {key : String}
    (h : s.value? key = none) (nanos : Nat) : (s.age nanos).value? key = none := by
  simp only [value?, live?, Option.map_eq_none_iff, Option.filter_eq_none_iff] at h ⊢
  intro e he hlt
  have hlate : s.clock + nanos < e.expires := of_decide_eq_true hlt
  exact h e he (decide_eq_true (Nat.lt_of_le_of_lt (Nat.le_add_right ..) hlate))

namespace Ingest

open Reservation (doneValue)
open Store (Party)

namespace State

variable {base : Tables} {s t u : State} {a : Action} {i j : Nat} {id : Uuid} {e : Event}
  {known : Prop}

/-- Attempts go on, releases are carried out and time passes, and nothing else happens. A
reservation of event `id` that is `done` does not expire. -/
def Alone (id : Uuid) (s : State) : Action → Prop
  | .advance _ | .release _ | .elapse _ => True
  | .age nanos => s.value? id = some doneValue →
    (s.keys.age nanos).value? (Reservation.key id) = some doneValue
  | _ => False

/-- Nothing is going on: no attempt has a step to come, no release is scheduled, and nobody has the
tables. -/
structure Quiet (s : State) : Prop where
  idle : s.isIdle = true
  releases : s.releases = []
  free : s.memory.lock.holder = none

/-- The event is stored and its reservation is `done`. -/
structure Concluded (s : State) (e : Event) : Prop where
  value : s.value? e.eventId = some doneValue
  stored : s.tables.events.has e.eventId = true

/-- The faults of the store are set, and an ingest begins. -/
def begun (s : State) (f : Store.Faults) (raw : RawEvent) : State := (s.setFaults f).submit raw

/-- An ingest of the event, with these faults of the store and by itself, leads from `s` to `t` and
returns `r`. -/
def Ingests (s : State) (raw : RawEvent) (id : Uuid) (f : Store.Faults) (r : Result) (t : State) :
    Prop :=
  (s.begun f raw).Reaches (Alone id) t ∧ t.result? s.attempts.length = some r

/-- What holds before an ingest of `e` and after it. -/
structure Ready (base : Tables) (e : Event) (s : State) : Prop where
  custody : s.Custody
  keysFree : s.KeysFree
  quiet : s.Quiet
  gained : base.Gained e s.tables
  key : s.value? e.eventId = none ∨ s.Concluded e

/-- What the reservation of `e` has come to while its attempt has come this far. The attempt is told
of a duplicate if the reservation was `done` (`known`) when it began. -/
def Placed (known : Prop) (e : Event) (s : State) : Option Status → Prop
  | some (.reserving event) =>
    event = e ∧ (¬known ∧ s.value? e.eventId = none ∨ s.Concluded e)
  | some (.running r) => ¬known ∧ r.writing.event = e ∧ r.reserved = true
  | some (.settling event reserved ending) =>
    ¬known ∧ event = e ∧ reserved = true ∧ ∀ x, ending = .error x → x.isRetryable = true
  | some (.returned (.error x)) => ¬known ∧ x.isRetryable = true ∧ s.value? e.eventId = none
  | some (.returned (.ok o)) => s.Concluded e ∧ (known → o = .duplicate)
  | _ => False

/-- While attempt `i` is the only one at work, on event `e`. -/
structure Solo (known : Prop) (base : Tables) (e : Event) (i : Nat) (s : State) : Prop where
  custody : s.Custody
  keysFree : s.KeysFree
  others : ∀ j, j ≠ i → s.isRunning j = false
  releases : s.releases = []
  queue : ∀ p ∈ s.memory.lock.queue, p = .attempt i
  gained : base.Gained e s.tables
  placed : Placed known e s (s.status? i)

/-! ### The steps of an ingest by itself -/

/-- The steps of attempt `i` and of time. -/
inductive LoneMoves (s : State) (i : Nat) (t : State) : Action → Prop
  | reserve {event : Event} (hi : s.status? i = some (.reserving event))
    (ht : t = s.reserve i event) : s.LoneMoves i t (.advance i)
  | proceed {r : Running} (hi : s.status? i = some (.running r)) (ht : s.proceed i r = some t) :
    s.LoneMoves i t (.advance i)
  | settle {event : Event} {reserved : Bool} {ending : Except Error Written}
    (hi : s.status? i = some (.settling event reserved ending))
    (ht : t = s.settle i event reserved ending) : s.LoneMoves i t (.advance i)
  | elapse {ms : Nat} (ht : t = s.elapse ms) : s.LoneMoves i t (.elapse ms)
  | age {nanos : Nat} (ht : t = { s with keys := s.keys.age nanos }) : s.LoneMoves i t (.age nanos)

theorem Solo.moves (h : s.Solo known base e i) (hp : s.Alone id a) (hs : s.step a = some t) :
    s.LoneMoves i t a := by
  have hown : ∀ k, s.isRunning k = true → k = i := by
    intro k hk
    refine Classical.byContradiction fun hne => ?_
    rw [h.others k hne] at hk
    cases hk
  cases step_moves hs with
  | submit => cases hp
  | @reserve k event hk =>
    obtain rfl := hown k (by simp [isRunning, hk])
    exact .reserve hk rfl
  | @proceed k r _ hk ht =>
    obtain rfl := hown k (by simp [isRunning, hk])
    exact .proceed hk ht
  | @settle k event reserved ending hk =>
    obtain rfl := hown k (by simp [isRunning, hk])
    exact .settle hk rfl
  | cancel => cases hp
  | release hj => simp [h.releases] at hj
  | outside ha ht =>
    cases a with
    | elapse ms =>
      cases ht
      exact .elapse rfl
    | age nanos =>
      cases ht
      exact .age rfl
    | submit | advance | cancel | release => simp [Action.isOutside] at ha
    | command | reservation | evict | outage | override | faults | clientCall | clientLeave =>
      cases hp

/-! ### The reservation -/

section reservation

variable {event : Event} {ending : Except Error Written}

/-- An attempt whose event is not reserved is let in. -/
theorem status?_reserve_of_none (hf : s.KeysFree) (hi : s.status? i = some (.reserving event))
    (hv : s.value? event.eventId = none) : (s.reserve i event).status? i = some (.running
      { writing := { event }, reserved := true,
        deadline := s.now + s.settings.timeout.ticks }) := by
  rw [status?_reserve_self hi, (value?_eq_none_of_answer hf).1 hv]
  rfl

/-- An attempt whose event is reserved is told of a duplicate. -/
theorem status?_reserve_of_some (hf : s.KeysFree) (hi : s.status? i = some (.reserving event))
    {v : String} (hv : s.value? event.eventId = some v) :
    (s.reserve i event).status? i = some (.returned (.ok .duplicate)) := by
  have hans : (s.keys.run (s.settings.terms.reserve event.eventId)).2 = .ok false := by
    obtain ⟨x, hx, -⟩ := Option.map_eq_some_iff.1 hv
    rw [Reservation.Terms.reserve, Reservation.KeyStore.answer_setNew (hf _), hx]
    rfl
  rw [status?_reserve_self hi, hans]
  rfl

/-- Where an answer leads, or the lack of one, the attempt has not lost its reservation. -/
theorem placed_proceed {r : Running} (hi : s.status? i = some (.running r))
    (ht : s.proceed i r = some t) (h : Placed known e s (some (.running r))) :
    Placed known e t (t.status? i) := by
  obtain ⟨hk, hev, hres⟩ := h
  rcases status?_proceed_cases hi ht with ⟨b, hb⟩ | hb | hb
  · rw [hb]
    unfold Running.next
    split
    · next w hw => exact ⟨hk, (Writing.event_going hw).trans hev, hres⟩
    · next result hres' =>
      refine ⟨hk, hev, hres, fun x hx => ?_⟩
      cases result with
      | ok y => cases hx
      | error y =>
        cases hx
        rfl
  · rw [hb]
    refine ⟨hk, hev, hres, fun x hx => ?_⟩
    cases hx
    rfl
  · rw [hb]
    exact ⟨hk, hev, hres⟩

end reservation

/-! ### The invariant -/

namespace Solo

variable (h : s.Solo known base e i)
include h

/-- A step of attempt `i` leaves everybody else where they were. -/
theorem of_took {ws : List Store.Write} (hc : t.Custody) (hf : t.KeysFree)
    (htook : s.memory.Took t.memory (.attempt i) ws)
    (hst : ∀ j, j ≠ i → t.status? j = s.status? j) (hrel : t.releases = s.releases)
    (hg : base.Gained e t.tables) (hpl : Placed known e t (t.status? i)) :
    t.Solo known base e i where
  custody := hc
  keysFree := hf
  others j hj := by
    have hold := h.others j hj
    unfold isRunning at hold ⊢
    rwa [hst j hj]
  releases := hrel.trans h.releases
  queue p hp := by
    refine Classical.byContradiction fun hne => ?_
    exact hne (h.queue p ((htook.spares.queue p hne).1 hp))
  gained := hg
  placed := hpl

theorem reserve {event : Event} (hi : s.status? i = some (.reserving event)) :
    (s.reserve i event).Solo known base e i := by
  obtain ⟨hc, htook⟩ := h.custody.reserve hi
  have htab : (s.reserve i event).tables = s.tables := htook.tables
  have hpl := h.placed
  rw [hi] at hpl
  obtain ⟨rfl, hkey⟩ := hpl
  refine h.of_took hc (h.keysFree.of_run (keys_reserve s i event)) htook ?_ rfl
    (htab ▸ h.gained) ?_
  · intro j hj
    rw [status?_reserve, if_neg hj]
  · rcases hkey with ⟨hk, hv⟩ | hdone
    · rw [status?_reserve_of_none h.keysFree hi hv]
      exact ⟨hk, rfl, rfl⟩
    · rw [status?_reserve_of_some h.keysFree hi hdone.value]
      refine ⟨⟨?_, htab ▸ hdone.stored⟩, fun _ => rfl⟩
      rw [value?_reserve h.keysFree, hdone.value]
      rfl

theorem proceed {r : Running} (hi : s.status? i = some (.running r))
    (ht : s.proceed i r = some t) : t.Solo known base e i := by
  obtain ⟨hc, ws, htook, hw⟩ := h.custody.proceed hi ht
  have hpl := h.placed
  rw [hi] at hpl
  refine h.of_took hc (h.keysFree.of_keys (keys_proceed ht)) htook
    (fun j hj => status?_proceed_of_ne ht hj) (releases_proceed ht) ?_ (placed_proceed hi ht hpl)
  have htab : t.tables = s.tables.apply ws := htook.tables
  cases hw with
  | nothing => exact htab ▸ h.gained
  | @attempt _ r' hr hnew _ =>
    cases hi.symm.trans hr
    obtain ⟨-, rfl, -⟩ := hpl
    -- the event is not stored, so the tables are still those of the beginning
    rcases h.gained with hbase | ⟨-, hadded⟩
    · rw [hbase] at hnew htab
      exact .inr ⟨hnew, htab⟩
    · rw [hadded, Tables.has_writesOf] at hnew
      simp at hnew

theorem settle {event : Event} {reserved : Bool} {ending : Except Error Written}
    (hi : s.status? i = some (.settling event reserved ending)) :
    (s.settle i event reserved ending).Solo known base e i := by
  obtain ⟨hc, htook⟩ := h.custody.settle hi
  have htab : (s.settle i event reserved ending).tables = s.tables := htook.tables
  have hpl := h.placed
  rw [hi] at hpl
  obtain ⟨hk, rfl, rfl, hretry⟩ := hpl
  have hkeys := keys_settle s i event true ending
  rw [if_pos rfl] at hkeys
  refine h.of_took hc (h.keysFree.of_run hkeys) htook ?_ (by simp) (htab ▸ h.gained) ?_
  · intro j hj
    rw [status?_settle, if_neg hj]
  · rw [status?_settle_self hi]
    cases ending with
    | error x => exact ⟨hk, hretry x rfl, value?_settle_error h.keysFree i event x⟩
    | ok w =>
      have hstands := h.custody.stands i
      rw [hi] at hstands
      have hstored : s.tables.events.has event.eventId = true := hstands.2 w rfl
      exact ⟨⟨value?_settle_ok h.keysFree i event w, htab ▸ hstored⟩, fun hk' => absurd hk' hk⟩

/-- Time changes nothing but that reservations expire, and those of `e` that are `done` do not. -/
theorem of_time (hp : s.Orderly a) (hs : s.step a = some t) (hst : t.status? = s.status?)
    (hrel : t.releases = s.releases) (hm : t.memory = s.memory) (hf : t.KeysFree)
    (hnone : s.value? e.eventId = none → t.value? e.eventId = none)
    (hdone : s.value? e.eventId = some doneValue → t.value? e.eventId = some doneValue) :
    t.Solo known base e i := by
  have htab : t.tables = s.tables := by rw [tables, hm, tables]
  have hcon : s.Concluded e → t.Concluded e := fun hc => ⟨hdone hc.value, htab ▸ hc.stored⟩
  have htook : s.memory.Took t.memory (.attempt i) [] := hm ▸ h.custody.sound.took_refl
  have hpl := h.placed
  refine h.of_took (h.custody.step hp hs) hf htook (fun j _ => by rw [hst]) hrel
    (htab ▸ h.gained) ?_
  rw [hst]
  -- only an attempt that has yet to reserve or has returned is placed by the value of its key
  rcases hi : s.status? i with _ | event | r | ⟨event, reserved, ending⟩ | (x | o) | _ <;>
    rw [hi] at hpl
  · exact hpl
  · obtain ⟨hev, ⟨hk, hv⟩ | hc⟩ := hpl
    · exact ⟨hev, .inl ⟨hk, hnone hv⟩⟩
    · exact ⟨hev, .inr (hcon hc)⟩
  · exact hpl
  · exact hpl
  · exact ⟨hpl.1, hpl.2.1, hnone hpl.2.2⟩
  · exact ⟨hcon hpl.1, hpl.2⟩
  · exact hpl

theorem step (hp : s.Alone e.eventId a) (hs : s.step a = some t) : t.Solo known base e i := by
  cases h.moves hp hs with
  | reserve hi ht => exact ht ▸ h.reserve hi
  | proceed hi ht => exact h.proceed hi ht
  | settle hi ht => exact ht ▸ h.settle hi
  | @elapse ms ht =>
    subst ht
    have hp' : s.Orderly (.elapse ms) := trivial
    exact h.of_time hp' hs rfl rfl rfl (h.keysFree.of_keys rfl) id id
  | @age nanos ht =>
    subst ht
    have hp' : s.Orderly (.age nanos) := trivial
    exact h.of_time hp' hs rfl rfl rfl (fun c => h.keysFree c)
      (fun hv => Reservation.KeyStore.value?_age_of_none hv _) hp

theorem run (hr : s.Reaches (Alone e.eventId) t) : t.Solo known base e i :=
  hr.keeps (I := fun u => u.Solo known base e i) (fun _ _ _ hs hp h => h.step hp hs) h

/-- Once the attempt has returned, all is quiet again. -/
theorem ready {r : Result} (hr : s.result? i = some r) : s.Ready base e := by
  have hi := result?_eq_some.1 hr
  have hpl := h.placed
  rw [hi] at hpl
  refine ⟨h.custody, h.keysFree, ⟨?_, h.releases, ?_⟩, h.gained, ?_⟩
  · refine List.all_eq_true.2 fun j _ => ?_
    by_cases hj : j = i
    · simp [isRunning, hj, hi]
    · simp [h.others j hj]
  · -- nobody but attempt `i` could have the tables, and it has left them
    refine Option.eq_none_iff_forall_not_mem.2 fun p hp => ?_
    have hq := Store.Lock.mem_queue_of_holder hp
    rw [h.queue p hq] at hq
    exact h.custody.away hi (by simp) hq
  · rcases r with x | o
    · exact .inl hpl.2.2
    · exact .inr hpl.1

end Solo

/-! ### From one ingest to the next -/

section begun

variable (s : State) (f : Store.Faults) (raw : RawEvent)

theorem attempts_setFaults : (s.setFaults f).attempts = s.attempts := by
  unfold setFaults
  split <;> rfl

@[simp] theorem settings_begun : (s.begun f raw).settings = s.settings := by
  rw [begun, settings_submit]
  unfold setFaults
  split <;> rfl

@[simp] theorem now_begun : (s.begun f raw).now = s.now := by
  rw [begun, now_submit]
  unfold setFaults
  split <;> rfl

@[simp] theorem keys_begun : (s.begun f raw).keys = s.keys := by
  rw [begun, keys_submit]
  unfold setFaults
  split <;> rfl

@[simp] theorem releases_begun : (s.begun f raw).releases = s.releases := by
  rw [begun, releases_submit]
  unfold setFaults
  split <;> rfl

theorem status?_begun : (s.begun f raw).status? j =
    if j = s.attempts.length then some (.first raw) else s.status? j := by
  rw [begun, status?_submit, attempts_setFaults, status?_of_attempts (attempts_setFaults s f)]

end begun

theorem Custody.begun (h : s.Custody) (f : Store.Faults) (raw : RawEvent) :
    (s.begun f raw).Custody := by
  have hset : (s.setFaults f).Custody := h.step (a := .faults f) trivial rfl
  exact (hset.submit raw).1

theorem Custody.store_begun (h : s.Custody) (f : Store.Faults) (raw : RawEvent) :
    (s.begun f raw).store = .memory { s.memory with faults := f } := by
  rw [State.begun, store_submit]
  simp only [setFaults, h.store]

namespace Ready

variable {raw : RawEvent} {f : Store.Faults} {r : Result}

theorem begun (h : s.Ready base e) (he : Event.ofRaw raw = .ok e) (f : Store.Faults) :
    (s.begun f raw).Solo (s.value? e.eventId = some doneValue) base e s.attempts.length := by
  have hmem := memory_of_store (h.custody.store_begun f raw)
  have hkeys := keys_begun s f raw
  have htab : (s.begun f raw).tables = s.tables := by rw [tables, hmem, tables]
  refine ⟨h.custody.begun f raw, h.keysFree.of_keys hkeys, fun j hj => ?_, ?_, fun p hp => ?_,
    htab ▸ h.gained, ?_⟩
  · have hidle := isRunning_of_isIdle h.quiet.idle j
    unfold isRunning at hidle ⊢
    rwa [status?_begun, if_neg hj]
  · rw [releases_begun, h.quiet.releases]
  · have hq : s.memory.lock.queue = [] := by
      simp [Store.Lock.queue, h.quiet.free, h.custody.sound.order h.quiet.free]
    rw [hmem, show _ = _ from hq] at hp
    cases hp
  · rw [status?_begun, if_pos rfl]
    simp only [Status.first, he]
    refine ⟨rfl, ?_⟩
    rcases h.key with hnone | hc
    · refine .inl ⟨by simp [hnone], ?_⟩
      rw [value?_of_keys hkeys, hnone]
    · refine .inr ⟨?_, htab ▸ hc.stored⟩
      rw [value?_of_keys hkeys, hc.value]

/-- An ingest by itself succeeds and leaves the event stored and its reservation at `done`, or it
fails, may be tried again, and leaves no reservation. -/
theorem ingests (h : s.Ready base e) (he : Event.ofRaw raw = .ok e)
    (hi : s.Ingests raw e.eventId f r t) : t.Ready base e ∧
      ((∃ o, r = .ok o ∧ t.Concluded e) ∨
        ∃ x, r = .error x ∧ x.isRetryable = true ∧ t.value? e.eventId = none) ∧
      (s.Concluded e → r = .ok .duplicate) := by
  obtain ⟨hrun, hr⟩ := hi
  have hsolo := (h.begun he f).run hrun
  have hpl := hsolo.placed
  rw [result?_eq_some.1 hr] at hpl
  refine ⟨hsolo.ready hr, ?_, fun hc => ?_⟩
  · rcases r with x | o
    · exact .inr ⟨x, rfl, hpl.2⟩
    · exact .inl ⟨o, rfl, hpl.1⟩
  · rcases r with x | o
    · exact absurd hc.value hpl.1
    · rw [hpl.2 hc.value]

end Ready

end State

end Ingest

end Intake
