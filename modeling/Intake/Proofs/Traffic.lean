import Intake.Signal.Pipeline
import Mathlib.Data.List.Perm.Basic

/-!
# Where updates are

A pipeline shows the updates that it queues, holds and runs, and its log those that met their end.
What it does not show is the order in which they came and were started, and what became of them when
the worker was stopped: `Traffic` keeps that beside it. `Accounts` says that nothing else can happen
to an update, and that the ledger shows the updates that succeeded. Each operation of a pipeline
keeps it.

Without the updates that are lost the account would be false: a worker that is stopped takes what it
holds and what is queued with it, and counts none of it.
-/

namespace Intake.Signal

variable {u v : Update} {us vs : List Update} {e : Ending} {now j : Nat}

def Fate.isFinished : Fate → Bool
  | finished _ => true
  | dropped _ => false

/-- The counter that grows by one when an update meets this end. -/
def Fate.counter : Fate → Metrics.Series
  | dropped r => ⟨"ingest_signal_updates_dropped_total", [("reason", r.name)]⟩
  | finished e => ⟨"ingest_signal_updates_total", [("outcome", e.name)]⟩

/-- What a touch writes when it comes to its end. -/
def Touch.written (t : Touch) : List Update :=
  match t.failure with
  | some _ => []
  | none => [t.update]

/-! ### What the ledger shows -/

/-- `t` is the latest time of these updates. -/
def Latest (t : Instant) (us : List Update) : Prop :=
  (∃ u ∈ us, u.seenAt = t) ∧ ∀ u ∈ us, u.seenAt ≤ t

theorem Latest.single (u : Update) : Latest u.seenAt [u] :=
  ⟨⟨u, by simp⟩, fun v hv => List.mem_singleton.1 hv ▸ Int.le_refl _⟩

theorem Latest.cons {t : Instant} (h : Latest t us) (u : Update) :
    Latest (max t u.seenAt) (u :: us) := by
  obtain ⟨⟨v, hv, rfl⟩, hall⟩ := h
  have hrank := Instant.rank_max v.seenAt u.seenAt
  constructor
  · rcases Int.le_total v.seenAt.rank u.seenAt.rank with hle | hle
    · exact ⟨u, by simp, Instant.rank_injective (by omega)⟩
    · exact ⟨v, by simp [hv], Instant.rank_injective (by omega)⟩
  · intro w hw
    show w.seenAt.rank ≤ _
    rcases List.mem_cons.1 hw with rfl | hw
    · omega
    · have hle : w.seenAt.rank ≤ v.seenAt.rank := hall w hw
      omega

namespace Ledger

variable {l : Ledger}

/-- Of each key the ledger has the latest time in the updates `us`, and nothing if there is none. -/
structure Shows (l : Ledger) (us : List Update) : Prop where
  absent : ∀ key, l.seen.get? key = none ↔ ∀ u ∈ us, u.key ≠ key
  latest : ∀ key t, l.seen.get? key = some t → Latest t (us.filter (·.key = key))

theorem Shows.record (h : l.Shows us) (u : Update) : (l.record u).Shows (u :: us) := by
  constructor
  · intro key
    rw [get?_record, List.forall_mem_cons, ← h.absent]
    by_cases hk : key = u.key
    · simp [hk]
    · rw [if_neg hk]
      exact ⟨fun hnone => ⟨fun hu => hk hu.symm, hnone⟩, And.right⟩
  · intro key t ht
    rw [get?_record] at ht
    by_cases hk : key = u.key
    · subst hk
      rw [if_pos rfl, Option.some.injEq] at ht
      rw [List.filter_cons_of_pos (by simp), ← ht]
      cases hold : l.seen.get? u.key with
      | none =>
        have hnone : us.filter (·.key = u.key) = [] := by
          simpa [List.filter_eq_nil_iff] using (h.absent u.key).1 hold
        rw [hnone]
        exact .single u
      | some t' => exact (h.latest u.key t' hold).cons u
    · rw [if_neg hk] at ht
      rw [List.filter_cons_of_neg (by simpa using fun hu : u.key = key => hk hu.symm)]
      exact h.latest key t ht

theorem Shows.perm (h : l.Shows us) (hp : vs.Perm us) : l.Shows vs := by
  refine ⟨fun key => ?_, fun key t ht => ?_⟩
  · simpa only [hp.mem_iff] using h.absent key
  · simpa only [Latest, (hp.filter _).mem_iff] using h.latest key t ht

theorem Shows.endTouch (h : l.Shows us) (t : Touch) : (l.endTouch t).Shows (t.written ++ us) := by
  unfold Ledger.endTouch Touch.written
  cases t.failure with
  | some => exact h
  | none => exact h.record t.update

theorem beginTouch_update (l : Ledger) (now : Nat) (u : Update) :
    (l.beginTouch now u).update = u := by
  unfold beginTouch
  split <;> rfl

end Ledger

/-! ### The log -/

namespace Pipeline

variable {p q : Pipeline}

/-- The updates that met an end of this kind, the newest first. -/
def met (p : Pipeline) (f : Fate → Bool) : List Update := (p.log.filter (f ·.2)).map (·.1)

theorem met_of_log_cons {f : Fate → Bool} {d : Fate} (h : q.log = (u, d) :: p.log) :
    q.met f = if f d then u :: p.met f else p.met f := by
  unfold met
  rw [h, List.filter_cons]
  split <;> rfl

/-- Each end is counted once, under its own name. -/
theorem count_counter (p : Pipeline) (f : Fate) :
    (p.log.flatMap (·.2.samples)).count f.counter = (p.met (· = f)).length := by
  have hone : ∀ d : Fate, d.samples.count f.counter = if d = f then 1 else 0 := by
    rcases f with ⟨_ | _⟩ | ⟨_ | _ | _⟩ <;> rintro (⟨_ | _⟩ | ⟨_ | _ | _⟩) <;> decide
  unfold met
  rw [List.length_map]
  induction p.log with
  | nil => rfl
  | cons y ys ih =>
    rw [List.flatMap_cons, List.count_append, ih, hone, List.filter_cons]
    by_cases hy : y.2 = f <;> simp [hy, Nat.add_comm]

/-- There is a reason to refuse an update in this way. -/
def Refuses (p : Pipeline) : Refusal → Prop
  | .queueFull => p.isOpen = true ∧ p.queue.length = max p.settings.capacity 1
  | .closed => p.isOpen = false

/-! ### What an operation does -/

theorem dispatch_cases (p : Pipeline) (u : Update) :
    (p.isOpen = false ∧ p.dispatch u = { p with log := (u, .dropped .closed) :: p.log }) ∨
    (p.isOpen = true ∧ max p.settings.capacity 1 ≤ p.queue.length ∧
      p.dispatch u = { p with log := (u, .dropped .queueFull) :: p.log }) ∨
    (p.isOpen = true ∧ p.queue.length < max p.settings.capacity 1 ∧
      p.dispatch u = { p with queue := p.queue ++ [u] }) := by
  unfold dispatch
  cases ho : p.isOpen with
  | false => exact .inl ⟨rfl, rfl⟩
  | true =>
    by_cases hq : max p.settings.capacity 1 ≤ p.queue.length
    · exact .inr (.inl ⟨rfl, hq, if_pos hq⟩)
    · exact .inr (.inr ⟨rfl, Nat.not_le.1 hq, if_neg hq⟩)

theorem receive_cases (h : p.receive = some q) :
    ∃ u queue, p.held = none ∧ p.queue = u :: queue ∧ q = { p with held := some u, queue } := by
  unfold receive at h
  split at h
  · next u queue hh hq => exact ⟨u, queue, hh, hq, (Option.some.inj h).symm⟩
  · cases h

theorem launch_cases (h : p.launch = some q) :
    ∃ u, p.held = some u ∧ p.tasks.length < max p.settings.inFlight 1 ∧
      q = { p with held := none, tasks := p.tasks ++ [{ update := u }] } := by
  unfold launch at h
  split at h
  · next u hh =>
    split at h
    · next hlt => exact ⟨u, hh, hlt, (Option.some.inj h).symm⟩
    · cases h
  · cases h

/-- A turn ends the task, in success, in an error or too late, or begins its touch. -/
theorem turn_cases (h : p.turn now j = some q) : ∃ t touch expires, p.tasks[j]? = some t ∧
    t.touch.getD (p.ledger.beginTouch now t.update, now + p.settings.timeout.ticks) =
      (touch, expires) ∧
    (q = ({ p with ledger := p.ledger.endTouch touch }).retire j t.update
        (if touch.failure.isSome then .error else .success) ∨
      q = p.retire j t.update .timeout ∨
      q = { p with tasks := p.tasks.set j { t with touch := some (touch, expires) } }) := by
  unfold turn at h
  split at h
  · cases h
  · next t ht =>
    generalize hy : t.touch.getD _ = y at h
    obtain ⟨touch, expires⟩ := y
    refine ⟨t, touch, expires, ht, hy, ?_⟩
    simp only at h
    split at h
    · exact .inl (Option.some.inj h).symm
    · split at h
      · exact .inr (.inl (Option.some.inj h).symm)
      · split at h
        · cases h
        · exact .inr (.inr (Option.some.inj h).symm)

/-- What an operation leaves as it is, stopping apart. -/
def fixed (p : Pipeline) : Settings × Bool := (p.settings, p.isOpen)

theorem fixed_dispatch (p : Pipeline) (u : Update) : (p.dispatch u).fixed = p.fixed := by
  rcases p.dispatch_cases u with ⟨-, h⟩ | ⟨-, -, h⟩ | ⟨-, -, h⟩ <;> rw [h] <;> rfl

theorem fixed_dispatches (us : List Update) (p : Pipeline) :
    (us.foldl .dispatch p).fixed = p.fixed := by
  induction us generalizing p with
  | nil => rfl
  | cons u us ih => exact (ih (p.dispatch u)).trans (p.fixed_dispatch u)

theorem fixed_receive (h : p.receive = some q) : q.fixed = p.fixed := by
  obtain ⟨u, queue, -, -, rfl⟩ := receive_cases h
  rfl

theorem fixed_launch (h : p.launch = some q) : q.fixed = p.fixed := by
  obtain ⟨u, -, -, rfl⟩ := launch_cases h
  rfl

theorem fixed_turn (h : p.turn now j = some q) : q.fixed = p.fixed := by
  obtain ⟨t, touch, expires, -, -, rfl | rfl | rfl⟩ := turn_cases h <;> rfl

theorem met_receive (h : p.receive = some q) : q.met = p.met := by
  obtain ⟨u, queue, -, -, rfl⟩ := receive_cases h
  rfl

theorem met_launch (h : p.launch = some q) : q.met = p.met := by
  obtain ⟨u, -, -, rfl⟩ := launch_cases h
  rfl

/-- Only handing an update over can make it refused. -/
theorem met_dropped_turn {r : Refusal} (h : p.turn now j = some q) :
    q.met (· = .dropped r) = p.met (· = .dropped r) := by
  obtain ⟨t, touch, expires, -, -, rfl | rfl | rfl⟩ := turn_cases h
  · rw [met_of_log_cons rfl]
    rfl
  · rw [met_of_log_cons rfl]
    rfl
  · rfl

/-- The updates that are running. -/
def running (p : Pipeline) : List Update := p.tasks.map (·.update)

theorem running_eraseIdx {t : Task} (ht : p.tasks[j]? = some t) :
    (t.update :: (p.tasks.eraseIdx j).map (·.update)).Perm p.running := by
  obtain ⟨hj, rfl⟩ := List.getElem?_eq_some_iff.1 ht
  exact (List.getElem_cons_eraseIdx_perm hj).map (·.update)

theorem running_set {t : Task} (ht : p.tasks[j]? = some t) (y : Option (Touch × Nat)) :
    (p.tasks.set j { t with touch := y }).map (·.update) = p.running := by
  obtain ⟨hj, rfl⟩ := List.getElem?_eq_some_iff.1 ht
  have hj' : j < (p.tasks.map (·.update)).length := by simpa using hj
  have hset := List.set_getElem_self hj'
  rw [List.getElem_map] at hset
  rwa [List.map_set]

end Pipeline

/-! ### The account of a pipeline -/

/-- What has gone through a pipeline. -/
structure Traffic where
  /-- The updates that were handed to it, each with the attempt that did so if it was one. -/
  offered : List (Option Nat × Update) := []
  started : List Update := []
  /-- What went with the worker when it was stopped. -/
  lost : List Update := []
  /-- What was written in the ledger past the pipeline. -/
  direct : List Update := []

namespace Traffic

variable (x : Traffic)

def offer (us : List (Option Nat × Update)) : Traffic := { x with offered := x.offered ++ us }

def start (us : List Update) : Traffic := { x with started := x.started ++ us }

def lose (us : List Update) : Traffic := { x with lost := x.lost ++ us }

def touch (t : Touch) : Traffic := { x with direct := t.written ++ x.direct }

/-- The updates that were handed over, in order. -/
def updates : List Update := x.offered.map (·.2)

/-- The updates that were handed over by one attempt, or by none. -/
def sentBy (who : Option Nat) : List Update := (x.offered.filter (·.1 = who)).map (·.2)

@[simp] theorem updates_offer (us : List (Option Nat × Update)) :
    (x.offer us).updates = x.updates ++ us.map (·.2) := List.map_append

@[simp] theorem lost_offer (us : List (Option Nat × Update)) : (x.offer us).lost = x.lost := rfl

theorem sentBy_offer (us : List (Option Nat × Update)) (who : Option Nat) :
    (x.offer us).sentBy who = x.sentBy who ++ (us.filter (·.1 = who)).map (·.2) := by
  simp [sentBy, offer]

end Traffic

/-- The account of a pipeline through which `x` has gone. -/
structure Accounts (x : Traffic) (p : Pipeline) : Prop where
  /-- Each update that was handed over is in one place: it has met one end, runs, is held, waits, or
  was lost. -/
  places : x.updates.Perm (p.log.map (·.1) ++ p.running ++ p.held.toList ++ p.queue ++ x.lost)
  started : x.started.Perm (p.running ++ p.met Fate.isFinished)
  /-- Updates are started in the order in which they were handed over. -/
  order : (x.started ++ x.lost ++ p.held.toList ++ p.queue).Sublist x.updates
  room : p.queue.length ≤ max p.settings.capacity 1
  slots : p.running.length ≤ max p.settings.inFlight 1
  opened : p.isOpen = true → x.lost = []
  shut : p.isOpen = false → p.held = none ∧ p.queue = []
  /-- A running update touches the ledger for itself. -/
  touches : ∀ t ∈ p.tasks, ∀ y, t.touch = some y → y.1.update = t.update
  seen : p.ledger.Shows (p.met (· = .finished .success) ++ x.direct)

namespace Accounts

open Pipeline

variable {x : Traffic} {p q : Pipeline}

theorem drop (h : Accounts x p) (who : Option Nat) (u : Update) (r : Refusal) :
    Accounts (x.offer [(who, u)]) { p with log := (u, .dropped r) :: p.log } := by
  refine { h with places := ?_, started := ?_, order := ?_, seen := ?_ }
  · rw [Traffic.updates_offer]
    exact (List.perm_append_singleton _ _).trans (h.places.cons u)
  · rw [met_of_log_cons rfl]
    exact h.started
  · rw [Traffic.updates_offer]
    exact h.order.trans (List.sublist_append_left ..)
  · rw [met_of_log_cons rfl]
    exact h.seen

theorem dispatch (h : Accounts x p) (who : Option Nat) (u : Update) :
    Accounts (x.offer [(who, u)]) (p.dispatch u) := by
  rcases p.dispatch_cases u with ⟨-, hq⟩ | ⟨-, -, hq⟩ | ⟨ho, hlt, hq⟩
  · exact hq ▸ h.drop who u .closed
  · exact hq ▸ h.drop who u .queueFull
  · rw [hq]
    refine { h with places := ?_, order := ?_, room := ?_, shut := ?_ }
    · rw [Traffic.updates_offer, List.perm_iff_count]
      intro v
      have hv := h.places.count_eq v
      simp only [running, List.count_append, List.map_cons, List.map_nil, Traffic.lost_offer] at hv ⊢
      omega
    · rw [Traffic.updates_offer, ← List.append_assoc]
      exact h.order.append (List.Sublist.refl [u])
    · rw [List.length_append]
      exact hlt
    · intro hshut
      cases ho.symm.trans hshut

theorem receive (h : Accounts x p) (hq : p.receive = some q) : Accounts x q := by
  obtain ⟨u, queue, hheld, hqueue, rfl⟩ := receive_cases hq
  have hplaces := h.places
  have horder := h.order
  have hroom := h.room
  rw [hheld, hqueue] at hplaces horder
  rw [hqueue] at hroom
  refine { h with places := ?_, order := ?_, room := Nat.le_of_succ_le hroom, shut := ?_ }
  · simpa [running] using hplaces
  · simpa using horder
  · intro hshut
    cases (h.shut hshut).2.symm.trans hqueue

theorem launch (h : Accounts x p) (hq : p.launch = some q) :
    Accounts (x.start p.held.toList) q := by
  obtain ⟨u, hheld, hlt, rfl⟩ := launch_cases hq
  -- the worker is there, so nothing was lost before `u`
  have hopen : p.isOpen = true := by
    cases ho : p.isOpen with
    | true => rfl
    | false => cases (h.shut ho).1.symm.trans hheld
  have hlost := h.opened hopen
  have hplaces := h.places
  have horder := h.order
  rw [hheld] at hplaces horder
  refine { h with places := ?_, started := ?_, order := ?_, slots := ?_, shut := ?_, touches := ?_ }
  · simpa [running, Traffic.start, Traffic.updates] using hplaces
  · rw [hheld]
    refine (h.started.append_right [u]).trans ?_
    simp only [running, List.map_append, List.append_assoc]
    exact List.perm_append_comm.append_left _
  · rw [hlost] at horder
    simpa [Traffic.start, Traffic.updates, hheld, hlost] using horder
  · simpa [running] using Nat.succ_le_of_lt hlt
  · exact fun hshut => ⟨rfl, (h.shut hshut).2⟩
  · intro t ht y hy
    rcases List.mem_append.1 ht with ht | ht
    · exact h.touches t ht y hy
    · cases List.mem_singleton.1 ht
      cases hy

/-- A task ends, and if it ends well what it has written is its update. -/
theorem retire (h : Accounts x p) {t : Task} (ht : p.tasks[j]? = some t) {l : Ledger}
    (hl : l.Shows ((if e = .success then [t.update] else []) ++
      (p.met (· = .finished .success) ++ x.direct))) :
    Accounts x (({ p with ledger := l }).retire j t.update e) := by
  have hrun := running_eraseIdx ht
  refine { h with places := ?_, started := ?_, slots := ?_, touches := ?_, seen := ?_ }
  · rw [List.perm_iff_count]
    intro v
    have hv := h.places.count_eq v
    have hc := hrun.count_eq v
    simp only [Pipeline.retire, running, List.map_cons, List.count_append, List.count_cons]
      at hv hc ⊢
    omega
  · rw [met_of_log_cons rfl]
    exact (h.started.trans (hrun.symm.append_right _)).trans List.perm_middle.symm
  · have hlen := hrun.length_eq
    exact Nat.le_trans (Nat.le_of_succ_le (Nat.le_of_eq hlen)) h.slots
  · exact fun t' ht' => h.touches t' (List.mem_of_mem_eraseIdx ht')
  · rw [met_of_log_cons rfl]
    cases e <;> exact hl

theorem turn (h : Accounts x p) (hq : p.turn now j = some q) : Accounts x q := by
  obtain ⟨t, touch, expires, ht, hy, hend⟩ := turn_cases hq
  have hmem : t ∈ p.tasks := List.mem_of_getElem? ht
  have htouch : touch.update = t.update := by
    cases hty : t.touch with
    | none =>
      rw [hty] at hy
      cases hy
      exact Ledger.beginTouch_update ..
    | some y =>
      rw [hty] at hy
      cases hy
      exact h.touches t hmem _ hty
  rcases hend with rfl | rfl | rfl
  · refine h.retire ht ?_
    have hseen := h.seen.endTouch touch
    unfold Touch.written at hseen
    cases hf : touch.failure <;> simpa [hf, htouch] using hseen
  · exact h.retire ht h.seen
  · have hrun := running_set ht (some (touch, expires))
    refine { h with places := ?_, started := ?_, slots := ?_, touches := ?_ }
    · rw [running, hrun]
      exact h.places
    · rw [running, hrun]
      exact h.started
    · rw [running, hrun]
      exact h.slots
    · intro t' ht' y hy'
      rcases List.mem_or_eq_of_mem_set ht' with ht' | rfl
      · exact h.touches t' ht' y hy'
      · cases hy'
        exact htouch

theorem stop (h : Accounts x p) : Accounts (x.lose (p.held.toList ++ p.queue)) p.stop := by
  refine { h with places := ?_, order := ?_, room := Nat.zero_le _, opened := ?_, shut := ?_ }
  · rw [List.perm_iff_count]
    intro v
    have hv := h.places.count_eq v
    simp only [Pipeline.stop, Traffic.lose, Traffic.updates, running, Option.toList_none,
      List.count_append, List.count_nil] at hv ⊢
    omega
  · simpa [Traffic.lose, Traffic.updates, Pipeline.stop] using h.order
  · intro hopen
    cases hopen
  · exact fun _ => ⟨rfl, rfl⟩

theorem touched (h : Accounts x p) (t : Touch) :
    Accounts (x.touch t) { p with ledger := p.ledger.endTouch t } := by
  refine { h with seen := (h.seen.endTouch t).perm ?_ }
  show (p.met (· = .finished .success) ++ (t.written ++ x.direct)).Perm
    (t.written ++ (p.met (· = .finished .success) ++ x.direct))
  rw [← List.append_assoc, ← List.append_assoc]
  exact List.perm_append_comm.append_right x.direct

theorem faults (h : Accounts x p) (failing : Bool) (delay : Option Nat) :
    Accounts x { p with ledger := { p.ledger with failing, delay } } :=
  { h with seen := ⟨h.seen.absent, h.seen.latest⟩ }

theorem refuses (h : Accounts x p) {r : Refusal}
    (hr : (p.dispatch u).met (· = .dropped r) ≠ p.met (· = .dropped r)) : p.Refuses r := by
  rcases p.dispatch_cases u with ⟨ho, hq⟩ | ⟨ho, hle, hq⟩ | ⟨-, -, hq⟩
  · cases r with
    | closed => exact ho
    | queueFull => exact absurd (by rw [hq, met_of_log_cons rfl]; rfl) hr
  · cases r with
    | closed => exact absurd (by rw [hq, met_of_log_cons rfl]; rfl) hr
    | queueFull => exact ⟨ho, Nat.le_antisymm h.room hle⟩
  · exact absurd (by rw [hq]; rfl) hr

end Accounts

end Intake.Signal
