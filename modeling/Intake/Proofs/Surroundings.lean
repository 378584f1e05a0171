import Intake.Proofs.Course
import Intake.Proofs.Protocol

/-!
# Runs among stores of any kind

What an attempt does depends on the two stores only through their answers. `Plays` are the runs in
which nothing is known of the stores: before each step both may have been exchanged for any others,
so every call and every command may be answered in any way, or not at all. Next to the state such a
run keeps what one attempt has been told by the store, its calls and their answers, which the log
does not tell.

Whatever speaks of attempts, releases and the log only is not touched by the exchange, so an
invariant of that kind has to be proved of ordinary steps only (`Plays.keeps`).
-/

namespace Intake.Ingest.State

open Store (Party Call)

variable {s t u : State} {a : Action} {i : Nat} {l : List Line}

/-- Nothing has been ingested yet. -/
structure Fresh (s : State) : Prop where
  attempts : s.attempts = []
  releases : s.releases = []
  log : s.log = []

/-- The state with these stores in the place of its own. -/
def among (s : State) (store : Store) (keys : Reservation.KeyStore) : State :=
  { s with store, keys }

/-- What attempt `i` is told when this step is taken: the answer to its present call. -/
def heard (s : State) (i : Nat) : Action → Option Line
  | .advance j =>
    match s.status? j with
    | some (.running r) =>
      if j = i then (s.ask (.attempt i) r.waiting r.writing.call).2.map fun a => (r.writing.call, a)
      else none
    | _ => none
  | _ => none

/-- A run among any stores from `s` to `t`, in which attempt `i` was told `l`. -/
inductive Plays (s : State) (i : Nat) : State → List Line → Prop
  | start : s.Plays i s []
  | step {t u : State} {store : Store} {keys : Reservation.KeyStore} {a : Action} {l : List Line}
    (h : s.Plays i t l) (hs : (t.among store keys).step a = some u) :
    s.Plays i u (l ++ ((t.among store keys).heard i a).toList)

/-! ### Stores of any kind -/

/-- There is a store that gives this answer, or none. -/
theorem exists_store (s : State) (keys : Reservation.KeyStore) (p : Party) (waiting : Bool)
    (call : Call) (o : Option Store.Answer) :
    ∃ store, ((s.among store keys).ask p waiting call).2 = o := by
  cases waiting with
  | true =>
    cases o with
    | none => exact ⟨.scripted { replies := .empty }, rfl⟩
    | some a =>
      refine ⟨.scripted { replies := .empty, pending := Keyed.empty.set p (a, 0) }, ?_⟩
      simp [ask, among, Store.resume, Store.Script.resume]
  | false =>
    cases o with
    | none =>
      let late : Store.Reply := { answer := .ok true, delay := 1 }
      refine ⟨.scripted { replies := Keyed.empty.set call.verb [late] }, ?_⟩
      have hlate : ¬s.now + 1 ≤ s.now := by omega
      simp [ask, among, Store.start, Store.Script.start, Store.Script.resume, Store.Script.next,
        late, hlate]
    | some a =>
      refine ⟨.scripted { replies := Keyed.empty.set call.verb [{ answer := a }] }, ?_⟩
      simp [ask, among, Store.start, Store.Script.start, Store.Script.resume, Store.Script.next]

/-- There is a key store that gives this answer. -/
theorem exists_keys (s : State) (store : Store) (p : Party) (c : Reservation.Command)
    (b : Reservation.Answer) : ∃ keys, ((s.among store keys).command p c).2 = b := by
  refine ⟨{ overrides := Keyed.empty.set (c.verb, c.key) b }, ?_⟩
  simp [command, among, Reservation.KeyStore.run, Reservation.KeyStore.fixed?]

/-! ### Invariants -/

theorem Spoken.among (h : s.Spoken) (store : Store) (keys : Reservation.KeyStore) :
    (s.among store keys).Spoken := ⟨h.spoke, h.left, h.once⟩

theorem Plays.keeps {I : State → List Line → Prop} (h : s.Plays i t l) (h₀ : I s [])
    (hamong : ∀ t l store keys, I t l → I (t.among store keys) l)
    (hstep : ∀ t u a l, t.step a = some u → I t l → I u (l ++ (t.heard i a).toList)) : I t l := by
  induction h with
  | start => exact h₀
  | step _ hs ih => exact hstep _ _ _ _ hs (hamong _ _ _ _ ih)

namespace Fresh

theorem status?_eq_none (h : s.Fresh) (i : Nat) : s.status? i = none := by
  simp [status?, h.attempts]

theorem own (h : s.Fresh) : s.Own := by
  intro i st e hi
  cases (h.status?_eq_none i).symm.trans hi

theorem spoken (h : s.Fresh) : s.Spoken := by
  have hc : ∀ i, s.commands i = [] := fun i => by simp [commands, acts, h.log]
  refine ⟨fun i => ?_, fun i id hi => ?_, by simp [h.releases]⟩
  · rw [hc, h.status?_eq_none i]
    rfl
  · rw [h.releases] at hi
    cases hi

end Fresh

theorem Begins.fresh {tables : Store.Tables} (h : s.Begins tables) : s.Fresh :=
  ⟨h.attempts, h.releases, h.log⟩

namespace Plays

variable (h : s.Plays i t l)
include h

theorem settings : t.settings = s.settings := by
  refine h.keeps (I := fun t _ => t.settings = s.settings) rfl (fun _ _ _ _ h => h) ?_
  intro t u a l hs ht
  rw [← ht]
  exact settings_step hs

theorem own (hs : s.Own) : t.Own :=
  h.keeps (I := fun t _ => t.Own) hs (fun _ _ _ _ h => h) fun _ _ _ _ hs h => h.step hs

theorem spoken (ho : s.Own) (hs : s.Spoken) : t.Spoken := by
  refine (h.keeps (I := fun t _ => t.Own ∧ t.Spoken) ⟨ho, hs⟩ ?_ ?_).2
  · exact fun t l store keys ht => ⟨ht.1, ht.2.among store keys⟩
  · exact fun t u a l hs ht => ⟨ht.1.step hs, ht.2.step ht.1 hs⟩

end Plays

/-! ### Ordinary runs -/

/-- What attempt `i` is told in the course of these actions. -/
def hears (s : State) (i : Nat) : List Action → List Line
  | [] => []
  | a :: as =>
    (s.heard i a).toList ++
      match s.step a with
      | some t => t.hears i as
      | none => []

theorem Plays.append_run (h : s.Plays i t l) {as : List Action} (hr : t.run as = some u) :
    s.Plays i u (l ++ t.hears i as) := by
  induction as generalizing t l with
  | nil =>
    cases hr
    simpa [hears] using h
  | cons a as ih =>
    rw [run] at hr
    obtain ⟨v, hv, hr⟩ := Option.bind_eq_some_iff.1 hr
    have hown : (t.among t.store t.keys).step a = some v := hv
    have hstep : s.Plays i v (l ++ (t.heard i a).toList) := h.step hown
    have hend := ih hstep hr
    rwa [hears, hv, ← List.append_assoc]

/-- An ordinary run is one in which the stores are left in their places. -/
theorem plays_of_run {as : List Action} (hr : s.run as = some t) : s.Plays i t (s.hears i as) :=
  Plays.start.append_run hr

end Intake.Ingest.State
