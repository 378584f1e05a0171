import Intake.Ingest.State

/-!
# Runs of ingestion

An action is one step of an attempt, of time, or of somebody else who uses the stores. `State.step`
carries it out if it can be carried out at all, and a run is a list of actions.
-/

namespace Intake.Ingest

inductive Action
  | submit (raw : RawEvent)
  | advance (i : Nat)
  | cancel (i : Nat) (inside : Bool)
  | release (j : Nat)
  | elapse (ms : Nat)
  /-- A client gives a command to the key store. -/
  | command (k : Nat) (c : Reservation.Command)
  /-- A client takes a step of a reservation, whose failure is counted. -/
  | reservation (k : Nat) (c : Reservation.Command)
  | evict (key : String)
  | age (nanos : Nat)
  | outage (failure : Option Reservation.Failure)
  | override (v : Reservation.Verb) (key : String) (a : Reservation.Answer)
  | faults (f : Store.Faults)
  /-- A client makes a call of the store, or asks after the one for which it waits. -/
  | clientCall (k : Nat) (waiting : Bool) (call : Store.Call)
  | clientLeave (k : Nat) (isOpen : Bool)

namespace State

def setFaults (s : State) (f : Store.Faults) : State :=
  match s.store with
  | .memory m => { s with store := .memory { m with faults := f } }
  | .scripted _ | .closed => s

def step (s : State) : Action → Option State
  | .submit raw => some (s.submit raw)
  | .advance i => s.advance i
  | .cancel i inside => s.cancel i inside
  | .release j => s.release j
  | .elapse ms => some (s.elapse ms)
  | .command k c => some (s.command (.client k) c).1
  | .reservation k c => some (s.reservation (.client k) c).1
  | .evict key => some { s with keys := s.keys.evict key }
  | .age nanos => some { s with keys := s.keys.age nanos }
  | .outage failure => some { s with keys := { s.keys with outage := failure } }
  | .override v key a =>
    some { s with keys := { s.keys with overrides := s.keys.overrides.set (v, key) a } }
  | .faults f => some (s.setFaults f)
  | .clientCall k waiting call => some (s.ask (.client k) waiting call).1
  | .clientLeave k isOpen => some (s.clientLeave k isOpen)

def run (s : State) : List Action → Option State
  | [] => some s
  | a :: as => (s.step a).bind fun s => s.run as

theorem run_append (s : State) (as bs : List Action) :
    s.run (as ++ bs) = (s.run as).bind fun t => t.run bs := by
  induction as generalizing s with
  | nil => rfl
  | cons a as ih => simp only [List.cons_append, run]; cases s.step a <;> simp [ih]

/-! ### Runs under a condition -/

variable {p q : State → Action → Prop} {s t u : State} {a : Action}

/-- Each action is one that `p` allows in the state in which it is taken. -/
def Along (p : State → Action → Prop) (s : State) : List Action → Prop
  | [] => True
  | a :: as => p s a ∧ ∀ t, s.step a = some t → t.Along p as

theorem Along.mono (hpq : ∀ s a, p s a → q s a) {as : List Action} (h : s.Along p as) :
    s.Along q as := by
  induction as generalizing s with
  | nil => trivial
  | cons a as ih => exact ⟨hpq s a h.1, fun t ht => ih (h.2 t ht)⟩

theorem Along.of_forall {as : List Action} (h : ∀ a ∈ as, ∀ s, p s a) : s.Along p as := by
  induction as generalizing s with
  | nil => trivial
  | cons a as ih =>
    exact ⟨h a (by simp) s, fun t _ => ih fun b hb => h b (by simp [hb])⟩

theorem Along.append {as bs : List Action} (h : s.Along p as)
    (h' : ∀ t, s.run as = some t → t.Along p bs) : s.Along p (as ++ bs) := by
  induction as generalizing s with
  | nil => exact h' s rfl
  | cons a as ih =>
    refine ⟨h.1, fun t ht => ih (h.2 t ht) fun u hu => h' u ?_⟩
    simp [run, ht, hu]

/-- Along a run a condition may be traded for one that it implies where an invariant holds. -/
theorem Along.of_keeps {I : State → Prop} {as : List Action} (h : s.Along p as) (hs : I s)
    (hstep : ∀ s a t, s.step a = some t → p s a → I s → I t)
    (hq : ∀ s a, I s → p s a → q s a) : s.Along q as := by
  induction as generalizing s with
  | nil => trivial
  | cons a as ih =>
    exact ⟨hq s a hs h.1, fun t ht => ih (h.2 t ht) (hstep s a t ht h.1 hs)⟩

theorem Along.of_append {as bs : List Action} (h : s.Along p (as ++ bs)) : s.Along p as := by
  induction as generalizing s with
  | nil => trivial
  | cons a as ih => exact ⟨h.1, fun t ht => ih (h.2 t ht)⟩

theorem Along.of_append_right {as bs : List Action} (h : s.Along p (as ++ bs))
    (hr : s.run as = some t) : t.Along p bs := by
  induction as generalizing s with
  | nil =>
    cases hr
    exact h
  | cons a as ih =>
    rw [run] at hr
    obtain ⟨u, hu, hr⟩ := Option.bind_eq_some_iff.1 hr
    exact ih (h.2 u hu) hr

theorem Along.concat {as : List Action} (h : s.Along p as) (hr : s.run as = some t) (hp : p t a) :
    s.Along p (as ++ [a]) :=
  h.append fun u hu => by
    cases hr.symm.trans hu
    exact ⟨hp, fun _ _ => trivial⟩

theorem run_concat {as : List Action} (hr : s.run as = some t) (hs : t.step a = some u) :
    s.run (as ++ [a]) = some u := by
  rw [run_append, hr]
  simp [run, hs]

/-- What holds at the start of a run and is kept by each of its steps holds at its end. -/
theorem run_induction {I : List Action → State → Prop} {as : List Action} (h₀ : I [] s)
    (hstep : ∀ as t a u, s.run as = some t → I as t → p t a → t.step a = some u → I (as ++ [a]) u)
    (hr : s.run as = some t) (hp : s.Along p as) : I as t := by
  -- the part of the run that is done grows at the cost of the part that is left
  have hall : ∀ (cs bs : List Action) (u : State), s.run bs = some u → I bs u → u.run cs = some t →
      u.Along p cs → I (bs ++ cs) t := by
    intro cs
    induction cs with
    | nil =>
      intro bs u _ hi ht _
      cases ht
      rwa [List.append_nil]
    | cons a cs ih =>
      intro bs u hu hi ht hp
      rw [run] at ht
      obtain ⟨v, hv, ht⟩ := Option.bind_eq_some_iff.1 ht
      have hend := ih (bs ++ [a]) v (run_concat hu hv) (hstep bs u a v hu hi hp.1 hv) ht (hp.2 v hv)
      rwa [List.append_assoc] at hend
  exact hall as [] s rfl h₀ hr hp

/-- A run from `s` to `t` whose actions `p` allows. -/
def Reaches (p : State → Action → Prop) (s t : State) : Prop :=
  ∃ as, s.run as = some t ∧ s.Along p as

namespace Reaches

theorem refl : s.Reaches p s := ⟨[], rfl, trivial⟩

theorem single (hp : p s a) (h : s.step a = some t) : s.Reaches p t :=
  ⟨[a], by simp [run, h], hp, fun _ _ => trivial⟩

theorem of_run {as : List Action} (h : s.run as = some t) (hp : ∀ a ∈ as, ∀ s, p s a) :
    s.Reaches p t := ⟨as, h, .of_forall hp⟩

theorem trans (h : s.Reaches p t) (h' : t.Reaches p u) : s.Reaches p u := by
  obtain ⟨as, ha, hp⟩ := h
  obtain ⟨bs, hb, hq⟩ := h'
  refine ⟨as ++ bs, by simp [run_append, ha, hb], hp.append fun v hv => ?_⟩
  rw [ha] at hv
  cases hv
  exact hq

theorem mono (hpq : ∀ s a, p s a → q s a) (h : s.Reaches p t) : s.Reaches q t :=
  let ⟨as, ha, hp⟩ := h
  ⟨as, ha, hp.mono hpq⟩

theorem of_keeps {I : State → Prop} (h : s.Reaches p t) (hs : I s)
    (hstep : ∀ s a t, s.step a = some t → p s a → I s → I t)
    (hq : ∀ s a, I s → p s a → q s a) : s.Reaches q t :=
  let ⟨as, ha, hp⟩ := h
  ⟨as, ha, hp.of_keeps hs hstep hq⟩

/-- What every allowed step keeps holds at the end of a run if it holds at its start. -/
theorem keeps {I : State → Prop} (h : s.Reaches p t)
    (hstep : ∀ s a t, s.step a = some t → p s a → I s → I t) (hs : I s) : I t := by
  obtain ⟨as, ha, hp⟩ := h
  induction as generalizing s with
  | nil => cases ha; exact hs
  | cons a as ih =>
    rw [run] at ha
    cases hu : s.step a with
    | none => simp [hu] at ha
    | some u => exact ih (hstep s a u hu hp.1 hs) (by simpa [hu] using ha) (hp.2 u hu)

end Reaches

end State

end Intake.Ingest
