import Intake.Keyed
import Intake.Reservation.Failure

/-!
# The key store

A store of short-lived keys. A key lives until its time has come, counted on the store's own clock
in nanoseconds. `setNew` writes a key only if it does not live, which is what makes a reservation.
An outage fails every command, and an override settles the answer to one command on one key;
neither lets a command change anything.
-/

namespace Intake.Reservation

/-- A command of the key store; times to live are in seconds. -/
inductive Command
  | set (key value : String) (ttl : Nat)
  | setNew (key value : String) (ttl : Nat)
  | delete (key : String)
deriving DecidableEq, Repr

/-- A command without its arguments. -/
inductive Verb
  | set | setNew | delete
deriving DecidableEq, Repr

namespace Command

def key : Command → String
  | set key _ _ | setNew key _ _ | delete key => key

def verb : Command → Verb
  | set .. => .set
  | setNew .. => .setNew
  | delete _ => .delete

end Command

/-- The answer to a command. The Boolean says something only of `setNew`: whether it wrote. -/
abbrev Answer := Except Failure Bool

structure Entry where
  value : String
  expires : Nat
deriving DecidableEq, Repr

structure KeyStore where
  entries : Keyed String Entry := .empty
  clock : Nat := 0
  outage : Option Failure := none
  overrides : Keyed (Verb × String) Answer := .empty
deriving Repr

namespace KeyStore

def perSecond : Nat := 1000000000

/-- The entry of a key, if it lives. -/
def live? (s : KeyStore) (key : String) : Option Entry :=
  (s.entries.get? key).filter fun e => s.clock < e.expires

def value? (s : KeyStore) (key : String) : Option String := (s.live? key).map (·.value)

/-- The seconds a key has left, rounded up. -/
def ttl? (s : KeyStore) (key : String) : Option Nat :=
  (s.live? key).map fun e => (e.expires - s.clock + (perSecond - 1)) / perSecond

def write (s : KeyStore) (key value : String) (ttl : Nat) : KeyStore :=
  { s with entries := s.entries.set key ⟨value, s.clock + ttl * perSecond⟩ }

/-- Carries out a command that meets neither an outage nor an override. -/
def effect (s : KeyStore) : Command → KeyStore × Answer
  | .set key value ttl => (s.write key value ttl, .ok true)
  | .setNew key value ttl =>
    if (s.live? key).isSome then (s, .ok false) else (s.write key value ttl, .ok true)
  | .delete key => ({ s with entries := s.entries.erase key }, .ok true)

/-- The answer that an outage or an override gives. -/
def fixed? (s : KeyStore) (c : Command) : Option Answer :=
  match s.outage with
  | some failure => some (.error failure)
  | none => s.overrides.get? (c.verb, c.key)

def run (s : KeyStore) (c : Command) : KeyStore × Answer :=
  match s.fixed? c with
  | some answer => (s, answer)
  | none => s.effect c

/-- Forgets a key without a command. -/
def evict (s : KeyStore) (key : String) : KeyStore := { s with entries := s.entries.erase key }

/-- Lets time pass. -/
def age (s : KeyStore) (nanos : Nat) : KeyStore := { s with clock := s.clock + nanos }

/-- The keys that live, with their values and the seconds they have left. -/
def contents (s : KeyStore) : List (String × String × Nat) :=
  s.entries.pairs.filterMap fun (key, e) => (s.ttl? key).map fun ttl => (key, e.value, ttl)

theorem run_of_fixed {s : KeyStore} {c : Command} {a : Answer} (h : s.fixed? c = some a) :
    s.run c = (s, a) := by simp [run, h]

theorem run_of_free {s : KeyStore} {c : Command} (h : s.fixed? c = none) :
    s.run c = s.effect c := by simp [run, h]

/-- A command changes no other key. -/
theorem get?_run_of_ne (s : KeyStore) (c : Command) {key : String} (h : key ≠ c.key) :
    (s.run c).1.entries.get? key = s.entries.get? key := by
  unfold run
  split
  · rfl
  · cases c <;> simp_all [effect, write, Command.key]
    split <;> simp_all

/-- A command changes neither the outage nor an override. -/
theorem fixed?_run (s : KeyStore) (c d : Command) : (s.run c).1.fixed? d = s.fixed? d := by
  unfold run
  split
  · rfl
  · cases c with
    | set | delete => rfl
    | setNew => simp only [effect]; split <;> rfl

theorem clock_run (s : KeyStore) (c : Command) : (s.run c).1.clock = s.clock := by
  unfold run
  split
  · rfl
  · cases c with
    | set | delete => rfl
    | setNew => simp only [effect]; split <;> rfl

theorem live?_run_of_ne (s : KeyStore) (c : Command) {key : String} (h : key ≠ c.key) :
    (s.run c).1.live? key = s.live? key := by
  unfold live?
  rw [s.get?_run_of_ne c h, clock_run]

theorem value?_run_of_ne (s : KeyStore) (c : Command) {key : String} (h : key ≠ c.key) :
    (s.run c).1.value? key = s.value? key := by
  rw [value?, s.live?_run_of_ne c h, value?]

variable {s : KeyStore} {key value : String} {ttl : Nat} {e : Entry}

/-- A try to reserve a key that is carried out either writes it or finds it alive. -/
theorem answer_setNew (h : s.fixed? (.setNew key value ttl) = none) :
    (s.run (.setNew key value ttl)).2 = .ok (s.live? key).isNone := by
  rw [run_of_free h, effect]
  cases s.live? key <;> rfl

/-- After a try to reserve a key, its entry is the old one or was written by the try. -/
theorem get?_run_setNew (h : (s.run (.setNew key value ttl)).1.entries.get? key = some e) :
    s.entries.get? key = some e ∨ e.value = value ∧ (s.run (.setNew key value ttl)).2 = .ok true := by
  cases hf : s.fixed? (.setNew key value ttl) with
  | some a =>
    rw [run_of_fixed hf] at h
    exact .inl h
  | none =>
    rw [run_of_free hf, effect] at h ⊢
    split at h
    · exact .inl h
    · rw [write, Keyed.get?_set, if_pos rfl] at h
      cases h
      next hl => exact .inr ⟨rfl, by rw [if_neg hl]⟩

theorem get?_run_set (h : (s.run (.set key value ttl)).1.entries.get? key = some e) :
    s.entries.get? key = some e ∧ (s.fixed? (.set key value ttl)).isSome ∨ e.value = value := by
  cases hf : s.fixed? (.set key value ttl) with
  | some a =>
    rw [run_of_fixed hf] at h
    exact .inl ⟨h, rfl⟩
  | none =>
    rw [run_of_free hf, effect, write, Keyed.get?_set, if_pos rfl] at h
    cases h
    exact .inr rfl

theorem get?_run_delete (h : (s.run (.delete key)).1.entries.get? key = some e) :
    s.entries.get? key = some e ∧ (s.fixed? (.delete key)).isSome := by
  cases hf : s.fixed? (.delete key) with
  | some a =>
    rw [run_of_fixed hf] at h
    exact ⟨h, rfl⟩
  | none =>
    rw [run_of_free hf, effect, Keyed.get?_erase, if_pos rfl] at h
    cases h

/-! ### What commands leave when they are carried out -/

theorem live?_write (h : 0 < ttl) : (s.write key value ttl).live? key =
    some ⟨value, s.clock + ttl * perSecond⟩ := by
  have hl : s.clock < s.clock + ttl * perSecond :=
    Nat.lt_add_of_pos_right (Nat.mul_pos h (by decide))
  simp [live?, write, Option.filter, hl]

theorem value?_write (h : 0 < ttl) : (s.write key value ttl).value? key = some value := by
  rw [value?, live?_write h]
  rfl

theorem value?_run_setNew (hf : s.fixed? (.setNew key value ttl) = none) (h : 0 < ttl) :
    (s.run (.setNew key value ttl)).1.value? key = some ((s.value? key).getD value) := by
  rw [run_of_free hf, effect]
  split
  · next hl =>
    obtain ⟨e, he⟩ := Option.isSome_iff_exists.1 hl
    simp [value?, he]
  · next hl =>
    rw [value?_write h, value?, Option.not_isSome_iff_eq_none.1 hl]
    rfl

theorem value?_run_set (hf : s.fixed? (.set key value ttl) = none) (h : 0 < ttl) :
    (s.run (.set key value ttl)).1.value? key = some value := by
  rw [run_of_free hf, effect, value?_write h]

theorem value?_run_delete (hf : s.fixed? (.delete key) = none) :
    (s.run (.delete key)).1.value? key = none := by
  rw [run_of_free hf, effect]
  simp [value?, live?]

end KeyStore

end Intake.Reservation
