import Intake.Reservation.KeyStore

/-!
# Moves on the key store

All clients use one key store, which does not tell them apart and comes to one command after the
other. So whatever any number of them do is a list of moves: commands, keys that are forgotten
without one, outages and overrides that are switched, and time that passes between them.
-/

namespace Intake.Reservation

inductive Move
  | command (c : Command)
  | evict (key : String)
  /-- Switches an outage on or off. -/
  | outage (failure : Option Failure)
  | override (v : Verb) (key : String) (a : Answer)
  | age (nanos : Nat)
deriving Repr

/-- Whether the move can have to do with a key: it is not about another one. -/
def Move.concerns (key : String) : Move → Bool
  | .command c => c.key = key
  | .evict k | .override _ k _ => k = key
  | .outage _ | .age _ => true

namespace KeyStore

/-- A store without keys, outage or overrides. -/
def opened (now : Nat) : KeyStore := { clock := now }

def step (s : KeyStore) : Move → KeyStore
  | .command c => (s.run c).1
  | .evict key => s.evict key
  | .outage failure => { s with outage := failure }
  | .override v key a => { s with overrides := s.overrides.set (v, key) a }
  | .age nanos => s.age nanos

/-- The store after these moves. -/
def after (s : KeyStore) (ms : List Move) : KeyStore := ms.foldl step s

@[simp] theorem after_nil (s : KeyStore) : s.after [] = s := rfl

@[simp] theorem after_cons (s : KeyStore) (m : Move) (ms : List Move) :
    s.after (m :: ms) = (s.step m).after ms := rfl

@[simp] theorem after_append (s : KeyStore) (ms ns : List Move) :
    s.after (ms ++ ns) = (s.after ms).after ns := List.foldl_append

end KeyStore

end Intake.Reservation
