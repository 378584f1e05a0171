import Intake.Store.Call

/-!
# The lock of the tables

One party at a time has the tables. The others wait in the order in which they asked, and a party
that leaves hands the lock to the first of them, who has it from then on.
-/

namespace Intake.Store

structure Lock where
  holder : Option Party
  waiting : List Party
deriving DecidableEq, Repr

namespace Lock

def free : Lock := ⟨none, []⟩

/-- Gives `p` the lock if nobody has it, else a place at the end. -/
def request (l : Lock) (p : Party) : Lock :=
  match l.holder with
  | none => { l with holder := some p }
  | some _ => { l with waiting := l.waiting ++ [p] }

/-- Takes `p` out, whether it has the lock or waits for it. -/
def leave (l : Lock) (p : Party) : Lock :=
  if l.holder = some p then ⟨l.waiting.head?, l.waiting.tail⟩
  else { l with waiting := l.waiting.filter (· ≠ p) }

/-- The parties in their order, the one that has the lock first. -/
def queue (l : Lock) : List Party := l.holder.toList ++ l.waiting

@[simp] theorem request_free (p : Party) : free.request p = ⟨some p, []⟩ := rfl

theorem request_holder (l : Lock) (p : Party) : (l.request p).holder ≠ none := by
  unfold request; split <;> simp_all

/-- Nobody waits for a lock that is free, and leaving keeps it so. -/
theorem leave_waiting {l : Lock} (p : Party) (h : l.holder = none → l.waiting = []) :
    (l.leave p).holder = none → (l.leave p).waiting = [] := by
  unfold leave
  split
  · cases l.waiting <;> simp
  · intro hn
    simp [h hn]

variable {l : Lock} {p q : Party}

@[simp] theorem queue_free : free.queue = [] := rfl

theorem mem_queue_of_holder (h : l.holder = some p) : p ∈ l.queue := by simp [queue, h]

theorem queue_request (h : l.holder = none → l.waiting = []) (p : Party) :
    (l.request p).queue = l.queue ++ [p] := by
  unfold request queue
  split
  · next hn => simp [hn, h hn]
  · next x hx => simp [hx]

theorem queue_leave (h : l.holder = none → l.waiting = []) (hd : l.queue.Nodup) (p : Party) :
    (l.leave p).queue = l.queue.filter (· ≠ p) := by
  unfold leave queue at *
  cases hl : l.holder with
  | none => simp [h hl]
  | some x =>
    rw [hl] at hd
    simp only [Option.toList_some, List.singleton_append, List.nodup_cons] at hd
    by_cases hx : x = p
    · subst hx
      have hw : l.waiting.filter (fun q => decide (q ≠ x)) = l.waiting :=
        List.filter_eq_self.2 fun q hq => by simpa using fun e : q = x => hd.1 (e ▸ hq)
      cases hw' : l.waiting with
      | nil => simp
      | cons y ys => rw [hw'] at hw; simpa using hw.symm
    · simp [hx]

theorem mem_queue_leave (h : l.holder = none → l.waiting = []) (hd : l.queue.Nodup) :
    q ∈ (l.leave p).queue ↔ q ∈ l.queue ∧ q ≠ p := by
  simp [queue_leave h hd]

/-- Another party that has the lock after `p` asked for it had it before. -/
theorem holder_request_of_ne (h : (l.request p).holder = some q) (hq : q ≠ p) :
    l.holder = some q := by
  unfold request at h
  split at h
  · simp only [Option.some.injEq] at h; exact absurd h.symm hq
  · exact h

theorem holder_request_of_holder (h : l.holder = some q) : (l.request p).holder = some q := by
  simp [request, h]

theorem holder_leave_of_ne (h : l.holder ≠ some p) : (l.leave p).holder = l.holder := by
  simp [leave, h]

end Lock

end Intake.Store
