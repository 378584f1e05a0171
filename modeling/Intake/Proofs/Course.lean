import Intake.Ingest.Writing

/-!
# The course of a writing

What is said between the writer of one event and the store, whatever the store answers. The calls
of a transaction come in the order of `callsOf`, and the first answer that is not to its favour ends
it: an error of any call, or the news that the event is stored, after which it is rolled back. A
`Course` is a list of transactions, all but the last ended by a conflict, and perhaps one check
after the last.

`Follows` ties a writing to its course so far. One answer takes it to a longer course
(`Follows.going`) or to the verdict of the whole course (`Follows.settled`).
-/

namespace Intake

theorem Store.Error.not_isConflict_of_isAmbiguous {x : Store.Error} (h : x.isAmbiguous = true) :
    x.isConflict = false := by
  cases x with
  | commit => rfl
  | _ => cases h

namespace Ingest

open Store (Call Answer)
open Aggregate (Update)

/-- A call of the store and the answer to it. -/
abbrev Line := Call × Answer

/-- What the log tells of the dealings with the store: a call is made, a transaction is dropped, a
conflict is about to be tried again. -/
inductive Doing
  | call (c : Call)
  | dropped
  | retried
deriving DecidableEq

/-- What an event of video `v` adds to the rows of the video. -/
def rowUpdate (e : Event) (v : Uuid) : Update :=
  { videoId := v, lastEventAt := e.timestamp, day := e.timestamp.day, counters := .ofKind e.kind
    daily := .ofKind (e.dwellMs.getD 0) e.kind }

/-- The calls that change the rows of the event's video, if it has one. -/
def rowCalls (e : Event) : List Call :=
  match e.videoId with
  | some v => [.counters (rowUpdate e v), .daily (rowUpdate e v)]
  | none => []

/-- The calls of the transaction that stores an event. -/
def callsOf (e : Event) : List Call := [.begin, .insert e] ++ rowCalls e ++ [.commit]

namespace Line

/-- The answer lets the transaction go on; to `insert`, that the event is new. -/
def goesOn : Line → Prop
  | (.insert _, a) => a = .ok true
  | (_, a) => ∃ b, a = .ok b

/-- The answer leaves open whether the transaction was committed. -/
def leavesOpen : Line → Prop
  | (.rollback, _) | (_, .ok _) => False
  | (_, .error x) => x.isAmbiguous = true

/-- A call leaves its trace in the log, and so does the loss of the transaction if it fails
inside. -/
def doings : Line → List Doing
  | (c, .error _) => if c.writes then [.call c, .dropped] else [.call c]
  | (c, .ok _) => [.call c]

theorem goesOn_ok {c : Call} (hc : ∀ e, c ≠ .insert e) (b : Bool) : goesOn (c, .ok b) := by
  cases c with
  | insert e => exact absurd rfl (hc e)
  | _ => exact ⟨b, rfl⟩

theorem goesOn.not_leavesOpen {x : Line} (h : x.goesOn) : ¬x.leavesOpen := by
  obtain ⟨c, a⟩ := x
  have hok : ∃ b, a = .ok b := by
    cases c with
    | insert e => exact ⟨true, h⟩
    | _ => exact h
  obtain ⟨b, rfl⟩ := hok
  cases c <;> exact id

end Line

/-- The lines of a transaction, and how it ended if it has. -/
inductive Transaction (e : Event) : List Line → Option (Except Store.Error Written) → Prop
  | going {l : List Line} {c : Call} (hl : l.map (·.1) ++ [c] <+: callsOf e)
    (hgo : ∀ x ∈ l, x.goesOn) : Transaction e l none
  | known {b : Bool} : Transaction e [(.begin, .ok b), (.insert e, .ok false)] none
  | rolledBack {b : Bool} {a : Answer} :
    Transaction e [(.begin, .ok b), (.insert e, .ok false), (.rollback, a)]
      (some (.ok .alreadyStored))
  | committed {l : List Line} (hl : l.map (·.1) = callsOf e) (hgo : ∀ x ∈ l, x.goesOn) :
    Transaction e l (some (.ok .inserted))
  | failed {l : List Line} {c : Call} {x : Store.Error} (hl : l.map (·.1) ++ [c] <+: callsOf e)
    (hgo : ∀ x ∈ l, x.goesOn) : Transaction e (l ++ [(c, .error x)]) (some (.error x))

namespace Transaction

variable {e : Event} {T : List Line} {o : Option (Except Store.Error Written)}

/-- Only the last answer of a transaction can leave open whether it was committed, and then it is
how the transaction ended. -/
theorem leavesOpen_last (h : Transaction e T o) : ∃ (l : List Line) (last : Option Line),
    T = l ++ last.toList ∧ (∀ x ∈ l, ¬x.leavesOpen) ∧
      ∀ x ∈ last, x.leavesOpen → ∃ y, o = some (.error y) ∧ y.isAmbiguous = true := by
  cases h with
  | @going l c hl hgo =>
    exact ⟨T, none, (List.append_nil T).symm, fun x hx => (hgo x hx).not_leavesOpen, by simp⟩
  | known => exact ⟨_, none, (List.append_nil _).symm, by simp [Line.leavesOpen], by simp⟩
  | rolledBack => exact ⟨_, none, (List.append_nil _).symm, by simp [Line.leavesOpen], by simp⟩
  | committed hl hgo =>
    exact ⟨T, none, (List.append_nil T).symm, fun x hx => (hgo x hx).not_leavesOpen, by simp⟩
  | @failed l c y hl hgo =>
    refine ⟨l, some (c, .error y), rfl, fun x hx => (hgo x hx).not_leavesOpen, ?_⟩
    rintro x ⟨⟩ hopen
    refine ⟨y, rfl, ?_⟩
    cases c with
    | rollback => exact hopen.elim
    | _ => exact hopen

theorem not_leavesOpen_of_conflict {y : Store.Error} (h : Transaction e T (some (.error y)))
    (hc : y.isConflict = true) : ∀ x ∈ T, ¬x.leavesOpen := by
  obtain ⟨l, last, rfl, hl, hlast⟩ := h.leavesOpen_last
  intro x hx hopen
  rcases List.mem_append.1 hx with hx | hx
  · exact hl x hx hopen
  · obtain ⟨z, hz, ha⟩ := hlast x (by simpa using hx) hopen
    cases hz
    rw [Store.Error.not_isConflict_of_isAmbiguous ha] at hc
    cases hc

theorem pairwise (h : Transaction e T o) (p : Line → Prop) :
    T.Pairwise fun x y => x.leavesOpen → p y := by
  obtain ⟨l, last, rfl, hl, -⟩ := h.leavesOpen_last
  refine List.pairwise_append.2 ⟨?_, by cases last <;> simp, fun x hx _ _ ho => absurd ho (hl x hx)⟩
  exact List.pairwise_of_forall_mem_list fun x hx _ _ ho => absurd ho (hl x hx)

end Transaction

/-- Transactions that were run again, the last one, and the check after it. -/
structure Course where
  again : List (List Line) := []
  last : List Line := []
  check : Option Line := none

namespace Course

def lines (c : Course) : List Line := c.again.flatten ++ c.last ++ c.check.toList

/-- The doings of a course: before a transaction is run again, that is counted. -/
def doings (c : Course) : List Doing :=
  (c.again.flatMap fun T => T.flatMap Line.doings ++ [.retried]) ++
    c.last.flatMap Line.doings ++ c.check.toList.flatMap Line.doings

/-- A course with at most `k` transactions run again, whose last one has ended as `o` says. -/
structure Proper (k : Nat) (e : Event) (c : Course) (o : Option (Except Store.Error Written)) :
    Prop where
  again : ∀ T ∈ c.again, ∃ x, Transaction e T (some (.error x)) ∧ x.isConflict = true
  bound : c.again.length ≤ k
  last : Transaction e c.last o
  once : ∀ x, o = some (.error x) → x.isConflict = true → c.again.length = k
  check : ∀ y, c.check = some y → y.1 = .check e.eventId ∧
    ∃ x, o = some (.error x) ∧ x.isAmbiguous = true

/-- How the writing ends: as its last transaction did, unless a check has to decide that. -/
def verdict (c : Course) : Option (Except Store.Error Written) → Option (Except Store.Error Written)
  | some (.error x) =>
    if x.isAmbiguous then
      match c.check with
      | some (_, .ok true) => some (.ok .inserted)
      | some _ => some (.error x)
      | none => none
    else some (.error x)
  | o => o

theorem retried_notMem_doings (T : List Line) : Doing.retried ∉ T.flatMap Line.doings := by
  intro h
  obtain ⟨⟨call, a⟩, -, h⟩ := List.mem_flatMap.1 h
  cases a <;> cases call <;> simp [Line.doings, Call.writes] at h

/-- Every transaction that is run again is counted once. -/
theorem count_retried (c : Course) : c.doings.count .retried = c.again.length := by
  have hnone : ∀ T : List Line, (T.flatMap Line.doings).count .retried = 0 := fun T =>
    List.count_eq_zero.2 (retried_notMem_doings T)
  have hagain : ∀ Ts : List (List Line),
      (Ts.flatMap fun T => T.flatMap Line.doings ++ [.retried]).count Doing.retried =
        Ts.length := by
    intro Ts
    induction Ts with
    | nil => rfl
    | cons T Ts ih =>
      rw [List.flatMap_cons, List.count_append, List.count_append, hnone, ih]
      simp only [List.count_singleton_self, List.length_cons]
      omega
  rw [doings, List.count_append, List.count_append, hnone, hnone, hagain]
  rfl

/-- Whether a transaction is begun and has not ended. -/
def isOpen (c : Course) (o : Option (Except Store.Error Written)) : Bool :=
  o.isNone && !c.last.isEmpty

/-- After an answer that leaves open whether a transaction was committed comes only the check. -/
theorem Proper.pairwise {k : Nat} {e : Event} {c : Course}
    {o : Option (Except Store.Error Written)} (h : c.Proper k e o) :
    c.lines.Pairwise fun x y => x.leavesOpen → y.1 = .check e.eventId := by
  have hagain : ∀ x ∈ c.again.flatten, ¬x.leavesOpen := by
    intro x hx
    obtain ⟨T, hT, hx⟩ := List.mem_flatten.1 hx
    obtain ⟨y, hy, hc⟩ := h.again T hT
    exact hy.not_leavesOpen_of_conflict hc x hx
  refine List.pairwise_append.2 ⟨List.pairwise_append.2 ⟨?_, h.last.pairwise _, ?_⟩, ?_, ?_⟩
  · exact (List.pairwise_of_forall_mem_list fun x hx _ _ hl => absurd hl (hagain x hx))
  · exact fun x hx _ _ hl => absurd hl (hagain x hx)
  · cases c.check <;> simp
  · intro x _ y hy _
    exact (h.check y (by simpa using hy)).1

end Course

/-! ### A writing and its course -/

namespace Writing

variable {k : Nat} {w w' : Writing} {c : Course} {a : Answer} {x : Store.Error}

/-- The calls of the present transaction that have been answered. -/
def made (w : Writing) : List Call :=
  match w.step with
  | .begin | .check _ => []
  | .insert => [.begin]
  | .counters _ | .rollback => [.begin, .insert w.event]
  | .daily u => [.begin, .insert w.event, .counters u]
  | .commit => [.begin, .insert w.event] ++ rowCalls w.event

/-- A writing has come as far as this course. -/
structure Follows (k : Nat) (w : Writing) (c : Course) : Prop where
  retries : w.retries = c.again.length
  again : ∀ T ∈ c.again, ∃ x, Transaction w.event T (some (.error x)) ∧ x.isConflict = true
  bound : c.again.length ≤ k
  check : c.check = none
  rows : ∀ u, w.step = .counters u ∨ w.step = .daily u → Update.ofEvent w.event = some u
  last : match w.step with
    | .check x => Transaction w.event c.last (some (.error x)) ∧ x.isAmbiguous = true
    | .rollback => ∃ b, c.last = [(.begin, .ok b), (.insert w.event, .ok false)]
    | _ => c.last.map (·.1) = w.made ∧ ∀ x ∈ c.last, x.goesOn

/-- The answer makes the writing run its transaction again. -/
def repeats (k : Nat) (w : Writing) (a : Answer) : Bool :=
  match w.step, a with
  | .check _, _ | .rollback, _ | _, .ok _ => false
  | _, .error x => w.retries? k x

/-- The course after one more answer. -/
def extend (k : Nat) (w : Writing) (c : Course) (a : Answer) : Course :=
  match w.step with
  | .check _ => { c with check := some (w.call, a) }
  | _ =>
    if w.repeats k a then { again := c.again ++ [c.last ++ [(w.call, a)]] }
    else { c with last := c.last ++ [(w.call, a)] }

theorem follows_start (k : Nat) (e : Event) : Follows k { event := e } {} :=
  ⟨rfl, by simp, Nat.zero_le k, rfl, by simp, rfl, by simp⟩

theorem rowCalls_eq {e : Event} {u : Update} (h : Update.ofEvent e = some u) :
    rowCalls e = [.counters u, .daily u] := by
  obtain ⟨v, hv, rfl⟩ := Option.map_eq_some_iff.1 h
  simp only [rowCalls, hv]
  rfl

theorem rowCalls_eq_nil {e : Event} (h : Update.ofEvent e = none) : rowCalls e = [] := by
  simp only [rowCalls, Option.map_eq_none_iff.1 h]

/-- The call that a writing makes in a transaction is the next one in its order. -/
theorem made_call (hs : ∀ x, w.step ≠ .check x) (hr : w.step ≠ .rollback)
    (hu : ∀ u, w.step = .counters u ∨ w.step = .daily u → Update.ofEvent w.event = some u) :
    w.made ++ [w.call] <+: callsOf w.event := by
  obtain ⟨e, step, n⟩ := w
  cases step with
  | begin => exact ⟨_, rfl⟩
  | insert => exact ⟨_, rfl⟩
  | counters u =>
    refine ⟨[.daily u, .commit], ?_⟩
    rw [callsOf, rowCalls_eq (hu u (.inl rfl))]
    rfl
  | daily u =>
    refine ⟨[.commit], ?_⟩
    rw [callsOf, rowCalls_eq (hu u (.inr rfl))]
    rfl
  | commit => exact ⟨[], by rw [List.append_nil]; rfl⟩
  | rollback => exact absurd rfl hr
  | check x => exact absurd rfl (hs x)

theorem extend_of_step (hs : ∀ x, w.step ≠ .check x) : extend k w c a =
    if w.repeats k a then { again := c.again ++ [c.last ++ [(w.call, a)]] }
    else { c with last := c.last ++ [(w.call, a)] } := by
  unfold extend
  split
  · next x hx => exact absurd hx (hs x)
  · rfl

@[simp] theorem repeats_ok (b : Bool) : w.repeats k (.ok b) = false := by
  unfold repeats
  split <;> simp_all

theorem doings_line :
    Line.doings (w.call, a) = .call w.call :: if w.drops a then [.dropped] else [] := by
  obtain ⟨e, step, n⟩ := w
  cases step <;> cases a <;> rfl

theorem doings_extend (h : w.Follows k c) : (extend k w c a).doings =
    c.doings ++ Line.doings (w.call, a) ++ if w.repeats k a then [.retried] else [] := by
  have hcheck : ∀ x, w.step = .check x → w.repeats k a = false := by
    intro x hx
    simp [repeats, hx]
  unfold extend
  split
  · next x hx => simp [Course.doings, h.check, hcheck x hx]
  · split
    · next hrep => simp [Course.doings, h.check]
    · simp [Course.doings, h.check]

theorem lines_extend (h : w.Follows k c) : (extend k w c a).lines = c.lines ++ [(w.call, a)] := by
  unfold extend
  split
  · simp [Course.lines, h.check]
  · split <;> simp [Course.lines, h.check]

end Writing

/-- A writing has come as far as this course, or has ended with its verdict. -/
def Progress.Follows (k : Nat) (e : Event) (c : Course) : Progress → Prop
  | .going w => w.event = e ∧ w.Follows k c
  | .settled r => ∃ o, c.Proper k e o ∧ c.verdict o = some r

namespace Writing.Follows

variable {k : Nat} {w w' : Writing} {c : Course} {a : Answer} {x : Store.Error}

theorem last_inside (h : w.Follows k c) (hs : ∀ x, w.step ≠ .check x) (hr : w.step ≠ .rollback) :
    c.last.map (·.1) = w.made ∧ ∀ x ∈ c.last, x.goesOn := by
  have hl := h.last
  split at hl
  · next x hx => exact absurd hx (hs x)
  · next hx => exact absurd hx hr
  · exact hl

/-- The present call of a transaction is the next one in its order. -/
theorem inside (h : w.Follows k c) (hs : ∀ x, w.step ≠ .check x) (hr : w.step ≠ .rollback) :
    c.last.map (·.1) ++ [w.call] <+: callsOf w.event ∧ ∀ x ∈ c.last, x.goesOn := by
  obtain ⟨hlast, hgo⟩ := h.last_inside hs hr
  rw [hlast]
  exact ⟨made_call hs hr h.rows, hgo⟩

/-- A transaction that fails is run again, or checked, or the last. -/
theorem failed (h : w.Follows k c) (hs : ∀ x, w.step ≠ .check x) (hr : w.step ≠ .rollback) :
    (w.failed k x).Follows k w.event (extend k w c (.error x)) := by
  have hrep : w.repeats k (.error x) = w.retries? k x := by
    unfold repeats
    split <;> simp_all
  obtain ⟨hpre, hgo⟩ := h.inside hs hr
  have hT : Transaction w.event (c.last ++ [(w.call, .error x)]) (some (.error x)) :=
    .failed hpre hgo
  rw [extend_of_step hs, hrep]
  unfold Writing.failed
  by_cases hretry : w.retries? k x = true
  · rw [if_pos hretry, if_pos hretry]
    rw [retries?, Bool.and_eq_true, decide_eq_true_eq, h.retries] at hretry
    refine ⟨rfl, ?_, ?_, ?_, rfl, by simp, rfl, by simp⟩
    · simp [h.retries]
    · intro T hmem
      rcases List.mem_append.1 hmem with hmem | hmem
      · exact h.again T hmem
      · rw [List.mem_singleton.1 hmem]
        exact ⟨x, hT, hretry.1⟩
    · simp only [List.length_append, List.length_singleton]
      omega
  · rw [if_neg hretry, if_neg hretry]
    by_cases ha : x.isAmbiguous = true
    · rw [if_pos ha]
      exact ⟨rfl, h.retries, h.again, h.bound, h.check, by simp [withStep], hT, ha⟩
    · rw [if_neg ha]
      refine ⟨some (.error x), ⟨h.again, h.bound, hT, ?_, ?_⟩, by simp [Course.verdict, ha]⟩
      · rintro y hy hc
        cases hy
        rw [retries?, hc, Bool.true_and, decide_eq_true_eq, h.retries] at hretry
        have := h.bound
        show c.again.length = k
        omega
      · intro y hy
        cases h.check.symm.trans hy

/-- An answer in favour of the transaction takes it to its next call. -/
theorem goes (h : w.Follows k c) {b : Bool} {step : Step} (hs : ∀ x, w.step ≠ .check x)
    (hr : w.step ≠ .rollback) (hgo : Line.goesOn (w.call, .ok b))
    (hmade : (w.withStep step).made = w.made ++ [w.call])
    (hstep : ∀ x, step ≠ .check x) (hstep' : step ≠ .rollback)
    (hrows : ∀ u, step = .counters u ∨ step = .daily u → Update.ofEvent w.event = some u) :
    (w.withStep step).Follows k (extend k w c (.ok b)) := by
  obtain ⟨hlast, hall⟩ := h.last_inside hs hr
  rw [extend_of_step hs, repeats_ok, if_neg Bool.false_ne_true]
  refine ⟨h.retries, h.again, h.bound, h.check, hrows, ?_⟩
  have hnext : (c.last ++ [((w.call, .ok b) : Line)]).map (·.1) = (w.withStep step).made ∧
      ∀ x ∈ c.last ++ [((w.call, .ok b) : Line)], x.goesOn := by
    rw [List.map_append, hlast, hmade]
    refine ⟨rfl, fun x hx => ?_⟩
    rcases List.mem_append.1 hx with hx | hx
    · exact hall x hx
    · rw [List.mem_singleton.1 hx]
      exact hgo
  split
  · next x hx => exact absurd hx (hstep x)
  · next hx => exact absurd hx hstep'
  · exact hnext

/-- An event that is stored already is rolled back. -/
theorem known {e : Event} {n : Nat} (h : Follows k ⟨e, .insert, n⟩ c) :
    Follows k ⟨e, .rollback, n⟩ (extend k ⟨e, .insert, n⟩ c (.ok false)) := by
  obtain ⟨hlast, hgo⟩ := h.last_inside (by simp) (by simp)
  refine ⟨h.retries, h.again, h.bound, h.check, by simp, ?_⟩
  obtain ⟨⟨first, a⟩, hl, hfirst⟩ := List.map_eq_singleton_iff.1 hlast
  cases hfirst
  obtain ⟨b, rfl⟩ : ∃ b, a = .ok b := hgo (.begin, a) (by simp [hl])
  exact ⟨b, by simp [extend, repeats, hl, call]⟩

theorem rolledBack (h : w.Follows k c) (hr : w.step = .rollback) (a : Answer) :
    (w.answered k a).Follows k w.event (extend k w c a) := by
  have hlast := h.last
  rw [hr] at hlast
  obtain ⟨b, hb⟩ := hlast
  have hT : Transaction w.event (c.last ++ [(w.call, a)]) (some (.ok .alreadyStored)) := by
    rw [hb]
    simp only [call, hr]
    exact .rolledBack
  have hrep : w.repeats k a = false := by simp [repeats, hr]
  have hans : w.answered k a = .settled (.ok .alreadyStored) := by simp [Writing.answered, hr]
  rw [hans, extend_of_step (by simp [hr]), hrep, if_neg Bool.false_ne_true]
  exact ⟨_, ⟨h.again, h.bound, hT, by simp, by simp [h.check]⟩, rfl⟩

theorem committed {e : Event} {n : Nat} (h : Follows k ⟨e, .commit, n⟩ c) (b : Bool) :
    (Progress.settled (.ok .inserted)).Follows k e (extend k ⟨e, .commit, n⟩ c (.ok b)) := by
  obtain ⟨hlast, hgo⟩ := h.last_inside (by simp) (by simp)
  have hT : Transaction e (c.last ++ [(.commit, .ok b)]) (some (.ok .inserted)) := by
    refine .committed ?_ fun x hx => ?_
    · rw [List.map_append, hlast]
      rfl
    · rcases List.mem_append.1 hx with hx | hx
      · exact hgo x hx
      · rw [List.mem_singleton.1 hx]
        exact ⟨b, rfl⟩
  exact ⟨_, ⟨h.again, h.bound, hT, by simp, by simp [extend, h.check]⟩, rfl⟩

/-- The check decides what a commit left open, unless it fails as well. -/
theorem checked (h : w.Follows k c) (hx : w.step = .check x) (a : Answer) :
    (w.answered k a).Follows k w.event (extend k w c a) := by
  have hlast := h.last
  rw [hx] at hlast
  obtain ⟨hT, ha⟩ := hlast
  have hext : extend k w c a = { c with check := some (.check w.event.eventId, a) } := by
    simp [extend, call, hx]
  have hP : Course.Proper k w.event { c with check := some (.check w.event.eventId, a) }
      (some (.error x)) := by
    refine ⟨h.again, h.bound, hT, ?_, ?_⟩
    · rintro y hy hc
      cases hy
      rw [Store.Error.not_isConflict_of_isAmbiguous ha] at hc
      cases hc
    · rintro y hy
      cases hy
      exact ⟨rfl, x, rfl, ha⟩
  rw [hext]
  unfold Writing.answered
  rw [hx]
  rcases a with y | _ | _
  · exact ⟨_, hP, by simp [Course.verdict, ha]⟩
  · exact ⟨_, hP, by simp [Course.verdict, ha]⟩
  · exact ⟨_, hP, by simp [Course.verdict, ha]⟩

/-- An answer takes a writing further along its course, or ends it with the verdict of its
course. -/
theorem answered (h : w.Follows k c) (a : Answer) :
    (w.answered k a).Follows k w.event (extend k w c a) := by
  by_cases hs : ∃ x, w.step = .check x
  · obtain ⟨x, hx⟩ := hs
    exact h.checked hx a
  rw [not_exists] at hs
  by_cases hr : w.step = .rollback
  · exact h.rolledBack hr a
  cases a with
  | error x =>
    have hans : w.answered k (.error x) = w.failed k x := by
      unfold Writing.answered
      split <;> simp_all
    rw [hans]
    exact h.failed hs hr
  | ok b =>
    obtain ⟨e, step, n⟩ := w
    cases step with
    | begin =>
      have hgo : Line.goesOn (Call.begin, .ok b) := Line.goesOn_ok (by simp) b
      exact ⟨rfl, h.goes hs hr hgo rfl (by simp) (by simp) (by simp)⟩
    | insert =>
      cases b with
      | false => exact ⟨rfl, h.known⟩
      | true =>
        refine ⟨rfl, ?_⟩
        unfold rowsStep
        cases hu : Update.ofEvent e with
        | none =>
          exact h.goes hs hr rfl (by simp [made, withStep, call, rowCalls_eq_nil hu]) (by simp)
            (by simp) (by simp)
        | some u =>
          exact h.goes hs hr rfl (by simp [made, withStep, call]) (by simp) (by simp)
            (by simp [hu])
    | counters u =>
      have hu := h.rows u (.inl rfl)
      exact ⟨rfl, h.goes hs hr (Line.goesOn_ok (by simp [call]) b) rfl (by simp) (by simp)
        (by rintro v (hv | hv) <;> cases hv; exact hu)⟩
    | daily u =>
      have hu := h.rows u (.inr rfl)
      exact ⟨rfl, h.goes hs hr (Line.goesOn_ok (by simp [call]) b)
        (by simp [made, withStep, call, rowCalls_eq hu]) (by simp) (by simp) (by simp)⟩
    | commit => exact h.committed b
    | rollback => exact absurd rfl hr
    | check x => exact absurd rfl (hs x)

/-- The course of a writing that goes on is proper, and has no verdict yet. -/
theorem proper (h : w.Follows k c) :
    ∃ o, c.Proper k w.event o ∧ c.verdict o = none ∧ c.isOpen o = w.isOpen := by
  have hnocheck : ∀ (o : Option (Except Store.Error Written)) (y : Line), c.check = some y →
      y.1 = .check w.event.eventId ∧ ∃ x, o = some (.error x) ∧ x.isAmbiguous = true := by
    intro o y hy
    cases h.check.symm.trans hy
  by_cases hs : ∃ x, w.step = .check x
  · obtain ⟨x, hx⟩ := hs
    have hlast := h.last
    rw [hx] at hlast
    obtain ⟨hT, ha⟩ := hlast
    refine ⟨some (.error x), ⟨h.again, h.bound, hT, ?_, hnocheck _⟩, ?_, ?_⟩
    · rintro y hy hc
      cases hy
      rw [Store.Error.not_isConflict_of_isAmbiguous ha] at hc
      cases hc
    · simp [Course.verdict, ha, h.check]
    · simp [Course.isOpen, isOpen, hx]
  rw [not_exists] at hs
  refine ⟨none, ⟨h.again, h.bound, ?_, by simp, hnocheck _⟩, rfl, ?_⟩
  · by_cases hr : w.step = .rollback
    · have hlast := h.last
      rw [hr] at hlast
      obtain ⟨b, hb⟩ := hlast
      rw [hb]
      exact .known
    · obtain ⟨hpre, hgo⟩ := h.inside hs hr
      exact .going hpre hgo
  · have hlast := h.last
    obtain ⟨e, step, n⟩ := w
    cases step with
    | rollback =>
      obtain ⟨b, hb⟩ := hlast
      simp [Course.isOpen, isOpen, hb]
    | check x => exact absurd rfl (hs x)
    | begin =>
      have hnil : c.last = [] := List.map_eq_nil_iff.1 hlast.1
      simp [Course.isOpen, isOpen, hnil]
    | insert | counters u | daily u | commit =>
      have hne : c.last ≠ [] := by
        intro hnil
        have hlen := congrArg List.length hlast.1
        simp [hnil, made] at hlen
      simp [Course.isOpen, isOpen, hne]

end Writing.Follows

/-- These are the lines of a proper course. -/
def Conforms (k : Nat) (e : Event) (l : List Line) : Prop :=
  ∃ (c : Course) (o : Option (Except Store.Error Written)), c.lines = l ∧ c.Proper k e o

/-- Whatever the answer to the present call, the course that it makes is proper. -/
theorem Writing.Follows.conforms {k : Nat} {w : Writing} {c : Course} (h : w.Follows k c)
    (a : Answer) : Conforms k w.event (c.lines ++ [(w.call, a)]) := by
  have hnext := h.answered a
  refine ⟨extend k w c a, ?_⟩
  cases hw : w.answered k a with
  | going w' =>
    rw [hw] at hnext
    obtain ⟨hev, hf⟩ := hnext
    obtain ⟨o, ho, -⟩ := hf.proper
    exact ⟨o, lines_extend h, hev ▸ ho⟩
  | settled r =>
    rw [hw] at hnext
    obtain ⟨o, ho, -⟩ := hnext
    exact ⟨o, lines_extend h, ho⟩

end Ingest

end Intake
