import Intake.Proofs.View
import Intake.Reservation.Move
import Mathlib.Tactic.Tauto

/-!
# Keys are locks that expire

`keys_locked_until_removed_or_expired`: whatever clients do to the key store, two of them reserve
one key only if it was removed in between, or what was last written there has expired by then. The
value of a key is what was last written there, until that is removed or expires. Commands that meet
an outage or an override change nothing, and nor does anything that is done to other keys.

What holds of a store after some moves is what one of the moves brought about and none has undone
since, or what held before and none has undone (`after_iff`). Outages and entries are two cases of
this, each with a lemma about one move. That other keys do not matter is a relation of two stores
that every move keeps (`Agree`).

Whatever ingestion does to its key store is a list of such moves (`keys_run`).
-/

namespace Intake.Reservation.KeyStore

variable {s t : KeyStore} {key value : String} {ttl now : Nat} {c : Command} {m : Move}
  {ms : List Move} {e : Entry} {p q : KeyStore → Move → Prop}

/-! ### Moves among others -/

/-- One of these moves is as `p` says in the store that it finds. -/
def Sometime (p : KeyStore → Move → Prop) (s : KeyStore) (ms : List Move) : Prop :=
  ∃ bs m cs, ms = bs ++ m :: cs ∧ p (s.after bs) m

/-- One of these moves is as `p` says, and none that comes later is as `q` says. -/
def Last (p q : KeyStore → Move → Prop) (s : KeyStore) (ms : List Move) : Prop :=
  ∃ bs m cs, ms = bs ++ m :: cs ∧ p (s.after bs) m ∧ ¬(s.after (bs ++ [m])).Sometime q cs

theorem not_sometime_nil : ¬s.Sometime p [] := by
  rintro ⟨bs, m, cs, h, -⟩
  simp at h

theorem not_last_nil : ¬s.Last p q [] := by
  rintro ⟨bs, m, cs, h, -⟩
  simp at h

theorem sometime_cons : s.Sometime p (m :: ms) ↔ p s m ∨ (s.step m).Sometime p ms := by
  constructor
  · rintro ⟨bs, n, cs, h, hp⟩
    rcases List.cons_eq_append_iff.1 h with ⟨rfl, h⟩ | ⟨bs, rfl, rfl⟩
    · cases h
      exact .inl hp
    · exact .inr ⟨bs, n, cs, rfl, hp⟩
  · rintro (hp | ⟨bs, n, cs, rfl, hp⟩)
    · exact ⟨[], m, ms, rfl, hp⟩
    · exact ⟨m :: bs, n, cs, rfl, hp⟩

theorem last_cons :
    s.Last p q (m :: ms) ↔ (s.step m).Last p q ms ∨ p s m ∧ ¬(s.step m).Sometime q ms := by
  constructor
  · rintro ⟨bs, n, cs, h, hp, hq⟩
    rcases List.cons_eq_append_iff.1 h with ⟨rfl, h⟩ | ⟨bs, rfl, rfl⟩
    · cases h
      exact .inr ⟨hp, hq⟩
    · exact .inl ⟨bs, n, cs, rfl, hp, hq⟩
  · rintro (⟨bs, n, cs, rfl, hp, hq⟩ | ⟨hp, hq⟩)
    · exact ⟨m :: bs, n, cs, rfl, hp, hq⟩
    · exact ⟨[], m, ms, rfl, hp, hq⟩

/-- If every move brings something about or leaves it unless it undoes it, a list of moves does. -/
theorem after_iff {I : KeyStore → Prop} (hstep : ∀ s m, I (s.step m) ↔ p s m ∨ I s ∧ ¬q s m)
    (s : KeyStore) (ms : List Move) :
    I (s.after ms) ↔ s.Last p q ms ∨ I s ∧ ¬s.Sometime q ms := by
  induction ms generalizing s with
  | nil => simp [not_last_nil, not_sometime_nil]
  | cons m ms ih =>
    rw [after_cons, ih, hstep, last_cons, sometime_cons]
    tauto

/-- If some move is as `p` says, there is a last one. -/
theorem exists_last (h : s.Sometime p ms) : s.Last p p ms := by
  induction ms generalizing s with
  | nil => exact absurd h not_sometime_nil
  | cons m ms ih =>
    rw [last_cons]
    by_cases hlater : (s.step m).Sometime p ms
    · exact .inl (ih hlater)
    · exact .inr ⟨(sometime_cons.1 h).resolve_right hlater, hlater⟩

/-! ### Commands that are not carried out -/

/-- The command meets an outage or an override of it on its key. -/
def Meets (s : KeyStore) (c : Command) : Prop :=
  s.outage.isSome ∨ (s.overrides.get? (c.verb, c.key)).isSome

/-- The moves leave an outage on: the last switch turned it on. -/
def Down (ms : List Move) : Prop :=
  ∃ bs failure cs, ms = bs ++ .outage (some failure) :: cs ∧ ∀ f, .outage f ∉ cs

/-- One of the moves sets an override of the command on its key. -/
def Overridden (ms : List Move) (c : Command) : Prop := ∃ a, .override c.verb c.key a ∈ ms

instance (s : KeyStore) (c : Command) : Decidable (s.Meets c) :=
  inferInstanceAs (Decidable (_ ∨ _))

theorem fixed?_eq_none_iff : s.fixed? c = none ↔ ¬s.Meets c := by
  cases h : s.outage <;> simp [fixed?, Meets, h]

/-- A command changes entries at most. -/
theorem run_eq (s : KeyStore) (c : Command) :
    (s.run c).1 = { s with entries := (s.run c).1.entries } := by
  unfold run
  split
  · rfl
  · cases c with
    | set | delete => rfl
    | setNew => simp only [effect]; split <;> rfl

/-- The move switches the outage. -/
def Switches (_ : KeyStore) (m : Move) : Prop := ∃ f, m = .outage f

theorem outage_step (s : KeyStore) (m : Move) : (s.step m).outage.isSome ↔
    (∃ f, m = .outage (some f)) ∨ s.outage.isSome ∧ ¬s.Switches m := by
  cases m with
  | command c =>
    rw [step, run_eq]
    simp [Switches]
  | outage failure => cases failure <;> simp [step, Switches]
  | evict | override | age => simp [step, evict, age, Switches]

theorem overrides_step (s : KeyStore) (m : Move) (c : Command) :
    ((s.step m).overrides.get? (c.verb, c.key)).isSome ↔
      (∃ a, m = .override c.verb c.key a) ∨ (s.overrides.get? (c.verb, c.key)).isSome := by
  cases m with
  | command d =>
    rw [step, run_eq]
    simp
  | override v key a =>
    by_cases h : v = c.verb ∧ key = c.key
    · obtain ⟨rfl, rfl⟩ := h
      simp [step]
    · have hne : ¬(c.verb = v ∧ c.key = key) := fun x => h ⟨x.1.symm, x.2.symm⟩
      simp [step, hne, h]
  | evict | outage | age => simp [step, evict, age]

theorem sometime_const {r : Move → Prop} : s.Sometime (fun _ m => r m) ms ↔ ∃ m ∈ ms, r m := by
  induction ms generalizing s with
  | nil => simp [not_sometime_nil]
  | cons m ms ih => rw [sometime_cons, ih]; simp

theorem outage_after_iff : ((opened now).after ms).outage.isSome ↔ Down ms := by
  rw [after_iff (I := fun s => s.outage.isSome) outage_step]
  constructor
  · rintro (⟨bs, m, cs, rfl, ⟨f, rfl⟩, hq⟩ | ⟨h, -⟩)
    · exact ⟨bs, f, cs, rfl, fun g hg => hq (sometime_const.2 ⟨_, hg, g, rfl⟩)⟩
    · cases h
  · rintro ⟨bs, f, cs, rfl, hlast⟩
    refine .inl ⟨bs, _, cs, rfl, ⟨f, rfl⟩, fun hq => ?_⟩
    obtain ⟨m, hm, g, rfl⟩ := sometime_const.1 hq
    exact hlast g hm

/-- An override is never taken back. -/
theorem overrides_after_iff : ((s.after ms).overrides.get? (c.verb, c.key)).isSome ↔
    Overridden ms c ∨ (s.overrides.get? (c.verb, c.key)).isSome := by
  induction ms generalizing s with
  | nil => simp [Overridden]
  | cons m ms ih =>
    rw [after_cons, ih, overrides_step, ← or_assoc]
    simp only [Overridden, List.mem_cons, exists_or, eq_comm (a := m)]
    rw [or_comm (a := ∃ a, _ ∈ ms)]

theorem meets_after_iff : ((opened now).after ms).Meets c ↔ Down ms ∨ Overridden ms c := by
  rw [Meets, outage_after_iff, overrides_after_iff]
  simp [opened]

/-! ### What moves do to a key -/

/-- The move carries out a write of the entry at the key. -/
def Writes (key : String) (e : Entry) (s : KeyStore) : Move → Prop
  | .command (.set k value ttl) =>
    k = key ∧ ¬s.Meets (.set k value ttl) ∧ ⟨value, s.clock + ttl * perSecond⟩ = e
  | .command (.setNew k value ttl) =>
    k = key ∧ ¬s.Meets (.setNew k value ttl) ∧ (s.run (.setNew k value ttl)).2 = .ok true ∧
      ⟨value, s.clock + ttl * perSecond⟩ = e
  | _ => False

/-- The move carries out a removal of the key. -/
def Removes (key : String) (s : KeyStore) : Move → Prop
  | .command (.delete k) => k = key ∧ ¬s.Meets (.delete k)
  | .evict k => k = key
  | _ => False

def Overwrites (key : String) (s : KeyStore) (m : Move) : Prop := ∃ e, s.Writes key e m

/-- The move writes or removes the key. -/
def Touches (key : String) (s : KeyStore) (m : Move) : Prop :=
  s.Overwrites key m ∨ s.Removes key m

theorem get?_effect (hf : ¬s.Meets c) : (s.effect c).1.entries.get? c.key = some e ↔
    s.Writes c.key e (.command c) ∨
      s.entries.get? c.key = some e ∧ ¬s.Touches c.key (.command c) := by
  cases c with
  | set k value ttl => simp [effect, write, Command.key, Writes, Touches, Overwrites, hf]
  | setNew k value ttl =>
    have ha := answer_setNew (fixed?_eq_none_iff.2 hf)
    cases hl : s.live? k with
    | none => simp [effect, write, Command.key, Writes, Touches, Overwrites, hf, ha, hl]
    | some d => simp [effect, Command.key, Writes, Removes, Touches, Overwrites, hf, ha, hl]
  | delete k => simp [effect, Command.key, Writes, Removes, Touches, Overwrites, hf]

theorem get?_step (s : KeyStore) (m : Move) : (s.step m).entries.get? key = some e ↔
    s.Writes key e m ∨ s.entries.get? key = some e ∧ ¬s.Touches key m := by
  cases m with
  | command c =>
    rw [step]
    by_cases hf : s.Meets c
    · obtain ⟨a, ha⟩ := Option.ne_none_iff_exists'.1 fun h => fixed?_eq_none_iff.1 h hf
      rw [run_of_fixed ha]
      cases c <;> simp [Touches, Overwrites, Writes, Removes, hf]
    -- a command that is carried out leaves all keys alone but its own
    · by_cases hk : c.key = key
      · subst hk
        rw [run_of_free (fixed?_eq_none_iff.2 hf)]
        exact get?_effect hf
      · rw [get?_run_of_ne s c (Ne.symm hk)]
        cases c <;> simp_all [Touches, Overwrites, Writes, Removes, Command.key]
  | evict k =>
    by_cases hk : k = key
    · simp [step, evict, Touches, Overwrites, Writes, Removes, hk]
    · simp [step, evict, Touches, Overwrites, Writes, Removes, hk, Ne.symm hk]
  | outage | override | age => simp [step, age, Touches, Overwrites, Writes, Removes]

/-- Of these moves, the last that writes at the key writes the entry. -/
def LastWrites (key : String) (e : Entry) (s : KeyStore) (ms : List Move) : Prop :=
  s.Last (Writes key e) (Overwrites key) ms

/-- The last write of these moves at the key is that of the entry, and no removal comes after it. -/
def Leaves (key : String) (e : Entry) (s : KeyStore) (ms : List Move) : Prop :=
  s.Last (Writes key e) (Touches key) ms

theorem get?_after_iff : (s.after ms).entries.get? key = some e ↔
    s.Leaves key e ms ∨ s.entries.get? key = some e ∧ ¬s.Sometime (Touches key) ms :=
  after_iff (I := fun s => s.entries.get? key = some e) get?_step s ms

theorem LastWrites.leaves (h : s.LastWrites key e ms) (hr : ¬s.Sometime (Removes key) ms) :
    s.Leaves key e ms := by
  obtain ⟨bs, m, cs, rfl, hw, hlast⟩ := h
  refine ⟨bs, m, cs, rfl, hw, ?_⟩
  rintro ⟨ds, n, es, rfl, hn | hn⟩
  · exact hlast ⟨ds, n, es, rfl, hn⟩
  · refine hr ⟨bs ++ m :: ds, n, es, by simp, ?_⟩
    simpa using hn

/-! ### Values and reservations -/

theorem live?_eq_some_iff :
    s.live? key = some e ↔ s.entries.get? key = some e ∧ s.clock < e.expires := by
  simp [live?, Option.filter_eq_some_iff]

theorem value?_after_iff : ((opened now).after ms).value? key = some value ↔
    ∃ e, (opened now).Leaves key e ms ∧ e.value = value ∧
      ((opened now).after ms).clock < e.expires := by
  have hnone : (opened now).entries.get? key = none := rfl
  simp only [value?, Option.map_eq_some_iff, live?_eq_some_iff, get?_after_iff, hnone]
  constructor
  · rintro ⟨e, ⟨h | ⟨h, -⟩, hlive⟩, hv⟩
    · exact ⟨e, h, hv, hlive⟩
    · cases h
  · rintro ⟨e, h, hv, hlive⟩
    exact ⟨e, ⟨.inl h, hlive⟩, hv⟩

/-- A try to reserve the key meets neither an outage nor an override and succeeds. -/
structure Reserves (key value : String) (ttl : Nat) (s : KeyStore) : Prop where
  carriedOut : ¬s.Meets (.setNew key value ttl)
  granted : (s.run (.setNew key value ttl)).2 = .ok true

namespace Reserves

variable {value' : String} {ttl' : Nat}

theorem writes (h : s.Reserves key value ttl) :
    s.Writes key ⟨value, s.clock + ttl * perSecond⟩ (.command (.setNew key value ttl)) :=
  ⟨rfl, h.carriedOut, h.granted, rfl⟩

theorem live?_eq_none (h : s.Reserves key value ttl) : s.live? key = none := by
  have ha := h.granted
  rw [answer_setNew (fixed?_eq_none_iff.2 h.carriedOut)] at ha
  simpa using ha

/-- A key that was reserved and has not been removed can be reserved again only if what was last
written there has expired. -/
theorem expired (h : s.Reserves key value ttl)
    (h' : (s.after (.command (.setNew key value ttl) :: ms)).Reserves key value' ttl')
    (hr : ¬(s.step (.command (.setNew key value ttl))).Sometime (Removes key) ms) :
    ∃ e, s.LastWrites key e (.command (.setNew key value ttl) :: ms) ∧
      e.expires ≤ (s.after (.command (.setNew key value ttl) :: ms)).clock := by
  -- the first of the two wrote at the key, so there is a last write, which nothing has removed
  obtain ⟨bs, m, cs, hms, ⟨e, hw⟩, hlast⟩ :=
    exists_last (p := Overwrites key) (sometime_cons.2 (.inl ⟨_, h.writes⟩))
  have hlw : s.LastWrites key e (.command (.setNew key value ttl) :: ms) :=
    ⟨bs, m, cs, hms, hw, hlast⟩
  have hkept : s.Leaves key e (.command (.setNew key value ttl) :: ms) := by
    refine hlw.leaves fun hn => ?_
    rcases sometime_cons.1 hn with hn | hn
    · exact hn
    · exact hr hn
  have hget := get?_after_iff.2 (.inl hkept)
  refine ⟨e, hlw, Nat.not_lt.1 fun hlive => ?_⟩
  have hsome := live?_eq_some_iff.2 ⟨hget, hlive⟩
  rw [h'.live?_eq_none] at hsome
  cases hsome

end Reserves

/-! ### Other keys -/

/-- The stores do not differ in what has to do with the key. -/
structure Agree (key : String) (s t : KeyStore) : Prop where
  entry : s.entries.get? key = t.entries.get? key
  clock : s.clock = t.clock
  outage : s.outage = t.outage
  overrides : ∀ v, s.overrides.get? (v, key) = t.overrides.get? (v, key)

namespace Agree

theorem live? (h : Agree key s t) : s.live? key = t.live? key := by
  rw [KeyStore.live?, KeyStore.live?, h.entry, h.clock]

theorem value? (h : Agree key s t) : s.value? key = t.value? key := by
  rw [KeyStore.value?, KeyStore.value?, h.live?]

theorem fixed? (h : Agree c.key s t) : s.fixed? c = t.fixed? c := by
  rw [KeyStore.fixed?, KeyStore.fixed?, h.outage, h.overrides]

theorem write (h : Agree key s t) : Agree key (s.write key value ttl) (t.write key value ttl) where
  entry := by simp [KeyStore.write, h.clock]
  clock := h.clock
  outage := h.outage
  overrides := h.overrides

theorem evict (h : Agree key s t) : Agree key (s.evict key) (t.evict key) where
  entry := by simp [KeyStore.evict]
  clock := h.clock
  outage := h.outage
  overrides := h.overrides

theorem effect (h : Agree c.key s t) :
    (s.effect c).2 = (t.effect c).2 ∧ Agree c.key (s.effect c).1 (t.effect c).1 := by
  cases c with
  | set => exact ⟨rfl, h.write⟩
  | delete => exact ⟨rfl, h.evict⟩
  | setNew k value ttl =>
    have hl : s.live? k = t.live? k := h.live?
    rw [KeyStore.effect, KeyStore.effect, hl]
    split
    · exact ⟨rfl, h⟩
    · exact ⟨rfl, h.write⟩

/-- A command on the key gets the same answer in both stores and leaves them alike. -/
theorem run (h : Agree c.key s t) :
    (s.run c).2 = (t.run c).2 ∧ Agree c.key (s.run c).1 (t.run c).1 := by
  rw [KeyStore.run, KeyStore.run, h.fixed?]
  cases t.fixed? c with
  | some a => exact ⟨rfl, h⟩
  | none => exact h.effect

theorem step (h : Agree key s t) (hm : m.concerns key = true) :
    Agree key (s.step m) (t.step m) := by
  cases m with
  | command c =>
    obtain rfl : c.key = key := of_decide_eq_true hm
    exact h.run.2
  | evict k =>
    obtain rfl : k = key := of_decide_eq_true hm
    exact h.evict
  | outage failure => exact ⟨h.entry, h.clock, rfl, h.overrides⟩
  | override v k a =>
    obtain rfl : k = key := of_decide_eq_true hm
    exact ⟨h.entry, h.clock, h.outage, fun w => by simp [KeyStore.step, h.overrides]⟩
  | age nanos => exact ⟨h.entry, congrArg (· + nanos) h.clock, h.outage, h.overrides⟩

theorem step_right (h : Agree key s t) (hm : m.concerns key = false) : Agree key s (t.step m) := by
  cases m with
  | command c =>
    have hk : c.key ≠ key := of_decide_eq_false hm
    refine ⟨?_, ?_, ?_, ?_⟩
    · rw [KeyStore.step, get?_run_of_ne t c hk.symm, h.entry]
    all_goals rw [KeyStore.step, run_eq]
    · exact h.clock
    · exact h.outage
    · exact h.overrides
  | evict k =>
    have hk : key ≠ k := Ne.symm (of_decide_eq_false hm)
    exact ⟨by simp [KeyStore.step, KeyStore.evict, hk, h.entry], h.clock, h.outage, h.overrides⟩
  | override v k a =>
    have hk : key ≠ k := Ne.symm (of_decide_eq_false hm)
    exact ⟨h.entry, h.clock, h.outage, fun w => by simp [KeyStore.step, hk, h.overrides]⟩
  | outage | age => cases hm

theorem after (h : Agree key s t) (ms : List Move) :
    Agree key (s.after (ms.filter (·.concerns key))) (t.after ms) := by
  induction ms generalizing s t with
  | nil => exact h
  | cons m ms ih =>
    cases hm : m.concerns key with
    | true =>
      rw [List.filter_cons_of_pos hm]
      exact ih (h.step hm)
    | false =>
      rw [List.filter_cons_of_neg (by simp [hm])]
      exact ih (h.step_right hm)

end Agree

/-- Keys are locks that expire, whatever commands clients give, keys are forgotten, outages and
overrides are switched and time passes between them. A command that meets an outage or an override
changes nothing. A key is reserved again only after it has been removed, or once the entry that was
last written there since has expired. Its value is that of the last write that was carried out, until
it is removed or expires. What is done to other keys shows neither in its value nor in the answers
to commands on it. -/
theorem keys_locked_until_removed_or_expired {now : Nat} {ms : List Move} {s : KeyStore}
    (hs : (opened now).after ms = s) (key : String) :
    (∀ c, s.Meets c ↔ Down ms ∨ Overridden ms c) ∧
    (∀ c, s.Meets c → s.step (.command c) = s) ∧
    (∀ value ttl ns value' ttl', s.Reserves key value ttl →
      (s.after (.command (.setNew key value ttl) :: ns)).Reserves key value' ttl' →
      (s.step (.command (.setNew key value ttl))).Sometime (Removes key) ns ∨
      ∃ e, s.LastWrites key e (.command (.setNew key value ttl) :: ns) ∧
        e.expires ≤ (s.after (.command (.setNew key value ttl) :: ns)).clock) ∧
    (∀ value, s.value? key = some value ↔
      ∃ e, (opened now).Leaves key e ms ∧ e.value = value ∧ s.clock < e.expires) ∧
    ((opened now).after (ms.filter (·.concerns key))).value? key = s.value? key ∧
    ∀ c, c.key = key →
      (((opened now).after (ms.filter (·.concerns key))).run c).2 = (s.run c).2 := by
  subst hs
  have hagree : Agree key ((opened now).after (ms.filter (·.concerns key))) ((opened now).after ms) :=
    Agree.after ⟨rfl, rfl, rfl, fun _ => rfl⟩ ms
  refine ⟨fun c => meets_after_iff, fun c hc => ?_, fun value ttl ns value' ttl' h h' => ?_,
    fun value => value?_after_iff, hagree.value?, ?_⟩
  · obtain ⟨a, ha⟩ := Option.ne_none_iff_exists'.1 fun h => fixed?_eq_none_iff.1 h hc
    rw [step, run_of_fixed ha]
  · by_cases hr : (((opened now).after ms).step (.command (.setNew key value ttl))).Sometime
        (Removes key) ns
    · exact .inl hr
    · exact .inr (h.expired h' hr)
  · rintro c rfl
    exact hagree.run.1

/-- A store in which the key cannot be overwritten. -/
def refusing : KeyStore := (opened 5).after [.override .set "a" (.error .timeout)]

/-- The reservation of the key outlasts a client that fails to overwrite and to delete it. -/
def outlasting : List Move :=
  [.command (.set "a" "done" 60), .outage (some .timeout), .command (.delete "a"), .outage none,
    .evict "b", .age 30000000000]

theorem reserved_again_after_expiry : refusing.Reserves "a" "pending" 30 ∧
    (refusing.after (.command (.setNew "a" "pending" 30) :: outlasting)).Reserves "a" "pending" 30 ∧
    (∃ e, refusing.LastWrites "a" e (.command (.setNew "a" "pending" 30) :: outlasting) ∧
      e.expires ≤ (refusing.after (.command (.setNew "a" "pending" 30) :: outlasting)).clock) ∧
    refusing.Meets (.set "a" "done" 60) := by
  obtain ⟨hmeets, -, hagain, -⟩ := keys_locked_until_removed_or_expired (s := refusing) rfl "a"
  have h : refusing.Reserves "a" "pending" 30 := ⟨by decide, rfl⟩
  have h' : (refusing.after (.command (.setNew "a" "pending" 30) :: outlasting)).Reserves
      "a" "pending" 30 := ⟨by decide, rfl⟩
  refine ⟨h, h', (hagain _ _ _ _ _ h h').resolve_left ?_, (hmeets _).2 (.inr ⟨_, .head _⟩)⟩
  simp only [outlasting, sometime_cons, not_sometime_nil, Removes, or_false, false_or]
  decide

end Intake.Reservation.KeyStore

namespace Intake.Ingest.State

open Reservation (Move)

variable {s t : State} {a : Action} {as : List Action}

theorem keys_step (hs : s.step a = some t) : ∃ ms : List Move, t.keys = s.keys.after ms := by
  cases step_keyMoves hs with
  | same h => exact ⟨[], h⟩
  | reserve hi ht => exact ⟨[.command _], by rw [ht, keys_reserve]; rfl⟩
  | settle hi ht => exact ⟨[.command _], by rw [ht, keys_settle, if_pos rfl]; rfl⟩
  | release hj ht => exact ⟨[.command _], by rw [ht, keys_releaseAt]; rfl⟩
  | command h => exact ⟨[.command _], h⟩
  | reservation h => exact ⟨[.command _], h⟩
  | evict h => exact ⟨[.evict _], h⟩
  | age h => exact ⟨[.age _], h⟩
  | outage h => exact ⟨[.outage _], h⟩
  | override h => exact ⟨[.override _ _ _], h⟩

/-- The key store of a run is the one it began with after some moves. -/
theorem keys_run (hr : s.run as = some t) : ∃ ms : List Move, t.keys = s.keys.after ms := by
  induction as generalizing s with
  | nil =>
    cases hr
    exact ⟨[], rfl⟩
  | cons a as ih =>
    obtain ⟨u, hu, hr⟩ := Option.bind_eq_some_iff.1 hr
    obtain ⟨ms, hms⟩ := keys_step hu
    obtain ⟨ns, hns⟩ := ih hr
    exact ⟨ms ++ ns, by rw [hns, hms, Reservation.KeyStore.after_append]⟩

end Intake.Ingest.State
