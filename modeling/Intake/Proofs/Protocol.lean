import Intake.Proofs.Conditions

/-!
# What an attempt says to the key store

An attempt gives at most two commands: it reserves its event, and if that made a reservation it
later settles it. The second command comes when the attempt returns, or after it was cut off, when
its reservation is released. `Spoken` says so by status; it holds over any store and whatever the
key store answers.

An attempt holds a reservation (`Holds`) from the command that made it to the command that settles
it; the last lemmas read that off the status.
-/

namespace Intake.Ingest

open Reservation (Command)

/-- A command and its answer. -/
abbrev Exchange := Command × Reservation.Answer

/-- One of these commands made a reservation. -/
def Given (l : List Exchange) : Prop := ∃ x ∈ l, x.1.verb = .setNew ∧ x.2 = .ok true

/-- One of these commands settled or released a reservation. -/
def Closed (l : List Exchange) : Prop := ∃ x ∈ l, x.1.verb ≠ .setNew

/-- The only command was one to reserve, and `reserved` says whether it made a reservation. -/
def Tried (reserved : Bool) (l : List Exchange) : Prop :=
  ∃ x, l = [x] ∧ x.1.verb = .setNew ∧ (reserved = true ↔ x.2 = .ok true)

/-- What an attempt that has come this far has said. -/
def Status.Spoke (l : List Exchange) : Option Status → Prop
  | none | some (.reserving _) => l = []
  | some (.running r) => Tried r.reserved l
  | some (.settling _ reserved _) => Tried reserved l
  | some (.returned _) => Given l → Closed l
  | some .cancelled => True

theorem Given.cons {l : List Exchange} (h : Given l) (x : Exchange) : Given (x :: l) :=
  let ⟨y, hy, hv⟩ := h
  ⟨y, by simp [hy], hv⟩

theorem closed_cons {x : Exchange} (h : x.1.verb ≠ .setNew) (l : List Exchange) :
    Closed (x :: l) := ⟨x, by simp, h⟩

namespace Tried

variable {b : Bool} {l : List Exchange}

theorem not_closed (h : Tried b l) : ¬Closed l := by
  obtain ⟨x, rfl, hv, -⟩ := h
  rintro ⟨y, hy, hc⟩
  rw [List.mem_singleton.1 hy] at hc
  exact hc hv

theorem given_iff (h : Tried b l) : Given l ↔ b = true := by
  obtain ⟨x, rfl, hv, hb⟩ := h
  rw [hb]
  constructor
  · rintro ⟨y, hy, -, ha⟩
    rwa [List.mem_singleton.1 hy] at ha
  · exact fun ha => ⟨x, by simp, hv, ha⟩

end Tried

namespace State

variable {s t : State} {a : Action} {i j : Nat} {id : Uuid}

/-- The commands that attempt `i` gave, the newest first. -/
def commands (s : State) (i : Nat) : List Exchange :=
  s.acts.filterMap fun
    | (j, .command c a) => if j = i then some (c, a) else none
    | (_, .call _) => none

/-- Attempt `i` has made a reservation of its event, and has not settled it. -/
def Holds (s : State) (i : Nat) (id : Uuid) : Prop :=
  s.IsFor i id ∧ Given (s.commands i) ∧ ¬Closed (s.commands i)

theorem commands_of_acts (h : t.acts = s.acts) : t.commands = s.commands := by
  funext i
  simp [commands, h]

theorem commands_of_command {c : Command} {b : Reservation.Answer}
    (h : t.acts = (i, .command c b) :: s.acts) (j : Nat) :
    t.commands j = if j = i then (c, b) :: s.commands i else s.commands j := by
  unfold commands
  rw [h]
  by_cases hj : i = j
  · simp [hj]
  · simp [hj, Ne.symm hj]

theorem commands_of_call {c : Store.Call} (h : t.acts = (i, .call c) :: s.acts) :
    t.commands = s.commands := by
  funext j
  simp [commands, h]

/-- Every attempt has said what its status says, and whoever left a reservation still holds it. -/
structure Spoken (s : State) : Prop where
  spoke : ∀ i, Status.Spoke (s.commands i) (s.status? i)
  left : ∀ i id, (i, id) ∈ s.releases → s.status? i = some .cancelled ∧ s.Holds i id
  once : (s.releases.map (·.1)).Nodup

theorem isFor_of_own (ho : s.Own) {st : Status} {e : Event} (hs : s.status? i = some st)
    (he : st.event? = some e) : s.IsFor i e.eventId := ⟨e, ho i st e hs he, rfl⟩

theorem IsFor.unique {id' : Uuid} (h : s.IsFor i id) (h' : s.IsFor i id') : id = id' := by
  obtain ⟨e, he, rfl⟩ := h
  obtain ⟨e', he', rfl⟩ := h'
  rw [he] at he'
  cases he'
  rfl

theorem isFor_iff (ho : s.Own) {st : Status} {e : Event} (hs : s.status? i = some st)
    (he : st.event? = some e) : s.IsFor i id ↔ e.eventId = id := by
  have hfor := isFor_of_own ho hs he
  exact ⟨fun h => hfor.unique h, fun h => h ▸ hfor⟩

theorem IsFor.step (h : s.IsFor i id) (hs : s.step a = some t) : t.IsFor i id :=
  let ⟨e, he, hid⟩ := h
  ⟨e, event?_step hs he, hid⟩

theorem commands_proceed {r : Running} (h : s.proceed i r = some t) : t.commands = s.commands := by
  have ha := acts_proceed h
  split at ha
  · exact commands_of_acts ha
  · exact commands_of_call ha

namespace Spoken

theorem of_begins {tables : Store.Tables} (h : s.Begins tables) : s.Spoken := by
  have hc : ∀ i, s.commands i = [] := fun i => by simp [commands, acts, h.log]
  refine ⟨fun i => ?_, fun i id hi => ?_, ?_⟩
  · rw [hc, h.status?_eq_none i]
    rfl
  · rw [h.releases] at hi
    cases hi
  · simp [h.releases]

variable {event : Event} {r : Running} {reserved : Bool} {ending : Except Error Written}

theorem commands_unstarted (h : s.Spoken) (hi : s.status? i = none) : s.commands i = [] := by
  have hsp := h.spoke i
  rwa [hi] at hsp

theorem commands_reserving (h : s.Spoken) (hi : s.status? i = some (.reserving event)) :
    s.commands i = [] := by
  have hsp := h.spoke i
  rwa [hi] at hsp

theorem tried_running (h : s.Spoken) (hi : s.status? i = some (.running r)) :
    Tried r.reserved (s.commands i) := by
  have hsp := h.spoke i
  rwa [hi] at hsp

theorem tried_settling (h : s.Spoken) (hi : s.status? i = some (.settling event reserved ending)) :
    Tried reserved (s.commands i) := by
  have hsp := h.spoke i
  rwa [hi] at hsp

theorem commands_reserve (h : s.Spoken) (hi : s.status? i = some (.reserving event)) :
    (s.reserve i event).commands i = [(s.settings.terms.reserve event.eventId,
      (s.keys.run (s.settings.terms.reserve event.eventId)).2)] := by
  rw [commands_of_command (acts_reserve s i event), if_pos rfl, h.commands_reserving hi]

/-- A step of an attempt that was not cut off, and is not now. -/
theorem of_attempt (h : s.Spoken) (hs : s.step a = some t) (i : Nat)
    (hi : s.status? i ≠ some .cancelled) (hrel : t.releases = s.releases)
    (hst : ∀ j, j ≠ i → t.status? j = s.status? j)
    (hc : ∀ j, j ≠ i → t.commands j = s.commands j)
    (hsp : Status.Spoke (t.commands i) (t.status? i)) : t.Spoken := by
  refine ⟨fun j => ?_, fun j id hj => ?_, by rw [hrel]; exact h.once⟩
  · by_cases hji : j = i
    · exact hji ▸ hsp
    · rw [hc j hji, hst j hji]
      exact h.spoke j
  · rw [hrel] at hj
    obtain ⟨hcan, hfor, hheld⟩ := h.left j id hj
    have hji : j ≠ i := by
      rintro rfl
      exact hi hcan
    rw [hst j hji]
    refine ⟨hcan, hfor.step hs, ?_⟩
    rw [hc j hji]
    exact hheld

theorem spoke_reserved (s : State) (event : Event) (b : Reservation.Answer) {c : Command}
    (hc : c.verb = .setNew) : Status.Spoke [(c, b)] (some (s.reserved event b)) := by
  have hnot : b ≠ .ok true → Given [(c, b)] → Closed [(c, b)] := by
    rintro hb ⟨x, hx, -, ha⟩
    rw [List.mem_singleton.1 hx] at ha
    exact absurd ha hb
  unfold reserved
  rcases b with f | _ | _
  · cases s.settings.policy with
    | failClosed => exact hnot (by simp)
    | failOpen => exact ⟨_, rfl, hc, by simp⟩
  · exact hnot (by simp)
  · exact ⟨_, rfl, hc, by simp⟩

theorem reserve (h : s.Spoken) (hi : s.status? i = some (.reserving event))
    (hs : s.step a = some (s.reserve i event)) : (s.reserve i event).Spoken := by
  refine h.of_attempt hs i (by simp [hi]) rfl (fun j hj => ?_) (fun j hj => ?_) ?_
  · rw [status?_reserve, if_neg hj]
  · rw [commands_of_command (acts_reserve s i event), if_neg hj]
  · rw [h.commands_reserve hi, status?_reserve_self hi]
    exact spoke_reserved s event _ rfl

theorem proceed (h : s.Spoken) (hi : s.status? i = some (.running r))
    (ht : s.proceed i r = some t) (hs : s.step a = some t) : t.Spoken := by
  have hsp := h.tried_running hi
  refine h.of_attempt hs i (by simp [hi]) (releases_proceed ht)
    (fun j hj => status?_proceed_of_ne ht hj) (fun j _ => by rw [commands_proceed ht]) ?_
  rw [commands_proceed ht]
  rcases status?_proceed_self hi ht with ⟨r', hr', hres, -⟩ | ⟨ending, hr'⟩
  · rw [hr']
    show Tried r'.reserved _
    rw [hres]
    exact hsp
  · rw [hr']
    exact hsp

theorem settle (h : s.Spoken) (hi : s.status? i = some (.settling event reserved ending))
    (hs : s.step a = some (s.settle i event reserved ending)) :
    (s.settle i event reserved ending).Spoken := by
  have hsp := h.tried_settling hi
  have hacts := acts_settle s i event reserved ending
  refine h.of_attempt hs i (by simp [hi]) (by simp) (fun j hj => ?_) (fun j hj => ?_) ?_
  · rw [status?_settle, if_neg hj]
  · split at hacts
    · rw [commands_of_command hacts, if_neg hj]
    · rw [commands_of_acts hacts]
  · rw [status?_settle, if_pos rfl, hi]
    intro hg
    split at hacts
    · rw [commands_of_command hacts, if_pos rfl]
      exact closed_cons (s.verb_closing_ne ending event.eventId) _
    · next hb =>
      rw [commands_of_acts hacts] at hg
      exact absurd (hsp.given_iff.1 hg) hb

theorem cutOff (h : s.Spoken) (ho : s.Own) (hi : s.status? i = some (.running r))
    (inside : Bool) (hs : s.step a = some (s.cutOff i r inside)) :
    (s.cutOff i r inside).Spoken := by
  have hsp := h.tried_running hi
  have hc : (s.cutOff i r inside).commands = s.commands := commands_of_acts (acts_cutOff ..)
  have hne : ∀ j id, (j, id) ∈ s.releases → j ≠ i := by
    rintro j id hj rfl
    have hcan := (h.left j id hj).1
    rw [hi] at hcan
    cases hcan
  have hold : ∀ j id, (j, id) ∈ s.releases →
      (s.cutOff i r inside).status? j = some .cancelled ∧ (s.cutOff i r inside).Holds j id := by
    intro j id hj
    obtain ⟨hcan, hfor, hheld⟩ := h.left j id hj
    refine ⟨?_, hfor.step hs, by rw [hc]; exact hheld⟩
    rw [status?_cutOff, if_neg (hne j id hj)]
    exact hcan
  refine ⟨fun j => ?_, fun j id hj => ?_, ?_⟩
  · rw [hc, status?_cutOff]
    split
    · rw [hi]
      trivial
    · exact h.spoke j
  · rw [releases_cutOff] at hj
    split at hj
    · next hb =>
      rcases List.mem_append.1 hj with hj | hj
      · exact hold j id hj
      · cases List.mem_singleton.1 hj
        rw [Bool.and_eq_true] at hb
        refine ⟨by rw [status?_cutOff, if_pos rfl, hi]; rfl, (isFor_of_own ho hi rfl).step hs, ?_⟩
        rw [hc]
        exact ⟨hsp.given_iff.2 hb.1, hsp.not_closed⟩
    · exact hold j id hj
  · rw [releases_cutOff]
    split
    · rw [List.map_append, List.nodup_append]
      refine ⟨h.once, by simp, fun j hj k hk => ?_⟩
      obtain ⟨x, hx, rfl⟩ := List.mem_map.1 hj
      rw [List.map_singleton, List.mem_singleton] at hk
      rw [hk]
      exact hne x.1 x.2 hx
    · exact h.once

theorem ne_of_mem_eraseIdx (h : s.Spoken) {k : Nat} {id' : Uuid} (hj : s.releases[j]? = some (i, id))
    (hk : (k, id') ∈ s.releases.eraseIdx j) : k ≠ i := by
  rintro rfl
  obtain ⟨m, hm, hmk⟩ := List.mem_eraseIdx_iff_getElem?.1 hk
  have hlt := (List.getElem?_eq_some_iff.1 hmk).1
  refine hm ((List.getElem?_inj (by rwa [List.length_map]) h.once).1 ?_)
  rw [List.getElem?_map, List.getElem?_map, hj, hmk]
  rfl

theorem release (h : s.Spoken) (hj : s.releases[j]? = some (i, id))
    (hs : s.step a = some (s.releaseAt j i id)) : (s.releaseAt j i id).Spoken := by
  have hc := commands_of_command (acts_releaseAt s i j id)
  refine ⟨fun k => ?_, fun k id' hk => ?_, h.once.sublist ((List.eraseIdx_sublist ..).map _)⟩
  · rw [hc, status?_releaseAt]
    split
    · next hki =>
      rw [hki, (h.left i id (List.mem_of_getElem? hj)).1]
      trivial
    · exact h.spoke k
  · obtain ⟨hcan, hfor, hheld⟩ := h.left k id' (List.mem_of_mem_eraseIdx hk)
    refine ⟨hcan, hfor.step hs, ?_⟩
    rw [hc, if_neg (h.ne_of_mem_eraseIdx hj hk)]
    exact hheld

/-- Whatever happens, attempts say what their statuses say. -/
theorem step (h : s.Spoken) (ho : s.Own) (hs : s.step a = some t) : t.Spoken := by
  cases step_moves hs with
  | submit raw =>
    have hc : (s.submit raw).commands = s.commands := commands_of_acts (acts_submit s raw)
    have hn : s.status? s.attempts.length = none := by simp [status?]
    refine h.of_attempt hs s.attempts.length (by simp [hn]) (releases_submit s raw)
      (fun j hj => ?_) (fun j _ => by rw [hc]) ?_
    · rw [status?_submit, if_neg hj]
    · rw [hc, status?_submit, if_pos rfl, h.commands_unstarted hn]
      unfold Status.first
      split
      · rintro ⟨x, hx, -⟩
        cases hx
      · rfl
  | reserve hi => exact h.reserve hi hs
  | proceed hi ht => exact h.proceed hi ht hs
  | settle hi => exact h.settle hi hs
  | cancel inside hi => exact h.cutOff ho hi inside hs
  | release hj => exact h.release hj hs
  | outside ha ht =>
    obtain ⟨hat, hrel, -, hacts⟩ := outside_step ha ht
    have hc := commands_of_acts hacts
    have hst := status?_of_attempts hat
    refine ⟨fun i => by rw [hc, hst]; exact h.spoke i, fun i id hi => ?_, by rw [hrel]; exact h.once⟩
    rw [hrel] at hi
    obtain ⟨hcan, hfor, hheld⟩ := h.left i id hi
    exact ⟨by rw [hst]; exact hcan, hfor.step hs, by rw [hc]; exact hheld⟩

theorem holds_running (h : s.Spoken) (ho : s.Own) (hi : s.status? i = some (.running r)) :
    s.Holds i id ↔ r.writing.event.eventId = id ∧ r.reserved = true := by
  have hsp := h.tried_running hi
  simp [Holds, isFor_iff ho hi rfl, hsp.given_iff, hsp.not_closed]

theorem holds_settling (h : s.Spoken) (ho : s.Own)
    (hi : s.status? i = some (.settling event reserved ending)) :
    s.Holds i id ↔ event.eventId = id ∧ reserved = true := by
  have hsp := h.tried_settling hi
  simp [Holds, isFor_iff ho hi rfl, hsp.given_iff, hsp.not_closed]

theorem not_holds_unstarted (h : s.Spoken) (hi : s.status? i = none) : ¬s.Holds i id := by
  rintro ⟨-, ⟨x, hx, -⟩, -⟩
  rw [h.commands_unstarted hi] at hx
  cases hx

theorem not_holds_reserving (h : s.Spoken) (hi : s.status? i = some (.reserving event)) :
    ¬s.Holds i id := by
  rintro ⟨-, ⟨x, hx, -⟩, -⟩
  rw [h.commands_reserving hi] at hx
  cases hx

theorem not_holds_returned (h : s.Spoken) {r : Result} (hi : s.status? i = some (.returned r)) :
    ¬s.Holds i id := by
  have hsp := h.spoke i
  rw [hi] at hsp
  exact fun hh => hh.2.2 (hsp hh.2.1)

end Spoken

/-! ### From the reservation to its end -/

theorem IsFor.of_step (h : t.IsFor i id) (hs : s.step a = some t) (hi : (s.status? i).isSome) :
    s.IsFor i id := by
  unfold IsFor at h ⊢
  rwa [event?_step_of_started hs hi] at h

/-- The action settles the reservation that attempt `i` holds, or releases it. -/
inductive Closes (s : State) (i : Nat) (id : Uuid) : Action → Prop
  | settle {event : Event} {ending : Except Error Written}
    (hi : s.status? i = some (.settling event true ending)) (hid : event.eventId = id) :
    s.Closes i id (.advance i)
  | release {j : Nat} (hj : s.releases[j]? = some (i, id)) : s.Closes i id (.release j)

/-- Attempt `i` reserves event `id` next, and the key store lets it. -/
structure Reserves (s : State) (i : Nat) (id : Uuid) (a : Action) : Prop where
  action : a = .advance i
  status : ∃ event, s.status? i = some (.reserving event) ∧ event.eventId = id
  answer : (s.keys.run (s.settings.terms.reserve id)).2 = .ok true

/-- The commands of an attempt change only by the three steps that give one. -/
theorem commands_step (hs : s.step a = some t) (i : Nat) :
    t.commands i = s.commands i ∨
      (∃ event, a = .advance i ∧ s.status? i = some (.reserving event) ∧ t = s.reserve i event) ∨
      (∃ event ending, a = .advance i ∧ s.status? i = some (.settling event true ending) ∧
        t = s.settle i event true ending) ∨
      ∃ j id, a = .release j ∧ s.releases[j]? = some (i, id) ∧ t = s.releaseAt j i id := by
  cases step_moves hs with
  | submit raw => exact .inl (by rw [commands_of_acts (acts_submit s raw)])
  | @reserve k event hk =>
    by_cases hi : i = k
    · subst hi
      exact .inr (.inl ⟨event, rfl, hk, rfl⟩)
    · exact .inl (by rw [commands_of_command (acts_reserve s k event), if_neg hi])
  | proceed _ ht => exact .inl (by rw [commands_proceed ht])
  | @settle k event reserved ending hk =>
    have hacts := acts_settle s k event reserved ending
    split at hacts
    · next hb =>
      by_cases hi : i = k
      · subst hi hb
        exact .inr (.inr (.inl ⟨event, ending, rfl, hk, rfl⟩))
      · exact .inl (by rw [commands_of_command hacts, if_neg hi])
    · exact .inl (by rw [commands_of_acts hacts])
  | cancel => exact .inl (by rw [commands_of_acts (acts_cutOff ..)])
  | @release j k id hj =>
    by_cases hi : i = k
    · subst hi
      exact .inr (.inr (.inr ⟨j, id, rfl, hj, rfl⟩))
    · exact .inl (by rw [commands_of_command (acts_releaseAt s k j id), if_neg hi])
  | outside ha ht => exact .inl (by rw [commands_of_acts (outside_step ha ht).2.2.2])

theorem step_releaseAt (hj : s.releases[j]? = some (i, id)) :
    s.step (.release j) = some (s.releaseAt j i id) := by
  simp [State.step, State.release, hj]

theorem Closes.not_holds (h : s.Closes i id a) (hs : s.step a = some t) : ¬t.Holds i id := by
  refine fun hh => hh.2.2 ?_
  cases h with
  | @settle event ending hi _ =>
    cases (step_settle hi).symm.trans hs
    have hacts := acts_settle s i event true ending
    rw [if_pos rfl] at hacts
    rw [commands_of_command hacts, if_pos rfl]
    exact closed_cons (s.verb_closing_ne ending event.eventId) _
  | @release j hj =>
    cases (step_releaseAt hj).symm.trans hs
    rw [commands_of_command (acts_releaseAt s i j id), if_pos rfl]
    exact closed_cons (by simp [Reservation.release, Reservation.Command.verb]) _

/-- A reservation is held until it is settled or released. -/
theorem Holds.step (h : s.Holds i id) (hsp : s.Spoken) (ho : s.Own) (hs : s.step a = some t) :
    t.Holds i id ∨ s.Closes i id a := by
  rcases commands_step hs i with
    hc | ⟨event, -, hi, -⟩ | ⟨event, ending, rfl, hi, -⟩ | ⟨j, id', rfl, hj, -⟩
  · exact .inl ⟨h.1.step hs, by rw [hc]; exact h.2⟩
  · exact absurd h (hsp.not_holds_reserving hi)
  · exact .inr (.settle hi ((hsp.holds_settling ho hi).1 h).1)
  · have hid := (hsp.left i id' (List.mem_of_getElem? hj)).2.1.unique h.1
    exact .inr (.release (hid ▸ hj))

/-- Who holds a reservation held it before, or has just made it. -/
theorem Holds.of_step (h : t.Holds i id) (hsp : s.Spoken) (ho : s.Own) (hs : s.step a = some t) :
    s.Holds i id ∨ s.Reserves i id a := by
  rcases commands_step hs i with
    hc | ⟨event, rfl, hi, rfl⟩ | ⟨event, ending, rfl, hi, rfl⟩ | ⟨j, id', rfl, hj, rfl⟩
  · rw [Holds, hc] at h
    refine .inl ⟨h.1.of_step hs ?_, h.2⟩
    cases hi : s.status? i with
    | some st => rfl
    | none =>
      obtain ⟨x, hx, -⟩ := h.2.1
      rw [hsp.commands_unstarted hi] at hx
      cases hx
  · have hid := (isFor_iff ho hi rfl).1 (h.1.of_step hs (by simp [hi]))
    refine .inr ⟨rfl, ⟨event, hi, hid⟩, ?_⟩
    obtain ⟨x, hx, -, hok⟩ := h.2.1
    rw [hsp.commands_reserve hi, List.mem_singleton] at hx
    rw [hx] at hok
    rw [← hid]
    exact hok
  · have hid := (isFor_iff ho hi rfl).1 (h.1.of_step hs (by simp [hi]))
    exact absurd h ((Closes.settle hi hid).not_holds hs)
  · have hl := hsp.left i id' (List.mem_of_getElem? hj)
    have hid := hl.2.1.unique (h.1.of_step hs (by simp [hl.1]))
    exact absurd h ((Closes.release (hid ▸ hj)).not_holds hs)

end State

end Intake.Ingest
