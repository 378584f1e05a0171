import Intake.Proofs.Surroundings

/-!
# What an attempt asks of the key store

`reservation_calls_in_order`: whatever the two stores answer, an attempt at a valid event first
tries to reserve it, and asks the store only if it is let in. If the try made a reservation, one
more command follows when the attempt ends, and only one: the reservation becomes `done`, or it is
released. An attempt that is cut off leaves the release to be carried out later; if nothing can be
carried out later there is no more command of it at all. Without a reservation there is none either.

`Status.Dealt` says so by status. What an attempt did is kept in the order in which it was done, so
that the statement also says that the store is asked in between.
-/

namespace Intake

/-- Whether an attempt that got this answer may write. -/
def Reservation.Policy.admits (p : Policy) : Answer → Bool
  | .ok made => made
  | .error _ => p = .failOpen

namespace Ingest

open Store (Call)

/-- The command that settles the reservation of an attempt that ends with this result. -/
def Settings.closes (x : Settings) (id : Uuid) : Result → Reservation.Command
  | .ok _ => x.terms.markDone id
  | .error _ => Reservation.release id

/-- A try to reserve an event, and what was done after it. -/
def acting (x : Settings) (e : Event) (a : Reservation.Answer) (calls : List Call)
    (closing : List Act) : List Act :=
  .command (x.terms.reserve e.eventId) a :: (calls.map .call ++ closing)

/-- What an attempt at `e` that has come this far has done. `left` says that a reservation that it
left is scheduled to be released. -/
def Status.Dealt (x : Settings) (e : Event) (left : Prop) (ds : List Act) : Status → Prop
  | .reserving _ => ds = []
  | .running r => ∃ a calls, ds = acting x e a calls [] ∧ x.policy.admits a = true ∧
    (r.reserved = true ↔ a = .ok true) ∧ (r.waiting = true → calls ≠ [])
  | .settling _ reserved _ => ∃ a calls, ds = acting x e a calls [] ∧ x.policy.admits a = true ∧
    (reserved = true ↔ a = .ok true) ∧ calls ≠ []
  | .returned r => ∃ a calls closing, ds = acting x e a calls closing ∧
    (x.policy.admits a = false → r = .ok .duplicate ∧ calls = []) ∧
    (x.policy.admits a = true → calls ≠ []) ∧
    (a = .ok true → ∃ b, closing = [.command (x.closes e.eventId r) b]) ∧
    (a ≠ .ok true → closing = [])
  | .cancelled => ∃ a calls closing, ds = acting x e a calls closing ∧ x.policy.admits a = true ∧
    (closing = [] ∧ (left → a = .ok true) ∨
      ¬left ∧ a = .ok true ∧ ∃ b, closing = [.command (Reservation.release e.eventId) b])

/-- What an attempt has done once it has tried to reserve its event. It settles a reservation when
it ends, and not before. -/
theorem Status.Dealt.tried {x : Settings} {e : Event} {left : Prop} {ds : List Act} {st : Status}
    (h : st.Dealt x e left ds) (hst : ∀ event, st ≠ .reserving event) :
    ∃ b calls closing, ds = acting x e b calls closing ∧
      (x.policy.admits b = false → calls = [] ∧ st = .returned (.ok .duplicate)) ∧
      (∀ r, st = .running r → (r.reserved = true ↔ b = .ok true)) ∧
      ((∀ r, st ≠ .returned r) ∧ st ≠ .cancelled ∨ b ≠ .ok true → closing = []) ∧
      ∀ r, st = .returned r → (x.policy.admits b = true → calls ≠ []) ∧
        (b = .ok true → ∃ y, closing = [.command (x.closes e.eventId r) y]) := by
  cases st with
  | reserving event => exact absurd rfl (hst event)
  | running r =>
    obtain ⟨b, calls, hd, hb, hres, -⟩ := h
    refine ⟨b, calls, [], hd, by simp [hb], ?_, fun _ => rfl, by simp⟩
    rintro r' ⟨⟩
    exact hres
  | settling event reserved ending =>
    obtain ⟨b, calls, hd, hb, -, -⟩ := h
    exact ⟨b, calls, [], hd, by simp [hb], by simp, fun _ => rfl, by simp⟩
  | returned r =>
    obtain ⟨b, calls, closing, hd, hno, hcalls, hok, hnot⟩ := h
    refine ⟨b, calls, closing, hd, fun hb => ?_, by simp, ?_, ?_⟩
    · obtain ⟨rfl, hnone⟩ := hno hb
      exact ⟨hnone, rfl⟩
    · rintro (⟨hrun, -⟩ | hb)
      · exact absurd rfl (hrun r)
      · exact hnot hb
    · rintro r' ⟨⟩
      exact ⟨hcalls, hok⟩
  | cancelled =>
    obtain ⟨b, calls, closing, hd, hb, hcl⟩ := h
    refine ⟨b, calls, closing, hd, by simp [hb], by simp, ?_, by simp⟩
    rintro (⟨-, hrun⟩ | hb)
    · exact absurd rfl hrun
    · rcases hcl with ⟨hcl, -⟩ | ⟨-, hok, -⟩
      · exact hcl
      · exact absurd hok hb

namespace State

variable {s t u v : State} {a : Action} {i j : Nat} {id : Uuid}

/-- What attempt `i` did to the two stores, the oldest act first. -/
def did (s : State) (i : Nat) : List Act :=
  (s.acts.filterMap fun x => if x.1 = i then some x.2 else none).reverse

theorem did_of_acts (h : t.acts = s.acts) : t.did = s.did := by
  funext i
  rw [did, h, did]

theorem did_of_act {act : Act} (h : t.acts = (i, act) :: s.acts) (j : Nat) :
    t.did j = if j = i then s.did i ++ [act] else s.did j := by
  unfold did
  rw [h]
  by_cases hj : i = j
  · simp [hj]
  · simp [hj, Ne.symm hj]

theorem closing_eq (id : Uuid) (ending : Except Error Written) :
    s.closing id ending = s.settings.closes id (ending.map ofWritten) := by
  cases ending <;> rfl

theorem reserved_of_admits (event : Event) {b : Reservation.Answer}
    (h : s.settings.policy.admits b = true) : ∃ r, s.reserved event b = .running r ∧
      r.waiting = false ∧ (r.reserved = true ↔ b = .ok true) := by
  unfold reserved
  rcases b with f | _ | _
  · have hp : s.settings.policy = .failOpen := by simpa [Reservation.Policy.admits] using h
    rw [hp]
    exact ⟨_, rfl, rfl, by simp⟩
  · cases h
  · exact ⟨_, rfl, rfl, by simp⟩

theorem reserved_of_not_admits {event : Event} {b : Reservation.Answer}
    (h : s.settings.policy.admits b = false) : s.reserved event b = .returned (.ok .duplicate) := by
  unfold reserved
  rcases b with f | _ | _
  · have hp : s.settings.policy ≠ .failOpen := by simpa [Reservation.Policy.admits] using h
    cases hpol : s.settings.policy with
    | failOpen => exact absurd hpol hp
    | failClosed => rfl
  · rfl
  · cases h

/-! ### Steps as the two stores see one attempt -/

/-- What a step is to attempt `i` and its dealings: it leaves all of them as they were, takes the
attempt further, or releases what it left. -/
inductive Deals (s : State) (i : Nat) (t : State) : Action → Prop
  | still {a : Action} (hd : t.did i = s.did i) (hst : t.status? i = s.status? i)
    (hl : ∀ id, (i, id) ∈ t.releases ↔ (i, id) ∈ s.releases) : s.Deals i t a
  | submit {raw : RawEvent} (hi : s.status? i = none) (hlen : i = s.attempts.length)
    (ht : t = s.submit raw) : s.Deals i t (.submit raw)
  | reserve {event : Event} (hi : s.status? i = some (.reserving event))
    (ht : t = s.reserve i event) : s.Deals i t (.advance i)
  | proceed {r : Running} (hi : s.status? i = some (.running r)) (ht : s.proceed i r = some t) :
    s.Deals i t (.advance i)
  | settle {event : Event} {reserved : Bool} {ending : Except Error Written}
    (hi : s.status? i = some (.settling event reserved ending))
    (ht : t = s.settle i event reserved ending) : s.Deals i t (.advance i)
  | cancel {r : Running} {inside : Bool} (hi : s.status? i = some (.running r))
    (ht : t = s.cutOff i r inside) : s.Deals i t (.cancel i inside)
  | release {j : Nat} {id : Uuid} (hj : s.releases[j]? = some (i, id))
    (ht : t = s.releaseAt j i id) : s.Deals i t (.release j)

theorem did_proceed {r : Running} (h : s.proceed i r = some t) (j : Nat) : t.did j =
    if j = i ∧ r.waiting = false then s.did i ++ [.call r.writing.call] else s.did j := by
  have hacts := acts_proceed h
  cases hw : r.waiting with
  | true =>
    rw [hw, if_pos rfl] at hacts
    rw [did_of_acts hacts]
    simp
  | false =>
    rw [hw, if_neg Bool.false_ne_true] at hacts
    rw [did_of_act hacts]
    simp

theorem did_settle (s : State) (i : Nat) (event : Event) (reserved : Bool)
    (ending : Except Error Written) (j : Nat) : (s.settle i event reserved ending).did j =
    if j = i ∧ reserved = true then
      s.did i ++ [.command (s.closing event.eventId ending)
        (s.keys.run (s.closing event.eventId ending)).2]
    else s.did j := by
  have hacts := acts_settle s i event reserved ending
  cases reserved with
  | true =>
    rw [if_pos rfl] at hacts
    rw [did_of_act hacts]
    simp
  | false =>
    rw [if_neg Bool.false_ne_true] at hacts
    rw [did_of_acts hacts]
    simp

theorem step_deals (hs : s.step a = some t) (i : Nat) : s.Deals i t a := by
  cases step_moves hs with
  | submit raw =>
    by_cases hi : i = s.attempts.length
    · exact .submit (by simp [status?, hi]) hi rfl
    · refine .still (by rw [did_of_acts (acts_submit s raw)]) ?_ (by simp)
      rw [status?_submit, if_neg hi]
  | @reserve k event hk =>
    by_cases hi : i = k
    · subst hi
      exact .reserve hk rfl
    · refine .still ?_ ?_ (by simp)
      · rw [did_of_act (acts_reserve s k event), if_neg hi]
      · rw [status?_reserve, if_neg hi]
  | @proceed k r _ hk ht =>
    by_cases hi : i = k
    · subst hi
      exact .proceed hk ht
    · refine .still ?_ (status?_proceed_of_ne ht hi) (by simp [releases_proceed ht])
      rw [did_proceed ht, if_neg (by simp [hi])]
  | @settle k event reserved ending hk =>
    by_cases hi : i = k
    · subst hi
      exact .settle hk rfl
    · refine .still ?_ ?_ (by simp)
      · rw [did_settle, if_neg (by simp [hi])]
      · rw [status?_settle, if_neg hi]
  | @cancel k r inside hk =>
    by_cases hi : i = k
    · subst hi
      exact .cancel hk rfl
    · refine .still (by rw [did_of_acts (acts_cutOff ..)]) ?_ fun id => ?_
      · rw [status?_cutOff, if_neg hi]
      · rw [releases_cutOff]
        split
        · simp [hi]
        · rfl
  | @release j k id hj =>
    by_cases hi : i = k
    · subst hi
      exact .release hj rfl
    · refine .still ?_ rfl fun id' => ?_
      · rw [did_of_act (acts_releaseAt s k j id), if_neg hi]
      · -- the release that was carried out is another one
        refine ⟨List.mem_of_mem_eraseIdx, fun hm => ?_⟩
        obtain ⟨m, hm'⟩ := List.mem_iff_getElem?.1 hm
        refine List.mem_eraseIdx_iff_getElem?.2 ⟨m, ?_, hm'⟩
        rintro rfl
        rw [hj] at hm'
        exact hi (congrArg Prod.fst (Option.some.inj hm')).symm
  | outside ha ht =>
    obtain ⟨-, hrel, -, hacts⟩ := outside_step ha ht
    exact .still (by rw [did_of_acts hacts]) (by rw [status?_outside ha ht]) (by simp [hrel])

/-! ### What an attempt has done -/

/-- Attempt `i` has left a reservation that is scheduled to be released. -/
def Leaves (s : State) (i : Nat) : Prop := ∃ id, (i, id) ∈ s.releases

/-- Attempt `i` has done what its status says. One at an invalid event has done nothing. -/
structure Dealt (s : State) (i : Nat) : Prop where
  unstarted : s.status? i = none → s.did i = []
  invalid : ∀ st, s.status? i = some st → s.event? i = none →
    s.did i = [] ∧ ∃ flaw, st = .returned (.error (.invalid flaw))
  valid : ∀ st e, s.status? i = some st → s.event? i = some e →
    st.Dealt s.settings e (s.Leaves i) (s.did i)

variable {event : Event} {r : Running} {st : Status}

theorem acting_append (x : Settings) (e : Event) (b : Reservation.Answer) (calls : List Call)
    (closing : List Act) : acting x e b calls [] ++ closing = acting x e b calls closing := by
  simp [acting]

theorem acting_call (x : Settings) (e : Event) (b : Reservation.Answer) (calls : List Call)
    (c : Call) : acting x e b calls [] ++ [.call c] = acting x e b (calls ++ [c]) [] := by
  simp [acting]

namespace Dealt

/-- A step of an attempt that has been started, at the event for which it was started. -/
theorem of_valid {e : Event} (he : t.event? i = some e) (hi : t.status? i = some st)
    (h : st.Dealt t.settings e (t.Leaves i) (t.did i)) : t.Dealt i where
  unstarted hn := by cases hn.symm.trans hi
  invalid _ _ hn := by cases hn.symm.trans he
  valid st' e' hi' he' := by
    cases hi.symm.trans hi'
    cases he.symm.trans he'
    exact h

theorem of_same (h : s.Dealt i) (hs : s.step a = some t) (hd : t.did i = s.did i)
    (hst : t.status? i = s.status? i) (hl : ∀ id, (i, id) ∈ t.releases ↔ (i, id) ∈ s.releases) :
    t.Dealt i := by
  have hleaves : t.Leaves i ↔ s.Leaves i := exists_congr hl
  have hev : (t.status? i).isSome → t.event? i = s.event? i := fun hsome =>
    event?_step_of_started hs (hst ▸ hsome)
  refine ⟨fun hn => ?_, fun st hi hn => ?_, fun st e hi he => ?_⟩
  · rw [hd]
    exact h.unstarted (hst ▸ hn)
  · rw [hev (by simp [hi])] at hn
    rw [hd]
    exact h.invalid st (hst ▸ hi) hn
  · rw [hev (by simp [hi])] at he
    rw [hd, settings_step hs, propext hleaves]
    exact h.valid st e (hst ▸ hi) he

theorem submit (h : s.Dealt i) (hi : s.status? i = none) (hlen : i = s.attempts.length)
    (raw : RawEvent) : (s.submit raw).Dealt i := by
  subst hlen
  have hd : (s.submit raw).did s.attempts.length = [] := by
    rw [did_of_acts (acts_submit s raw), h.unstarted hi]
  have hfirst := status?_submit_self s raw
  cases hr : Event.ofRaw raw with
  | error flaw =>
    have hst : Status.first raw = .returned (.error (.invalid flaw)) := by simp [Status.first, hr]
    have hev : (s.submit raw).event? s.attempts.length = none := by
      rw [event?_submit, if_pos rfl, hr]
      rfl
    refine ⟨fun _ => hd, fun st hst' _ => ⟨hd, flaw, ?_⟩,
      fun st e _ he => by cases hev.symm.trans he⟩
    rw [hfirst, hst] at hst'
    exact (Option.some.inj hst').symm
  | ok event =>
    have hst : Status.first raw = .reserving event := by simp [Status.first, hr]
    rw [hst] at hfirst
    refine .of_valid (e := event) ?_ hfirst hd
    rw [event?_submit, if_pos rfl, hr]
    rfl

theorem reserve (h : s.Dealt i) (ho : s.Own) (hi : s.status? i = some (.reserving event)) :
    (s.reserve i event).Dealt i := by
  have he := ho i _ _ hi rfl
  have hd := did_of_act (acts_reserve s i event) i
  rw [if_pos rfl, h.valid _ _ hi he, List.nil_append] at hd
  have hst := status?_reserve_self hi
  refine .of_valid (by rw [event?_reserve]; exact he) hst ?_
  rw [hd]
  generalize (s.keys.run (s.settings.terms.reserve event.eventId)).2 = b at hst ⊢
  cases hb : s.settings.policy.admits b with
  | true =>
    obtain ⟨r, hr, hw, hres⟩ := reserved_of_admits event hb
    rw [hr]
    exact ⟨b, [], rfl, hb, hres, by simp [hw]⟩
  | false =>
    rw [reserved_of_not_admits hb]
    have hno : b ≠ .ok true := by
      rintro rfl
      cases hb
    refine ⟨b, [], [], rfl, fun _ => ⟨rfl, rfl⟩, fun hy => ?_, fun hy => absurd hy hno,
      fun _ => rfl⟩
    exact absurd (hb.symm.trans hy) Bool.false_ne_true

theorem proceed (h : s.Dealt i) (ho : s.Own) (hi : s.status? i = some (.running r))
    (ht : s.proceed i r = some t) : t.Dealt i := by
  have he := ho i _ _ hi rfl
  obtain ⟨b, calls, hds, hb, hres, hw⟩ := h.valid _ _ hi he
  -- whether it is made now or was made before, there is a call
  have hd : ∃ calls, t.did i = acting t.settings r.writing.event b calls [] ∧ calls ≠ [] := by
    rw [did_proceed ht, settings_proceed ht, hds]
    cases hwait : r.waiting with
    | true => exact ⟨calls, by simp, hw hwait⟩
    | false => exact ⟨calls ++ [r.writing.call], by simp [acting_call], by simp⟩
  obtain ⟨calls, hd, hne⟩ := hd
  rw [← settings_proceed ht] at hb
  have hev : t.event? i = some r.writing.event := by rw [event?_proceed ht]; exact he
  rcases status?_proceed_self hi ht with ⟨r', hr', hres', -⟩ | ⟨ending, hr'⟩
  · refine .of_valid hev hr' ?_
    exact ⟨b, calls, hd, hb, hres' ▸ hres, fun _ => hne⟩
  · exact .of_valid hev hr' ⟨b, calls, hd, hb, hres, hne⟩

theorem settle (h : s.Dealt i) {reserved : Bool} {ending : Except Error Written} (ho : s.Own)
    (hi : s.status? i = some (.settling event reserved ending)) :
    (s.settle i event reserved ending).Dealt i := by
  have he := ho i _ _ hi rfl
  obtain ⟨b, calls, hds, hb, hres, hne⟩ := h.valid _ _ hi he
  have hd := did_settle s i event reserved ending i
  refine .of_valid (by rw [event?_settle]; exact he) (status?_settle_self hi) ?_
  rw [hd, settings_settle, hds]
  have hno : s.settings.policy.admits b ≠ false := by simp [hb]
  cases reserved with
  | true =>
    have hok := hres.1 rfl
    rw [if_pos ⟨rfl, rfl⟩, acting_append]
    refine ⟨b, calls, _, rfl, fun hy => absurd hy hno, fun _ => hne, fun _ => ?_,
      fun hy => absurd hok hy⟩
    exact ⟨(s.keys.run (s.closing event.eventId ending)).2, by rw [closing_eq]⟩
  | false =>
    have hok : b ≠ .ok true := fun hy => Bool.false_ne_true (hres.2 hy)
    rw [if_neg (by simp)]
    exact ⟨b, calls, [], rfl, fun hy => absurd hy hno, fun _ => hne, fun hy => absurd hy hok,
      fun _ => rfl⟩

theorem cutOff (h : s.Dealt i) (ho : s.Own) (hsp : s.Spoken)
    (hi : s.status? i = some (.running r)) (inside : Bool) : (s.cutOff i r inside).Dealt i := by
  have he := ho i _ _ hi rfl
  obtain ⟨b, calls, hds, hb, hres, -⟩ := h.valid _ _ hi he
  refine .of_valid (by rw [event?_cutOff]; exact he) (status?_cutOff_self hi) ?_
  rw [did_of_acts (acts_cutOff ..), settings_cutOff, hds]
  refine ⟨b, calls, [], rfl, hb, .inl ⟨rfl, ?_⟩⟩
  rintro ⟨id, hid⟩
  rw [releases_cutOff] at hid
  have hold : (i, id) ∉ s.releases := fun hm => by cases hi.symm.trans (hsp.left i id hm).1
  split at hid
  · next hr =>
    rw [Bool.and_eq_true] at hr
    exact hres.1 hr.1
  · exact absurd hid hold

theorem release (h : s.Dealt i) (hsp : s.Spoken) (hj : s.releases[j]? = some (i, id)) :
    (s.releaseAt j i id).Dealt i := by
  obtain ⟨hcan, hfor, -⟩ := hsp.left i id (List.mem_of_getElem? hj)
  obtain ⟨e, he, rfl⟩ := hfor
  obtain ⟨b, calls, closing, hds, hb, hcl⟩ := h.valid _ _ hcan he
  have hleaves : s.Leaves i := ⟨_, List.mem_of_getElem? hj⟩
  rcases hcl with ⟨rfl, hok⟩ | ⟨hno, -⟩
  · have hd := did_of_act (acts_releaseAt s i j e.eventId) i
    rw [if_pos rfl, hds, acting_append] at hd
    have hcan' : (s.releaseAt j i e.eventId).status? i = some .cancelled := hcan
    refine .of_valid (e := e) he hcan' ?_
    rw [hd]
    refine ⟨b, calls, _, rfl, hb, .inr ⟨?_, hok hleaves, _, rfl⟩⟩
    rintro ⟨id', hid'⟩
    exact hsp.ne_of_mem_eraseIdx hj hid' rfl
  · exact absurd hleaves hno

/-- Whatever the two stores answer, an attempt does what its status says. -/
theorem step (h : s.Dealt i) (ho : s.Own) (hsp : s.Spoken) (hs : s.step a = some t) :
    t.Dealt i := by
  cases step_deals hs i with
  | still hd hst hl => exact h.of_same hs hd hst hl
  | @submit raw hi hlen ht => exact ht ▸ h.submit hi hlen raw
  | reserve hi ht => exact ht ▸ h.reserve ho hi
  | proceed hi ht => exact h.proceed ho hi ht
  | settle hi ht => exact ht ▸ h.settle ho hi
  | cancel hi ht => exact ht ▸ h.cutOff ho hsp hi _
  | release hj ht => exact ht ▸ h.release hsp hj

end Dealt

theorem Plays.dealt {l : List Line} (h : s.Plays i t l) (hs : s.Fresh) : t.Dealt i := by
  have hall : t.Own ∧ t.Spoken ∧ t.Dealt i := by
    refine h.keeps (I := fun t _ => t.Own ∧ t.Spoken ∧ t.Dealt i) ⟨hs.own, hs.spoken, ?_⟩ ?_ ?_
    · refine ⟨fun _ => by simp [did, acts, hs.log], fun st hi => ?_, fun st e hi => ?_⟩
      · cases (hs.status?_eq_none i).symm.trans hi
      · cases (hs.status?_eq_none i).symm.trans hi
    · exact fun t l store keys ht => ⟨ht.1, ht.2.1.among store keys,
        ht.2.2.unstarted, ht.2.2.invalid, ht.2.2.valid⟩
    · exact fun t u a l hs ht => ⟨ht.1.step hs, ht.2.1.step ht.1 hs, ht.2.2.step ht.1 ht.2.1 hs⟩
  exact hall.2.2

/-! ### After a cut -/

/-- Since `v` attempt `i` has done nothing, or has carried out the one release that it had left. -/
def Rests (v : State) (i : Nat) (t : State) : Prop :=
  t.did i = v.did i ∧ (∀ id, (i, id) ∈ t.releases ↔ (i, id) ∈ v.releases) ∨
    ¬t.Leaves i ∧ ∃ id b, (i, id) ∈ v.releases ∧
      t.did i = v.did i ++ [.command (Reservation.release id) b]

theorem Rests.step (h : v.Rests i t) (hsp : t.Spoken) (hi : t.status? i = some .cancelled)
    (hs : t.step a = some u) : v.Rests i u ∧ u.status? i = some .cancelled := by
  cases step_deals hs i with
  | still hd hst hl =>
    refine ⟨?_, hst.trans hi⟩
    rcases h with ⟨hd', hl'⟩ | ⟨hno, hrel⟩
    · exact .inl ⟨hd.trans hd', fun id => (hl id).trans (hl' id)⟩
    · refine .inr ⟨fun ⟨id, hid⟩ => hno ⟨id, (hl id).1 hid⟩, ?_⟩
      rwa [hd]
  | @release j id hj hu =>
    subst hu
    have hmem := List.mem_of_getElem? hj
    refine ⟨.inr ⟨fun ⟨id', hid'⟩ => hsp.ne_of_mem_eraseIdx hj hid' rfl, ?_⟩, hi⟩
    rcases h with ⟨hd', hl'⟩ | ⟨hno, -⟩
    · refine ⟨id, (t.keys.run (Reservation.release id)).2, (hl' id).1 hmem, ?_⟩
      rw [did_of_act (acts_releaseAt t i j id), if_pos rfl, hd']
    · exact absurd ⟨id, hmem⟩ hno
  | submit hi' | reserve hi' | proceed hi' | settle hi' | cancel hi' =>
    cases hi.symm.trans hi'

theorem Plays.rests {l : List Line} (h : v.Plays i t l) (ho : v.Own) (hsp : v.Spoken)
    (hi : v.status? i = some .cancelled) : v.Rests i t := by
  refine (h.keeps (I := fun t _ => t.Own ∧ t.Spoken ∧ v.Rests i t ∧ t.status? i = some .cancelled)
    ⟨ho, hsp, .inl ⟨rfl, fun _ => .rfl⟩, hi⟩ ?_ ?_).2.2.1
  · exact fun t l store keys ht => ⟨ht.1, ht.2.1.among store keys, ht.2.2.1, ht.2.2.2⟩
  · exact fun t u a l hs ht =>
      ⟨ht.1.step hs, ht.2.1.step ht.1 hs, ht.2.2.1.step ht.2.1 ht.2.2.2 hs⟩

/-- An attempt that is cut off now leaves its reservation if it made one and can leave it. -/
theorem Plays.after_cancel {l : List Line} (hi : t.status? i = some (.running r))
    (ho : t.Own) (hsp : t.Spoken) {inside : Bool} (h : (t.cutOff i r inside).Plays i u l) :
    if r.reserved && inside then
      (i, r.writing.event.eventId) ∈ u.releases ∧ u.did i = t.did i ∨
        ¬u.Leaves i ∧
          ∃ x, u.did i = t.did i ++ [.command (Reservation.release r.writing.event.eventId) x]
    else ¬u.Leaves i ∧ u.did i = t.did i := by
  have hstep : t.step (.cancel i inside) = some (t.cutOff i r inside) := by
    simp [State.step, cancel, hi]
  have hafter := h.rests (ho.step hstep) (hsp.step ho hstep) (status?_cutOff_self hi)
  rw [Rests, did_of_acts (acts_cutOff ..), releases_cutOff] at hafter
  -- while it was running it had left nothing
  have hold : ∀ id, (i, id) ∉ t.releases := fun id hm => by cases hi.symm.trans (hsp.left i id hm).1
  split at hafter
  · next hr =>
    rw [if_pos hr]
    rcases hafter with ⟨hd, hl⟩ | ⟨hno, id, x, hid, hd⟩
    · exact .inl ⟨(hl _).2 (by simp), hd⟩
    · rcases List.mem_append.1 hid with hid | hid
      · exact absurd hid (hold id)
      · cases List.mem_singleton.1 hid
        exact .inr ⟨hno, x, hd⟩
  · next hr =>
    rw [if_neg hr]
    rcases hafter with ⟨hd, hl⟩ | ⟨-, id, x, hid, -⟩
    · refine ⟨?_, hd⟩
      rintro ⟨id, hid⟩
      exact hold id ((hl id).1 hid)
    · exact absurd hid (hold id)

/-- What an attempt asks of a key store that may answer anything, over a store that may answer
anything, or nothing. At an invalid event it does nothing but fail when it is submitted. At a valid
one it first gives the command that reserves it, and calls the store only if the answer and the
policy let it in; if not, it returns at once and takes the event for a duplicate. After that there
is at most one more command. There is none without a reservation, and none before the writing has
ended; an attempt that made a reservation and has returned has given one, which sets the key to
`done` if it returned no error and deletes it if it did. One that is cut off gives none, but if it
left its reservation to be released, that is scheduled, or the key has been deleted once. -/
theorem reservation_calls_in_order {l : List Line} (hs : s.Fresh) (hp : s.Plays i t l) :
    (∀ raw flaw, Event.ofRaw raw = .error flaw → (t.submit raw).acts = t.acts ∧
      (t.submit raw).outbox = t.outbox ∧ (t.submit raw).releases = t.releases) ∧
    (t.event? i = none → (t.status? i).isSome → t.did i = [] ∧ ¬t.Leaves i ∧
      t.advance i = none ∧ (∀ inside, t.cancel i inside = none) ∧
      ∃ flaw, t.result? i = some (.error (.invalid flaw))) ∧
    (∀ e, t.event? i = some e → t.status? i = some (.reserving e) ∧ t.did i = [] ∨
      ∃ b calls closing, t.did i =
          .command (.setNew ("idem:event:" ++ e.eventId.text) "pending"
            (max s.settings.terms.pending.secs 1)) b :: (calls.map .call ++ closing) ∧
        (s.settings.policy.admits b = false → calls = [] ∧ t.result? i = some (.ok .duplicate)) ∧
        (∀ r, t.status? i = some (.running r) → (r.reserved = true ↔ b = .ok true)) ∧
        (t.isRunning i = true ∨ b ≠ .ok true → closing = []) ∧
        ∀ r, t.result? i = some r → (s.settings.policy.admits b = true → calls ≠ []) ∧
          (b = .ok true → ∃ x,
            (∀ o, r = .ok o → closing = [.command (.set ("idem:event:" ++ e.eventId.text) "done"
              (max s.settings.terms.done.secs 1)) x]) ∧
            ∀ y, r = .error y →
              closing = [.command (.delete ("idem:event:" ++ e.eventId.text)) x])) ∧
    ∀ r inside v u l', t.status? i = some (.running r) → t.cancel i inside = some v →
      v.Plays i u l' →
      if r.reserved && inside then
        (i, r.writing.event.eventId) ∈ u.releases ∧ u.did i = t.did i ∨
          ¬u.Leaves i ∧
            ∃ x, u.did i = t.did i ++
              [.command (.delete ("idem:event:" ++ r.writing.event.eventId.text)) x]
      else ¬u.Leaves i ∧ u.did i = t.did i := by
  have hown := hp.own hs.own
  have hspoken := hp.spoken hs.own hs.spoken
  have hdealt := hp.dealt hs
  refine ⟨fun raw flaw _ => ⟨acts_submit t raw, outbox_submit t raw, releases_submit t raw⟩,
    fun he hsome => ?_, fun e he => ?_, fun r inside v u l' hi hv hu => ?_⟩
  · obtain ⟨st, hi⟩ := Option.isSome_iff_exists.1 hsome
    obtain ⟨hd, flaw, rfl⟩ := hdealt.invalid st hi he
    refine ⟨hd, ?_, by simp [advance, hi], by simp [cancel, hi], flaw, result?_eq_some.2 hi⟩
    rintro ⟨id, hid⟩
    cases hi.symm.trans (hspoken.left i id hid).1
  · obtain ⟨st, hi⟩ := Option.isSome_iff_exists.1 (isSome_status?_of_event? he)
    have hst := hdealt.valid st e hi he
    rw [hp.settings] at hst
    by_cases hres : ∃ event, st = .reserving event
    · obtain ⟨event, rfl⟩ := hres
      cases (hown i _ _ hi rfl).symm.trans he
      exact .inl ⟨hi, hst⟩
    · obtain ⟨b, calls, closing, hd, hno, hrun, hend, hret⟩ :=
        hst.tried fun event hev => hres ⟨event, hev⟩
      refine .inr ⟨b, calls, closing, hd, fun hb => ?_, fun r hr => ?_, fun hor => hend ?_,
        fun r hr => ?_⟩
      · obtain ⟨hnone, rfl⟩ := hno hb
        exact ⟨hnone, result?_eq_some.2 hi⟩
      · exact hrun r (Option.some.inj (hi.symm.trans hr))
      · refine hor.imp_left fun hr => ?_
        unfold isRunning at hr
        rw [hi] at hr
        exact ⟨fun r hst => by simp [hst] at hr, fun hst => by simp [hst] at hr⟩
      · obtain ⟨hcalls, hclosed⟩ := hret r (Option.some.inj (hi.symm.trans (result?_eq_some.1 hr)))
        refine ⟨hcalls, fun hb => ?_⟩
        obtain ⟨x, hx⟩ := hclosed hb
        refine ⟨x, fun o ho => ?_, fun y hy => ?_⟩
        · rw [hx, ho]
          rfl
        · rw [hx, hy]
          rfl
  · have hcut : t.cancel i inside = some (t.cutOff i r inside) := by simp [cancel, hi]
    cases hcut.symm.trans hv
    exact hu.after_cancel hi hown hspoken

/-- The event is inserted, but the key store fails before the reservation becomes `done`. -/
def insertedInOutage : List Action :=
  [.submit aView] ++ List.replicate 6 (.advance 0) ++ [.outage (some .timeout), .advance 0]

theorem one_command_after_insert_in_outage : ∃ t l e calls x, initial.Fresh ∧
    initial.Plays 0 t l ∧ t.event? 0 = some e ∧ t.result? 0 = some (.ok .inserted) ∧ calls ≠ [] ∧
    t.did 0 =
      .command (.setNew ("idem:event:" ++ e.eventId.text) "pending" 30) (.ok true) ::
        (calls.map .call ++
          [.command (.set ("idem:event:" ++ e.eventId.text) "done" 172800) x]) := by
  obtain ⟨t, ht⟩ := Option.isSome_iff_exists.1
    (show (initial.run insertedInOutage).isSome = true by decide +kernel)
  have hend : (initial.run insertedInOutage).map (fun t => (t.result? 0, (t.event? 0).isSome,
      (t.did 0).head?)) = some (some (.ok .inserted), true,
        some (.command (initial.settings.terms.reserve ⟨1, by decide⟩) (.ok true))) := by rfl
  rw [ht] at hend
  simp only [Option.map_some, Option.some.injEq, Prod.mk.injEq] at hend
  obtain ⟨hr, he, hfirst⟩ := hend
  obtain ⟨e, he⟩ := Option.isSome_iff_exists.1 he
  have hplays : initial.Plays 0 t _ := plays_of_run ht
  obtain ⟨-, -, hvalid, -⟩ := reservation_calls_in_order begins_initial.fresh hplays
  rcases hvalid e he with ⟨hi, -⟩ | ⟨b, calls, closing, hd, -, -, -, hret⟩
  · cases (result?_eq_some.1 hr).symm.trans hi
  · rw [hd] at hfirst
    obtain ⟨-, rfl⟩ := Act.command.inj (Option.some.inj hfirst)
    obtain ⟨hcalls, hok⟩ := hret _ hr
    obtain ⟨x, hdone, -⟩ := hok rfl
    rw [hdone _ rfl] at hd
    exact ⟨t, _, e, calls, x, begins_initial.fresh, hplays, he, hr, hcalls rfl, hd⟩

end State

end Ingest

end Intake
