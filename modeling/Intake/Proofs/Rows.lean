import Mathlib
import Intake.Proofs.Standing
import Intake.Proofs.Totals

/-!
# The rows that an event changes

`Tables.Adds` says of two tables that the second has one event more, row by row: the event is
stored, the counters of its video and the counts of the video's day have counted it (`Raised`), and
all other rows are as they were. It does not say how the store comes from the one to the other. That
carrying out the writes of an event does just this is `adds_writesOf`, and `AddsAll` is the same for
events that are added one after the other.
-/

namespace Intake

open Store (Tables)

namespace Aggregate

variable {e : Event} {u : Update}

theorem Update.ofEvent_eq_some (h : Update.ofEvent e = some u) :
    e.videoId = some u.videoId ∧ u.lastEventAt = e.timestamp ∧ u.day = e.timestamp.day ∧
      u.counters = .ofKind e.kind ∧ u.daily = .ofKind (e.dwellMs.getD 0) e.kind := by
  unfold Update.ofEvent at h
  cases hv : e.videoId with
  | none =>
    rw [hv] at h
    cases h
  | some v =>
    rw [hv] at h
    cases h
    exact ⟨rfl, rfl, rfl, rfl, rfl⟩

theorem Update.ofEvent_eq_none (h : Update.ofEvent e = none) : e.videoId = none := by
  simpa [Update.ofEvent] using h

theorem CounterDelta.ofKind_eq (k : Event.Kind) : ofKind k =
    { views := if k = .viewStart then 1 else 0
      completes := if k = .viewComplete then 1 else 0
      likes := if k = .like then 1 else 0 } := by
  cases k <;> rfl

theorem DailyDelta.ofKind_eq (ms : Int64) (k : Event.Kind) : ofKind ms k =
    { views := if k = .viewStart then 1 else 0
      completes := if k = .viewComplete then 1 else 0
      likes := if k = .like then 1 else 0
      clicks := if k = .clickResult then 1 else 0
      impressions := if k = .searchQuery then 1 else 0
      dwellMs := ms } := by
  cases k <;> rfl

/-- The counters of a video have counted one more event: what there is one more of is its kind, and
its time is the newest unless an older one was newer. -/
structure VideoCounters.Raised (before : Option VideoCounters) (e : Event) (after : VideoCounters) :
    Prop where
  videoId : some after.videoId = (before.map (·.videoId)).or e.videoId
  views : after.views = (before.map (·.views)).getD 0 + if e.kind = .viewStart then 1 else 0
  completes : after.completes =
    (before.map (·.completes)).getD 0 + if e.kind = .viewComplete then 1 else 0
  likes : after.likes = (before.map (·.likes)).getD 0 + if e.kind = .like then 1 else 0
  lastEventAt : after.lastEventAt = before.elim e.timestamp fun row =>
    if row.lastEventAt ≤ e.timestamp then e.timestamp else row.lastEventAt

/-- The counts of a day have counted one more event, and its dwell as far as 64 bits go. -/
structure VideoDaily.Raised (before : Option VideoDaily) (e : Event) (after : VideoDaily) :
    Prop where
  videoId : some after.videoId = (before.map (·.videoId)).or e.videoId
  day : after.day = (before.map (·.day)).getD e.timestamp.day
  views : after.views = (before.map (·.views)).getD 0 + if e.kind = .viewStart then 1 else 0
  completes : after.completes =
    (before.map (·.completes)).getD 0 + if e.kind = .viewComplete then 1 else 0
  likes : after.likes = (before.map (·.likes)).getD 0 + if e.kind = .like then 1 else 0
  clicks : after.clicks = (before.map (·.clicks)).getD 0 + if e.kind = .clickResult then 1 else 0
  impressions : after.impressions =
    (before.map (·.impressions)).getD 0 + if e.kind = .searchQuery then 1 else 0
  dwellMs : after.dwellMs.toInt = max (-2 ^ 63) (min
    ((before.elim 0 fun row => row.dwellMs.toInt) + (e.dwellMs.getD 0).toInt) (2 ^ 63 - 1))

theorem VideoCounters.raised_upsert (hu : Update.ofEvent e = some u)
    (before : Option VideoCounters) : Raised before e (.upsert before u) := by
  obtain ⟨hv, ht, -, hc, -⟩ := Update.ofEvent_eq_some hu
  rw [CounterDelta.ofKind_eq] at hc
  cases before with
  | none => constructor <;> simp [upsert, ofUpdate, hc, hv, ht]
  | some row =>
    constructor
    case lastEventAt =>
      show (if row.lastEventAt ≤ u.lastEventAt then u.lastEventAt else row.lastEventAt) = _
      rw [ht]
      rfl
    all_goals simp [upsert, apply, hc]

theorem VideoDaily.raised_upsert (hu : Update.ofEvent e = some u) (before : Option VideoDaily) :
    Raised before e (.upsert before u) := by
  obtain ⟨hv, -, hday, -, hc⟩ := Update.ofEvent_eq_some hu
  rw [DailyDelta.ofKind_eq] at hc
  cases before with
  | none =>
    constructor
    case dwellMs =>
      have hge := (e.dwellMs.getD 0).le_toInt
      have hlt := (e.dwellMs.getD 0).toInt_lt
      simp only [upsert, ofUpdate, hc, Option.elim_none]
      omega
    all_goals simp [upsert, ofUpdate, hc, hv, hday]
  | some row =>
    constructor
    case dwellMs =>
      simp only [upsert, apply, hc, toInt_addSaturating, Option.elim_some]
    all_goals simp [upsert, apply, hc]

end Aggregate

namespace Store.Tables

open Aggregate (Update VideoCounters VideoDaily)

variable {s t u : Tables} {e x : Event} {es : List Event}

/-- The tables `t` are `s` with the event `e` stored and counted, and nothing else changed. -/
structure Adds (s : Tables) (e : Event) (t : Tables) : Prop where
  event : ∀ id, t.events.get? id = if id = e.eventId then some e else s.events.get? id
  counters : ∀ v, e.videoId = some v →
    ∃ row, t.counters.get? v = some row ∧ VideoCounters.Raised (s.counters.get? v) e row
  daily : ∀ v, e.videoId = some v →
    ∃ row, t.daily.get? (v, e.timestamp.day) = some row ∧
      VideoDaily.Raised (s.daily.get? (v, e.timestamp.day)) e row
  otherVideos : ∀ v, e.videoId ≠ some v → t.counters.get? v = s.counters.get? v
  otherDays : ∀ v day, e.videoId ≠ some v ∨ day ≠ e.timestamp.day →
    t.daily.get? (v, day) = s.daily.get? (v, day)

theorem counters_writesOf {u : Update} (hu : Update.ofEvent e = some u) (v : Uuid) :
    (t.apply (writesOf e)).counters.get? v =
      if v = u.videoId then some (.upsert (t.counters.get? v) u) else t.counters.get? v := by
  simp only [writesOf, hu]
  show (t.counters.upsert u.videoId fun row => .upsert row u).get? v = _
  rw [Keyed.get?_upsert]
  by_cases hv : v = u.videoId
  · rw [if_pos hv, if_pos hv, hv]
  · rw [if_neg hv, if_neg hv]

theorem daily_writesOf {u : Update} (hu : Update.ofEvent e = some u) (v : Uuid) (day : Int) :
    (t.apply (writesOf e)).daily.get? (v, day) =
      if v = u.videoId ∧ day = u.day then some (.upsert (t.daily.get? (v, day)) u)
      else t.daily.get? (v, day) := by
  simp only [writesOf, hu]
  show (t.daily.upsert (u.videoId, u.day) fun row => .upsert row u).get? (v, day) = _
  rw [Keyed.get?_upsert]
  by_cases hv : v = u.videoId ∧ day = u.day
  · rw [if_pos (by simp [hv]), if_pos hv, hv.1, hv.2]
  · rw [if_neg (by simpa using hv), if_neg hv]

/-- An event that is about no video changes no counts. -/
theorem rows_writesOf_none (hu : Update.ofEvent e = none) :
    (t.apply (writesOf e)).counters = t.counters ∧ (t.apply (writesOf e)).daily = t.daily := by
  simp only [writesOf, hu]
  exact ⟨rfl, rfl⟩

/-- Carrying out the writes of an event adds it. -/
theorem adds_writesOf (t : Tables) (e : Event) : t.Adds e (t.apply (writesOf e)) := by
  have hevent : ∀ id, (t.apply (writesOf e)).events.get? id =
      if id = e.eventId then some e else t.events.get? id := by
    intro id
    rw [events_writesOf, Keyed.get?_set]
  cases hu : Update.ofEvent e with
  | none =>
    obtain ⟨hcounters, hdaily⟩ := rows_writesOf_none (t := t) hu
    have hno : ∀ v, e.videoId ≠ some v := by simp [Update.ofEvent_eq_none hu]
    exact ⟨hevent, fun v hv => absurd hv (hno v), fun v hv => absurd hv (hno v),
      fun v _ => by rw [hcounters], fun v day _ => by rw [hdaily]⟩
  | some u =>
    obtain ⟨hv, -, hday, -⟩ := Update.ofEvent_eq_some hu
    refine ⟨hevent, fun v hev => ?_, fun v hev => ?_, fun v hne => ?_, fun v day hne => ?_⟩
    · cases Option.some.inj (hv.symm.trans hev)
      rw [counters_writesOf hu, if_pos rfl]
      exact ⟨_, rfl, VideoCounters.raised_upsert hu _⟩
    · cases Option.some.inj (hv.symm.trans hev)
      rw [daily_writesOf hu, if_pos ⟨rfl, hday.symm⟩]
      exact ⟨_, rfl, VideoDaily.raised_upsert hu _⟩
    · rw [counters_writesOf hu, if_neg]
      rintro rfl
      exact hne hv
    · rw [daily_writesOf hu, if_neg]
      rintro ⟨rfl, rfl⟩
      exact hne.elim (fun h => h hv) fun h => h hday

/-- The events `es` are new and added to `s` one after the other. -/
inductive AddsAll (s : Tables) : List Event → Tables → Prop
  | nil : s.AddsAll [] s
  | concat {es : List Event} {e : Event} {t u : Tables} (h : s.AddsAll es t)
    (hnew : t.events.get? e.eventId = none) (he : t.Adds e u) : s.AddsAll (es ++ [e]) u

/-- What was added is stored. -/
theorem AddsAll.get?_of_mem (h : s.AddsAll es t) (hx : x ∈ es) :
    t.events.get? x.eventId = some x := by
  induction h with
  | nil => cases hx
  | @concat es e t u _ hnew he ih =>
    rw [he.event]
    rcases List.mem_append.1 hx with hx | hx
    · have hne : x.eventId ≠ e.eventId := by
        intro hid
        cases hnew.symm.trans (hid ▸ ih hx)
      rw [if_neg hne]
      exact ih hx
    · rw [List.mem_singleton.1 hx, if_pos rfl]

end Store.Tables

end Intake
