import Mathlib
import Intake.Proofs.Rows

/-!
# Rows that tally with the events

`Tally` says what the three tables have to do with a list of events: the event table holds them and
nothing else, and the counters and the days count each of them once, neither more nor less. The
tables of no event tally, and `Tally.write` is the step: carrying out all the writes of one new
event keeps the tables in tally with the events and that one. What becomes of each row is said by
`Raised`, so that counting is about rows and not about updates.
-/

namespace Intake

open Store (Tables)

namespace Keyed

variable {κ α : Type} [DecidableEq κ]

theorem put_of_look_none {k : κ} {l : List (κ × α)} (h : look k l = none) (f : Option α → α) :
    put k f l = l ++ [(k, f none)] := by
  induction l with
  | nil => rfl
  | cons p rest ih =>
    obtain ⟨k', a⟩ := p
    by_cases hk : k' = k
    · simp [look, hk] at h
    · simp only [look, hk, if_false] at h
      simp [put, hk, ih h]

theorem pairs_set_of_new {m : Keyed κ α} {k : κ} (h : m.has k = false) (a : α) :
    (m.set k a).pairs = m.pairs ++ [(k, a)] :=
  put_of_look_none (by simpa [has, get?] using h) _

theorem values_set_of_new {m : Keyed κ α} {k : κ} (h : m.has k = false) (a : α) :
    (m.set k a).values = m.values ++ [a] := by
  simp [values, pairs_set_of_new h]

theorem has_of_mem_pairs {m : Keyed κ α} {k : κ} {a : α} (h : (k, a) ∈ m.pairs) :
    m.has k = true := by
  obtain ⟨l⟩ := m
  simp only [has, get?] at h ⊢
  induction l with
  | nil => cases h
  | cons p rest ih =>
    obtain ⟨k', b⟩ := p
    by_cases hk : k' = k
    · simp [look, hk]
    · rcases List.mem_cons.1 h with e | h
      · cases e
        exact absurd rfl hk
      · simpa [look, hk] using ih h

end Keyed

namespace Event

/-- The dwell that an event tells of, in milliseconds. -/
def dwell (e : Event) : Int := (e.dwellMs.getD 0).toInt

/-- A valid event tells of a dwell between nothing and a day. -/
theorem dwell_of_ofRaw {raw : RawEvent} {e : Event} (h : ofRaw raw = .ok e) :
    0 ≤ e.dwell ∧ e.dwell ≤ 86400000 := by
  have hms : e.dwellMs = raw.dwellMs ∧ ∀ ms, raw.dwellMs = some ms → 0 ≤ ms ∧ ms ≤ maxDwellMs := by
    unfold ofRaw at h
    cases hd : raw.dwellMs with
    | none =>
      simp only [hd, bind, Except.bind, pure, Except.pure, throw, throwThe,
        MonadExceptOf.throw] at h
      repeat' split at h
      all_goals cases h
      simp
    | some ms =>
      simp only [hd, bind, Except.bind, pure, Except.pure, throw, throwThe,
        MonadExceptOf.throw] at h
      repeat' split at h
      all_goals cases h
      simp_all
  obtain ⟨he, hb⟩ := hms
  unfold dwell
  rw [he]
  cases hd : raw.dwellMs with
  | none => decide
  | some ms =>
    obtain ⟨h0, h1⟩ := hb ms hd
    exact ⟨Int64.le_iff_toInt_le.1 h0, Int64.le_iff_toInt_le.1 h1⟩

/-- How many of these events are of a kind. -/
def count (k : Kind) (es : List Event) : Nat := es.countP (·.kind = k)

@[simp] theorem count_nil (k : Kind) : count k [] = 0 := rfl

theorem count_concat (k : Kind) (es : List Event) (e : Event) :
    count k (es ++ [e]) = count k es + if e.kind = k then 1 else 0 := by
  simp [count, List.countP_append, List.countP_cons]

theorem count_le (k : Kind) (es : List Event) : count k es ≤ es.length := List.countP_le_length

theorem dwell_sum_nonneg {es : List Event} (h : ∀ e ∈ es, 0 ≤ e.dwell) :
    0 ≤ (es.map dwell).sum := by
  induction es with
  | nil => exact Int.le_refl _
  | cons e es ih =>
    rw [List.map_cons, List.sum_cons]
    exact Int.add_nonneg (h e (by simp)) (ih fun x hx => h x (by simp [hx]))

/-- The events of a video. -/
def ofVideo (v : Uuid) (es : List Event) : List Event := es.filter (·.videoId = some v)

/-- The events of a video on one day. -/
def ofDay (v : Uuid) (day : Int) (es : List Event) : List Event :=
  es.filter fun e => e.videoId = some v ∧ e.timestamp.day = day

end Event

namespace Aggregate

theorem toInt_add_if {a : Int64} {n : Nat} (h : a.toInt = n) (hn : n + 1 < 2 ^ 63) (c : Prop)
    [Decidable c] : (a + if c then 1 else 0).toInt = ((n + if c then 1 else 0 : Nat) : Int) := by
  have ha : a = .ofNat n := Int64.toInt.inj (by rw [h, Int64.toInt_ofNat_of_lt (by omega)])
  have hs : (a + if c then 1 else 0) = .ofNat (n + if c then 1 else 0) := by
    rw [Int64.ofNat_add, ha]
    split <;> rfl
  rw [hs]
  exact Int64.toInt_ofNat_of_lt (by split <;> omega)

variable {es : List Event} {e : Event} {v : Uuid} {day : Int}

theorem toInt_count_concat {a : Int64} {k : Event.Kind} (h : a.toInt = Event.count k es)
    (hn : es.length + 1 < 2 ^ 63) :
    (a + if e.kind = k then 1 else 0).toInt = Event.count k (es ++ [e]) := by
  rw [Event.count_concat]
  exact toInt_add_if h (by have := Event.count_le k es; omega) _

/-- A count of a row that may not be there yet, after one more event. -/
theorem toInt_count_raised {ρ : Type} {before : Option ρ} {f : ρ → Int64} {k : Event.Kind}
    (hnone : before = none → es = []) (hsome : ∀ row ∈ before, (f row).toInt = Event.count k es)
    (hn : es.length + 1 < 2 ^ 63) :
    ((before.map f).getD 0 + if e.kind = k then 1 else 0).toInt = Event.count k (es ++ [e]) := by
  refine toInt_count_concat ?_ hn
  cases before with
  | none =>
    cases hnone rfl
    rfl
  | some row => exact hsome row rfl

/-! ### Counters of a video -/

namespace VideoCounters

/-- The row counts exactly these events. -/
structure Counts (row : VideoCounters) (es : List Event) : Prop where
  views : row.views.toInt = Event.count .viewStart es
  completes : row.completes.toInt = Event.count .viewComplete es
  likes : row.likes.toInt = Event.count .like es
  attained : ∃ e ∈ es, e.timestamp = row.lastEventAt
  newest : ∀ e ∈ es, e.timestamp ≤ row.lastEventAt

/-- There is a row of `v` if there are events, and it counts exactly these. -/
def Tally (v : Uuid) (es : List Event) : Option VideoCounters → Prop
  | none => es = []
  | some row => es ≠ [] ∧ row.videoId = v ∧ row.Counts es

theorem Tally.raise {before : Option VideoCounters} {after : VideoCounters}
    (h : Tally v es before) (hr : Raised before e after) (hv : e.videoId = some v)
    (hn : es.length + 1 < 2 ^ 63) : Tally v (es ++ [e]) (some after) := by
  have hnone : before = none → es = [] := by
    rintro rfl
    exact h
  have hsome : ∀ row ∈ before, Counts row es := by
    rintro row ⟨⟩
    exact h.2.2
  have hid : after.videoId = v := by
    have hid := hr.videoId
    cases before with
    | none => exact Option.some.inj (hid.trans hv)
    | some row => exact (Option.some.inj hid).trans h.2.1
  refine ⟨by simp, hid, ?_, ?_, ?_, ?_, ?_⟩
  · rw [hr.views]
    exact toInt_count_raised hnone (fun row hrow => (hsome row hrow).views) hn
  · rw [hr.completes]
    exact toInt_count_raised hnone (fun row hrow => (hsome row hrow).completes) hn
  · rw [hr.likes]
    exact toInt_count_raised hnone (fun row hrow => (hsome row hrow).likes) hn
  · have htime := hr.lastEventAt
    cases before with
    | none => exact ⟨e, by simp, htime.symm⟩
    | some row =>
      obtain ⟨x, hx, hxt⟩ := h.2.2.attained
      rw [htime, Option.elim_some]
      split
      · exact ⟨e, by simp, rfl⟩
      · exact ⟨x, by simp [hx], hxt⟩
  · have htime := hr.lastEventAt
    cases before with
    | none =>
      cases h
      rintro x (_ | ⟨_, ⟨⟩⟩)
      rw [htime]
      exact Int.le_refl _
    | some row =>
      rw [htime, Option.elim_some]
      intro x hx
      rcases List.mem_append.1 hx with hx | hx
      · have hle : x.timestamp.rank ≤ row.lastEventAt.rank := h.2.2.newest x hx
        split
        · next hlt => exact Int.le_trans hle hlt
        · exact hle
      · rw [List.mem_singleton.1 hx]
        split
        · exact Int.le_refl _
        · next hlt => exact Int.le_of_lt (Int.not_le.1 hlt)

end VideoCounters

/-! ### Days of a video -/

namespace VideoDaily

/-- The row counts exactly these events; the dwell stops at the greatest number of 64 bits. -/
structure Counts (row : VideoDaily) (es : List Event) : Prop where
  views : row.views.toInt = Event.count .viewStart es
  completes : row.completes.toInt = Event.count .viewComplete es
  likes : row.likes.toInt = Event.count .like es
  clicks : row.clicks.toInt = Event.count .clickResult es
  impressions : row.impressions.toInt = Event.count .searchQuery es
  dwell : row.dwellMs.toInt = min (2 ^ 63 - 1) (es.map Event.dwell).sum

/-- There is a row of `v` and `day` if there are events, and it counts exactly these. -/
def Tally (v : Uuid) (day : Int) (es : List Event) : Option VideoDaily → Prop
  | none => es = []
  | some row => es ≠ [] ∧ row.videoId = v ∧ row.day = day ∧ row.Counts es

theorem Tally.raise {before : Option VideoDaily} {after : VideoDaily}
    (h : Tally v day es before) (hr : Raised before e after) (hv : e.videoId = some v)
    (hday : e.timestamp.day = day) (hn : es.length + 1 < 2 ^ 63)
    (hes : 0 ≤ (es.map Event.dwell).sum) (hd : 0 ≤ e.dwell) :
    Tally v day (es ++ [e]) (some after) := by
  have hnone : before = none → es = [] := by
    rintro rfl
    exact h
  have hsome : ∀ row ∈ before, Counts row es := by
    rintro row ⟨⟩
    exact h.2.2.2
  have hkey : after.videoId = v ∧ after.day = day := by
    have hid := hr.videoId
    have hrday := hr.day
    cases before with
    | none => exact ⟨Option.some.inj (hid.trans hv), hrday.trans hday⟩
    | some row => exact ⟨(Option.some.inj hid).trans h.2.1, hrday.trans h.2.2.1⟩
  have hold : (before.elim 0 fun row => row.dwellMs.toInt) =
      min (2 ^ 63 - 1) (es.map Event.dwell).sum := by
    cases before with
    | none =>
      cases h
      rfl
    | some row => exact h.2.2.2.dwell
  refine ⟨by simp, hkey.1, hkey.2, ?_, ?_, ?_, ?_, ?_, ?_⟩
  · rw [hr.views]
    exact toInt_count_raised hnone (fun row hrow => (hsome row hrow).views) hn
  · rw [hr.completes]
    exact toInt_count_raised hnone (fun row hrow => (hsome row hrow).completes) hn
  · rw [hr.likes]
    exact toInt_count_raised hnone (fun row hrow => (hsome row hrow).likes) hn
  · rw [hr.clicks]
    exact toInt_count_raised hnone (fun row hrow => (hsome row hrow).clicks) hn
  · rw [hr.impressions]
    exact toInt_count_raised hnone (fun row hrow => (hsome row hrow).impressions) hn
  · have hsum : ((es ++ [e]).map Event.dwell).sum = (es.map Event.dwell).sum + e.dwell := by simp
    rw [hr.dwellMs, hold, hsum]
    show max (-2 ^ 63) (min (min (2 ^ 63 - 1) (es.map Event.dwell).sum + e.dwell) (2 ^ 63 - 1)) = _
    omega

end VideoDaily

end Aggregate

namespace Store.Tables

open Aggregate (VideoCounters VideoDaily)
open Event (ofVideo ofDay)

variable {t u : Tables} {es : List Event} {e : Event}

/-- The tables hold these events, each once, and count each of them once. -/
structure Tally (t : Tables) (es : List Event) : Prop where
  events : t.events.pairs = es.map fun e => (e.eventId, e)
  nodup : (es.map (·.eventId)).Nodup
  counters : ∀ v, VideoCounters.Tally v (ofVideo v es) (t.counters.get? v)
  daily : ∀ v day, VideoDaily.Tally v day (ofDay v day es) (t.daily.get? (v, day))

theorem tally_empty : empty.Tally [] := ⟨rfl, .nil, fun _ => rfl, fun _ _ => rfl⟩

theorem ofVideo_concat (v : Uuid) : ofVideo v (es ++ [e]) =
    if e.videoId = some v then ofVideo v es ++ [e] else ofVideo v es := by
  unfold ofVideo
  rw [List.filter_append]
  by_cases h : e.videoId = some v <;> simp [h]

theorem ofDay_concat (v : Uuid) (day : Int) : ofDay v day (es ++ [e]) =
    if e.videoId = some v ∧ e.timestamp.day = day then ofDay v day es ++ [e]
    else ofDay v day es := by
  unfold ofDay
  rw [List.filter_append]
  by_cases h : e.videoId = some v ∧ e.timestamp.day = day <;> simp [h]

namespace Tally

theorem counters_adds (h : t.Tally es) (ha : t.Adds e u) (hn : es.length + 1 < 2 ^ 63) (v : Uuid) :
    VideoCounters.Tally v (ofVideo v (es ++ [e])) (u.counters.get? v) := by
  have hlen : (ofVideo v es).length ≤ es.length := List.length_filter_le ..
  rw [ofVideo_concat]
  by_cases hv : e.videoId = some v
  · obtain ⟨row, hrow, hraised⟩ := ha.counters v hv
    rw [if_pos hv, hrow]
    exact (h.counters v).raise hraised hv (by omega)
  · rw [if_neg hv, ha.otherVideos v hv]
    exact h.counters v

theorem daily_adds (h : t.Tally es) (ha : t.Adds e u) (hn : es.length + 1 < 2 ^ 63)
    (hes : ∀ x ∈ es, 0 ≤ x.dwell) (he : 0 ≤ e.dwell) (v : Uuid) (day : Int) :
    VideoDaily.Tally v day (ofDay v day (es ++ [e])) (u.daily.get? (v, day)) := by
  have hlen : (ofDay v day es).length ≤ es.length := List.length_filter_le ..
  have hsum : 0 ≤ ((ofDay v day es).map Event.dwell).sum :=
    Event.dwell_sum_nonneg fun x hx => hes x (List.mem_filter.1 hx).1
  rw [ofDay_concat]
  by_cases hk : e.videoId = some v ∧ e.timestamp.day = day
  · obtain ⟨hv, rfl⟩ := hk
    obtain ⟨row, hrow, hraised⟩ := ha.daily v hv
    rw [if_pos ⟨hv, rfl⟩, hrow]
    exact (h.daily v _).raise hraised hv rfl (by omega) hsum he
  · have hother : e.videoId ≠ some v ∨ day ≠ e.timestamp.day :=
      (not_and_or.1 hk).imp_right Ne.symm
    rw [if_neg hk, ha.otherDays v day hother]
    exact h.daily v day

/-- Carrying out all the writes of a new event adds it to the events that are held and counted. -/
theorem write (h : t.Tally es) (hnew : t.events.has e.eventId = false)
    (hn : es.length + 1 < 2 ^ 63) (hes : ∀ x ∈ es, 0 ≤ x.dwell)
    (he : 0 ≤ e.dwell) : (t.apply (writesOf e)).Tally (es ++ [e]) where
  events := by
    rw [events_writesOf, Keyed.pairs_set_of_new hnew, h.events]
    simp
  nodup := by
    rw [List.map_append, List.nodup_append]
    refine ⟨h.nodup, by simp, fun id hid x hx => ?_⟩
    obtain ⟨y, hy, rfl⟩ := List.mem_map.1 hid
    rw [List.map_singleton, List.mem_singleton] at hx
    rintro rfl
    have hmem : (y.eventId, y) ∈ t.events.pairs := by
      rw [h.events]
      exact List.mem_map.2 ⟨y, hy, rfl⟩
    rw [← hx, Keyed.has_of_mem_pairs hmem] at hnew
    cases hnew
  counters := h.counters_adds (adds_writesOf t e) hn
  daily := h.daily_adds (adds_writesOf t e) hn hes he

end Tally

end Store.Tables

end Intake
