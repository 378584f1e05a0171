import Intake.Aggregate.Update

/-!
# What validation accepts, and what it reports

`RawEvent.Valid` lists what a raw event has to be, and `RawEvent.Breaks` how it may fail, rule by
rule. Both are said of the fields as they were submitted; `Event.ofRaw` drops zero identifiers and
empty queries on its way, so that the two meet only in `ofRaw_cases`, which goes through the rules
in their order: the flaw that is reported is broken and nothing before it is, and an event that
passes is the normal form of what was submitted.

A raw event breaks each rule in one way at most (`Breaks.eq_of_place`), so the first flaw is unique
and `ofRaw_cases` has a converse.
-/

namespace Intake

open Event (Kind Flaw present)

namespace RawEvent

/-- An event that meets every rule. -/
structure Valid (raw : RawEvent) : Prop where
  eventId : ∃ id, raw.eventId = some id ∧ id ≠ Uuid.zero
  sessionId : raw.sessionId ≠ ""
  kind : raw.kind ∈ ["view_start", "view_complete", "like", "search_query", "click_result"]
  timestamp : ∃ t, raw.timestamp = some t ∧ t ≠ Instant.epoch
  video : raw.kind ≠ "search_query" → ∃ id, raw.videoId = some id ∧ id ≠ Uuid.zero
  query : raw.kind ∈ ["search_query", "click_result"] → ∃ q, raw.query = some q ∧ q ≠ ""
  dwell : ∀ ms, raw.dwellMs = some ms → 0 ≤ ms.toInt ∧ ms.toInt ≤ 86400000

/-- The ways in which an event breaks a rule. -/
inductive Breaks (raw : RawEvent) : Flaw → Prop
  | eventId (h : raw.eventId = none ∨ raw.eventId = some Uuid.zero) : raw.Breaks .missingEventId
  | sessionId (h : raw.sessionId = "") : raw.Breaks .missingSessionId
  | kind (h : raw.kind = "") : raw.Breaks .missingKind
  | timestamp (h : raw.timestamp = none ∨ raw.timestamp = some Instant.epoch) :
    raw.Breaks .missingTimestamp
  | unknown (h : ∀ k : Kind, raw.kind ≠ k.name) : raw.Breaks (.unknownKind raw.kind)
  | video {k : Kind} (hk : raw.kind = k.name) (hneeds : k ≠ .searchQuery)
    (h : raw.videoId = none ∨ raw.videoId = some Uuid.zero) : raw.Breaks (.missingVideoId k)
  | query {k : Kind} (hk : raw.kind = k.name) (hneeds : k = .searchQuery ∨ k = .clickResult)
    (h : raw.query = none ∨ raw.query = some "") : raw.Breaks (.missingQuery k)
  | negative {ms : Int64} (h : raw.dwellMs = some ms) (hlt : ms.toInt < 0) :
    raw.Breaks (.negativeDwell ms)
  | tooLarge {ms : Int64} (h : raw.dwellMs = some ms) (hlt : 86400000 < ms.toInt) :
    raw.Breaks (.dwellTooLarge ms)

/-- The event without what stands for a missing value: zero identifiers of the user and the video,
and an empty query. -/
def normal (raw : RawEvent) : RawEvent :=
  { raw with
    userId := if raw.userId = some Uuid.zero then none else raw.userId
    videoId := if raw.videoId = some Uuid.zero then none else raw.videoId
    query := if raw.query = some "" then none else raw.query }

end RawEvent

theorem Event.Kind.name_injective {k k' : Kind} (h : k.name = k'.name) : k = k' := by
  have hread := ofName?_name k
  rw [h, ofName?_name] at hread
  exact (Option.some.inj hread).symm

/-- The place of a flaw's rule among the rules. -/
def Event.Flaw.place : Flaw → Nat
  | missingEventId => 0
  | missingSessionId => 1
  | missingKind => 2
  | missingTimestamp => 3
  | unknownKind _ => 4
  | missingVideoId _ => 5
  | missingQuery _ => 6
  | negativeDwell _ => 7
  | dwellTooLarge _ => 8

theorem Event.Flaw.place_lt (flaw : Flaw) : flaw.place < 9 := by
  cases flaw <;> simp [place]

namespace RawEvent

variable {raw : RawEvent} {flaw other : Flaw} {k : Kind}

/-- The first rule that the event breaks is the one of this flaw. -/
def First (raw : RawEvent) (flaw : Flaw) : Prop :=
  raw.Breaks flaw ∧ ∀ other, raw.Breaks other → flaw.place ≤ other.place

theorem Breaks.eq_of_place (h : raw.Breaks flaw) (h' : raw.Breaks other)
    (hp : flaw.place = other.place) : flaw = other := by
  -- two flaws of one place are built alike, and what they carry is read off the event
  cases h <;> cases h' <;> first | rfl | cases hp
  case video.video hk _ _ _ hk' _ _ => rw [Kind.name_injective (hk.symm.trans hk')]
  case query.query hk _ _ _ hk' _ _ => rw [Kind.name_injective (hk.symm.trans hk')]
  case negative.negative h _ _ h' _ => rw [Option.some.inj (h.symm.trans h')]
  case tooLarge.tooLarge h _ _ h' _ => rw [Option.some.inj (h.symm.trans h')]

theorem First.unique (h : raw.First flaw) (h' : raw.First other) : flaw = other :=
  h.1.eq_of_place h'.1 (Nat.le_antisymm (h.2 _ h'.1) (h'.2 _ h.1))

/-- The event breaks none of the first `n` rules. -/
def Passes (raw : RawEvent) (n : Nat) : Prop := ∀ other, raw.Breaks other → n ≤ other.place

theorem Passes.succ {n : Nat} (h : raw.Passes n)
    (hn : ∀ other, raw.Breaks other → other.place ≠ n) : raw.Passes (n + 1) := by
  intro other hb
  have hle := h other hb
  have hne := hn other hb
  omega

theorem kind_known_iff :
    raw.kind ∈ ["view_start", "view_complete", "like", "search_query", "click_result"] ↔
      ∃ k : Kind, raw.kind = k.name := by
  constructor
  · intro h
    simp only [List.mem_cons, List.not_mem_nil, or_false] at h
    rcases h with h | h | h | h | h
    · exact ⟨.viewStart, h⟩
    · exact ⟨.viewComplete, h⟩
    · exact ⟨.like, h⟩
    · exact ⟨.searchQuery, h⟩
    · exact ⟨.clickResult, h⟩
  · rintro ⟨k, hk⟩
    rw [hk]
    cases k <;> decide

/-- A value is there and does not stand for a missing one. -/
theorem exists_ne_iff {α : Type} {o : Option α} {a : α} :
    (∃ b, o = some b ∧ b ≠ a) ↔ ¬(o = none ∨ o = some a) := by
  cases o with
  | none => simp
  | some b => simp

theorem Valid.not_breaks (h : raw.Valid) : ¬raw.Breaks flaw := by
  intro hb
  cases hb with
  | eventId hb => exact exists_ne_iff.1 h.eventId hb
  | sessionId hb => exact h.sessionId hb
  | kind hb =>
    have hk := h.kind
    rw [hb] at hk
    revert hk
    decide
  | timestamp hb => exact exists_ne_iff.1 h.timestamp hb
  | unknown hb =>
    obtain ⟨k, hk⟩ := kind_known_iff.1 h.kind
    exact hb k hk
  | @video k hk hneeds hb =>
    have hsearch : raw.kind ≠ "search_query" := by
      rw [hk]
      revert hneeds
      cases k <;> decide
    exact exists_ne_iff.1 (h.video hsearch) hb
  | @query k hk hneeds hb =>
    have hmem : raw.kind ∈ ["search_query", "click_result"] := by
      rw [hk]
      rcases hneeds with rfl | rfl <;> decide
    exact exists_ne_iff.1 (h.query hmem) hb
  | negative hd hlt => exact Int.not_le.2 hlt (h.dwell _ hd).1
  | tooLarge hd hlt => exact Int.not_le.2 hlt (h.dwell _ hd).2

theorem Valid.of_not_breaks (h : ∀ flaw, ¬raw.Breaks flaw) : raw.Valid where
  eventId := exists_ne_iff.2 fun hb => h _ (.eventId hb)
  sessionId hb := h _ (.sessionId hb)
  kind := by
    refine kind_known_iff.2 (Classical.byContradiction fun hb => ?_)
    exact h _ (.unknown fun k hk => hb ⟨k, hk⟩)
  timestamp := exists_ne_iff.2 fun hb => h _ (.timestamp hb)
  video hk := by
    refine exists_ne_iff.2 fun hb => ?_
    refine h (.unknownKind raw.kind) (.unknown fun k hk' => ?_)
    refine h _ (.video hk' ?_ hb)
    rintro rfl
    exact hk hk'
  query hk := by
    refine exists_ne_iff.2 fun hb => ?_
    simp only [List.mem_cons, List.not_mem_nil, or_false] at hk
    rcases hk with hk | hk
    · exact h _ (.query (k := .searchQuery) hk (.inl rfl) hb)
    · exact h _ (.query (k := .clickResult) hk (.inr rfl) hb)
  dwell ms hms :=
    ⟨Int.not_lt.1 fun hlt => h _ (.negative hms hlt),
      Int.not_lt.1 fun hlt => h _ (.tooLarge hms hlt)⟩

@[simp] theorem normal_normal (raw : RawEvent) : raw.normal.normal = raw.normal := by
  simp only [normal, RawEvent.mk.injEq, true_and, and_true]
  refine ⟨?_, ?_, ?_⟩ <;> split <;> simp_all

theorem Valid.normal (h : raw.Valid) : raw.normal.Valid where
  eventId := h.eventId
  sessionId := h.sessionId
  kind := h.kind
  timestamp := h.timestamp
  video hk := by
    obtain ⟨id, hid, hne⟩ := h.video hk
    exact ⟨id, by simp [RawEvent.normal, hid, hne], hne⟩
  query hk := by
    obtain ⟨q, hq, hne⟩ := h.query hk
    exact ⟨q, by simp [RawEvent.normal, hq, hne], hne⟩
  dwell := h.dwell

end RawEvent

namespace Event

variable {raw : RawEvent} {flaw : Flaw} {e : Event}

theorem needsVideo_iff {k : Kind} : k.needsVideo = true ↔ k ≠ .searchQuery := by
  cases k <;> decide

theorem needsQuery_iff {k : Kind} : k.needsQuery = true ↔ k = .searchQuery ∨ k = .clickResult := by
  cases k <;> decide

theorem filter_ne_eq_none {α : Type} [DecidableEq α] {a : α} {o : Option α} :
    o.filter (· ≠ a) = none ↔ o = none ∨ o = some a := by
  cases o <;> simp [Option.filter]

theorem filter_ne_eq_ite {α : Type} [DecidableEq α] (a : α) (o : Option α) :
    o.filter (· ≠ a) = if o = some a then none else o := by
  cases o with
  | none => rfl
  | some b => by_cases hb : b = a <;> simp [Option.filter, hb]

/-- A flaw is reported, and it is the first. -/
def Reported (raw : RawEvent) : Prop := ∃ flaw, ofRaw raw = .error flaw ∧ raw.First flaw

/-- The fields that every event has are there. -/
structure Common (raw : RawEvent) (id : Uuid) (t : Instant) : Prop where
  eventId : present raw.eventId = some id
  sessionId : raw.sessionId ≠ ""
  kind : raw.kind ≠ ""
  timestamp : raw.timestamp.filter (· ≠ Instant.epoch) = some t

/-- The type is known, and what it asks for is there. -/
structure Typed (raw : RawEvent) (k : Kind) : Prop where
  kind : Kind.ofName? raw.kind = some k
  video : ¬(k.needsVideo ∧ present raw.videoId = none)
  query : ¬(k.needsQuery ∧ raw.query.filter (· ≠ "") = none)

theorem reported_or_common (raw : RawEvent) :
    Reported raw ∨ ∃ id t, Common raw id t ∧ raw.Passes 4 := by
  have hzero : raw.Passes 0 := fun _ _ => Nat.zero_le _
  cases hid : present raw.eventId with
  | none =>
    refine .inl ⟨.missingEventId, ?_, .eventId (filter_ne_eq_none.1 hid), hzero⟩
    simp [ofRaw, hid, throw, throwThe, MonadExceptOf.throw]
  | some id =>
  have hone : raw.Passes 1 := hzero.succ fun other hb hp => by
    cases hb <;> cases hp
    case eventId h => cases (filter_ne_eq_none.2 h).symm.trans hid
  by_cases hs : raw.sessionId = ""
  · refine .inl ⟨.missingSessionId, ?_, .sessionId hs, hone⟩
    simp [ofRaw, hid, hs, throw, throwThe, MonadExceptOf.throw, bind, Except.bind]
  have htwo : raw.Passes 2 := hone.succ fun other hb hp => by
    cases hb <;> cases hp
    case sessionId h => exact hs h
  by_cases hk : raw.kind = ""
  · refine .inl ⟨.missingKind, ?_, .kind hk, htwo⟩
    simp [ofRaw, hid, hs, hk, throw, throwThe, MonadExceptOf.throw, bind, Except.bind]
  have hthree : raw.Passes 3 := htwo.succ fun other hb hp => by
    cases hb <;> cases hp
    case kind h => exact hk h
  cases ht : raw.timestamp.filter (· ≠ Instant.epoch) with
  | none =>
    refine .inl ⟨.missingTimestamp, ?_, .timestamp (filter_ne_eq_none.1 ht), hthree⟩
    simp only [ofRaw, hid, hs, hk, ht, throw, throwThe, MonadExceptOf.throw, bind, Except.bind]
    rfl
  | some t =>
    have hfour : raw.Passes 4 := hthree.succ fun other hb hp => by
      cases hb <;> cases hp
      case timestamp h => cases (filter_ne_eq_none.2 h).symm.trans ht
    exact .inr ⟨id, t, ⟨hid, hs, hk, ht⟩, hfour⟩

theorem Common.reported_or_typed {id : Uuid} {t : Instant} (h : Common raw id t)
    (hfour : raw.Passes 4) : Reported raw ∨ ∃ k, Typed raw k ∧ raw.Passes 7 := by
  obtain ⟨hid, hs, hk, ht⟩ := h
  cases hkind : Kind.ofName? raw.kind with
  | none =>
    refine .inl ⟨.unknownKind raw.kind, ?_, .unknown fun k hk => ?_, hfour⟩
    · simp only [ofRaw, hid, hs, hk, ht, hkind, throw, throwThe, MonadExceptOf.throw, bind,
        Except.bind]
      rfl
    · cases hkind.symm.trans (Kind.ofName?_eq_some.2 hk)
  | some k =>
  have hname := Kind.ofName?_eq_some.1 hkind
  have hfive : raw.Passes 5 := hfour.succ fun other hb hp => by
    cases hb <;> cases hp
    case unknown h => exact h k hname
  by_cases hv : k.needsVideo ∧ present raw.videoId = none
  · refine .inl ⟨.missingVideoId k, ?_,
      .video hname (needsVideo_iff.1 hv.1) (filter_ne_eq_none.1 hv.2), hfive⟩
    simp only [ofRaw, hid, hs, hk, ht, hkind, hv, throw, throwThe, MonadExceptOf.throw, bind,
      Except.bind]
    rfl
  have hsix : raw.Passes 6 := hfive.succ fun other hb hp => by
    cases hb <;> cases hp
    case video k' hk' hneeds h =>
      cases hkind.symm.trans (Kind.ofName?_eq_some.2 hk')
      exact hv ⟨needsVideo_iff.2 hneeds, filter_ne_eq_none.2 h⟩
  by_cases hq : k.needsQuery ∧ raw.query.filter (· ≠ "") = none
  · refine .inl ⟨.missingQuery k, ?_,
      .query hname (needsQuery_iff.1 hq.1) (filter_ne_eq_none.1 hq.2), hsix⟩
    simp only [ofRaw, hid, hs, hk, ht, hkind, hv, hq, throw, throwThe, MonadExceptOf.throw, bind,
      Except.bind]
    rfl
  have hseven : raw.Passes 7 := hsix.succ fun other hb hp => by
    cases hb <;> cases hp
    case query k' hk' hneeds h =>
      cases hkind.symm.trans (Kind.ofName?_eq_some.2 hk')
      exact hq ⟨needsQuery_iff.2 hneeds, filter_ne_eq_none.2 h⟩
  exact .inr ⟨k, ⟨hkind, hv, hq⟩, hseven⟩

/-- The dwell is absent or within its bounds. -/
def Brief (raw : RawEvent) : Prop := ∀ ms, raw.dwellMs = some ms → ¬ms < 0 ∧ ¬maxDwellMs < ms

theorem Typed.reported_or_brief {id : Uuid} {t : Instant} (h : Typed raw k) (hc : Common raw id t)
    (hseven : raw.Passes 7) : Reported raw ∨ Brief raw ∧ raw.Passes 9 := by
  obtain ⟨hid, hs, hk, ht⟩ := hc
  obtain ⟨hkind, hv, hq⟩ := h
  by_cases hn : ∃ ms, raw.dwellMs = some ms ∧ ms < 0
  · obtain ⟨ms, hms, hn⟩ := hn
    refine .inl ⟨.negativeDwell ms, ?_, .negative hms (Int64.lt_iff_toInt_lt.1 hn), hseven⟩
    simp only [ofRaw, hid, hs, hk, ht, hkind, hv, hq, hms, hn, throw, throwThe,
      MonadExceptOf.throw, bind, Except.bind]
    rfl
  have height : raw.Passes 8 := hseven.succ fun other hb hp => by
    cases hb <;> cases hp
    case negative ms hms hlt => exact hn ⟨ms, hms, Int64.lt_iff_toInt_lt.2 hlt⟩
  by_cases hl : ∃ ms, raw.dwellMs = some ms ∧ maxDwellMs < ms
  · obtain ⟨ms, hms, hl⟩ := hl
    refine .inl ⟨.dwellTooLarge ms, ?_, .tooLarge hms (Int64.lt_iff_toInt_lt.1 hl), height⟩
    have hnot : ¬ms < 0 := fun h => hn ⟨ms, hms, h⟩
    simp only [ofRaw, hid, hs, hk, ht, hkind, hv, hq, hms, hnot, hl, throw, throwThe,
      MonadExceptOf.throw, bind, Except.bind]
    rfl
  have hnine : raw.Passes 9 := height.succ fun other hb hp => by
    cases hb <;> cases hp
    case tooLarge ms hms hlt => exact hl ⟨ms, hms, Int64.lt_iff_toInt_lt.2 hlt⟩
  exact .inr ⟨fun ms hms => ⟨fun h => hn ⟨ms, hms, h⟩, fun h => hl ⟨ms, hms, h⟩⟩, hnine⟩

/-- An event that passes every rule is built, and it is the normal form. -/
theorem Typed.accepted {id : Uuid} {t : Instant} (h : Typed raw k) (hc : Common raw id t)
    (hb : Brief raw) : ∃ e, ofRaw raw = .ok e ∧ e.toRaw = raw.normal := by
  obtain ⟨hid, hs, hk, ht⟩ := hc
  obtain ⟨hkind, hv, hq⟩ := h
  refine ⟨⟨id, t, k, raw.sessionId, present raw.userId, present raw.videoId,
    raw.query.filter (· ≠ ""), raw.dwellMs⟩, ?_, ?_⟩
  · cases hms : raw.dwellMs with
    | none =>
      simp only [ofRaw, hid, hs, hk, ht, hkind, hv, hq, hms, throw, throwThe,
        MonadExceptOf.throw, bind, Except.bind]
      rfl
    | some ms =>
      obtain ⟨hnot, hnot'⟩ := hb ms hms
      simp only [ofRaw, hid, hs, hk, ht, hkind, hv, hq, hms, hnot, hnot', throw, throwThe,
        MonadExceptOf.throw, bind, Except.bind]
      rfl
  · have hname := Kind.ofName?_eq_some.1 hkind
    have hsome := (Option.filter_eq_some_iff.1 hid).1
    have htime := (Option.filter_eq_some_iff.1 ht).1
    simp only [toRaw, RawEvent.normal, filter_ne_eq_ite, present, hsome, htime, hname]

/-- The rules in their order: the first that is broken is reported, and if none is the event passes
in its normal form. -/
theorem ofRaw_cases (raw : RawEvent) :
    Reported raw ∨ ∃ e, ofRaw raw = .ok e ∧ raw.Valid ∧ e.toRaw = raw.normal := by
  obtain hr | ⟨id, t, hcommon, hfour⟩ := reported_or_common raw
  · exact .inl hr
  obtain hr | ⟨k, htyped, hseven⟩ := hcommon.reported_or_typed hfour
  · exact .inl hr
  obtain hr | ⟨hbrief, hnine⟩ := htyped.reported_or_brief hcommon hseven
  · exact .inl hr
  obtain ⟨e, he, hraw⟩ := htyped.accepted hcommon hbrief
  have hvalid : raw.Valid := .of_not_breaks fun flaw hb =>
    absurd (hnine flaw hb) (Nat.not_le.2 flaw.place_lt)
  exact .inr ⟨e, he, hvalid, hraw⟩

theorem toRaw_injective {e e' : Event} (h : e.toRaw = e'.toRaw) : e = e' := by
  obtain ⟨id, t, k, session, user, video, query, dwell⟩ := e
  obtain ⟨id', t', k', session', user', video', query', dwell'⟩ := e'
  simp only [toRaw, RawEvent.mk.injEq, Option.some.injEq] at h
  obtain ⟨rfl, rfl, hk, rfl, rfl, rfl, rfl, rfl⟩ := h
  rw [Kind.name_injective hk]

theorem ofRaw_ok (h : ofRaw raw = .ok e) : raw.Valid ∧ e.toRaw = raw.normal := by
  obtain ⟨flaw, hf, -⟩ | ⟨e', he, hvalid, hraw⟩ := ofRaw_cases raw
  · cases h.symm.trans hf
  · cases h.symm.trans he
    exact ⟨hvalid, hraw⟩

/-- A valid event is read back from the raw event that it is turned into. -/
theorem ofRaw_toRaw (h : ofRaw raw = .ok e) : ofRaw e.toRaw = .ok e := by
  obtain ⟨hvalid, hraw⟩ := ofRaw_ok h
  rw [hraw]
  obtain ⟨flaw, -, hf⟩ | ⟨e', he, -, hraw'⟩ := ofRaw_cases raw.normal
  · exact absurd hf.1 hvalid.normal.not_breaks
  · rw [RawEvent.normal_normal, ← hraw] at hraw'
    rw [he, toRaw_injective hraw']

/-- Only a search may be without a video, so only a search may change no aggregates. -/
theorem update_eq_none_iff (h : ofRaw raw = .ok e) :
    Aggregate.Update.ofEvent e = none ↔ e.kind = .searchQuery ∧ e.videoId = none := by
  obtain ⟨hvalid, hraw⟩ := ofRaw_ok h
  have hkind : e.kind.name = raw.kind := congrArg RawEvent.kind hraw
  have hvideo : e.videoId = raw.normal.videoId := congrArg RawEvent.videoId hraw
  rw [Aggregate.Update.ofEvent, Option.map_eq_none_iff]
  refine ⟨fun hnone => ⟨Classical.byContradiction fun hk => ?_, hnone⟩, fun hnone => hnone.2⟩
  have hsearch : raw.kind ≠ "search_query" := by
    intro hs
    have hname : e.kind.name = Kind.searchQuery.name := hkind.trans hs
    exact hk (Kind.name_injective hname)
  obtain ⟨id, hid, -⟩ := hvalid.normal.video hsearch
  rw [hvideo, hid] at hnone
  cases hnone

/-- Validation accepts the events that meet every rule and no others. It reports the first rule that
is broken, with what broke it. An event that is accepted is the submitted one in its normal form; it
is accepted again as it is, and it has an update of the aggregates unless it is a search without a
video. -/
theorem accepted_iff_valid_else_first_flaw (raw : RawEvent) :
    ((∃ e, ofRaw raw = .ok e) ↔ raw.Valid) ∧
    (∀ flaw, ofRaw raw = .error flaw ↔
      raw.Breaks flaw ∧ ∀ other, raw.Breaks other → flaw.place ≤ other.place) ∧
    ∀ e, ofRaw raw = .ok e → e.toRaw = raw.normal ∧ ofRaw e.toRaw = .ok e ∧
      (Aggregate.Update.ofEvent e = none ↔ e.kind = .searchQuery ∧ e.videoId = none) := by
  refine ⟨⟨fun ⟨e, he⟩ => (ofRaw_ok he).1, fun hvalid => ?_⟩,
    fun flaw => ⟨fun hf => ?_, fun hf => ?_⟩,
    fun e he => ⟨(ofRaw_ok he).2, ofRaw_toRaw he, update_eq_none_iff he⟩⟩
  · obtain ⟨flaw, -, hf⟩ | ⟨e, he, -⟩ := ofRaw_cases raw
    · exact absurd hf.1 hvalid.not_breaks
    · exact ⟨e, he⟩
  · obtain ⟨flaw', hf', hfirst⟩ | ⟨e, he, -⟩ := ofRaw_cases raw
    · cases hf.symm.trans hf'
      exact hfirst
    · cases hf.symm.trans he
  · obtain ⟨flaw', hf', hfirst⟩ | ⟨e, -, hvalid, -⟩ := ofRaw_cases raw
    · rw [hf', hfirst.unique hf]
    · exact absurd hf.1 hvalid.not_breaks

/-- A search with zero identifiers in the place of missing ones, and the longest dwell. -/
def sparseSearch : RawEvent where
  eventId := some ⟨19, by decide⟩
  timestamp := Instant.ofParts? 19844 36000 0
  kind := "search_query"
  sessionId := "session"
  userId := some .zero
  videoId := some .zero
  query := some "cats"
  dwellMs := some 86400000

/-- The search with an empty query and a dwell that is too long by one: it breaks two rules. -/
def brokenTwice : RawEvent := { sparseSearch with query := some "", dwellMs := some 86400001 }

theorem sparse_search_accepted :
    (∃ e, ofRaw sparseSearch = .ok e ∧
      e.toRaw = { sparseSearch with userId := none, videoId := none } ∧
      ofRaw e.toRaw = .ok e ∧ Aggregate.Update.ofEvent e = none) ∧
    brokenTwice.Breaks (.dwellTooLarge 86400001) ∧ brokenTwice.Breaks (.missingQuery .searchQuery) ∧
    ∀ other, brokenTwice.Breaks other → (Flaw.missingQuery .searchQuery).place ≤ other.place := by
  have hvalid : sparseSearch.Valid := by
    refine ⟨⟨_, rfl, by decide⟩, by decide, by decide, ⟨_, rfl, by decide⟩, fun h => absurd rfl h,
      fun _ => ⟨_, rfl, by decide⟩, ?_⟩
    rintro ms ⟨⟩
    decide
  obtain ⟨hok, -, hnormal⟩ := accepted_iff_valid_else_first_flaw sparseSearch
  obtain ⟨-, hflaw, -⟩ := accepted_iff_valid_else_first_flaw brokenTwice
  obtain ⟨e, he⟩ := hok.2 hvalid
  obtain ⟨hraw, hagain, hupdate⟩ := hnormal e he
  have hkind : e.kind.name = Kind.searchQuery.name := congrArg RawEvent.kind hraw
  have hvideo : e.videoId = none := congrArg RawEvent.videoId hraw
  have hupdated := hupdate.2 ⟨Kind.name_injective hkind, hvideo⟩
  exact ⟨⟨e, he, hraw, hagain, hupdated⟩, .tooLarge rfl (by decide), (hflaw _).1 rfl⟩

end Event

end Intake
