import Intake.Proofs.Members

/-!
# Raw events read back from their text

`decode_encode`: the JSON text of a raw event is read as the event that it shows. It is an object,
and its members give all fields of that event (`listed_writeMembers`, `assigns_toMember`). The text
shows the event itself, unless its timestamp has a fraction of a second or more and is no leap
second.
-/

namespace Intake.RawEvent

open Json

/-- A field as a member of the text. -/
def Field.toMember (raw : RawEvent) (f : Field) : Member := (f.name, f.write raw)

theorem isMember_writeMember (raw : RawEvent) (f : Field) :
    IsMember (f.toMember raw) (f.writeMember raw) :=
  isMember_write (f.toMember raw)

theorem listed_writeMembers (raw : RawEvent) (f : Field) (fs : List Field) :
    Listed IsMember ((f :: fs).map (·.toMember raw))
      (f.writeMember raw ++ writeMembers raw fs) := by
  induction fs generalizing f with
  | nil => simpa [writeMembers] using Listed.one (isMember_writeMember raw f)
  | cons g fs ih => exact .more (isMember_writeMember raw f) (ih g)

theorem assigns_toMember (raw : RawEvent) (fs : List Field) :
    Assigns raw.shown fs (fs.map (·.toMember raw)) := by
  induction fs with
  | nil => exact .nil
  | cons f fs ih => exact .known (.inl rfl) (f.written_write raw) ih

/-- All fields of an event are the event. -/
theorem keep_all (raw : RawEvent) : raw.keep Field.all = raw := by
  simp [keep, Field.all]

theorem decode_encode (raw : RawEvent) : decode raw.encode = .ok raw.shown := by
  have hobject : IsObject (Field.all.map (·.toMember raw)) raw.encode :=
    ⟨[], _, [], Blank.nil, listed_writeMembers raw .eventId Field.all.tail,
      by simp [encode, Frame.opening, Frame.closing]⟩
  rw [decode_assigns hobject (assigns_toMember raw Field.all) (by decide), keep_all]

end Intake.RawEvent

namespace Intake.Http.Request

theorem Submits.reply_encode {r : Request} {raw : RawEvent} (h : r.Submits)
    (hbody : r.body = raw.encode) (exported : Bool) : r.reply exported = .ingest raw.shown := by
  rw [h.reply_eq, hbody, RawEvent.decode_encode]

/-- A posted body that is the JSON text of an event, and is not too large, hands in that event, if
its timestamp has a fraction of a second or more only in a leap second. Any other timestamp with such
a fraction is written like the second after it, and the event is handed in with that one. -/
theorem posted_event_is_read_back {r : Request} {raw : RawEvent} (exported : Bool)
    (hmethod : r.method = "POST") (hpath : pathOf r.uri = "/events")
    (htype : r.contentType.any namesJson = true) (hbody : r.body = raw.encode)
    (hsize : raw.encode.length ≤ maxBody) :
    ((∀ t, raw.timestamp = some t → 1000000000 ≤ t.nano → t.second % 60 = 59) →
      r.reply exported = .ingest raw) ∧
    ∀ t, raw.timestamp = some t → 1000000000 ≤ t.nano → t.second % 60 ≠ 59 →
      ∃ u : Instant, u.day = t.day ∧ u.second = t.second + 1 ∧ u.nano + 1000000000 = t.nano ∧
        r.reply exported = .ingest { raw with timestamp := some u } := by
  have hsubmits : r.Submits := ⟨hmethod, hpath, htype, hbody ▸ hsize⟩
  have hreply := hsubmits.reply_encode hbody exported
  refine ⟨fun h => ?_, fun t ht hn hs => ?_⟩
  · rw [hreply, RawEvent.shown_eq_self h]
  · obtain ⟨hday, hsecond, hnano⟩ := Instant.shown_of_excess hn hs
    refine ⟨t.shown, hday, hsecond, hnano, ?_⟩
    rw [hreply, RawEvent.shown, ht]
    rfl

/-- A leap second of a year before zero, the zero identifier, the least number, and texts with a quote, a
backslash, control characters and one beyond the basic plane. -/
def oddEvent : RawEvent where
  eventId := some .zero
  timestamp := some ⟨-719529, 86399, 1500000000, by decide, by decide, by decide, by decide⟩
  kind := "\"\\\n\x00\x1f"
  sessionId := ""
  query := some "😀é"
  dwellMs := some (-9223372036854775808)

theorem odd_event_is_read_back : ∃ r : Request, r.method = "POST" ∧ pathOf r.uri = "/events" ∧
    r.contentType.any namesJson = true ∧ r.body = oddEvent.encode ∧
    oddEvent.encode.length ≤ maxBody ∧
    (∀ t, oddEvent.timestamp = some t → 1000000000 ≤ t.nano → t.second % 60 = 59) ∧
    r.reply true = .ingest oddEvent := by
  have hsize : oddEvent.encode.length ≤ maxBody := by decide +kernel
  obtain ⟨hpost, hpath, htype, -⟩ := submits_posting hsize
  have hleap : ∀ t, oddEvent.timestamp = some t → 1000000000 ≤ t.nano → t.second % 60 = 59 := by
    rintro t ⟨⟩ -
    decide
  obtain ⟨hread, -⟩ := posted_event_is_read_back true hpost hpath htype rfl hsize
  exact ⟨posting oddEvent.encode, hpost, hpath, htype, rfl, hsize, hleap, hread hleap⟩

/-- Four seconds past noon with a fraction of one second and a half. -/
def lateEvent : RawEvent where
  timestamp := Instant.ofParts? 19844 43204 1500000000

theorem fraction_carried_when_read : (posting lateEvent.encode).Submits ∧
    lateEvent.timestamp.map (fun t => (t.second, t.nano)) = some (43204, 1500000000) ∧
    lateEvent.timestamp.map (·.text) = some "2024-05-01T12:00:05.500Z" ∧
    (posting lateEvent.encode).reply true =
      .ingest { lateEvent with timestamp := Instant.ofParts? 19844 43205 500000000 } ∧
    (posting lateEvent.encode).reply true ≠ .ingest lateEvent := by
  have hsize : lateEvent.encode.length ≤ maxBody := by decide +kernel
  have hreply := (submits_posting hsize).reply_encode rfl true
  have hshown : lateEvent.shown =
      { lateEvent with timestamp := Instant.ofParts? 19844 43205 500000000 } := by decide +kernel
  have hother : lateEvent.shown ≠ lateEvent := by decide +kernel
  refine ⟨submits_posting hsize, by decide +kernel, by decide +kernel, ?_, ?_⟩
  · rw [hreply, hshown]
  · rw [hreply]
    exact fun h => hother (Reply.ingest.inj h)

end Intake.Http.Request
