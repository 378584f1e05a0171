import Intake.Event.Decode
import Intake.Event.Encode
import Intake.Proofs.Instants
import Intake.Proofs.JsonGrammar

/-!
# Values of the fields

Which texts write the value of a field (`Field.Written`): an identifier that is none is `null` or
the empty text, and a string may have escapes or not. `readField_written` says that the reader takes
each of these texts for the value, whatever blanks are in front (`readField_blank`).

A value of another type is not read. It is a mismatch and no worse if it can be read as what it is
(`Legible`), which leaves out a number beyond the doubles and a string that denotes no text.
-/

namespace Intake.RawEvent

open Json

variable {α : Type} {read : Bytes → Scan α} {raw acc : RawEvent} {rest ws v x : Bytes} {b : UInt8}
  {f : Field} {s : String}

/-! ### Names -/

/-- The names of a field. -/
def Field.Named (s : String) (f : Field) : Prop := s = f.name ∨ f = .timestamp ∧ s = "ts"

theorem Field.ofName?_name (f : Field) : Field.ofName? f.name = some f := by
  cases f <;> decide

theorem ofName?_named (h : f.Named s) : Field.ofName? s = some f := by
  rcases h with rfl | ⟨rfl, rfl⟩
  · exact Field.ofName?_name f
  · rfl

theorem ofName?_unknown (h : ∀ f : Field, ¬f.Named s) : Field.ofName? s = none := by
  have hts : s ≠ "ts" := fun hs => h .timestamp (.inr ⟨rfl, hs⟩)
  unfold Field.ofName?
  rw [if_neg hts, List.find?_eq_none]
  intro f _ hname
  exact h f (.inl (of_decide_eq_true hname).symm)

/-! ### Texts of values -/

/-- `null` for nothing, and else what `writes` says. -/
def Nullable (writes : α → Bytes → Prop) : Option α → Bytes → Prop
  | none, v => v = nullWord
  | some a, v => writes a v

def IsInstant (t : Instant) (v : Bytes) : Prop := ∃ s, Quoted.Denotes v s ∧ Instant.read? s = some t

/-- An integer has one spelling. A zero with a sign is no integer. -/
def IsInteger (n : Int64) (v : Bytes) : Prop := v = ascii (toString n.toInt)

def IsIdentifier : Option Uuid → Bytes → Prop
  | none, v => v = nullWord ∨ Quoted.Denotes v ""
  | some u, v => ∃ s, Quoted.Denotes v s ∧ Uuid.read? s = some u

/-- The texts that write the value of a field. -/
def Field.Written (raw : RawEvent) (v : Bytes) : Field → Prop
  | eventId => IsIdentifier raw.eventId v
  | timestamp => Nullable IsInstant raw.timestamp v
  | kind => Quoted.Denotes v raw.kind
  | sessionId => Quoted.Denotes v raw.sessionId
  | userId => IsIdentifier raw.userId v
  | videoId => IsIdentifier raw.videoId v
  | query => Nullable (fun s v => Quoted.Denotes v s) raw.query v
  | dwellMs => Nullable IsInteger raw.dwellMs v

/-- The fields whose values are identifiers. -/
def Field.IsId (f : Field) : Prop := f = eventId ∨ f = userId ∨ f = videoId

/-- The event that the text of `raw` shows. -/
def shown (raw : RawEvent) : RawEvent := { raw with timestamp := raw.timestamp.map (·.shown) }

theorem shown_eq_self
    (h : ∀ t, raw.timestamp = some t → 1000000000 ≤ t.nano → t.second % 60 = 59) :
    raw.shown = raw := by
  have htime : raw.timestamp.map (·.shown) = raw.timestamp := by
    cases ht : raw.timestamp with
    | none => rfl
    | some t => exact congrArg some (Instant.shown_eq_self (h t ht))
  unfold shown
  rw [htime]

/-- What is written for a field is one of the texts of the value that it shows. -/
theorem Field.written_write (raw : RawEvent) (f : Field) : f.Written raw.shown (f.write raw) := by
  have hid : ∀ u : Option Uuid, IsIdentifier u (writeText (u.map (·.text))) := by
    rintro (_ | u)
    · exact .inl rfl
    · exact ⟨u.text, Quoted.denotes_write _, Uuid.read?_text u⟩
  cases f with
  | eventId | userId | videoId => exact hid _
  | kind | sessionId => exact Quoted.denotes_write _
  | timestamp =>
    unfold Field.Written Field.write shown
    cases raw.timestamp with
    | none => rfl
    | some t => exact ⟨t.text, Quoted.denotes_write _, Instant.read?_text t⟩
  | query =>
    unfold Field.Written Field.write shown
    cases raw.query with
    | none => rfl
    | some q => exact Quoted.denotes_write q
  | dwellMs =>
    unfold Field.Written Field.write shown
    cases raw.dwellMs <;> rfl

/-- A text that begins like a value other than `null`. -/
def Solid (v : Bytes) : Prop := ∃ b bs, v = b :: bs ∧ Begins b ∧ b ≠ byte 'n'

theorem solid_denotes (h : Quoted.Denotes v s) : Solid v := by
  obtain ⟨inside, rfl, -⟩ := h
  exact ⟨_, _, rfl, ⟨by decide, by decide, by decide⟩, by decide⟩

theorem solid_instant {t : Instant} (h : IsInstant t v) : Solid v := by
  obtain ⟨s, hs, -⟩ := h
  exact solid_denotes hs

theorem solid_integer {n : Int64} (h : IsInteger n v) : Solid v := by
  obtain ⟨b, bs, hcons, hb⟩ := Number.spells_head (Number.spells_toString n.toInt)
  exact ⟨b, bs, h.trans hcons, begins_of_number_head hb,
    ne_of_number_head hb (by decide) (by decide)⟩

theorem not_solid_null : ¬Solid nullWord := by
  rintro ⟨b, bs, h, -, hb⟩
  exact hb (List.cons.inj h).1.symm

theorem begins_null : ∃ b bs, nullWord = b :: bs ∧ Begins b :=
  ⟨_, _, rfl, by decide, by decide, by decide⟩

theorem Solid.begins (h : Solid v) : ∃ b bs, v = b :: bs ∧ Begins b := by
  obtain ⟨b, bs, hcons, hb, -⟩ := h
  exact ⟨b, bs, hcons, hb⟩

section nullable

variable {writes : α → Bytes → Prop} {o : Option α}

theorem begins_nullable (h : Nullable writes o v) (hsolid : ∀ a, writes a v → Solid v) :
    ∃ b bs, v = b :: bs ∧ Begins b := by
  cases o with
  | none =>
    obtain rfl := h
    exact begins_null
  | some a => exact (hsolid a h).begins

theorem eq_none_of_null (h : Nullable writes o nullWord)
    (hsolid : ∀ a, writes a nullWord → Solid nullWord) : o = none := by
  cases o with
  | none => rfl
  | some a => exact absurd (hsolid a h) not_solid_null

end nullable

theorem begins_identifier {u : Option Uuid} (h : IsIdentifier u v) :
    ∃ b bs, v = b :: bs ∧ Begins b := by
  cases u with
  | none =>
    rcases h with rfl | h
    · exact begins_null
    · exact (solid_denotes h).begins
  | some u =>
    obtain ⟨s, hs, -⟩ := h
    exact (solid_denotes hs).begins

theorem Field.Written.head (h : f.Written raw v) : ∃ b bs, v = b :: bs ∧ Begins b := by
  cases f with
  | eventId | userId | videoId => exact begins_identifier h
  | kind | sessionId => exact (solid_denotes h).begins
  | timestamp => exact begins_nullable h fun _ => solid_instant
  | query => exact begins_nullable h fun _ => solid_denotes
  | dwellMs => exact begins_nullable h fun _ => solid_integer

/-! ### Values that are none -/

/-- The event `acc` with one field of `raw`. -/
def Field.copy (raw acc : RawEvent) : Field → RawEvent
  | eventId => { acc with eventId := raw.eventId }
  | timestamp => { acc with timestamp := raw.timestamp }
  | kind => { acc with kind := raw.kind }
  | sessionId => { acc with sessionId := raw.sessionId }
  | userId => { acc with userId := raw.userId }
  | videoId => { acc with videoId := raw.videoId }
  | query => { acc with query := raw.query }
  | dwellMs => { acc with dwellMs := raw.dwellMs }

theorem identifier_eq_none {u : Option Uuid} (h : IsIdentifier u nullWord) : u = none := by
  cases u with
  | none => rfl
  | some u =>
    obtain ⟨s, hs, -⟩ := h
    exact absurd (solid_denotes hs) not_solid_null

/-- Only a field that has its default is written as `null`. -/
theorem Field.Written.copy_of_null (h : f.Written raw nullWord) : f.copy raw {} = {} := by
  cases f with
  | eventId | userId | videoId => simp only [Field.copy, identifier_eq_none h]
  | kind | sessionId => exact absurd (solid_denotes h) not_solid_null
  | timestamp =>
    have hnone := eq_none_of_null h fun _ => solid_instant
    simp only [Field.copy, hnone]
  | query =>
    have hnone := eq_none_of_null h fun _ => solid_denotes
    simp only [Field.copy, hnone]
  | dwellMs =>
    have hnone := eq_none_of_null h fun _ => solid_integer
    simp only [Field.copy, hnone]

/-! ### Reading them -/

theorem optional_null (read : Bytes → Scan α) (rest : Bytes) :
    optional read (nullWord ++ rest) = .ok (none, rest) := by
  have hcons : nullWord ++ rest = byte 'n' :: ("ull".toList.map byte ++ rest) := rfl
  have hword := word?_append nullWord rest
  rw [hcons] at hword ⊢
  unfold optional
  rw [skipSpace_of_not_space (by decide)]
  simp only [if_true, hword]

theorem optional_solid (hv : Solid v) {a : α} (h : read (v ++ rest) = .ok (a, rest)) :
    optional read (v ++ rest) = .ok (some a, rest) := by
  obtain ⟨b, bs, rfl, ⟨hspace, -⟩, hn⟩ := hv
  rw [List.cons_append] at h ⊢
  simp only [optional, skipSpace_of_not_space hspace, if_neg hn, h, Except.map]

/-- The reader of an option reads what the reader of its value does, and `null`. -/
theorem optional_nullable {writes : α → Bytes → Prop} {o : Option α} (h : Nullable writes o v)
    (hsolid : ∀ a, writes a v → Solid v)
    (hread : ∀ a, writes a v → read (v ++ rest) = .ok (a, rest)) :
    optional read (v ++ rest) = .ok (o, rest) := by
  cases o with
  | none =>
    obtain rfl := h
    exact optional_null read rest
  | some a => exact optional_solid (hsolid a h) (hread a h)

theorem text_blank (hws : Blank ws) (x : Bytes) : text (ws ++ x) = text x := by
  unfold text
  rw [skipSpace_blank hws]

theorem optional_blank (read : Bytes → Scan α) (hws : Blank ws) (x : Bytes) :
    optional read (ws ++ x) = optional read x := by
  unfold optional
  rw [skipSpace_blank hws]

theorem identifier_blank (hws : Blank ws) (x : Bytes) : identifier (ws ++ x) = identifier x := by
  unfold identifier
  rw [optional_blank text hws]

theorem readField_blank (hws : Blank ws) (x : Bytes) (f : Field) :
    readField acc (ws ++ x) f = readField acc x f := by
  cases f <;> simp only [readField, text_blank hws, optional_blank _ hws, identifier_blank hws]

theorem text_denotes (h : Quoted.Denotes v s) (rest : Bytes) :
    text (v ++ rest) = .ok (s, rest) := by
  obtain ⟨inside, rfl, hinside⟩ := h
  have hcons : byte '"' :: inside ++ [byte '"'] ++ rest =
      byte '"' :: (inside ++ byte '"' :: rest) := by simp
  have hspace : isSpace (byte '"') = false := by decide
  rw [hcons]
  simp only [text, skipSpace_of_not_space hspace, if_true, Quoted.scan_denoted hinside]

theorem denotes_unique {t : String} (hs : Quoted.Denotes v s) (ht : Quoted.Denotes v t) :
    s = t := by
  have heq := (text_denotes hs []).symm.trans (text_denotes ht [])
  exact (Prod.mk.inj (Except.ok.inj heq)).1

theorem read?_empty : Uuid.read? "" = none := by decide

/-- An identifier that is the empty text may be `null` as well. -/
theorem Field.Written.null_of_empty (h : f.Written raw v) (hid : f.IsId)
    (hv : Quoted.Denotes v "") : f.Written raw nullWord := by
  have hnull : ∀ u : Option Uuid, IsIdentifier u v → IsIdentifier u nullWord := by
    rintro (_ | u) hu
    · exact .inl rfl
    · obtain ⟨s, hs, hread⟩ := hu
      rw [denotes_unique hs hv, read?_empty] at hread
      cases hread
  rcases hid with rfl | rfl | rfl <;> exact hnull _ h

theorem instant_isInstant {t : Instant} (h : IsInstant t v) (rest : Bytes) :
    instant (v ++ rest) = .ok (t, rest) := by
  obtain ⟨s, hs, ht⟩ := h
  simp only [instant, text_denotes hs, ht, bind, Except.bind]

theorem integer_isInteger {n : Int64} (h : IsInteger n v) (hrest : Number.Ends rest) :
    integer (v ++ rest) = .ok (n, rest) := by
  obtain rfl := h
  have hspells := Number.spells_toString n.toInt
  have hscan := Number.scan_spelled hspells hrest
  obtain ⟨b, bs, hcons, hb⟩ := Number.spells_head hspells
  rw [hcons, List.cons_append] at hscan
  rw [ascii, hcons, List.cons_append]
  simp only [integer, skipSpace_of_not_space (begins_of_number_head hb).1, if_pos hb, hscan,
    Number.toInt64?_ofWhole]

theorem identifier_isIdentifier {u : Option Uuid} (h : IsIdentifier u v) (rest : Bytes) :
    identifier (v ++ rest) = .ok (u, rest) := by
  cases u with
  | none =>
    rcases h with rfl | h
    · simp only [identifier, optional_null, bind, Except.bind]
    · have hread := optional_solid (solid_denotes h) (text_denotes h rest)
      simp only [identifier, hread, bind, Except.bind, if_true]
  | some u =>
    obtain ⟨s, hs, hu⟩ := h
    have hne : s ≠ "" := by
      rintro rfl
      rw [read?_empty] at hu
      cases hu
    have hread := optional_solid (solid_denotes hs) (text_denotes hs rest)
    simp only [identifier, hread, bind, Except.bind, if_neg hne, hu]

/-- A text that writes the value of a field is read as that value. -/
theorem readField_written (h : f.Written raw v) (hrest : Number.Ends rest) :
    readField acc (v ++ rest) f = .ok (f.copy raw acc, rest) := by
  cases f with
  | eventId | userId | videoId => exact congrArg (Except.map _) (identifier_isIdentifier h rest)
  | kind | sessionId => exact congrArg (Except.map _) (text_denotes h rest)
  | timestamp =>
    have hread := optional_nullable h (fun _ => solid_instant) fun _ ht => instant_isInstant ht rest
    exact congrArg (Except.map _) hread
  | query =>
    have hread := optional_nullable h (fun _ => solid_denotes) fun _ hs => text_denotes hs rest
    exact congrArg (Except.map _) hread
  | dwellMs =>
    have hread := optional_nullable h (fun _ => solid_integer) fun _ hn =>
      integer_isInteger hn hrest
    exact congrArg (Except.map _) hread

/-! ### Values of any type -/

/-- A value that can be read as what it is, as far as its type shows: what a container holds does
not matter. -/
inductive Legible : Bytes → Prop
  | word {v : Bytes} (h : v = nullWord ∨ v = trueWord ∨ v = falseWord) : Legible v
  | number {v : Bytes} {n : Number} (h : Number.Spells v n) (hn : n.isFinite = true) : Legible v
  | string {v : Bytes} {s : String} (h : Quoted.Denotes v s) : Legible v
  | container (f : Frame) (inner : Bytes) : Legible (byte f.opening :: inner)

/-- A value was taken, or it is of another type. -/
def Taken (r : Scan α) (rest : Bytes) : Prop := r = .error .mismatched ∨ ∃ a, r = .ok (a, rest)

theorem Taken.map {β : Type} {r : Scan α} (h : Taken r rest) (g : α → β) :
    Taken (r.map fun (a, bytes) => (g a, bytes)) rest := by
  rcases h with rfl | ⟨a, rfl⟩
  · exact .inl rfl
  · exact .inr ⟨g a, rfl⟩

theorem wrongType_word (hb : b = byte 'n' ∨ b = byte 't' ∨ b = byte 'f')
    (h : skipScalar (b :: x) = some rest) : wrongType (b :: x) = .mismatched := by
  have hopen : ¬(b = byte '[' ∨ b = byte '\x7b') ∧ ¬b = byte '"' := by
    rcases hb with rfl | rfl | rfl <;> decide
  simp only [wrongType, if_neg hopen.1, if_neg hopen.2, if_pos hb, h, Option.isSome_some, if_true]

theorem wrongType_number {n : Number} (hb : b = byte '-' ∨ isDigit b = true)
    (h : Number.scan (b :: x) = some (n, rest)) (hn : n.isFinite = true) :
    wrongType (b :: x) = .mismatched := by
  have hne : ∀ c, c ≠ byte '-' → isDigit c = false → ¬b = c := fun _ => ne_of_number_head hb
  have hopen : ¬(b = byte '[' ∨ b = byte '\x7b') :=
    not_or.2 ⟨hne _ (by decide) (by decide), hne _ (by decide) (by decide)⟩
  have hword : ¬(b = byte 'n' ∨ b = byte 't' ∨ b = byte 'f') :=
    not_or.2 ⟨hne _ (by decide) (by decide),
      not_or.2 ⟨hne _ (by decide) (by decide), hne _ (by decide) (by decide)⟩⟩
  have hquote := hne (byte '"') (by decide) (by decide)
  simp only [wrongType, if_neg hopen, if_neg hquote, if_neg hword, h, hn, if_true]

theorem wrongType_container (f : Frame) (x : Bytes) :
    wrongType (byte f.opening :: x) = .mismatched := by
  have hopen : byte f.opening = byte '[' ∨ byte f.opening = byte '\x7b' := by cases f <;> decide
  exact if_pos hopen

theorem wrongType_string {inside : Bytes} (h : Quoted.scan [] inside = some (s, rest)) :
    wrongType (byte '"' :: inside) = .mismatched := by
  have hopen : ¬(byte '"' = byte '[' ∨ byte '"' = byte '\x7b') := by decide
  simp only [wrongType, if_neg hopen, if_true, h, Option.isSome_some]

/-- What the first byte of a value tells of it, when the value stands before other text. -/
structure Starts (v : Bytes) (b : UInt8) (bs : Bytes) : Prop where
  space : isSpace b = false
  wrong : wrongType (b :: bs) = .mismatched
  null : b = byte 'n' → v = nullWord
  string : b = byte '"' → ∃ s, Quoted.Denotes v s
  number : b = byte '-' ∨ isDigit b = true → ∃ n, Number.Spells v n ∧ n.isFinite = true

theorem Legible.starts (h : Legible v) (hrest : Number.Ends rest) :
    ∃ b bs, v ++ rest = b :: bs ∧ Starts v b bs := by
  have hno : ∀ {p q : Prop}, ¬p → p → q := fun hp h => absurd h hp
  -- values of different types differ in their first byte
  cases h with
  | word h =>
    have hskip := skipScalar_word h rest
    rcases h with rfl | rfl | rfl
    · exact ⟨_, _, rfl, by decide, wrongType_word (.inl rfl) hskip, fun _ => rfl,
        hno (by decide), hno (by decide)⟩
    · exact ⟨_, _, rfl, by decide, wrongType_word (.inr (.inl rfl)) hskip, hno (by decide),
        hno (by decide), hno (by decide)⟩
    · exact ⟨_, _, rfl, by decide, wrongType_word (.inr (.inr rfl)) hskip, hno (by decide),
        hno (by decide), hno (by decide)⟩
  | @number _ n h hn =>
    have hscan := Number.scan_spelled h hrest
    obtain ⟨b, bs, rfl, hb⟩ := Number.spells_head h
    have hne : ∀ c, c ≠ byte '-' → isDigit c = false → ¬b = c := fun _ => ne_of_number_head hb
    exact ⟨b, bs ++ rest, rfl, (begins_of_number_head hb).1, wrongType_number hb hscan hn,
      hno (hne _ (by decide) (by decide)), hno (hne _ (by decide) (by decide)),
      fun _ => ⟨n, h, hn⟩⟩
  | @string _ s h =>
    obtain ⟨inside, hv, hinside⟩ := h
    have hcons : v ++ rest = byte '"' :: (inside ++ byte '"' :: rest) := by simp [hv]
    exact ⟨_, _, hcons, by decide, wrongType_string (Quoted.scan_denoted hinside rest),
      hno (by decide), fun _ => ⟨s, inside, hv, hinside⟩, hno (by decide)⟩
  | container f inner =>
    exact ⟨_, _, rfl, by cases f <;> decide, wrongType_container f _,
      hno (by cases f <;> decide), hno (by cases f <;> decide), hno (by cases f <;> decide)⟩

theorem taken_text (h : Legible v) (hrest : Number.Ends rest) : Taken (text (v ++ rest)) rest := by
  obtain ⟨b, bs, hcons, hstart⟩ := h.starts hrest
  by_cases hb : b = byte '"'
  · obtain ⟨s, hs⟩ := hstart.string hb
    exact .inr ⟨s, text_denotes hs rest⟩
  · left
    simp only [text, hcons, skipSpace_of_not_space hstart.space, if_neg hb, hstart.wrong]

theorem taken_instant (h : Legible v) (hrest : Number.Ends rest) :
    Taken (instant (v ++ rest)) rest := by
  unfold instant
  rcases taken_text h hrest with htext | ⟨s, htext⟩
  · exact .inl (by simp only [htext, bind, Except.bind])
  · cases ht : Instant.read? s with
    | none => exact .inl (by simp only [htext, bind, Except.bind, ht])
    | some t => exact .inr ⟨t, by simp only [htext, bind, Except.bind, ht]⟩

theorem taken_integer (h : Legible v) (hrest : Number.Ends rest) :
    Taken (integer (v ++ rest)) rest := by
  obtain ⟨b, bs, hcons, hstart⟩ := h.starts hrest
  by_cases hb : b = byte '-' ∨ isDigit b = true
  · obtain ⟨n, hn, hfinite⟩ := hstart.number hb
    have hscan := Number.scan_spelled hn hrest
    rw [hcons] at hscan
    simp only [integer, hcons, skipSpace_of_not_space hstart.space, if_pos hb, hscan, hfinite,
      if_true]
    cases n.toInt64? with
    | none => exact .inl rfl
    | some i => exact .inr ⟨i, rfl⟩
  · left
    simp only [integer, hcons, skipSpace_of_not_space hstart.space, if_neg hb, hstart.wrong]

theorem taken_optional (h : Legible v) (hrest : Number.Ends rest)
    (hread : Taken (read (v ++ rest)) rest) : Taken (optional read (v ++ rest)) rest := by
  obtain ⟨b, bs, hcons, hstart⟩ := h.starts hrest
  by_cases hb : b = byte 'n'
  · obtain rfl := hstart.null hb
    exact .inr ⟨none, optional_null read rest⟩
  · have hoptional : optional read (v ++ rest) = (read (v ++ rest)).map fun (a, bytes) =>
        (some a, bytes) := by
      simp only [optional, hcons, skipSpace_of_not_space hstart.space, if_neg hb]
    rw [hoptional]
    exact hread.map some

theorem taken_identifier (h : Legible v) (hrest : Number.Ends rest) :
    Taken (identifier (v ++ rest)) rest := by
  unfold identifier
  rcases taken_optional h hrest (taken_text h hrest) with htext | ⟨_ | s, htext⟩
  · exact .inl (by simp only [htext, bind, Except.bind])
  · exact .inr ⟨none, by simp only [htext, bind, Except.bind]⟩
  · by_cases hs : s = ""
    · exact .inr ⟨none, by simp only [htext, bind, Except.bind, if_pos hs]⟩
    · cases hu : Uuid.read? s with
      | none => exact .inl (by simp only [htext, bind, Except.bind, if_neg hs, hu])
      | some u => exact .inr ⟨some u, by simp only [htext, bind, Except.bind, if_neg hs, hu]⟩

/-- The reader of a field takes a legible value or finds it of another type. -/
theorem taken_readField (acc : RawEvent) (h : Legible v) (hrest : Number.Ends rest) (f : Field) :
    Taken (readField acc (v ++ rest) f) rest := by
  have hid := taken_identifier h hrest
  have htext := taken_text h hrest
  cases f with
  | eventId => exact hid.map fun u => { acc with eventId := u }
  | timestamp =>
    have hinstant := taken_optional h hrest (taken_instant h hrest)
    exact hinstant.map fun t => { acc with timestamp := t }
  | kind => exact htext.map fun s => { acc with kind := s }
  | sessionId => exact htext.map fun s => { acc with sessionId := s }
  | userId => exact hid.map fun u => { acc with userId := u }
  | videoId => exact hid.map fun u => { acc with videoId := u }
  | query => exact (taken_optional h hrest htext).map fun s => { acc with query := s }
  | dwellMs =>
    have hinteger := taken_optional h hrest (taken_integer h hrest)
    exact hinteger.map fun n => { acc with dwellMs := n }

end Intake.RawEvent
