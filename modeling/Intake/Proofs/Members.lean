import Mathlib
import Intake.Http.Endpoint
import Intake.Proofs.FieldValues

/-!
# Members in any order

`posted_members_decide`: what a posted object is taken for depends on the known members it has and
on their values, not on their order, their spelling, the unknown members between them or the blanks.

`next` is the turn that the reader takes for every member. A turn passes over an unknown member
(`next_unknown`), and it hands a known one to the reader of its field (`next_known`) unless the
field was seen before (`next_again`). From this follow two runs: members that assign fields add
these fields to the event (`next_assigns`), and members that can be read at all leave their fields
among those seen (`next_readable`). `elements_written` is the run for an array.
-/

namespace Intake.RawEvent

open Json

variable {raw acc : RawEvent} {fs gs seen : List Field} {f : Field} {fuel : Nat}
  {s : String} {v bs ws x rest before : Bytes}

/-! ### Part of an event -/

/-- The event with these fields of `raw`, and with the defaults elsewhere. -/
def keep (raw : RawEvent) (fs : List Field) : RawEvent where
  eventId := if .eventId ∈ fs then raw.eventId else none
  timestamp := if .timestamp ∈ fs then raw.timestamp else none
  kind := if .kind ∈ fs then raw.kind else ""
  sessionId := if .sessionId ∈ fs then raw.sessionId else ""
  userId := if .userId ∈ fs then raw.userId else none
  videoId := if .videoId ∈ fs then raw.videoId else none
  query := if .query ∈ fs then raw.query else none
  dwellMs := if .dwellMs ∈ fs then raw.dwellMs else none

theorem keep_nil (raw : RawEvent) : raw.keep [] = {} := by
  simp [keep]

theorem keep_cons (raw : RawEvent) (f : Field) (fs : List Field) :
    raw.keep (f :: fs) = f.copy raw (raw.keep fs) := by
  cases f <;> simp [keep, Field.copy]

theorem keep_congr (h : ∀ f, f ∈ fs ↔ f ∈ gs) : raw.keep fs = raw.keep gs := by
  simp only [keep, h]

theorem keep_keep (h : fs ⊆ gs) : (raw.keep fs).keep gs = raw.keep fs := by
  have hpart : ∀ {α : Type} (f : Field) (a d : α),
      (if f ∈ gs then if f ∈ fs then a else d else d) = if f ∈ fs then a else d := by
    intro α f a d
    by_cases hf : f ∈ fs
    · rw [if_pos (h hf)]
    · rw [if_neg hf, ite_self]
  simp only [keep, hpart]

/-- A field that has its default need not be given. -/
theorem keep_cons_of_default (h : f.copy raw {} = {}) : raw.keep (f :: fs) = raw.keep fs := by
  cases f <;> simp_all [keep, Field.copy]

/-! ### Texts of objects and arrays -/

/-- A member: the text that its name denotes, and its value. -/
abbrev Member := String × Bytes

inductive IsMember : Member → Bytes → Prop
  | mk {s : String} {before name gap space v after : Bytes} (hb : Blank before)
    (hn : Quoted.Denotes name s) (hg : Blank gap) (hs : Blank space) (ha : Blank after) :
    IsMember (s, v) (before ++ (name ++ (gap ++ byte ':' :: (space ++ (v ++ after)))))

/-- The text of a member without blanks. -/
def Member.write (m : Member) : Bytes := Quoted.write m.1 ++ byte ':' :: m.2

theorem isMember_write (m : Member) : IsMember m m.write := by
  have h := IsMember.mk (v := m.2) Blank.nil (Quoted.denotes_write m.1) Blank.nil Blank.nil
    Blank.nil
  simpa [Member.write] using h

/-- The text of an object with these members. -/
def IsObject (ms : List Member) (bytes : Bytes) : Prop := Encloses .object IsMember ms bytes

inductive IsElement (raw : RawEvent) : Field → Bytes → Prop
  | mk {f : Field} {before v after : Bytes} (hb : Blank before) (h : f.Written raw v)
    (ha : Blank after) : IsElement raw f (before ++ (v ++ after))

theorem isElement_write (raw : RawEvent) (f : Field) : IsElement raw.shown f (f.write raw) := by
  have h := IsElement.mk Blank.nil (f.written_write raw) Blank.nil
  simpa using h

/-- The text of an array with the values of these fields. -/
def IsArray (raw : RawEvent) (fs : List Field) (bytes : Bytes) : Prop :=
  Encloses .array (IsElement raw) fs bytes

/-- The members give the fields `fs` of `raw`, in this order. The other members have unknown names
and any values. -/
inductive Assigns (raw : RawEvent) : List Field → List Member → Prop
  | nil : Assigns raw [] []
  | known {f : Field} {s : String} {v : Bytes} {fs : List Field} {ms : List Member} (hs : f.Named s)
    (hv : f.Written raw v) (h : Assigns raw fs ms) : Assigns raw (f :: fs) ((s, v) :: ms)
  | unknown {s : String} {v : Bytes} {fs : List Field} {ms : List Member}
    (hs : ∀ f : Field, ¬f.Named s) (hv : IsValue v) (h : Assigns raw fs ms) :
    Assigns raw fs ((s, v) :: ms)

/-- The value of a member can be read or passed over, of whatever type it is. -/
def Readable (m : Member) : Prop :=
  (∃ f : Field, f.Named m.1) ∧ Legible m.2 ∨ (∀ f : Field, ¬f.Named m.1) ∧ IsValue m.2

/-- An object up to the name of a member, which follows the members `ms`. -/
def IsObjectUpTo (ms : List Member) (s : String) (bytes : Bytes) : Prop :=
  ∃ lead inner before name tail, Blank lead ∧ Listed IsMember ms inner ∧ Blank before ∧
    Quoted.Denotes name s ∧
    bytes = lead ++ byte '\x7b' :: (inner ++ byte ',' :: (before ++ (name ++ tail)))

/-! ### One member -/

/-- Reads a member and those that follow. -/
def next (fuel : Nat) (seen : List Field) (raw : RawEvent) (bytes : Bytes) :
    Except Fault RawEvent := do
  let rest ← expect (mark? '"' bytes)
  let (seen, raw, rest) ← member fuel seen raw rest
  members fuel seen raw rest

theorem members_blank (hws : Blank ws) (x : Bytes) :
    members fuel seen acc (ws ++ x) = members fuel seen acc x := by
  cases fuel with
  | zero => rfl
  | succ fuel => simp only [members, skipSpace_blank hws]

theorem members_comma (x : Bytes) :
    members (fuel + 1) seen acc (byte ',' :: x) = next fuel seen acc x := by
  have hspace : isSpace (byte ',') = false := by decide
  have hbrace : ¬byte ',' = byte '\x7d' := by decide
  simp only [members, skipSpace_of_not_space hspace, if_neg hbrace, if_true]
  rfl

theorem members_close (x : Bytes) :
    members (fuel + 1) seen acc (byte '\x7d' :: x) = .ok acc := by
  have hspace : isSpace (byte '\x7d') = false := by decide
  simp only [members, skipSpace_of_not_space hspace, if_true]

theorem object_next (hb : Blank before) (x : Bytes) : object (before ++ byte '"' :: x) =
    next (x.length + 1) [] {} (before ++ byte '"' :: x) := by
  have hbrace : mark? '\x7d' (before ++ byte '"' :: x) = none :=
    mark?_of_begins hb (by decide) (by decide)
  have hquote : mark? '"' (before ++ byte '"' :: x) = some x := mark?_self (by decide) hb x
  simp only [object, next, hbrace, hquote, expect, bind, Except.bind]

theorem next_named (fuel : Nat) (seen : List Field) (acc : RawEvent) (hb : Blank before)
    {name : Bytes} (hn : Quoted.Denotes name s) (x : Bytes) :
    ∃ inside, Quoted.scan [] inside = some (s, x) ∧ next fuel seen acc (before ++ (name ++ x)) =
      (member fuel seen acc inside).bind fun (seen, raw, rest) => members fuel seen raw rest := by
  obtain ⟨inside, rfl, hinside⟩ := hn
  have hcons : before ++ (byte '"' :: inside ++ [byte '"'] ++ x) =
      before ++ byte '"' :: (inside ++ byte '"' :: x) := by simp
  have hquote := mark?_self (c := '"') (by decide) hb (inside ++ byte '"' :: x)
  refine ⟨_, Quoted.scan_denoted hinside x, ?_⟩
  simp only [next, hcons, hquote, expect, bind, Except.bind]

/-- A member as its reader finds it: the name, and after the colon the value. -/
theorem next_member (fuel : Nat) (seen : List Field) (acc : RawEvent) (hm : IsMember (s, v) bs) :
    ∃ space after, Blank space ∧ Blank after ∧ ∀ rest, ∃ inside x,
      Quoted.scan [] inside = some (s, x) ∧ mark? ':' x = some (space ++ v ++ (after ++ rest)) ∧
      next fuel seen acc (bs ++ rest) =
        (member fuel seen acc inside).bind fun (seen, raw, rest) => members fuel seen raw rest := by
  obtain ⟨hb, hn, hg, hspace, ha⟩ := hm
  next before name gap space after =>
  refine ⟨space, after, hspace, ha, fun rest => ?_⟩
  obtain ⟨inside, hscan, hnext⟩ := next_named fuel seen acc hb hn
    (gap ++ byte ':' :: (space ++ v ++ (after ++ rest)))
  refine ⟨inside, _, hscan, mark?_self (by decide) hg _, ?_⟩
  rw [← hnext]
  simp

theorem next_unknown (hm : IsMember (s, v) bs) (hs : ∀ f : Field, ¬f.Named s) (hv : IsValue v)
    (hfuel : v.length < fuel) (hrest : Cut rest) :
    next fuel seen acc (bs ++ rest) = members fuel seen acc rest := by
  obtain ⟨space, after, hspace, hafter, hmember⟩ := next_member fuel seen acc hm
  obtain ⟨inside, x, hscan, hcolon, hnext⟩ := hmember rest
  have hskip := skipWithin_value hv hspace (ends_of_cut hafter hrest) hfuel
  rw [hnext]
  simp only [member, hscan, ofName?_unknown hs, hcolon, hskip, expect, bind, Except.bind,
    members_blank hafter]

/-- A member of a field that is new goes to the reader of the field. -/
theorem next_known (fuel : Nat) (acc : RawEvent) (hm : IsMember (s, v) bs) (hs : f.Named s)
    (hnew : f ∉ seen) :
    ∃ after, Blank after ∧ ∀ rest, next fuel seen acc (bs ++ rest) =
      (readField acc (v ++ (after ++ rest)) f).bind fun (raw, rest) =>
        members fuel (f :: seen) raw rest := by
  obtain ⟨space, after, hspace, hafter, hmember⟩ := next_member fuel seen acc hm
  refine ⟨after, hafter, fun rest => ?_⟩
  obtain ⟨inside, x, hscan, hcolon, hnext⟩ := hmember rest
  rw [hnext]
  simp only [member, hscan, ofName?_named hs, if_neg hnew, hcolon, expect, bind, Except.bind,
    List.append_assoc, readField_blank hspace]
  cases readField acc (v ++ (after ++ rest)) f <;> rfl

/-- A field that was seen before is a mismatch as soon as its name was read. -/
theorem next_again (hb : Blank before) {name : Bytes} (hn : Quoted.Denotes name s) (hs : f.Named s)
    (hseen : f ∈ seen) (x : Bytes) :
    next fuel seen acc (before ++ (name ++ x)) = .error .mismatched := by
  obtain ⟨inside, hscan, hnext⟩ := next_named fuel seen acc hb hn x
  rw [hnext]
  simp only [member, hscan, ofName?_named hs, if_pos hseen, bind, Except.bind]

/-! ### Members that assign fields -/

/-- Fuel for these members: skipping a value takes no more turns than it has bytes. -/
def room (ms : List Member) : Nat := (ms.map fun m => m.2.length + 1).sum

theorem room_cons (m : Member) (ms : List Member) : room (m :: ms) = m.2.length + 1 + room ms := by
  simp [room]

theorem IsMember.quote {m : Member} (h : IsMember m bs) :
    ∃ before x, Blank before ∧ bs = before ++ byte '"' :: x ∧ m.2.length + 1 ≤ x.length := by
  obtain ⟨hb, hn, -, -, -⟩ := h
  next before name gap space v after =>
  obtain ⟨inside, rfl, -⟩ := hn
  refine ⟨before, inside ++ byte '"' :: (gap ++ byte ':' :: (space ++ (v ++ after))), hb,
    by simp, ?_⟩
  simp only [List.length_append, List.length_cons]
  omega

/-- After the quote of the first member there is room for all of them. -/
theorem room_le {ms : List Member} {inner : Bytes} (h : Listed IsMember ms inner) (hms : ms ≠ []) :
    ∃ before x, Blank before ∧ inner = before ++ byte '"' :: x ∧ room ms ≤ x.length := by
  induction h with
  | empty => exact absurd rfl hms
  | @one m _ hm =>
    obtain ⟨before, x, hb, rfl, hx⟩ := hm.quote
    exact ⟨before, x, hb, rfl, by simpa [room] using hx⟩
  | @more m _ _ _ bs' hm _ ih =>
    obtain ⟨before, x, hb, rfl, hx⟩ := hm.quote
    obtain ⟨before', x', -, rfl, hx'⟩ := ih (List.cons_ne_nil _ _)
    refine ⟨before, x ++ byte ',' :: (before' ++ byte '"' :: x'), hb, by simp, ?_⟩
    rw [room_cons]
    simp only [List.length_append, List.length_cons]
    omega

theorem next_assigned {m : Member} {ms : List Member} (hm : IsMember m bs)
    (ha : Assigns raw fs (m :: ms)) (hnew : ∀ f ∈ fs, f ∉ seen) (hfuel : m.2.length < fuel)
    (hrest : Cut rest) : ∃ here there, fs = here ++ there ∧ Assigns raw there ms ∧
      next fuel seen (raw.keep seen) (bs ++ rest) =
        members fuel (here ++ seen) (raw.keep (here ++ seen)) rest := by
  cases ha with
  | @known f s v fs _ hs hv h =>
    obtain ⟨after, hafter, hnext⟩ := next_known fuel (raw.keep seen) hm hs
      (hnew f (List.mem_cons_self ..))
    refine ⟨[f], fs, rfl, h, ?_⟩
    rw [hnext, readField_written hv (ends_of_cut hafter hrest), List.singleton_append, keep_cons]
    exact members_blank hafter rest
  | unknown hs hv h => exact ⟨[], fs, rfl, h, next_unknown hm hs hv hfuel hrest⟩

/-- Members that assign fields add them to the event, in whatever order. -/
theorem next_assigns {ms : List Member} {inner : Bytes} (h : Listed IsMember ms inner)
    (hms : ms ≠ []) (ha : Assigns raw fs ms) (hfs : fs.Nodup) (hnew : ∀ f ∈ fs, f ∉ seen)
    (hfuel : room ms ≤ fuel) (hrest : Cut rest) : ∃ n gs, (∀ f, f ∈ gs ↔ f ∈ fs ∨ f ∈ seen) ∧
      next fuel seen (raw.keep seen) (inner ++ rest) = members (n + 1) gs (raw.keep gs) rest := by
  -- what was read so far is the part of the event that was seen, and each member adds to both
  induction h generalizing fs seen fuel with
  | empty => exact absurd rfl hms
  | @one m _ hm =>
    rw [room_cons] at hfuel
    obtain ⟨n, rfl⟩ : ∃ n, fuel = n + 1 := ⟨fuel - 1, by omega⟩
    have hm' : m.2.length < n + 1 := by omega
    obtain ⟨here, there, rfl, hthere, hnext⟩ := next_assigned hm ha hnew hm' hrest
    cases hthere
    exact ⟨n, here ++ seen, by simp, hnext⟩
  | @more m m' ms bs bs' hm _ ih =>
    rw [room_cons] at hfuel
    obtain ⟨n, rfl⟩ : ∃ n, fuel = n + 1 := ⟨fuel - 1, by omega⟩
    have hm' : m.2.length < n + 1 := by omega
    obtain ⟨here, there, rfl, hthere, hnext⟩ :=
      next_assigned hm ha hnew hm' (cut_comma (bs' ++ rest))
    obtain ⟨-, hnodup, hdisjoint⟩ := List.nodup_append.1 hfs
    have hnew' : ∀ f ∈ there, f ∉ here ++ seen := by
      intro f hf hmem
      rcases List.mem_append.1 hmem with hhere | hseen
      · exact hdisjoint f hhere f hf rfl
      · exact hnew f (List.mem_append_right _ hf) hseen
    have hleft : room (m' :: ms) ≤ n := by omega
    obtain ⟨n, gs, hgs, hrun⟩ := ih (List.cons_ne_nil _ _) hthere hnodup hnew' hleft
    refine ⟨n, gs, fun f => ?_, ?_⟩
    · rw [hgs f, List.mem_append, List.mem_append]
      tauto
    · rw [List.append_assoc, List.cons_append, hnext, members_comma, hrun]

theorem decode_object {lead : Bytes} (hlead : Blank lead) (x : Bytes) :
    decode (lead ++ byte '\x7b' :: x) = object x := by
  have hspace : isSpace (byte '\x7b') = false := by decide
  simp only [decode, skipSpace_blank hlead, skipSpace_of_not_space hspace, if_true]

/-- An object whose members assign fields is read as the event with these fields. -/
theorem decode_assigns {ms : List Member} {bytes : Bytes} (h : IsObject ms bytes)
    (ha : Assigns raw fs ms) (hfs : fs.Nodup) : decode bytes = .ok (raw.keep fs) := by
  obtain ⟨lead, inner, tail, hlead, hinner, rfl⟩ := h
  rw [Frame.opening, Frame.closing, decode_object hlead]
  by_cases hms : ms = []
  · subst hms
    cases ha
    cases hinner with
    | empty hws =>
      have hmark := mark?_self (c := '\x7d') (by decide) hws tail
      rw [keep_nil]
      simp only [object, hmark]
  · obtain ⟨before, x, hb, rfl, hx⟩ := room_le hinner hms
    have hroom : room ms ≤ (x ++ byte '\x7d' :: tail).length + 1 := by
      simp only [List.length_append]
      omega
    obtain ⟨n, gs, hgs, hrun⟩ := next_assigns hinner hms ha hfs
      (fun _ _ => List.not_mem_nil) hroom (cut_closing .object tail)
    have hobject := object_next hb (x ++ byte '\x7d' :: tail)
    rw [keep_nil, Frame.closing, members_close] at hrun
    rw [List.append_assoc, List.cons_append] at hrun ⊢
    have hmem : ∀ f, f ∈ gs ↔ f ∈ fs := fun f => (hgs f).trans (by simp)
    rw [hobject, hrun, keep_congr hmem]

/-! ### A field given twice -/

theorem Field.Named.unique {g : Field} (hf : f.Named s) (hg : g.Named s) : g = f :=
  Option.some.inj ((ofName?_named hg).symm.trans (ofName?_named hf))

theorem next_read {m : Member} (seen : List Field) (acc : RawEvent) (hm : IsMember m bs)
    (hr : Readable m) (hfuel : m.2.length < fuel) (hrest : Cut rest) :
    next fuel seen acc (bs ++ rest) = .error .mismatched ∨
      ∃ gs acc', seen ⊆ gs ∧ (∀ f : Field, f.Named m.1 → f ∈ gs) ∧
        next fuel seen acc (bs ++ rest) = members fuel gs acc' rest := by
  rcases hr with ⟨⟨f, hf⟩, hv⟩ | ⟨hunknown, hv⟩
  · by_cases hseen : f ∈ seen
    · obtain ⟨hb, hn, -, -, -⟩ := hm
      left
      rw [List.append_assoc, List.append_assoc]
      exact next_again hb hn hf hseen _
    · obtain ⟨after, hafter, hnext⟩ := next_known fuel acc hm hf hseen
      rw [hnext]
      rcases taken_readField acc hv (ends_of_cut hafter hrest) f with hread | ⟨acc', hread⟩
      · exact .inl (by rw [hread]; rfl)
      · refine .inr ⟨f :: seen, acc', List.subset_cons_self .., fun g hg => ?_, ?_⟩
        · exact hf.unique hg ▸ List.mem_cons_self ..
        · rw [hread]
          exact members_blank hafter rest
  · exact .inr ⟨seen, acc, List.Subset.refl _, fun f hf => absurd hf (hunknown f),
      next_unknown hm hunknown hv hfuel hrest⟩

/-- Members that can be read leave their fields among those seen, or end the reading. -/
theorem next_readable {ms : List Member} {inner : Bytes} (seen : List Field) (acc : RawEvent)
    (h : Listed IsMember ms inner) (hms : ms ≠ []) (hr : ∀ m ∈ ms, Readable m)
    (hfuel : room ms ≤ fuel) (hrest : Cut rest) :
    next fuel seen acc (inner ++ rest) = .error .mismatched ∨
      ∃ n gs acc', seen ⊆ gs ∧ (∀ m ∈ ms, ∀ f : Field, f.Named m.1 → f ∈ gs) ∧
        next fuel seen acc (inner ++ rest) = members (n + 1) gs acc' rest := by
  -- nothing is known of the event here; a mismatch ends the run at once
  induction h generalizing seen acc fuel with
  | empty => exact absurd rfl hms
  | @one m _ hm =>
    rw [room_cons] at hfuel
    obtain ⟨n, rfl⟩ : ∃ n, fuel = n + 1 := ⟨fuel - 1, by omega⟩
    have hm' : m.2.length < n + 1 := by omega
    rcases next_read seen acc hm (hr m (List.mem_cons_self ..)) hm' hrest with
      hbad | ⟨gs, acc', hsub, hgs, hnext⟩
    · exact .inl hbad
    · exact .inr ⟨n, gs, acc', hsub, by simpa using hgs, hnext⟩
  | @more m m' ms bs bs' hm _ ih =>
    rw [room_cons] at hfuel
    obtain ⟨n, rfl⟩ : ∃ n, fuel = n + 1 := ⟨fuel - 1, by omega⟩
    have hassoc : bs ++ byte ',' :: bs' ++ rest = bs ++ byte ',' :: (bs' ++ rest) := by simp
    rw [hassoc]
    have hm' : m.2.length < n + 1 := by omega
    rcases next_read seen acc hm (hr m (List.mem_cons_self ..)) hm' (cut_comma (bs' ++ rest)) with
      hbad | ⟨gs, acc', hsub, hgs, hnext⟩
    · exact .inl hbad
    · rw [hnext, members_comma]
      have hr' : ∀ m'' ∈ m' :: ms, Readable m'' := fun m'' h => hr m'' (List.mem_cons_of_mem _ h)
      have hleft : room (m' :: ms) ≤ n := by omega
      rcases ih gs acc' (List.cons_ne_nil _ _) hr' hleft with
        hbad | ⟨n, hs, acc'', hsub', hhs, hrun⟩
      · exact .inl hbad
      · refine .inr ⟨n, hs, acc'', fun f hf => hsub' (hsub hf), fun m'' hmem f hf => ?_, hrun⟩
        rcases List.mem_cons.1 hmem with rfl | hmem
        · exact hsub' (hgs f hf)
        · exact hhs m'' hmem f hf

/-- A field given a second time is a mismatch, whatever text follows its name. -/
theorem decode_repeated {ms : List Member} {bytes : Bytes} (h : IsObjectUpTo ms s bytes)
    (hr : ∀ m ∈ ms, Readable m) (hs : f.Named s) (hmem : ∃ m ∈ ms, f.Named m.1) :
    decode bytes = .error .mismatched := by
  obtain ⟨lead, inner, before, name, tail, hlead, hinner, hb, hn, rfl⟩ := h
  obtain ⟨m, hm, hf⟩ := hmem
  have hms : ms ≠ [] := List.ne_nil_of_mem hm
  rw [decode_object hlead]
  obtain ⟨start, x, hstart, rfl, hx⟩ := room_le hinner hms
  have hroom : room ms ≤ (x ++ byte ',' :: (before ++ (name ++ tail))).length + 1 := by
    simp only [List.length_append]
    omega
  have hobject := object_next hstart (x ++ byte ',' :: (before ++ (name ++ tail)))
  have hrun := next_readable [] {} hinner hms hr hroom
    (cut_comma (before ++ (name ++ tail)))
  rw [List.append_assoc, List.cons_append] at hrun ⊢
  rw [hobject]
  rcases hrun with hbad | ⟨n, gs, acc', -, hgs, hrun⟩
  · exact hbad
  · rw [hrun, members_comma]
    exact next_again hb hn hs (hgs m hm f hf) tail

/-! ### Arrays -/

theorem elements_blank (hws : Blank ws) (x : Bytes) (fs : List Field) :
    elements acc (ws ++ x) fs = elements acc x fs := by
  cases fs with
  | nil => simp only [elements, mark?_blank _ hws]
  | cons f fs => simp only [elements, skipSpace_blank hws]

theorem elements_comma (h : mark? ']' x = none) (f : Field) (fs : List Field) :
    elements acc (byte ',' :: x) (f :: fs) =
      (readField acc x f).bind fun (raw, rest) => elements raw rest fs := by
  have hspace : isSpace (byte ',') = false := by decide
  have hbracket : ¬byte ',' = byte ']' := by decide
  simp only [elements, skipSpace_of_not_space hspace, if_neg hbracket, if_true, h]
  rfl

theorem elements_close (x : Bytes) (fs : List Field) :
    elements acc (byte ']' :: x) fs = .ok acc := by
  have hspace : isSpace (byte ']') = false := by decide
  cases fs with
  | nil =>
    have hmark := mark?_self hspace Blank.nil x
    rw [List.nil_append] at hmark
    simp only [elements, hmark]
  | cons f fs => simp only [elements, skipSpace_of_not_space hspace, if_true]

theorem mark?_element (h : IsElement raw f bs) (x : Bytes) : mark? ']' (bs ++ x) = none := by
  obtain ⟨hb, hv, -⟩ := h
  obtain ⟨b, bs, rfl, hspace, hbracket, -⟩ := hv.head
  rw [List.append_assoc, List.cons_append, List.cons_append]
  exact mark?_of_begins hb hspace hbracket

theorem mark?_elements {inner : Bytes} (h : Listed (IsElement raw) (f :: fs) inner) (x : Bytes) :
    mark? ']' (inner ++ x) = none := by
  cases h with
  | one h => exact mark?_element h x
  | more h h' =>
    rw [List.append_assoc]
    exact mark?_element h _

theorem readField_element (h : IsElement raw f bs) (hrest : Cut rest) (left : List Field) :
    ((readField (raw.keep seen) (bs ++ rest) f).bind fun (acc, rest) => elements acc rest left) =
      elements (raw.keep (f :: seen)) rest left := by
  obtain ⟨hb, hv, ha⟩ := h
  rw [List.append_assoc, List.append_assoc, readField_blank hb,
    readField_written hv (ends_of_cut ha hrest), keep_cons]
  exact elements_blank ha rest left

/-- The elements of an array add their fields to the event. -/
theorem elements_written {inner : Bytes} (seen : List Field)
    (h : Listed (IsElement raw) gs inner) (hgs : gs = f :: fs) (tail : Bytes)
    (left : List Field) : ∃ hs, (∀ g, g ∈ hs ↔ g ∈ gs ∨ g ∈ seen) ∧
      ((readField (raw.keep seen) (inner ++ byte ']' :: tail) f).bind fun (acc, rest) =>
        elements acc rest (fs ++ left)) = .ok (raw.keep hs) := by
  induction h generalizing f fs seen with
  | empty => cases hgs
  | @one g _ h =>
    cases hgs
    refine ⟨g :: seen, by simp, ?_⟩
    exact (readField_element h (cut_closing .array tail) left).trans (elements_close tail left)
  | @more g g' others bs bs' h h' ih =>
    cases hgs
    obtain ⟨hs, hmem, hrun⟩ := ih (g :: seen) rfl
    have hassoc : bs ++ byte ',' :: bs' ++ byte ']' :: tail =
        bs ++ byte ',' :: (bs' ++ byte ']' :: tail) := by simp
    refine ⟨hs, fun a => ?_, ?_⟩
    · rw [hmem a]
      simp only [List.mem_cons, or_assoc, or_left_comm]
    · rw [hassoc, readField_element h (cut_comma _), ← hrun]
      exact elements_comma (mark?_elements h' _) g' (others ++ left)

theorem decode_array {lead : Bytes} (hlead : Blank lead) (x : Bytes) :
    decode (lead ++ byte '[' :: x) = array x := by
  have hspace : isSpace (byte '[') = false := by decide
  have hbrace : ¬byte '[' = byte '\x7b' := by decide
  simp only [decode, skipSpace_blank hlead, skipSpace_of_not_space hspace, if_neg hbrace, if_true]

theorem decode_elements {n : Nat} {bytes : Bytes} (h : IsArray raw (Field.all.take n) bytes) :
    decode bytes = .ok (raw.keep (Field.all.take n)) := by
  obtain ⟨lead, inner, tail, hlead, hinner, rfl⟩ := h
  rw [Frame.opening, Frame.closing, decode_array hlead]
  cases n with
  | zero =>
    cases hinner with
    | empty hws =>
      have hmark := mark?_self (c := ']') (by decide) hws tail
      rw [List.take_zero, keep_nil]
      simp only [array, hmark]
  | succ n =>
    have htake : Field.all.take (n + 1) = .eventId :: Field.all.tail.take n := rfl
    obtain ⟨hs, hmem, hrun⟩ := elements_written [] hinner htake tail (Field.all.tail.drop n)
    have hno := mark?_elements (htake ▸ hinner) (byte ']' :: tail)
    rw [List.take_append_drop, keep_nil] at hrun
    have hmem' : ∀ g, g ∈ hs ↔ g ∈ Field.all.take (n + 1) := fun g => (hmem g).trans (by simp)
    rw [keep_congr hmem'] at hrun
    simp only [array, hno]
    exact hrun

/-! ### Members that may be changed or left out -/

theorem Assigns.append {front back : List Member} (h : Assigns raw fs front)
    (h' : Assigns raw gs back) : Assigns raw (fs ++ gs) (front ++ back) := by
  induction h with
  | nil => exact h'
  | known hs hv _ ih => exact .known hs hv ih
  | unknown hs hv _ ih => exact .unknown hs hv ih

theorem Assigns.split {front back : List Member} (h : Assigns raw fs (front ++ back)) :
    ∃ here there, fs = here ++ there ∧ Assigns raw here front ∧ Assigns raw there back := by
  induction front generalizing fs with
  | nil => exact ⟨[], fs, rfl, .nil, h⟩
  | cons m front ih =>
    cases h with
    | known hs hv h =>
      obtain ⟨here, there, rfl, hfront, hback⟩ := ih h
      exact ⟨_ :: here, there, rfl, .known hs hv hfront, hback⟩
    | unknown hs hv h =>
      obtain ⟨here, there, rfl, hfront, hback⟩ := ih h
      exact ⟨here, there, rfl, .unknown hs hv hfront, hback⟩

theorem Assigns.null_for_empty {front back : List Member}
    (h : Assigns raw fs (front ++ (s, v) :: back)) (hf : f.Named s) (hid : f.IsId)
    (hv : Quoted.Denotes v "") : Assigns raw fs (front ++ (s, nullWord) :: back) := by
  obtain ⟨here, there, rfl, hfront, hback⟩ := h.split
  refine hfront.append ?_
  cases hback with
  | known hs hw h =>
    obtain rfl := hf.unique hs
    exact .known hs (Field.Written.null_of_empty hw hid hv) h
  | unknown hs => exact absurd hf (hs f)

theorem Assigns.without_null {front back : List Member}
    (h : Assigns raw fs (front ++ (s, nullWord) :: back)) (hfs : fs.Nodup) :
    ∃ gs, Assigns raw gs (front ++ back) ∧ gs.Nodup ∧ raw.keep gs = raw.keep fs := by
  obtain ⟨here, there, rfl, hfront, hback⟩ := h.split
  cases hback with
  | @known f _ _ gs _ hs hv h =>
    have hperm : ∀ g, g ∈ here ++ f :: gs ↔ g ∈ f :: (here ++ gs) := by
      intro g
      simp only [List.mem_append, List.mem_cons, or_left_comm]
    have hsub : (here ++ gs).Sublist (here ++ f :: gs) :=
      List.Sublist.append_left (List.sublist_cons_self ..) here
    have hdefault : raw.keep (f :: (here ++ gs)) = raw.keep (here ++ gs) :=
      keep_cons_of_default (Field.Written.copy_of_null hv)
    exact ⟨here ++ gs, hfront.append h, hfs.sublist hsub,
      hdefault.symm.trans (keep_congr hperm).symm⟩
  | unknown hs hv h => exact ⟨here ++ there, hfront.append h, hfs, rfl⟩

end Intake.RawEvent

namespace Intake.Http.Request

open Json RawEvent

/-- The request posts JSON to the events, and not too much of it. -/
structure Submits (r : Request) : Prop where
  posted : r.method = "POST"
  path : pathOf r.uri = "/events"
  json : r.contentType.any namesJson = true
  fits : r.body.length ≤ maxBody

theorem Submits.reply_eq {r : Request} (h : r.Submits) (exported : Bool) :
    r.reply exported = match RawEvent.decode r.body with
      | .ok raw => .ingest raw
      | .error fault => .respond (.ofFault fault) := by
  have hresource : resource? exported (pathOf r.uri) = some .events := by
    rw [h.path]
    cases exported <;> decide
  have hfits : ¬maxBody < r.body.length := Nat.not_lt.2 h.fits
  unfold reply
  rw [hresource, h.posted]
  cases hbody : RawEvent.decode r.body <;>
    simp only [decode, h.json, Bool.not_true, Bool.false_eq_true, if_false, if_neg hfits, hbody]

/-- What a posted object is taken for. The fields that its members give are all that counts, and
neither their order, their names, the other members nor the blanks do. An identifier may be `null`
in place of the empty text, a member that is `null` may be left out, and the object may be an array
of the first fields, if all that are given are among them. A field given twice is refused, whatever
text follows its second name, if what precedes it can be read. -/
theorem posted_members_decide (exported : Bool) {raw : RawEvent} {fs : List Field}
    {ms : List Member} (hfs : fs.Nodup) (hms : Assigns raw fs ms) :
    (∀ r : Request, r.Submits → IsObject ms r.body → r.reply exported = .ingest (raw.keep fs)) ∧
    (∀ (r : Request) (front back : List Member) (f : Field) (s : String) (v : Bytes),
      ms = front ++ (s, v) :: back → f.Named s → f.IsId → Quoted.Denotes v "" → r.Submits →
      IsObject (front ++ (s, nullWord) :: back) r.body → r.reply exported = .ingest (raw.keep fs)) ∧
    (∀ (r : Request) (front back : List Member) (s : String), ms = front ++ (s, nullWord) :: back →
      r.Submits → IsObject (front ++ back) r.body → r.reply exported = .ingest (raw.keep fs)) ∧
    (∀ (r : Request) (n : Nat), fs ⊆ Field.all.take n → r.Submits →
      IsArray (raw.keep fs) (Field.all.take n) r.body → r.reply exported = .ingest (raw.keep fs)) ∧
    (∀ (r : Request) (before : List Member) (f : Field) (s : String), (∀ m ∈ before, Readable m) →
      (∃ m ∈ before, f.Named m.1) → f.Named s → r.Submits → IsObjectUpTo before s r.body →
      r.reply exported = .respond (.ofFault .mismatched)) := by
  refine ⟨fun r hr h => ?_, fun r front back f s v hcut hf hid hv hr h => ?_,
    fun r front back s hcut hr h => ?_, fun r n hn hr h => ?_,
    fun r before f s hbefore hmem hf hr h => ?_⟩
  · rw [hr.reply_eq, decode_assigns h hms hfs]
  · have hnull := (hcut ▸ hms).null_for_empty hf hid hv
    rw [hr.reply_eq, decode_assigns h hnull hfs]
  · obtain ⟨gs, hgs, hnodup, hkeep⟩ := (hcut ▸ hms).without_null hfs
    rw [hr.reply_eq, decode_assigns h hgs hnodup, hkeep]
  · rw [hr.reply_eq, decode_elements h, keep_keep hn]
  · rw [hr.reply_eq, decode_repeated h hbefore hf hmem]

def posting (body : Bytes) : Request where
  method := "POST"
  uri := "/events"
  contentType := some "application/json"
  body := body

theorem submits_posting {body : Bytes} (h : body.length ≤ maxBody) : (posting body).Submits := by
  have hpath : pathOf "/events" = "/events" := by decide
  have hjson : (some "application/json").any namesJson = true := by decide
  exact ⟨rfl, hpath, hjson, h⟩

/-- An unknown member with containers in it, and the other name of the timestamp. -/
def scattered : List Member :=
  [("x", enclose .array [enclose .object []]), ("ts", Quoted.write Instant.epoch.text)]

def emptyId : Member := ("event_id", Quoted.write "")

def nullId : Member := ("event_id", nullWord)

def nullQuery : Member := ("query", nullWord)

def midnight : RawEvent where
  timestamp := some .epoch

/-- An object that ends within its second member. -/
def torn : Bytes :=
  byte '\x7b' :: (Member.write ("ts", nullWord) ++ byte ',' :: Quoted.write "timestamp")

theorem scattered_members_read :
    [Field.timestamp, .eventId, .query].Nodup ∧
    Assigns midnight [.timestamp, .eventId, .query] (scattered ++ [emptyId, nullQuery]) ∧
    (posting (enclose .object ((scattered ++ [emptyId, nullQuery]).map (·.write)))).reply true =
      .ingest midnight ∧
    (posting (enclose .object ((scattered ++ [nullId, nullQuery]).map (·.write)))).reply true =
      .ingest midnight ∧
    (posting (enclose .object ((scattered ++ [emptyId]).map (·.write)))).reply true =
      .ingest midnight ∧
    (posting (enclose .array ((Field.all.take 7).map (·.write midnight)))).reply true =
      .ingest midnight ∧
    (posting torn).reply true = .respond (.ofFault .mismatched) := by
  have hnested : IsValue (enclose .array [enclose .object []]) :=
    .container (.one (.element Blank.nil (.empty .object Blank.nil) Blank.nil))
  have hunknown : ∀ f : Field, ¬f.Named "x" := by
    rintro f (hf | ⟨-, hf⟩)
    · cases f <;> exact absurd hf (by decide)
    · exact absurd hf (by decide)
  have hassigns : Assigns midnight [.timestamp, .eventId, .query]
      (scattered ++ [emptyId, nullQuery]) :=
    .unknown hunknown hnested (.known (.inr ⟨rfl, rfl⟩) (Field.timestamp.written_write midnight)
      (.known (.inl rfl) (.inr (Quoted.denotes_write "")) (.known (.inl rfl) rfl .nil)))
  have hnodup : [Field.timestamp, .eventId, .query].Nodup := by decide
  have hposted : ∀ ms : List Member,
      IsObject ms (posting (enclose .object (ms.map (·.write)))).body :=
    encloses_enclose .object isMember_write
  obtain ⟨hobject, hempty, hnull, harray, hagain⟩ := posted_members_decide true hnodup hassigns
  refine ⟨hnodup, hassigns, ?_, ?_, ?_, ?_, ?_⟩
  · exact hobject _ (submits_posting (by decide +kernel)) (hposted _)
  · exact hempty _ scattered [nullQuery] .eventId "event_id" _ rfl (.inl rfl) (.inl rfl)
      (Quoted.denotes_write "") (submits_posting (by decide +kernel)) (hposted _)
  · exact hnull _ (scattered ++ [emptyId]) [] "query" rfl (submits_posting (by decide +kernel))
      (hposted _)
  · exact harray _ 7 (by decide) (submits_posting (by decide +kernel))
      (encloses_enclose .array (isElement_write midnight) (Field.all.take 7))
  · have hts : Field.timestamp.Named "ts" := .inr ⟨rfl, rfl⟩
    have hreadable : Readable ("ts", nullWord) := .inl ⟨⟨.timestamp, hts⟩, .word (.inl rfl)⟩
    have htorn : IsObjectUpTo [("ts", nullWord)] "timestamp" torn :=
      ⟨[], _, [], _, [], Blank.nil, .one (isMember_write _), Blank.nil,
        Quoted.denotes_write "timestamp", by simp [torn]⟩
    exact hagain _ [("ts", nullWord)] .timestamp "timestamp" (by simpa using hreadable)
      ⟨_, List.mem_cons_self .., hts⟩ (.inl rfl) (submits_posting (by decide +kernel)) htorn

end Intake.Http.Request
