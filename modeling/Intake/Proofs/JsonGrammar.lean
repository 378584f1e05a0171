import Intake.Json.Skip
import Intake.Proofs.JsonText

/-!
# Well-formed JSON

The grammar of values, as a relation over bytes, and the skipper against it. `Part` is the family of
values, with the items of their containers, and any blanks between tokens. `Quoted.Sound` asks less
of a string than that it denotes a text: a value that is skipped may hold code units that stand
alone.

`skipWithin_value`: the skipper passes over a value of any depth and stops behind it. Each turn of
`walk` takes a token, and a value takes no more turns than it has bytes (`Part.Walks`), so fuel of
their number is enough.
-/

namespace Intake.Json

variable {rest bs ws : Bytes} {b : UInt8}

/-! ### Blanks -/

/-- A text of blanks only. -/
def Blank (bs : Bytes) : Prop := bs.all isSpace = true

theorem Blank.nil : Blank [] := rfl

theorem skipSpace_blank (h : Blank ws) (rest : Bytes) : skipSpace (ws ++ rest) = skipSpace rest :=
  skipSpace_append_of_all h rest

theorem mark?_blank (c : Char) (h : Blank ws) (rest : Bytes) :
    mark? c (ws ++ rest) = mark? c rest := by
  unfold mark?
  rw [skipSpace_blank h]

theorem mark?_self {c : Char} (hc : isSpace (byte c) = false) (h : Blank ws) (rest : Bytes) :
    mark? c (ws ++ byte c :: rest) = some rest := by
  rw [mark?_blank c h]
  unfold mark?
  rw [skipSpace_of_not_space hc]
  exact if_pos rfl

/-! ### Strings to skip -/

namespace Quoted

/-- The inside of a string, whether it denotes a text or not. -/
inductive Sound : Bytes → Prop
  | nil : Sound []
  | plain {b : UInt8} {bs : Bytes} (hb : IsPlain b) (h : Sound bs) : Sound (b :: bs)
  | escape {e : UInt8} {bs : Bytes} (he : (escape? e).isSome) (h : Sound bs) :
    Sound (byte '\\' :: e :: bs)
  | code {w x y z : UInt8} {bs : Bytes} (hn : (unit? w x y z).isSome) (h : Sound bs) :
    Sound (byte '\\' :: byte 'u' :: w :: x :: y :: z :: bs)

theorem skip_sound (h : Sound bs) (rest : Bytes) : skip (bs ++ byte '"' :: rest) = some rest := by
  have hquote : ¬byte '\\' = byte '"' := by decide
  induction h with
  | nil =>
    rw [List.nil_append, skip.eq_def]
    simp only [if_true]
  | plain hb _ ih =>
    rw [List.cons_append, skip.eq_def]
    simp only [if_neg hb.1, if_neg hb.2.1, if_neg hb.2.2, ih]
  | @escape e _ he _ ih =>
    have hu : ¬e = byte 'u' := by
      rintro rfl
      exact absurd he (by decide)
    simp only [List.cons_append]
    rw [skip.eq_def]
    simp only [if_neg hquote, if_true, if_neg hu, he, ih]
  | code hn _ ih =>
    simp only [List.cons_append]
    rw [skip.eq_def]
    simp only [if_neg hquote, if_true, hn, ih]

end Quoted

/-! ### Values -/

def Frame.opening : Frame → Char
  | array => '['
  | object => '\x7b'

def Frame.closing : Frame → Char
  | array => ']'
  | object => '\x7d'

/-- A value, an item of a container, and one item or more. -/
inductive Part
  | value
  | item (f : Frame)
  | items (f : Frame)

/-- The texts of the parts. An item has the blanks around it, and commas stand between items. -/
inductive Part.Text : Part → Bytes → Prop
  | word {bs : Bytes} (h : bs = nullWord ∨ bs = trueWord ∨ bs = falseWord) : Text .value bs
  | number {bs : Bytes} {n : Number} (h : Number.Spells bs n) : Text .value bs
  | string {bs : Bytes} (h : Quoted.Sound bs) : Text .value (byte '"' :: bs ++ [byte '"'])
  | empty (f : Frame) {ws : Bytes} (hws : Blank ws) :
    Text .value (byte f.opening :: ws ++ [byte f.closing])
  | container {f : Frame} {bs : Bytes} (h : Text (.items f) bs) :
    Text .value (byte f.opening :: bs ++ [byte f.closing])
  | element {before v after : Bytes} (hb : Blank before) (h : Text .value v) (ha : Blank after) :
    Text (.item .array) (before ++ v ++ after)
  | member {before name gap space v after : Bytes} (hb : Blank before) (hn : Quoted.Sound name)
    (hg : Blank gap) (hs : Blank space) (h : Text .value v) (ha : Blank after) :
    Text (.item .object)
      (before ++ byte '"' :: name ++ byte '"' :: gap ++ byte ':' :: space ++ v ++ after)
  | one {f : Frame} {bs : Bytes} (h : Text (.item f) bs) : Text (.items f) bs
  | more {f : Frame} {bs bs' : Bytes} (h : Text (.item f) bs) (h' : Text (.items f) bs') :
    Text (.items f) (bs ++ byte ',' :: bs')

/-- The text of one value of any depth. -/
def IsValue (v : Bytes) : Prop := Part.Text .value v

/-- What may come first in a value: no blank, and no end of a container. -/
def Begins (b : UInt8) : Prop := isSpace b = false ∧ b ≠ byte ']' ∧ b ≠ byte '\x7d'

theorem ne_of_number_head {c : UInt8} (hb : b = byte '-' ∨ isDigit b = true) (hc : c ≠ byte '-')
    (hd : isDigit c = false) : b ≠ c := by
  rintro rfl
  rcases hb with hb | hb
  · exact hc hb
  · exact Bool.false_ne_true (hd.symm.trans hb)

theorem begins_of_number_head (hb : b = byte '-' ∨ isDigit b = true) : Begins b := by
  have hne : ∀ c, c ≠ byte '-' → isDigit c = false → b ≠ c := fun _ => ne_of_number_head hb
  refine ⟨?_, hne _ (by decide) (by decide), hne _ (by decide) (by decide)⟩
  simp only [isSpace, Bool.or_eq_false_iff, decide_eq_false_iff_not]
  exact ⟨⟨⟨hne _ (by decide) (by decide), hne _ (by decide) (by decide)⟩,
    hne _ (by decide) (by decide)⟩, hne _ (by decide) (by decide)⟩

theorem IsValue.head {v : Bytes} (h : IsValue v) : ∃ b bs, v = b :: bs ∧ Begins b := by
  unfold IsValue at h
  cases h with
  | word h =>
    rcases h with rfl | rfl | rfl
    · exact ⟨_, _, rfl, by decide, by decide, by decide⟩
    · exact ⟨_, _, rfl, by decide, by decide, by decide⟩
    · exact ⟨_, _, rfl, by decide, by decide, by decide⟩
  | number h =>
    obtain ⟨b, bs, rfl, hb⟩ := Number.spells_head h
    exact ⟨b, bs, rfl, begins_of_number_head hb⟩
  | string h => exact ⟨_, _, rfl, by decide, by decide, by decide⟩
  | @empty f _ _ => cases f <;> exact ⟨_, _, rfl, by decide, by decide, by decide⟩
  | @container f _ _ => cases f <;> exact ⟨_, _, rfl, by decide, by decide, by decide⟩

/-- Items do not begin with the end of their container. -/
theorem Part.Text.head_items {f : Frame} (h : Text (.items f) bs) :
    ∃ ws b bs', bs = ws ++ b :: bs' ∧ Blank ws ∧ Begins b := by
  have hitem : ∀ {bs}, Text (.item f) bs →
      ∃ ws b bs', bs = ws ++ b :: bs' ∧ Blank ws ∧ Begins b := by
    intro bs h
    cases h with
    | @element before v after hb hv ha =>
      obtain ⟨b, bs, rfl, hbegins⟩ := IsValue.head hv
      exact ⟨before, b, bs ++ after, by simp, hb, hbegins⟩
    | @member before name gap space v after hb =>
      exact ⟨before, byte '"', name ++ byte '"' :: (gap ++ byte ':' :: (space ++ (v ++ after))),
        by simp, hb, by decide, by decide, by decide⟩
  cases h with
  | one h => exact hitem h
  | @more _ _ others h _ =>
    obtain ⟨ws, b, bs', rfl, hws, hb⟩ := hitem h
    exact ⟨ws, b, bs' ++ byte ',' :: others, by simp, hws, hb⟩

/-- A comma between every two items, or blanks if there is none. -/
inductive Listed {α : Type} (item : α → Bytes → Prop) : List α → Bytes → Prop
  | empty {ws : Bytes} (h : Blank ws) : Listed item [] ws
  | one {a : α} {bs : Bytes} (h : item a bs) : Listed item [a] bs
  | more {a b : α} {as : List α} {bs bs' : Bytes} (h : item a bs) (h' : Listed item (b :: as) bs') :
    Listed item (a :: b :: as) (bs ++ byte ',' :: bs')

/-- A text that begins with a container of these items; what comes after it is left open. -/
def Encloses {α : Type} (f : Frame) (item : α → Bytes → Prop) (as : List α) (bytes : Bytes) :
    Prop :=
  ∃ lead inner tail, Blank lead ∧ Listed item as inner ∧
    bytes = lead ++ byte f.opening :: (inner ++ byte f.closing :: tail)

/-- The text of a container without blanks. -/
def enclose (f : Frame) (items : List Bytes) : Bytes :=
  byte f.opening :: (List.intercalate [byte ','] items ++ [byte f.closing])

theorem encloses_enclose {α : Type} (f : Frame) {item : α → Bytes → Prop} {write : α → Bytes}
    (h : ∀ a, item a (write a)) (as : List α) : Encloses f item as (enclose f (as.map write)) := by
  have hlisted : Listed item as (List.intercalate [byte ','] (as.map write)) := by
    induction as with
    | nil => exact .empty Blank.nil
    | cons a as ih =>
      cases as with
      | nil => simpa using Listed.one (h a)
      | cons b as => simpa using Listed.more (h a) ih
  exact ⟨[], _, [], Blank.nil, hlisted, rfl⟩

/-! ### Skipping -/

theorem word?_append (w rest : Bytes) : word? w (w ++ rest) = some rest := by
  unfold word?
  rw [if_pos (by simp), List.drop_left]

theorem skipScalar_word {w : Bytes} (h : w = nullWord ∨ w = trueWord ∨ w = falseWord)
    (rest : Bytes) : skipScalar (w ++ rest) = some rest := by
  have hword := word?_append w rest
  rcases h with rfl | rfl | rfl <;> exact hword

theorem skipScalar_number {n : Number} (h : Number.Spells bs n) (hrest : Number.Ends rest) :
    skipScalar (bs ++ rest) = some rest := by
  have hscan := Number.scan_spelled h hrest
  obtain ⟨b, bs, rfl, hb⟩ := Number.spells_head h
  have hne : ∀ c, c ≠ byte '-' → isDigit c = false → ¬b = c := fun _ => ne_of_number_head hb
  rw [List.cons_append] at hscan ⊢
  unfold skipScalar
  simp only [if_neg (hne (byte 'n') (by decide) (by decide)),
    if_neg (hne (byte 't') (by decide) (by decide)),
    if_neg (hne (byte 'f') (by decide) (by decide)),
    if_neg (hne (byte '"') (by decide) (by decide)), hscan, Option.map_some]

theorem skipScalar_string (h : Quoted.Sound bs) (rest : Bytes) :
    skipScalar (byte '"' :: bs ++ [byte '"'] ++ rest) = some rest := by
  have hcons : byte '"' :: bs ++ [byte '"'] ++ rest = byte '"' :: (bs ++ byte '"' :: rest) := by
    simp
  have hword : ¬byte '"' = byte 'n' ∧ ¬byte '"' = byte 't' ∧ ¬byte '"' = byte 'f' := by decide
  rw [hcons]
  simp only [skipScalar, if_neg hword.1, if_neg hword.2.1, if_neg hword.2.2, if_true]
  exact Quoted.skip_sound h rest

/-- Passes over what an item has in front of its value. -/
def enter : Frame → Bytes → Option Bytes
  | .array, bytes => some bytes
  | .object, bytes => skipName bytes

/-- The next item is at hand, or the end of the container. -/
def Cut (rest : Bytes) : Prop :=
  ∃ b bs, rest = b :: bs ∧ (b = byte ',' ∨ b = byte ']' ∨ b = byte '\x7d')

theorem cut_closing (f : Frame) (rest : Bytes) : Cut (byte f.closing :: rest) := by
  cases f
  · exact ⟨_, _, rfl, .inr (.inl rfl)⟩
  · exact ⟨_, _, rfl, .inr (.inr rfl)⟩

theorem cut_comma (rest : Bytes) : Cut (byte ',' :: rest) := ⟨_, _, rfl, .inl rfl⟩

theorem ends_of_cut (hws : Blank ws) (h : Cut rest) : Number.Ends (ws ++ rest) := by
  intro b hb
  cases ws with
  | nil =>
    obtain ⟨c, bs, rfl, hc⟩ := h
    cases hb
    rcases hc with rfl | rfl | rfl <;> decide
  | cons c ws =>
    cases hb
    have hspace : isSpace b = true := by
      unfold Blank at hws
      simp only [List.all_cons, Bool.and_eq_true] at hws
      exact hws.1
    simp only [isSpace, Bool.or_eq_true, decide_eq_true_eq] at hspace
    rcases hspace with ((rfl | rfl) | rfl) | rfl <;> decide

section walk

variable {fuel : Nat} {frames : List Frame} {f : Frame} {v x : Bytes}

theorem walk_next_blank (hws : Blank ws) : walk fuel .next (f :: frames) (ws ++ x) =
    walk fuel .next (f :: frames) x := by
  cases fuel with
  | zero => rfl
  | succ fuel => cases f <;> simp only [walk, skipSpace_blank hws]

theorem walk_comma : walk (fuel + 1) .next (f :: frames) (byte ',' :: x) =
    (enter f x).bind (walk fuel .value (f :: frames)) := by
  have hspace : isSpace (byte ',') = false := by decide
  cases f <;> simp only [walk, skipSpace_of_not_space hspace, if_true] <;> rfl

theorem walk_close : walk (fuel + 1) .next (f :: frames) (byte f.closing :: x) =
    walk fuel .next frames x := by
  have hspace : isSpace (byte f.closing) = false := by cases f <;> decide
  have hcomma : ¬byte f.closing = byte ',' := by cases f <;> decide
  cases f with
  | array => simp only [walk, skipSpace_of_not_space hspace, if_neg hcomma]; exact if_pos rfl
  | object => simp only [walk, skipSpace_of_not_space hspace, if_neg hcomma]; exact if_pos rfl

theorem walk_empty (fuel : Nat) (f : Frame) (hws : Blank ws) (hin : Blank v) :
    walk (fuel + 1) .value frames
      (ws ++ byte f.opening :: (v ++ byte f.closing :: x)) = walk fuel .next frames x := by
  have hspace : isSpace (byte f.opening) = false := by cases f <;> decide
  have hclosing : isSpace (byte f.closing) = false := by cases f <;> decide
  have hbrace : ¬byte '\x7b' = byte '[' := by decide
  have hmark := mark?_self hclosing hin x
  cases f <;> simp only [Frame.opening, Frame.closing] at hspace hmark ⊢ <;>
    simp only [walk, skipSpace_blank hws, skipSpace_of_not_space hspace, if_neg hbrace, if_true,
      hmark]

theorem walk_open (hws : Blank ws) (hno : mark? f.closing x = none) :
    walk (fuel + 1) .value frames (ws ++ byte f.opening :: x) =
      (enter f x).bind (walk fuel .value (f :: frames)) := by
  have hspace : isSpace (byte f.opening) = false := by cases f <;> decide
  have hbrace : ¬byte '\x7b' = byte '[' := by decide
  cases f <;> simp only [Frame.opening, Frame.closing] at hspace hno ⊢ <;>
    simp only [walk, skipSpace_blank hws, skipSpace_of_not_space hspace, if_neg hbrace, if_true,
      hno] <;> rfl

theorem walk_scalar (hws : Blank ws) (hb : isSpace b = false)
    (ho : ∀ f : Frame, b ≠ byte f.opening) (h : skipScalar (b :: x) = some rest) :
    walk (fuel + 1) .value frames (ws ++ b :: x) = walk fuel .next frames rest := by
  have hbracket : ¬b = byte '[' := ho .array
  have hbrace : ¬b = byte '\x7b' := ho .object
  simp only [walk, skipSpace_blank hws, skipSpace_of_not_space hb, if_neg hbracket,
    if_neg hbrace, h, Option.bind_some]

/-- What the skipper does with a part: it takes a turn for each token and stops behind the part. -/
def Part.Walks : Part → Bytes → Prop
  | .value, v => ∃ k ≤ v.length, ∀ fuel frames ws rest, Blank ws → Number.Ends rest →
    walk (fuel + k) .value frames (ws ++ v ++ rest) = walk fuel .next frames rest
  | .item f, bs => ∃ k ≤ bs.length, ∀ fuel frames rest, Cut rest →
    (enter f (bs ++ rest)).bind (walk (fuel + k) .value (f :: frames)) =
      walk fuel .next (f :: frames) rest
  | .items f, bs => ∃ k ≤ bs.length + 1, ∀ fuel frames rest,
    (enter f (bs ++ byte f.closing :: rest)).bind (walk (fuel + k) .value (f :: frames)) =
      walk fuel .next frames rest

theorem mark?_of_begins {c : Char} (hws : Blank ws) (hb : isSpace b = false) (hc : b ≠ byte c) :
    mark? c (ws ++ b :: x) = none := by
  rw [mark?_blank c hws]
  unfold mark?
  rw [skipSpace_of_not_space hb]
  exact if_neg hc

/-- A word, a number or a string is one turn. -/
theorem walks_scalar (hv : v = b :: bs) (hb : isSpace b = false)
    (ho : ∀ f : Frame, b ≠ byte f.opening)
    (h : ∀ rest, Number.Ends rest → skipScalar (v ++ rest) = some rest) : Part.Walks .value v := by
  subst hv
  refine ⟨1, by simp, fun fuel frames ws rest hws hrest => ?_⟩
  rw [List.append_assoc]
  exact walk_scalar hws hb ho (h rest hrest)

theorem walks_word (h : v = nullWord ∨ v = trueWord ∨ v = falseWord) : Part.Walks .value v := by
  have hskip := fun rest (_ : Number.Ends rest) => skipScalar_word h rest
  rcases h with rfl | rfl | rfl
  · exact walks_scalar rfl (by decide) (by rintro (_ | _) <;> decide) hskip
  · exact walks_scalar rfl (by decide) (by rintro (_ | _) <;> decide) hskip
  · exact walks_scalar rfl (by decide) (by rintro (_ | _) <;> decide) hskip

theorem walks_number {n : Number} (h : Number.Spells v n) : Part.Walks .value v := by
  obtain ⟨b, bs, hbs, hb⟩ := Number.spells_head h
  refine walks_scalar hbs (begins_of_number_head hb).1 (fun f => ?_) fun rest hrest =>
    skipScalar_number h hrest
  exact ne_of_number_head hb (by cases f <;> decide) (by cases f <;> decide)

theorem walks_string (h : Quoted.Sound bs) :
    Part.Walks .value (byte '"' :: bs ++ [byte '"']) :=
  walks_scalar rfl (by decide) (by rintro (_ | _) <;> decide) fun rest _ => skipScalar_string h rest

theorem walks_empty (f : Frame) {inner : Bytes} (h : Blank inner) :
    Part.Walks .value (byte f.opening :: inner ++ [byte f.closing]) := by
  refine ⟨1, by simp, fun fuel frames ws rest hws _ => ?_⟩
  rw [List.append_assoc, ← walk_empty fuel f hws h]
  simp

/-- A container takes a turn more than its items, to open. -/
theorem walks_container {inner : Bytes} (h : Part.Text (.items f) inner)
    (ih : Part.Walks (.items f) inner) :
    Part.Walks .value (byte f.opening :: inner ++ [byte f.closing]) := by
  obtain ⟨k, hk, hwalk⟩ := ih
  obtain ⟨before, b, tail, hinner, hbefore, hb, hbracket, hbrace⟩ := h.head_items
  have hno : ∀ rest, mark? f.closing (inner ++ byte f.closing :: rest) = none := by
    intro rest
    rw [hinner, List.append_assoc]
    refine mark?_of_begins hbefore hb ?_
    cases f
    · exact hbracket
    · exact hbrace
  refine ⟨k + 1, by simpa using hk, fun fuel frames ws rest hws _ => ?_⟩
  rw [← hwalk, ← walk_open hws (hno rest)]
  simp [Nat.add_assoc]

/-- An item takes the turns of its value. -/
theorem walks_item (front : Bytes) {space v after : Bytes} (hs : Blank space) (ha : Blank after)
    (ih : Part.Walks .value v)
    (henter : ∀ rest, enter f (front ++ space ++ v ++ after ++ rest) =
      some (space ++ v ++ (after ++ rest))) :
    Part.Walks (.item f) (front ++ space ++ v ++ after) := by
  obtain ⟨k, hk, hwalk⟩ := ih
  refine ⟨k, by simp; omega, fun fuel frames rest hrest => ?_⟩
  rw [henter, Option.bind_some, hwalk _ _ _ _ hs (ends_of_cut ha hrest), walk_next_blank ha]

theorem walks_element {before v after : Bytes} (hb : Blank before) (ha : Blank after)
    (ih : Part.Walks .value v) : Part.Walks (.item .array) (before ++ v ++ after) :=
  walks_item [] hb ha ih fun rest => by simp [enter]

theorem skipName_member {before name gap : Bytes} (hb : Blank before) (hn : Quoted.Sound name)
    (hg : Blank gap) (x : Bytes) :
    skipName (before ++ byte '"' :: name ++ byte '"' :: gap ++ byte ':' :: x) = some x := by
  have hopen := mark?_self (c := '"') (by decide) hb (name ++ byte '"' :: (gap ++ byte ':' :: x))
  have hcolon := mark?_self (c := ':') (by decide) hg x
  have hassoc : before ++ byte '"' :: name ++ byte '"' :: gap ++ byte ':' :: x =
      before ++ byte '"' :: (name ++ byte '"' :: (gap ++ byte ':' :: x)) := by simp
  unfold skipName
  simp only [hassoc, hopen, Quoted.skip_sound hn, hcolon, Option.bind_eq_bind, Option.bind_some]

theorem walks_member {before name gap space v after : Bytes} (hb : Blank before)
    (hn : Quoted.Sound name) (hg : Blank gap) (hs : Blank space) (ha : Blank after)
    (ih : Part.Walks .value v) : Part.Walks (.item .object)
      (before ++ byte '"' :: name ++ byte '"' :: gap ++ byte ':' :: space ++ v ++ after) := by
  have hfront : before ++ byte '"' :: name ++ byte '"' :: gap ++ byte ':' :: space ++ v ++ after =
      before ++ byte '"' :: name ++ byte '"' :: gap ++ [byte ':'] ++ space ++ v ++ after := by simp
  rw [hfront]
  refine walks_item _ hs ha ih fun rest => ?_
  rw [enter, ← skipName_member hb hn hg]
  simp

/-- The last item, and a turn to close. -/
theorem walks_one (ih : Part.Walks (.item f) bs) : Part.Walks (.items f) bs := by
  obtain ⟨k, hk, hwalk⟩ := ih
  refine ⟨k + 1, by omega, fun fuel frames rest => ?_⟩
  have hitem := hwalk (fuel + 1) frames _ (cut_closing f rest)
  rw [walk_close] at hitem
  rw [← hitem, Nat.add_right_comm, Nat.add_assoc]

/-- An item, a turn for its comma, and the items after it. -/
theorem walks_more {bs' : Bytes} (ih : Part.Walks (.item f) bs) (ih' : Part.Walks (.items f) bs') :
    Part.Walks (.items f) (bs ++ byte ',' :: bs') := by
  obtain ⟨k, hk, hwalk⟩ := ih
  obtain ⟨k', hk', hwalk'⟩ := ih'
  refine ⟨k' + 1 + k, by simp; omega, fun fuel frames rest => ?_⟩
  have hitem := hwalk (fuel + k' + 1) frames _ (cut_comma (bs' ++ byte f.closing :: rest))
  rw [walk_comma, hwalk'] at hitem
  rw [← hitem, List.append_assoc, List.cons_append]
  simp only [Nat.add_assoc]

theorem Part.Text.walks {p : Part} (h : p.Text bs) : p.Walks bs := by
  induction h with
  | word h => exact walks_word h
  | number h => exact walks_number h
  | string h => exact walks_string h
  | empty f h => exact walks_empty f h
  | container h ih => exact walks_container h ih
  | element hb _ ha ih => exact walks_element hb ha ih
  | member hb hn hg hs _ ha ih => exact walks_member hb hn hg hs ha ih
  | one _ ih => exact walks_one ih
  | more _ _ ih ih' => exact walks_more ih ih'

/-- The skipper passes over a value of any depth, and over the blanks in front of it. -/
theorem skipWithin_value (hv : IsValue v) (hws : Blank ws) (hrest : Number.Ends rest)
    (hfuel : v.length < fuel) : skipWithin fuel (ws ++ v ++ rest) = some rest := by
  obtain ⟨k, hk, hwalk⟩ := Part.Text.walks hv
  obtain ⟨extra, rfl⟩ : ∃ extra, fuel = extra + 1 + k := ⟨fuel - k - 1, by omega⟩
  exact hwalk (extra + 1) [] ws rest hws hrest

end walk

end Intake.Json
