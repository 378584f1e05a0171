import Mathlib.Data.List.TakeDrop
import Intake.Json.Number
import Intake.Json.Quoted
import Intake.Proofs.Digits

/-!
# Strings and numbers of JSON

Which text a string denotes (`Quoted.Denotes`) and which number a numeral writes (`Number.Spells`),
as relations over bytes, and the readers against them: `scan_denoted` and `scan_spelled`. What is
written for a text denotes it (`denotes_write`), be a character an escape or its own UTF-8 form, and
the decimal form of an integer spells it (`spells_toString`).

The reader of a number needs to know that what comes next does not go on with it (`Number.Ends`).
-/

namespace Intake.Json

variable {rest : Bytes} {c : Char}

namespace Quoted

variable {acc bs tail : Bytes} {b e x : UInt8}

/-- A byte that stands for itself inside of a string. -/
def IsPlain (b : UInt8) : Prop := b ≠ byte '"' ∧ b ≠ byte '\\' ∧ ¬b < 32

theorem scan_plain (h : IsPlain b) (acc tail : Bytes) :
    scan acc (b :: tail) = scan (b :: acc) tail := by
  rw [scan.eq_def]
  simp only [if_neg h.1, if_neg h.2.1, if_neg h.2.2]

theorem scan_plains (h : ∀ b ∈ bs, IsPlain b) (acc tail : Bytes) :
    scan acc (bs ++ tail) = scan (bs.reverse ++ acc) tail := by
  induction bs generalizing acc with
  | nil => rfl
  | cons b bs ih =>
    rw [List.cons_append, scan_plain (h b (List.mem_cons_self ..)),
      ih fun b hb => h b (List.mem_cons_of_mem _ hb)]
    simp

theorem scan_quote (acc tail : Bytes) : scan acc (byte '"' :: tail) =
    (String.fromUTF8? acc.reverse.toByteArray).map (·, tail) := by
  rw [scan.eq_def]
  simp only [if_true]

theorem scan_escape (he : escape? e = some x) (acc tail : Bytes) :
    scan acc (byte '\\' :: e :: tail) = scan (x :: acc) tail := by
  have hquote : ¬byte '\\' = byte '"' := by decide
  have hu : ¬e = byte 'u' := by
    rintro rfl
    have hnone : escape? (byte 'u') = none := by decide
    rw [hnone] at he
    cases he
  rw [scan.eq_def]
  simp only [if_neg hquote, if_true, if_neg hu, he]

/-- A code unit outside of the pairs, written with its four digits. -/
theorem scan_unit {a b c d : UInt8} {n : Nat} (hn : unit? a b c d = some n)
    (hl : isLeading n = false) (ht : isTrailing n = false) (acc tail : Bytes) :
    scan acc (byte '\\' :: byte 'u' :: a :: b :: c :: d :: tail) = scan (push acc n) tail := by
  have hquote : ¬byte '\\' = byte '"' := by decide
  rw [scan.eq_def]
  simp only [if_neg hquote, if_true, hn, hl, ht, Bool.false_eq_true, if_false]

theorem isPlain_iff : IsPlain b ↔ b.toNat ≠ 34 ∧ b.toNat ≠ 92 ∧ 32 ≤ b.toNat := by
  unfold IsPlain
  rw [UInt8.lt_iff_toNat_lt, ne_eq, ne_eq, ← UInt8.toNat_inj, ← UInt8.toNat_inj, Nat.not_lt]
  rfl

/-- All bytes of a character beyond ASCII are beyond ASCII. -/
theorem le_toNat_of_mem_utf8 (hc : ¬c.toNat ≤ 127) (hb : b ∈ String.utf8EncodeChar c) :
    128 ≤ b.toNat := by
  have hv : ¬c.val.toNat ≤ 127 := hc
  unfold String.utf8EncodeChar at hb
  simp only [if_neg hv] at hb
  split at hb
  · simp only [List.mem_cons, List.not_mem_nil, or_false] at hb
    rcases hb with rfl | rfl <;> rw [UInt8.toNat_ofNat'] <;> omega
  · split at hb
    · simp only [List.mem_cons, List.not_mem_nil, or_false] at hb
      rcases hb with rfl | rfl | rfl <;> rw [UInt8.toNat_ofNat'] <;> omega
    · simp only [List.mem_cons, List.not_mem_nil, or_false] at hb
      rcases hb with rfl | rfl | rfl | rfl <;> rw [UInt8.toNat_ofNat'] <;> omega

theorem utf8_of_ascii (hc : c.toNat ≤ 127) : String.utf8EncodeChar c = [UInt8.ofNat c.toNat] :=
  if_pos hc

theorem isPlain_utf8 (hq : c ≠ '"') (hs : c ≠ '\\') (h32 : ¬c.toNat < 32) :
    ∀ b ∈ String.utf8EncodeChar c, IsPlain b := by
  intro b hb
  rw [isPlain_iff]
  by_cases hc : c.toNat ≤ 127
  · have hquote : c.toNat ≠ 34 := fun h => hq (Char.ext (UInt32.toNat_inj.1 h))
    have hslash : c.toNat ≠ 92 := fun h => hs (Char.ext (UInt32.toNat_inj.1 h))
    rw [utf8_of_ascii hc, List.mem_singleton] at hb
    rw [hb, UInt8.toNat_ofNat']
    omega
  · have hhigh := le_toNat_of_mem_utf8 hc hb
    omega

theorem unit?_of_control {n : Nat} (h : n < 32) : unit? (byte '0') (byte '0')
    (byte (Text.hexDigit (n / 16))) (byte (Text.hexDigit (n % 16))) = some n := by
  have key : ∀ a < 32, unit? (byte '0') (byte '0') (byte (Text.hexDigit (a / 16)))
    (byte (Text.hexDigit (a % 16))) = some a := by decide
  exact key n h

theorem scan_short (he : escape? e = some (byte c)) (hc : c.toNat ≤ 127) (acc tail : Bytes) :
    scan acc ([byte '\\', e] ++ tail) = scan ((String.utf8EncodeChar c).reverse ++ acc) tail := by
  rw [utf8_of_ascii hc]
  exact scan_escape he acc tail

/-! ### The text of a string -/

/-- The bytes that stand for one character inside of a string. -/
inductive Piece : Bytes → Char → Prop
  | plain {c : Char} (hq : c ≠ '"') (hs : c ≠ '\\') (h : ¬c.toNat < 32) :
    Piece (String.utf8EncodeChar c) c
  | escape {e : UInt8} {c : Char} (he : escape? e = some (byte c)) (hc : c.toNat ≤ 127) :
    Piece [byte '\\', e] c
  | single {w x y z : UInt8} {n : Nat} (hn : unit? w x y z = some n) (hl : isLeading n = false)
    (ht : isTrailing n = false) : Piece [byte '\\', byte 'u', w, x, y, z] (Char.ofNat n)
  | pair {w x y z w' x' y' z' : UInt8} {n m : Nat} (hn : unit? w x y z = some n)
    (hl : isLeading n = true) (hm : unit? w' x' y' z' = some m) (ht : isTrailing m = true) :
    Piece [byte '\\', byte 'u', w, x, y, z, byte '\\', byte 'u', w', x', y', z']
      (Char.ofNat (ofPair n m))

/-- The inside of a string, and its characters. -/
inductive Inside : Bytes → List Char → Prop
  | nil : Inside [] []
  | cons {us bs : Bytes} {c : Char} {cs : List Char} (hu : Piece us c) (h : Inside bs cs) :
    Inside (us ++ bs) (c :: cs)

/-- The text that a string denotes. -/
def Denotes (bs : Bytes) (s : String) : Prop :=
  ∃ inside, bs = byte '"' :: inside ++ [byte '"'] ∧ Inside inside s.toList

theorem scan_pair {w x y z w' x' y' z' : UInt8} {n m : Nat} (hn : unit? w x y z = some n)
    (hl : isLeading n = true) (hm : unit? w' x' y' z' = some m) (ht : isTrailing m = true)
    (acc tail : Bytes) :
    scan acc (byte '\\' :: byte 'u' :: w :: x :: y :: z ::
      byte '\\' :: byte 'u' :: w' :: x' :: y' :: z' :: tail) =
        scan (push acc (ofPair n m)) tail := by
  have hquote : ¬byte '\\' = byte '"' := by decide
  rw [scan.eq_def]
  simp only [if_neg hquote, if_true, hn, hl, hm, ht, and_self]

theorem scan_piece {us : Bytes} {c : Char} (h : Piece us c) (acc tail : Bytes) :
    scan acc (us ++ tail) = scan ((String.utf8EncodeChar c).reverse ++ acc) tail := by
  cases h with
  | plain hq hs h => exact scan_plains (isPlain_utf8 hq hs h) acc tail
  | escape he hc => exact scan_short he hc acc tail
  | single hn hl ht => exact scan_unit hn hl ht acc tail
  | pair hn hl hm ht => exact scan_pair hn hl hm ht acc tail

theorem scan_chars {cs : List Char} (h : Inside bs cs) (acc rest : Bytes) :
    scan acc (bs ++ byte '"' :: rest) = (String.fromUTF8?
      (acc.reverse ++ cs.flatMap String.utf8EncodeChar).toByteArray).map (·, rest) := by
  induction h generalizing acc with
  | nil => simp [scan_quote]
  | cons hu _ ih =>
    rw [List.append_assoc, scan_piece hu, ih]
    simp

theorem fromUTF8?_toByteArray (s : String) : String.fromUTF8? s.toByteArray = some s :=
  dif_pos s.isValidUTF8

/-- A string that denotes a text is read as that text. -/
theorem scan_denoted {inside : Bytes} {s : String} (h : Inside inside s.toList) (rest : Bytes) :
    scan [] (inside ++ byte '"' :: rest) = some (s, rest) := by
  have hutf8 : (s.toList.flatMap String.utf8EncodeChar).toByteArray = s.toByteArray := by
    have hlist : String.ofList s.toList = s := String.ofList_toList
    rw [← hlist, String.toByteArray_ofList, String.toList_ofList]
    rfl
  rw [scan_chars h, List.reverse_nil, List.nil_append, hutf8, fromUTF8?_toByteArray]
  rfl

/-- What is written for a character stands for it. -/
theorem piece_writeChar (c : Char) : Piece (writeChar c) c := by
  have heq : ∀ n, c.toNat = n → c = Char.ofNat n := by
    rintro n rfl
    rw [Char.ofNat_toNat]
  unfold writeChar
  -- seven characters have a short escape, the other control characters one with their number
  split
  · next h => exact .escape (by rw [h]; decide) (by rw [h]; decide)
  split
  · next h => exact .escape (by rw [h]; decide) (by rw [h]; decide)
  split
  · next h => exact .escape (by rw [h]; decide) (by rw [h]; decide)
  split
  · next h => exact .escape (by rw [h]; decide) (by rw [h]; decide)
  split
  · next h => exact .escape (by rw [h]; decide) (by rw [h]; decide)
  split
  · next h => exact .escape (by rw [heq _ h]; decide) (by rw [h]; decide)
  split
  · next h => exact .escape (by rw [heq _ h]; decide) (by rw [h]; decide)
  split
  · next h =>
    have hl : isLeading c.toNat = false := by simp [isLeading]; omega
    have ht : isTrailing c.toNat = false := by simp [isTrailing]; omega
    have hsingle := Piece.single (unit?_of_control h) hl ht
    rw [Char.ofNat_toNat] at hsingle
    exact hsingle
  · next hq hs _ _ _ _ _ h => exact .plain hq hs h

theorem denotes_write (s : String) : Denotes (write s) s := by
  have hall : ∀ cs : List Char, Inside (cs.flatMap writeChar) cs := by
    intro cs
    induction cs with
    | nil => exact .nil
    | cons c cs ih => exact .cons (piece_writeChar c) ih
  exact ⟨_, rfl, hall s.toList⟩

end Quoted

namespace Number

variable {n : Nat} {b : UInt8}

/-- The decimal digits of a number. -/
def numeral (n : Nat) : Bytes := (Nat.toDigits 10 n).map byte

theorem numeral_of_lt (h : n < 10) : numeral n = [byte (Nat.digitChar n)] := by
  unfold numeral
  rw [Nat.toDigits_of_lt_base h, List.map_singleton]

theorem numeral_of_le (h : 10 ≤ n) :
    numeral n = numeral (n / 10) ++ [byte (Nat.digitChar (n % 10))] := by
  unfold numeral
  rw [Nat.toDigits_eq_if (by decide), if_neg (Nat.not_lt.2 h), List.map_append, List.map_singleton]

theorem numeral_ne_nil (n : Nat) : numeral n ≠ [] := by
  unfold numeral
  simp

theorem isDigit_digitChar (h : n < 10) : isDigit (byte (Nat.digitChar n)) = true := by
  have key : ∀ d < 10, isDigit (byte (Nat.digitChar d)) = true := by decide
  exact key n h

theorem toNat_digitChar (h : n < 10) : (byte (Nat.digitChar n)).toNat - 48 = n := by
  have key : ∀ d < 10, (byte (Nat.digitChar d)).toNat - 48 = d := by decide
  exact key n h

theorem isDigit_of_mem_numeral (hb : b ∈ numeral n) : isDigit b = true := by
  induction n using Nat.strongRecOn with
  | ind n ih =>
    by_cases h : n < 10
    · rw [numeral_of_lt h, List.mem_singleton] at hb
      rw [hb]
      exact isDigit_digitChar h
    · rw [numeral_of_le (Nat.not_lt.1 h)] at hb
      rcases List.mem_append.1 hb with hb | hb
      · exact ih (n / 10) (by omega) hb
      · rw [List.mem_singleton.1 hb]
        exact isDigit_digitChar (Nat.mod_lt n (by decide))

/-- Only zero is written with a zero in front. -/
theorem eq_zero_of_head (h : (numeral n).head? = some (byte '0')) : n = 0 := by
  induction n using Nat.strongRecOn with
  | ind n ih =>
    by_cases hn : n < 10
    · have key : ∀ d < 10, byte (Nat.digitChar d) = byte '0' → d = 0 := by decide
      rw [numeral_of_lt hn] at h
      exact key n hn (Option.some.inj h)
    · have hsome := List.isSome_head?.2 (numeral_ne_nil (n / 10))
      rw [numeral_of_le (Nat.not_lt.1 hn), List.head?_append, Option.or_of_isSome hsome] at h
      have hzero := ih (n / 10) (by omega) h
      omega

/-- All digits fit in the significand if the number does. -/
theorem foldl_take_numeral (h : n < Nat.pow 2 64) :
    (numeral n).foldl (Scaled.take 1 0) ⟨0, 0, false⟩ = ⟨n, 0, false⟩ := by
  have htake : ∀ m d, d < 10 → m * 10 + d < Nat.pow 2 64 →
      Scaled.take 1 0 ⟨m, 0, false⟩ (byte (Nat.digitChar d)) = ⟨m * 10 + d, 0, false⟩ := by
    intro m d hd hfits
    unfold Scaled.take
    simp only [toNat_digitChar hd, Bool.false_eq_true, false_or, if_neg (Nat.not_le.2 hfits),
      Int.add_zero]
  induction n using Nat.strongRecOn with
  | ind n ih =>
    by_cases hn : n < 10
    · rw [numeral_of_lt hn, List.foldl_cons, htake 0 n hn (by omega)]
      simp
    · have hmod : n % 10 < 10 := Nat.mod_lt n (by decide)
      rw [numeral_of_le (Nat.not_lt.1 hn), List.foldl_append, ih (n / 10) (by omega) (by omega),
        List.foldl_cons, htake _ _ hmod (by omega), List.foldl_nil]
      simp only [Scaled.mk.injEq, and_true]
      omega

/-! ### The number of a numeral -/

/-- One digit or more. -/
def Digits (ds : Bytes) : Prop := ds ≠ [] ∧ ∀ b ∈ ds, isDigit b = true

/-- A point and digits, or nothing. -/
inductive Fraction : Bytes → Bytes → Prop
  | none : Fraction [] []
  | some {ds : Bytes} (h : Digits ds) : Fraction (byte '.' :: ds) ds

/-- A power of ten, or nothing. -/
inductive Exponent : Bytes → Option Int → Prop
  | none : Exponent [] none
  | plain {e : UInt8} {ds : Bytes} (he : e = byte 'e' ∨ e = byte 'E') (h : Digits ds) :
    Exponent (e :: ds) (some (exponentOfDigits ds))
  | plus {e : UInt8} {ds : Bytes} (he : e = byte 'e' ∨ e = byte 'E') (h : Digits ds) :
    Exponent (e :: byte '+' :: ds) (some (exponentOfDigits ds))
  | minus {e : UInt8} {ds : Bytes} (he : e = byte 'e' ∨ e = byte 'E') (h : Digits ds) :
    Exponent (e :: byte '-' :: ds) (some (-exponentOfDigits ds))

/-- The number that a numeral writes. -/
inductive Spells : Bytes → Number → Prop
  | mk (negative : Bool) {whole fraction exponent ds : Bytes} {power : Option Int}
    (hw : Digits whole) (hzero : whole.head? = some (byte '0') → whole.length = 1)
    (hf : Fraction fraction ds) (he : Exponent exponent power) :
    Spells ((if negative then [byte '-'] else []) ++ whole ++ fraction ++ exponent)
      ⟨negative, whole, ds, power⟩

/-- No digit comes next. -/
def Stops (rest : Bytes) : Prop := ∀ b ∈ rest.head?, isDigit b = false

/-- Whether a number written before `rest` ends there. -/
def Ends (rest : Bytes) : Prop :=
  ∀ b ∈ rest.head?, isDigit b = false ∧ b ≠ byte '.' ∧ b ≠ byte 'e' ∧ b ≠ byte 'E'

theorem digits?_of_stops {ds : Bytes} (h : Digits ds) (hrest : Stops rest) :
    digits? (ds ++ rest) = some (ds, rest) := by
  have hspan : (ds ++ rest).span isDigit = (ds, rest) := by
    rw [List.span_eq_takeWhile_dropWhile, List.takeWhile_append_of_pos h.2,
      List.dropWhile_append_of_pos h.2]
    cases rest with
    | nil => simp
    | cons b rest => simp [hrest b rfl]
  have hne := h.1
  unfold digits?
  rw [hspan]
  cases ds with
  | nil => exact absurd rfl hne
  | cons b ds => rfl

theorem exponent?_of_ends (h : Ends rest) : exponent? rest = some (none, rest) := by
  cases rest with
  | nil => rfl
  | cons b rest =>
    obtain ⟨-, -, he, hE⟩ := h b rfl
    exact if_neg (not_or.2 ⟨he, hE⟩)

theorem exponent?_of_spells {e : Bytes} {power : Option Int} (h : Exponent e power)
    (hrest : Ends rest) : exponent? (e ++ rest) = some (power, rest) := by
  have hstops : Stops rest := fun b hb => (hrest b hb).1
  cases h with
  | none => exact exponent?_of_ends hrest
  | @plain e ds he h =>
    have hread := digits?_of_stops h hstops
    obtain ⟨d, ds, rfl⟩ := List.exists_cons_of_ne_nil h.1
    have hd := h.2 d (List.mem_cons_self ..)
    have hminus : ¬d = byte '-' := by
      rintro rfl
      revert hd
      decide
    have hplus : ¬d = byte '+' := by
      rintro rfl
      revert hd
      decide
    rw [List.cons_append] at hread
    simp only [List.cons_append, exponent?, if_pos he, if_neg hminus, if_neg hplus, hread,
      Option.map_some]
  | plus he h =>
    have hminus : ¬byte '+' = byte '-' := by decide
    simp only [List.cons_append, exponent?, if_pos he, if_neg hminus, if_true,
      digits?_of_stops h hstops, Option.map_some]
  | minus he h =>
    simp only [List.cons_append, exponent?, if_pos he, if_true, digits?_of_stops h hstops,
      Option.map_some]

theorem fraction?_of_spells {f ds : Bytes} (h : Fraction f ds) (hstops : Stops rest)
    (hpoint : ∀ b ∈ rest.head?, b ≠ byte '.') : fraction? (f ++ rest) = some (ds, rest) := by
  cases h with
  | none =>
    cases rest with
    | nil => rfl
    | cons b rest => exact if_neg (hpoint b rfl)
  | some h =>
    simp only [List.cons_append, fraction?, if_true]
    exact digits?_of_stops h hstops

theorem whole?_of_spells {ds : Bytes} (h : Digits ds)
    (hzero : ds.head? = some (byte '0') → ds.length = 1) (hstops : Stops rest) :
    whole? (ds ++ rest) = some (ds, rest) := by
  unfold whole?
  rw [digits?_of_stops h hstops]
  exact if_neg fun hbad => hbad.2 (hzero hbad.1)

/-- What follows the digits of a number does not go on with them. -/
theorem stops_exponent {e : Bytes} {power : Option Int} (h : Exponent e power) (hrest : Ends rest) :
    ∀ b ∈ (e ++ rest).head?, isDigit b = false ∧ b ≠ byte '.' := by
  intro b hb
  have hletter : ∀ x, x = byte 'e' ∨ x = byte 'E' → isDigit x = false ∧ x ≠ byte '.' := by
    rintro x (rfl | rfl) <;> decide
  cases h with
  | none =>
    obtain ⟨hdigit, hpoint, -⟩ := hrest b hb
    exact ⟨hdigit, hpoint⟩
  | plain he | plus he | minus he =>
    cases hb
    exact hletter _ he

theorem stops_fraction {f ds : Bytes} (h : Fraction f ds) (hrest : Stops rest) :
    Stops (f ++ rest) := by
  cases h with
  | none => exact hrest
  | some h =>
    rintro b ⟨⟩
    decide

theorem scan_spelled {n : Number} (h : Spells bs n) (hrest : Ends rest) :
    scan (bs ++ rest) = some (n, rest) := by
  obtain ⟨negative, hw, hzero, hf, he⟩ := h
  next whole fraction exponent ds power =>
  have hstops : Stops (exponent ++ rest) := fun b hb => (stops_exponent he hrest b hb).1
  have hexp := exponent?_of_spells he hrest
  have hfrac := fraction?_of_spells hf hstops fun b hb => (stops_exponent he hrest b hb).2
  have hwhole := whole?_of_spells hw hzero (stops_fraction hf hstops)
  unfold scan
  cases negative with
  | true =>
    simp only [if_true, List.append_assoc, List.cons_append, List.nil_append, hwhole, hfrac, hexp,
      Option.bind_eq_bind, Option.bind_some]
  | false =>
    obtain ⟨w, ws, rfl⟩ := List.exists_cons_of_ne_nil hw.1
    have hminus : ¬w = byte '-' := by
      rintro rfl
      have hdigit := hw.2 _ (List.mem_cons_self ..)
      revert hdigit
      decide
    rw [List.cons_append] at hwhole
    simp only [Bool.false_eq_true, if_false, List.append_assoc, List.cons_append, List.nil_append,
      if_neg hminus, hwhole, hfrac, hexp, Option.bind_eq_bind, Option.bind_some]

theorem spells_head {n : Number} (h : Spells bs n) :
    ∃ b bs', bs = b :: bs' ∧ (b = byte '-' ∨ isDigit b = true) := by
  obtain ⟨negative, hw, -, -, -⟩ := h
  cases negative with
  | true => exact ⟨_, _, rfl, .inl rfl⟩
  | false =>
    obtain ⟨w, ws, rfl⟩ := List.exists_cons_of_ne_nil hw.1
    exact ⟨_, _, rfl, .inr (hw.2 _ (List.mem_cons_self ..))⟩

/-! ### Integers -/

/-- A number without a fraction and an exponent. -/
def ofWhole (negative : Bool) (n : Nat) : Number := ⟨negative, numeral n, [], none⟩

/-- The decimal form of an integer, with its sign. -/
theorem map_byte_toString (i : Int) : (toString i).toList.map byte =
    if i < 0 then byte '-' :: numeral i.natAbs else numeral i.natAbs := by
  show i.repr.toList.map byte = _
  rw [Int.repr_eq_if]
  by_cases hi : i < 0
  · have habs : (-i).toNat = i.natAbs := by omega
    rw [if_neg (Int.not_le.2 hi), if_pos hi, habs, String.toList_append, List.map_append]
    exact congrArg (byte '-' :: List.map byte ·) (Text.toList_toString i.natAbs)
  · have habs : i.toNat = i.natAbs := by omega
    rw [if_pos (Int.not_lt.1 hi), if_neg hi, habs]
    exact congrArg (List.map byte) (Text.toList_toString i.natAbs)

theorem digits_numeral (n : Nat) : Digits (numeral n) :=
  ⟨numeral_ne_nil n, fun _ hb => isDigit_of_mem_numeral hb⟩

theorem spells_toString (i : Int) : Spells ((toString i).toList.map byte)
    (ofWhole (decide (i < 0)) i.natAbs) := by
  have hzero : (numeral i.natAbs).head? = some (byte '0') → (numeral i.natAbs).length = 1 := by
    intro h
    rw [eq_zero_of_head h]
    rfl
  have h := Spells.mk (decide (i < 0)) (digits_numeral i.natAbs) hzero .none .none
  rw [map_byte_toString]
  by_cases hi : i < 0
  · simpa [hi, ofWhole] using h
  · simpa [hi, ofWhole] using h

/-- The bound is one higher with a sign, so that the least number is read too. -/
theorem toInt64?_ofWhole (i : Int64) :
    toInt64? (ofWhole (decide (i.toInt < 0)) i.toInt.natAbs) = some i := by
  have h64 : Nat.pow 2 64 = 18446744073709551616 := rfl
  have h63 : Nat.pow 2 63 = 9223372036854775808 := rfl
  have hlow : -2 ^ 63 ≤ i.toInt := Int64.le_toInt i
  have hhigh : i.toInt < 2 ^ 63 := Int64.toInt_lt i
  have hfits : i.toInt.natAbs < Nat.pow 2 64 := by omega
  have hscaled : ∀ negative, scaled (ofWhole negative i.toInt.natAbs) = ⟨i.toInt.natAbs, 0, false⟩ :=
    fun _ => foldl_take_numeral hfits
  have hwhole : ∀ negative, ¬((ofWhole negative i.toInt.natAbs).fraction ≠ [] ∨
      (ofWhole negative i.toInt.natAbs).exponent ≠ none ∨ false = true) := by
    simp only [ofWhole, ne_eq, not_true_eq_false, Bool.false_eq_true, or_self, not_false_eq_true,
      implies_true]
  have hsign : ∀ negative, (ofWhole negative i.toInt.natAbs).negative = negative := fun _ => rfl
  unfold toInt64?
  simp only [hscaled, if_neg (hwhole _), hsign]
  by_cases hi : i.toInt < 0
  · have hrange : 1 ≤ i.toInt.natAbs ∧ i.toInt.natAbs ≤ Nat.pow 2 63 := by omega
    have hvalue : -(i.toInt.natAbs : Int) = i.toInt := by omega
    rw [if_pos (decide_eq_true hi), if_pos hrange, hvalue, Int64.ofInt_toInt]
  · have hrange : i.toInt.natAbs < Nat.pow 2 63 := by omega
    have hvalue : (i.toInt.natAbs : Int) = i.toInt := by omega
    rw [if_neg (mt of_decide_eq_true hi), if_pos hrange, hvalue, Int64.ofInt_toInt]

end Number

end Intake.Json
