import Intake.Instant.Reader
import Intake.Uuid

/-!
# Numbers read back from their digits

The digits of a number, decimal or hexadecimal, with or without zeros in front, stand for that number,
and a run of digits is taken off the front of a text whole.
-/

namespace Intake.Text

variable {ds rest : List Char} {n most width : Nat} {c : Char}

/-! ### Decimal digits -/

theorem toList_toString (n : Nat) : (toString n).toList = Nat.toDigits 10 n := by
  rw [Nat.toString_eq_ofList_toDigits, String.toList_ofList]

theorem isDigit_iff : isDigit c = true ↔ '0' ≤ c ∧ c ≤ '9' := by
  unfold isDigit digit?
  split <;> simp_all

theorem isDigit_of_mem_toDigits (h : c ∈ Nat.toDigits 10 n) : isDigit c = true := by
  have hc := Nat.isDigit_of_mem_toDigits (by decide) (by decide) h
  rw [isDigit_iff]
  simp only [Char.isDigit, Bool.and_eq_true, decide_eq_true_eq] at hc
  exact hc

theorem ofDigits_toDigits (n : Nat) : ofDigits (Nat.toDigits 10 n) = n := by
  have hfold : ∀ (cs : List Char) (m : Nat), (∀ c ∈ cs, isDigit c = true) →
      cs.foldl (fun n c => n * 10 + (digit? c).getD 0) m = Nat.ofDigitChars 10 cs m := by
    intro cs
    induction cs with
    | nil => intro m _; rfl
    | cons c cs ih =>
      intro m h
      have hc := isDigit_iff.1 (h c (List.mem_cons_self ..))
      have hd : digit? c = some (c.toNat - '0'.toNat) := if_pos hc
      rw [List.foldl_cons, Nat.ofDigitChars_cons, hd, ih _ fun c hc => h c (List.mem_cons_of_mem _ hc),
        Option.getD_some, Nat.mul_comm]
  unfold ofDigits ofDigitsIn
  rw [hfold _ _ fun c hc => isDigit_of_mem_toDigits hc, Nat.ofDigitChars_ten_toDigits]

theorem ofDigits_zeros (k : Nat) (ds : List Char) :
    ofDigits (List.replicate k '0' ++ ds) = ofDigits ds := by
  unfold ofDigits ofDigitsIn
  rw [List.foldl_append]
  congr 1
  induction k with
  | zero => rfl
  | succ k ih => exact ih

theorem padded_eq (width n : Nat) : padded width n =
    List.replicate (width - (Nat.toDigits 10 n).length) '0' ++ Nat.toDigits 10 n := by
  unfold padded
  rw [toList_toString]

theorem ofDigits_padded (width n : Nat) : ofDigits (padded width n) = n := by
  rw [padded_eq, ofDigits_zeros, ofDigits_toDigits]

theorem isDigit_of_mem_padded (h : c ∈ padded width n) : isDigit c = true := by
  rw [padded_eq] at h
  rcases List.mem_append.1 h with h | h
  · rw [List.eq_of_mem_replicate h]
    decide
  · exact isDigit_of_mem_toDigits h

theorem length_padded (h : n < Nat.pow 10 width) (hw : 0 < width) :
    (padded width n).length = width := by
  have hle := (Nat.length_toDigits_le_iff (b := 10) (by decide) hw).2 h
  rw [padded_eq, List.length_append, List.length_replicate]
  omega

theorem padded_ne_nil (width n : Nat) : padded width n ≠ [] := by
  rw [padded_eq]
  simp

/-! ### Reading -/

theorem trimStart_of_digit (hd : isDigit c = true) (rest : List Char) :
    trimStart (c :: rest) = c :: rest := by
  have hblank : isBlank c = false := by
    rw [isDigit_iff] at hd
    have h0 : 48 ≤ c.toNat := hd.1
    have h9 : c.toNat ≤ 57 := hd.2
    simp [isBlank]
    omega
  simp [trimStart, hblank]

theorem trimStart_digits (hds : ∀ c ∈ ds, isDigit c = true) (hne : ds ≠ []) (rest : List Char) :
    trimStart (ds ++ rest) = ds ++ rest := by
  cases ds with
  | nil => exact absurd rfl hne
  | cons c ds => exact trimStart_of_digit (hds c (List.mem_cons_self ..)) _

/-- A run of digits is taken whole if it is no longer than allowed and nothing more can be taken. -/
theorem takeDigits_append (hds : ∀ c ∈ ds, isDigit c = true) (hlen : ds.length ≤ most)
    (hrest : ds.length = most ∨ ∀ c ∈ rest.head?, isDigit c = false) :
    takeDigits most (ds ++ rest) = (ds, rest) := by
  induction ds generalizing most with
  | nil =>
    cases most with
    | zero => rfl
    | succ most =>
      rcases hrest with h | h
      · cases h
      · cases rest with
        | nil => rfl
        | cons c rest => simp [takeDigits, h c rfl]
  | cons c ds ih =>
    cases most with
    | zero => simp at hlen
    | succ most =>
      have htail := ih (fun c hc => hds c (List.mem_cons_of_mem _ hc)) (by simpa using hlen)
        (by simpa using hrest)
      simp [takeDigits, hds c (List.mem_cons_self ..), htail]

/-! ### Hexadecimal digits -/

theorem hexDigit?_hexDigit {n : Nat} (h : n < 16) : hexDigit? (hexDigit n) = some n := by
  have key : ∀ a < 16, hexDigit? (hexDigit a) = some a := by decide
  exact key n h

end Intake.Text

namespace Intake.Uuid

open Text

theorem length_digits (count n : Nat) : (digits count n).length = count := by
  induction count generalizing n with
  | zero => rfl
  | succ count ih => simp [digits, ih]

theorem isSome_hexDigit?_of_mem {count n : Nat} {c : Char} (h : c ∈ digits count n) :
    (hexDigit? c).isSome = true := by
  induction count generalizing n with
  | zero => cases h
  | succ count ih =>
    rcases List.mem_append.1 h with h | h
    · exact ih h
    · rw [List.mem_singleton.1 h, hexDigit?_hexDigit (Nat.mod_lt n (by decide))]
      rfl

theorem ofDigitsIn_digits (count n : Nat) :
    ofDigitsIn 16 hexDigit? (digits count n) = n % Nat.pow 16 count := by
  induction count generalizing n with
  | zero => exact (Nat.mod_one n).symm
  | succ count ih =>
    have hprefix := ih (n / 16)
    unfold ofDigitsIn at hprefix ⊢
    rw [digits, List.foldl_append, hprefix]
    simp only [List.foldl_cons, List.foldl_nil, hexDigit?_hexDigit (Nat.mod_lt n (by decide)),
      Option.getD_some]
    show n / 16 % 16 ^ count * 16 + n % 16 = n % 16 ^ (count + 1)
    rw [Nat.pow_succ', Nat.mod_mul]
    omega

theorem ofDigits?_digits (u : Uuid) : ofDigits? (digits 32 u.number) = some u := by
  have hall : ((digits 32 u.number).all fun c => (hexDigit? c).isSome) = true :=
    List.all_eq_true.2 fun c hc => isSome_hexDigit?_of_mem hc
  have hn : u.number % Nat.pow 16 32 = u.number := Nat.mod_eq_of_lt u.lt
  unfold ofDigits?
  rw [if_pos ⟨length_digits 32 u.number, hall⟩]
  simp only [ofDigitsIn_digits, hn]
  rw [dif_pos u.lt]

theorem length_hyphenate {ds : List Char} (h : ds.length = 32) : (hyphenate ds).length = 36 := by
  simp [hyphenate, h]

/-- A text in groups is read as one if it is in neither of the other forms. -/
theorem read?_of_groups {cs : List Char} (hlen : cs.length = 36)
    (hhead : ∀ rest, cs ≠ '\x7b' :: rest)
    (hurn : lowerAscii (cs.take 9) ≠ "urn:uuid:".toList) :
    read? (String.ofList cs) = ofHyphenated? cs := by
  unfold read?
  rw [String.toList_ofList]
  simp only [if_neg (show cs.length ≠ 32 by omega), if_neg hurn]

theorem read?_text (u : Uuid) : read? u.text = some u := by
  have hlength := length_digits 32 u.number
  have hhyphen : ∀ c ∈ digits 32 u.number, c ≠ '-' := fun c hc => digits_ne_hyphen hc
  have hdigit : ∀ c ∈ digits 32 u.number, (hexDigit? c).isSome = true :=
    fun c hc => isSome_hexDigit?_of_mem hc
  have hread := ofDigits?_digits u
  unfold text
  generalize digits 32 u.number = ds at *
  rw [read?_of_groups (length_hyphenate hlength)]
  · unfold ofHyphenated?
    simp only [filter_hyphenate hhyphen]
    rw [if_pos ⟨length_hyphenate hlength, hlength, trivial⟩, hread]
  · intro rest h
    cases ds with
    | nil => cases hlength
    | cons d ds =>
      have hd := hdigit d (List.mem_cons_self ..)
      rw [(List.cons.inj h).1] at hd
      revert hd
      decide
  · -- the ninth character is a hyphen
    have hgroup : (ds.take 8).length = 8 := by simp [hlength]
    have htake : (hyphenate ds).take 9 = ds.take 8 ++ ['-'] := by
      unfold hyphenate
      rw [List.append_assoc, List.append_assoc, List.append_assoc, List.take_append, hgroup,
        List.take_of_length_le (by omega)]
      rfl
    have hurn : "urn:uuid:".toList = "urn:uuid".toList ++ [':'] := by decide
    rw [htake, lowerAscii, List.map_append, hurn]
    intro h
    have hlast := (List.append_inj' h rfl).2
    revert hlast
    decide

end Intake.Uuid
