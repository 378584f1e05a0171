import Intake.Text.Blank
import Intake.Text.Digits

/-!
# Identifiers

A UUID is a number of 128 bits. Its text is 32 small hexadecimal digits in groups of 8, 4, 4, 4
and 12. It is read in that form with digits of any case, also in braces or after `urn:uuid:`,
itself of any case, and as 32 digits without hyphens.
-/

namespace Intake

/-- A number of 128 bits that names something. -/
structure Uuid where
  number : Nat
  lt : number < Nat.pow 2 128
deriving DecidableEq, Repr

namespace Uuid

/-- The identifier that stands for none. -/
def zero : Uuid := ⟨0, by decide⟩

instance : Inhabited Uuid := ⟨zero⟩

/-- The hexadecimal digits of `n`, as many as asked for, lowest last. -/
def digits : Nat → Nat → List Char
  | 0, _ => []
  | count + 1, n => digits count (n / 16) ++ [Text.hexDigit (n % 16)]

/-- Sets hyphens between the groups of 32 digits. -/
def hyphenate (ds : List Char) : List Char :=
  ds.take 8 ++ '-' :: (ds.drop 8).take 4 ++ '-' :: (ds.drop 12).take 4 ++
    '-' :: (ds.drop 16).take 4 ++ '-' :: ds.drop 20

/-- The text of an identifier. -/
def text (u : Uuid) : String := String.ofList (hyphenate (digits 32 u.number))

/-- Reads 32 hexadecimal digits. -/
def ofDigits? (ds : List Char) : Option Uuid :=
  if ds.length = 32 ∧ ds.all fun c => (Text.hexDigit? c).isSome then
    let n := Text.ofDigitsIn 16 Text.hexDigit? ds
    if h : n < Nat.pow 2 128 then some ⟨n, h⟩ else none
  else none

/-- Reads five groups of digits with hyphens between them. -/
def ofHyphenated? (cs : List Char) : Option Uuid :=
  let ds := cs.filter (· ≠ '-')
  if cs.length = 36 ∧ ds.length = 32 ∧ hyphenate ds = cs then ofDigits? ds else none

/-- Reads an identifier in any of its forms. -/
def read? (s : String) : Option Uuid :=
  let cs := s.toList
  match cs with
  | '\x7b' :: rest =>
    match rest.reverse with
    | '\x7d' :: inner => ofHyphenated? inner.reverse
    | _ => none
  | _ =>
    if cs.length = 32 then ofDigits? cs
    else if Text.lowerAscii (cs.take 9) = "urn:uuid:".toList then ofHyphenated? (cs.drop 9)
    else ofHyphenated? cs

/-! ### Texts tell identifiers apart -/

theorem digits_ne_hyphen {count n : Nat} {c : Char} (h : c ∈ digits count n) : c ≠ '-' := by
  induction count generalizing n with
  | zero => cases h
  | succ count ih =>
    rcases List.mem_append.1 h with h | h
    · exact ih h
    · rw [List.mem_singleton.1 h]
      exact Text.hexDigit_ne_hyphen (Nat.mod_lt n (by decide))

/-- Digits tell numbers apart that need no more of them. -/
theorem digits_injective {count n m : Nat} (hn : n < Nat.pow 16 count)
    (hm : m < Nat.pow 16 count)
    (h : digits count n = digits count m) : n = m := by
  induction count generalizing n m with
  | zero => exact (Nat.lt_one_iff.1 hn).trans (Nat.lt_one_iff.1 hm).symm
  | succ count ih =>
    have hn : n < Nat.pow 16 count * 16 := hn
    have hm : m < Nat.pow 16 count * 16 := hm
    obtain ⟨hq, hr⟩ := List.append_inj' h rfl
    have hdiv := ih (by omega) (by omega) hq
    have hmod := Text.hexDigit_injective (Nat.mod_lt n (by decide)) (Nat.mod_lt m (by decide))
      (List.cons.inj hr).1
    omega

/-- Without its hyphens a text is its digits. -/
theorem filter_hyphenate {ds : List Char} (h : ∀ c ∈ ds, c ≠ '-') :
    (hyphenate ds).filter (· ≠ '-') = ds := by
  have hp : ∀ xs : List Char, (∀ c ∈ xs, c ∈ ds) → xs.filter (· ≠ '-') = xs := fun xs hxs =>
    List.filter_eq_self.2 fun c hc => by simpa using h c (hxs c hc)
  have hd : ∀ n, ∀ c ∈ ds.drop n, c ∈ ds := fun n c hc => List.mem_of_mem_drop hc
  have ht : ∀ n k, ∀ c ∈ (ds.drop n).take k, c ∈ ds := fun n k c hc =>
    hd n c (List.mem_of_mem_take hc)
  have hsplit : ∀ n k, (ds.drop n).take k ++ ds.drop (n + k) = ds.drop n := fun n k => by
    rw [← List.drop_drop, List.take_append_drop]
  have h0 : (ds.take 8).filter (· ≠ '-') = ds.take 8 := hp _ fun c hc => List.mem_of_mem_take hc
  unfold hyphenate
  simp only [List.filter_append, List.filter_cons_of_neg (p := fun c : Char => decide (c ≠ '-'))
    (a := '-') (by simp), h0, hp _ (ht _ _), hp _ (hd _)]
  rw [List.append_assoc, List.append_assoc, List.append_assoc]
  rw [hsplit 16 4, hsplit 12 4, hsplit 8 4, List.take_append_drop]

theorem text_injective {u v : Uuid} (h : u.text = v.text) : u = v := by
  have hds : hyphenate (digits 32 u.number) = hyphenate (digits 32 v.number) :=
    String.ofList_injective h
  have hd : digits 32 u.number = digits 32 v.number := by
    rw [← filter_hyphenate fun c hc => digits_ne_hyphen hc, hds,
      filter_hyphenate fun c hc => digits_ne_hyphen hc]
  have hu : u.number < Nat.pow 16 32 := u.lt
  have hv : v.number < Nat.pow 16 32 := v.lt
  have hn : u.number = v.number := digits_injective hu hv hd
  obtain ⟨n, _⟩ := u
  obtain ⟨m, _⟩ := v
  cases hn
  rfl

end Uuid

end Intake
