/-!
# Decimal and hexadecimal digits

Digits are ASCII digits, and nothing else is one. `ofDigits` reads a run of them and `unsigned?`
reads an unsigned setting: digits, after one plus sign at most, up to a largest value.
-/

namespace Intake.Text

/-- The value of a decimal digit. -/
def digit? (c : Char) : Option Nat :=
  if '0' ≤ c ∧ c ≤ '9' then some (c.toNat - '0'.toNat) else none

/-- The value of a hexadecimal digit of either case. -/
def hexDigit? (c : Char) : Option Nat :=
  if '0' ≤ c ∧ c ≤ '9' then some (c.toNat - '0'.toNat)
  else if 'a' ≤ c ∧ c ≤ 'f' then some (c.toNat - 'a'.toNat + 10)
  else if 'A' ≤ c ∧ c ≤ 'F' then some (c.toNat - 'A'.toNat + 10)
  else none

/-- The lower-case hexadecimal digit of a value below sixteen. -/
def hexDigit (n : Nat) : Char :=
  if n < 10 then Char.ofNat ('0'.toNat + n) else Char.ofNat ('a'.toNat + (n - 10))

theorem hexDigit_injective {n m : Nat} (hn : n < 16) (hm : m < 16)
    (h : hexDigit n = hexDigit m) : n = m := by
  have key : ∀ a < 16, ∀ b < 16, hexDigit a = hexDigit b → a = b := by decide
  exact key n hn m hm h

theorem hexDigit_ne_hyphen {n : Nat} (hn : n < 16) : hexDigit n ≠ '-' := by
  have key : ∀ a < 16, hexDigit a ≠ '-' := by decide
  exact key n hn

/-- Whether a character is a decimal digit. -/
def isDigit (c : Char) : Bool := (digit? c).isSome

/-- The number that a run of digits writes in base `b`; a character that is no digit stands for
zero. -/
def ofDigitsIn (b : Nat) (value : Char → Option Nat) (cs : List Char) : Nat :=
  cs.foldl (fun n c => n * b + (value c).getD 0) 0

/-- The number that a run of decimal digits writes. -/
def ofDigits (cs : List Char) : Nat := ofDigitsIn 10 digit? cs

/-- The digits at the front of a text, at most `most` of them, and the rest. -/
def takeDigits : Nat → List Char → List Char × List Char
  | 0, cs => ([], cs)
  | _, [] => ([], [])
  | most + 1, c :: cs =>
    if isDigit c then
      let (ds, rest) := takeDigits most cs
      (c :: ds, rest)
    else ([], c :: cs)

/-- Writes `n` with at least `width` digits, zeros in front. -/
def padded (width n : Nat) : List Char :=
  let ds := (toString n).toList
  List.replicate (width - ds.length) '0' ++ ds

/-- Reads an unsigned decimal number of at most `largest`, with one plus sign allowed in front. -/
def unsigned? (largest : Nat) (s : String) : Option Nat :=
  let ds := match s.toList with
    | '+' :: ds => ds
    | ds => ds
  if ds ≠ [] ∧ ds.all isDigit ∧ ofDigits ds ≤ largest then some (ofDigits ds) else none

/-- The largest value of an unsigned word of `bits` bits. -/
def largestWord (bits : Nat) : Nat := Nat.pow 2 bits - 1

end Intake.Text
