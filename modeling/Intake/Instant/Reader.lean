import Intake.Instant
import Intake.Text.Blank

/-!
# Reading instants

The reader takes RFC 3339 and is lenient about its layout: blanks may stand before every number
and before the separators, fields may have one digit, the date and the time may be joined by `T`,
`t` or a blank, and the offset may be `Z`, `z`, `UTC` or hours and minutes. A year may carry a
sign and then has any number of digits. Decimals after the ninth are dropped, and second 60 is a
leap second.
-/

namespace Intake.Instant

open Text

/-- A text that remains to be read. -/
abbrev Rest := List Char

/-- Reads a number of one digit or more, `most` at most. -/
def number (most : Nat) (cs : Rest) : Option (Nat × Rest) :=
  match takeDigits most cs with
  | ([], _) => none
  | (ds, rest) => some (ofDigits ds, rest)

/-- Reads a field of one or two digits after any blanks. -/
def field (cs : Rest) : Option (Nat × Rest) := number 2 (trimStart cs)

/-- Reads a year: four digits at most, or a sign and any number of them. -/
def year (cs : Rest) : Option (Int × Rest) :=
  match trimStart cs with
  | '-' :: rest => (number rest.length rest).map fun (n, rest) => (-(n : Int), rest)
  | '+' :: rest => (number rest.length rest).map fun (n, rest) => ((n : Int), rest)
  | rest => (number 4 rest).map fun (n, rest) => ((n : Int), rest)

/-- Reads one given character after any blanks. -/
def mark (c : Char) (cs : Rest) : Option Rest :=
  match trimStart cs with
  | c' :: rest => if c' = c then some rest else none
  | [] => none

/-- Reads a date. -/
def date (cs : Rest) : Option (Date × Rest) := do
  let (y, cs) ← year cs
  let cs ← mark '-' cs
  let (m, cs) ← field cs
  let cs ← mark '-' cs
  let (d, cs) ← field cs
  if (Date.mk y m d).Exists then some (⟨y, m, d⟩, cs) else none

/-- Reads what stands between the date and the time. -/
def join : Rest → Option Rest
  | c :: rest => if c = 'T' ∨ c = 't' ∨ c = ' ' then some rest else none
  | [] => none

/-- Reads the decimals of a second as nanoseconds; there are none unless a point comes first. -/
def decimals : Rest → Option (Nat × Rest)
  | '.' :: cs =>
    match takeDigits 9 cs with
    | ([], _) => none
    | (ds, rest) => some (ofDigits ds * Nat.pow 10 (9 - ds.length), rest.dropWhile isDigit)
  | cs => some (0, cs)

/-- Reads a time of day as its second and nanosecond. -/
def time (cs : Rest) : Option ((Nat × Nat) × Rest) := do
  let (h, cs) ← field cs
  let cs ← mark ':' cs
  let (m, cs) ← field cs
  let cs ← mark ':' cs
  let (s, cs) ← field cs
  let (n, cs) ← decimals cs
  if h < 24 ∧ m < 60 ∧ s < 60 then some ((h * 3600 + m * 60 + s, n), cs)
  else if h < 24 ∧ m < 60 ∧ s = 60 then some ((h * 3600 + m * 60 + 59, n + 1000000000), cs)
  else none

/-- Reads exactly two digits. -/
def pair : Rest → Option (Nat × Rest)
  | a :: b :: rest => do
    let x ← digit? a
    let y ← digit? b
    some (x * 10 + y, rest)
  | _ => none

/-- Reads the hours and minutes of an offset, with colons and blanks between them, as minutes. -/
def hoursMinutes (cs : Rest) : Option (Nat × Rest) := do
  let (h, cs) ← pair cs
  let (m, cs) ← pair (cs.dropWhile fun c => c == ':' || isBlank c)
  if m < 60 ∧ h < 24 then some (h * 60 + m, cs) else none

/-- Reads an offset from UTC in minutes. -/
def offset (cs : Rest) : Option (Int × Rest) :=
  match cs with
  | 'Z' :: rest | 'z' :: rest => some (0, rest)
  | '+' :: rest => (hoursMinutes rest).map fun (n, rest) => ((n : Int), rest)
  | '-' :: rest | '\u2212' :: rest => (hoursMinutes rest).map fun (n, rest) => (-(n : Int), rest)
  | u :: t :: c :: rest => if lowerAscii [u, t, c] = ['u', 't', 'c'] then some (0, rest) else none
  | _ => none

/-- The instant that is `minutes` ahead of UTC on a clock showing the given day and time. -/
def atOffset (day : Int) (second nano : Nat) (minutes : Int) : Option Instant :=
  let shown := (second : Int) - minutes * 60
  if -96465292 ≤ day ∧ day ≤ 95026236 then
    ofParts? (day + shown / 86400) (shown % 86400).toNat nano
  else none

/-- Reads an instant. -/
def read? (s : String) : Option Instant := do
  let (d, cs) ← date s.toList
  let cs ← join cs
  let ((second, nano), cs) ← time cs
  let (minutes, cs) ← offset (trimStart cs)
  if trimStart cs = [] then atOffset d.toDay second nano minutes else none

end Intake.Instant
