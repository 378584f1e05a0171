import Intake.Json.Lexeme

/-!
# Numbers of JSON

`scan` reads a number by the grammar of JSON. Its value is kept as a 64-bit significand and a
power of ten (`scaled`): digits are taken as long as they fit, and later ones only count. A number
is an integer if it has neither a fraction nor an exponent and fits in 64 bits with its sign;
negative zero is none. A number too large for a double is no number at all (`isFinite`).
-/

namespace Intake.Json

/-- A number as written: its sign, its digits before and after the point, and its exponent. -/
structure Number where
  negative : Bool
  whole : Bytes
  fraction : Bytes
  exponent : Option Int
deriving DecidableEq, Repr

namespace Number

/-- Reads one digit or more. -/
def digits? (bytes : Bytes) : Option (Bytes × Bytes) :=
  match bytes.span isDigit with
  | ([], _) => none
  | (ds, rest) => some (ds, rest)

/-- Reads the digits before the point, which begin with zero only if there is one digit. -/
def whole? (bytes : Bytes) : Option (Bytes × Bytes) := do
  let (ds, rest) ← digits? bytes
  if ds.head? = some (byte '0') ∧ ds.length ≠ 1 then none else some (ds, rest)

/-- Reads a point and the digits after it, if there is a point. -/
def fraction? : Bytes → Option (Bytes × Bytes)
  | [] => some ([], [])
  | b :: rest => if b = byte '.' then digits? rest else some ([], b :: rest)

/-- The digits of an exponent, as a number that stops growing far beyond the range of a double. -/
def exponentOfDigits (ds : Bytes) : Int :=
  ds.foldl (fun n d => min (n * 10 + (d.toNat - 48 : Nat)) 100000000000) 0

/-- Reads an exponent, if there is one. -/
def exponent? : Bytes → Option (Option Int × Bytes)
  | [] => some (none, [])
  | b :: rest =>
    if b = byte 'e' ∨ b = byte 'E' then
      match rest with
      | [] => none
      | s :: rest' =>
        if s = byte '-' then
          (digits? rest').map fun (ds, rest) => (some (-exponentOfDigits ds), rest)
        else if s = byte '+' then
          (digits? rest').map fun (ds, rest) => (some (exponentOfDigits ds), rest)
        else (digits? rest).map fun (ds, rest) => (some (exponentOfDigits ds), rest)
    else some (none, b :: rest)

/-- Reads a number. -/
def scan (bytes : Bytes) : Option (Number × Bytes) := do
  let (negative, bytes) := match bytes with
    | b :: rest => if b = byte '-' then (true, rest) else (false, bytes)
    | [] => (false, [])
  let (whole, bytes) ← whole? bytes
  let (fraction, bytes) ← fraction? bytes
  let (exponent, bytes) ← exponent? bytes
  some ({ negative, whole, fraction, exponent }, bytes)

/-- A significand of 64 bits and a power of ten; `full` once a digit did not fit. -/
structure Scaled where
  significand : Nat
  power : Int
  full : Bool
deriving DecidableEq, Repr

/-- Takes one digit more, or counts it with `drop` if the significand is full. -/
def Scaled.take (drop keep : Int) (s : Scaled) (d : UInt8) : Scaled :=
  let n := s.significand * 10 + (d.toNat - 48)
  if s.full ∨ Nat.pow 2 64 ≤ n then { s with power := s.power + drop, full := true }
  else { s with significand := n, power := s.power + keep }

/-- The significand and the power of ten of a number, its exponent left out. -/
def scaled (n : Number) : Scaled :=
  let s := n.whole.foldl (Scaled.take 1 0) ⟨0, 0, false⟩
  if n.fraction = [] then s
  else n.fraction.foldl (Scaled.take 0 (-1)) { s with full := false }

/-- Rounds to 53 significant bits, a tie to the even neighbour. -/
def round53 (n : Nat) : Nat :=
  let extra := n.log2 - 52
  let unit := Nat.pow 2 extra
  let q := n / unit
  let r := n % unit
  let up := if unit < 2 * r ∨ (2 * r = unit ∧ extra ≠ 0 ∧ q % 2 = 1) then 1 else 0
  (q + up) * unit

/-- Whether a number is within the range of a double. -/
def isFinite (n : Number) : Bool :=
  let s := n.scaled
  let power := s.power + n.exponent.getD 0
  if s.significand = 0 ∨ power ≤ 0 then true
  else if 308 < power then false
  else round53 s.significand * round53 (Nat.pow 10 power.toNat) <
    Nat.pow 2 1024 - Nat.pow 2 970

/-- The 64-bit integer that a number writes. -/
def toInt64? (n : Number) : Option Int64 :=
  let s := n.scaled
  if n.fraction ≠ [] ∨ n.exponent ≠ none ∨ s.full then none
  else if n.negative then
    if 1 ≤ s.significand ∧ s.significand ≤ Nat.pow 2 63 then some (Int64.ofInt (-s.significand))
    else none
  else if s.significand < Nat.pow 2 63 then some (Int64.ofInt s.significand)
  else none

end Number

end Intake.Json
