import Intake.Json.Lexeme

/-!
# Strings of JSON

`scan` reads the inside of a string up to its closing quote. Escapes become UTF-8, code units
above the basic plane come in pairs, and the whole must be UTF-8. `skip` passes over a string and
asks only for its syntax. `write` is the string that stands for a text.
-/

namespace Intake.Json.Quoted

/-- The number written by four hexadecimal digits. -/
def unit? (a b c d : UInt8) : Option Nat := do
  let w ← Text.hexDigit? (Char.ofNat a.toNat)
  let x ← Text.hexDigit? (Char.ofNat b.toNat)
  let y ← Text.hexDigit? (Char.ofNat c.toNat)
  let z ← Text.hexDigit? (Char.ofNat d.toNat)
  some (((w * 16 + x) * 16 + y) * 16 + z)

/-- What a backslash and one byte stand for. -/
def escape? (b : UInt8) : Option UInt8 :=
  if b = byte '"' then some (byte '"')
  else if b = byte '\\' then some (byte '\\')
  else if b = byte '/' then some (byte '/')
  else if b = byte 'b' then some 8
  else if b = byte 'f' then some 12
  else if b = byte 'n' then some 10
  else if b = byte 'r' then some 13
  else if b = byte 't' then some 9
  else none

def isLeading (n : Nat) : Bool := 0xD800 ≤ n && n ≤ 0xDBFF

def isTrailing (n : Nat) : Bool := 0xDC00 ≤ n && n ≤ 0xDFFF

/-- The code point of a pair of code units. -/
def ofPair (n m : Nat) : Nat := (n - 0xD800) * 0x400 + (m - 0xDC00) + 0x10000

/-- Puts the UTF-8 form of a code point before bytes that are kept in reverse. -/
def push (acc : Bytes) (n : Nat) : Bytes :=
  (String.utf8EncodeChar (Char.ofNat n)).reverse ++ acc

/-- Reads the inside of a string; `acc` holds, in reverse, what was read before. -/
def scan (acc : Bytes) : Bytes → Option (String × Bytes)
  | [] => none
  | b :: rest =>
    if b = byte '"' then (String.fromUTF8? acc.reverse.toByteArray).map (·, rest)
    else if b = byte '\\' then
      match rest with
      | [] => none
      | e :: rest =>
        if e = byte 'u' then
          match rest with
          | a :: b :: c :: d :: rest =>
            match unit? a b c d with
            | none => none
            | some n =>
              if isLeading n then
                match rest with
                | s :: u :: a :: b :: c :: d :: rest =>
                  match unit? a b c d with
                  | none => none
                  | some m =>
                    if s = byte '\\' ∧ u = byte 'u' ∧ isTrailing m then
                      scan (push acc (ofPair n m)) rest
                    else none
                | _ => none
              else if isTrailing n then none
              else scan (push acc n) rest
          | _ => none
        else
          match escape? e with
          | some c => scan (c :: acc) rest
          | none => none
    else if b < 32 then none
    else scan (b :: acc) rest

/-- Passes over the inside of a string and its closing quote. -/
def skip : Bytes → Option Bytes
  | [] => none
  | b :: rest =>
    if b = byte '"' then some rest
    else if b = byte '\\' then
      match rest with
      | [] => none
      | e :: rest =>
        if e = byte 'u' then
          match rest with
          | a :: b :: c :: d :: rest => if (unit? a b c d).isSome then skip rest else none
          | _ => none
        else if (escape? e).isSome then skip rest
        else none
    else if b < 32 then none
    else skip rest

/-- The form of a character inside a string: short escapes where there are some, `\u` for the other
control characters, and UTF-8 for all else. -/
def writeChar (c : Char) : Bytes :=
  if c = '"' then [byte '\\', byte '"']
  else if c = '\\' then [byte '\\', byte '\\']
  else if c = '\n' then [byte '\\', byte 'n']
  else if c = '\r' then [byte '\\', byte 'r']
  else if c = '\t' then [byte '\\', byte 't']
  else if c.toNat = 8 then [byte '\\', byte 'b']
  else if c.toNat = 12 then [byte '\\', byte 'f']
  else if c.toNat < 32 then
    "\\u00".toList.map byte ++
      [byte (Text.hexDigit (c.toNat / 16)), byte (Text.hexDigit (c.toNat % 16))]
  else String.utf8EncodeChar c

/-- The string that stands for a text. -/
def write (s : String) : Bytes := byte '"' :: s.toList.flatMap writeChar ++ [byte '"']

end Intake.Json.Quoted
