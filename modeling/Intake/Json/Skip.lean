import Intake.Json.Number
import Intake.Json.Quoted

/-!
# Skipping values

`skip` passes over one JSON value of any depth. It keeps the containers it is inside of in a list,
so depth costs no stack, and each turn of `walk` takes at least one byte, so the length of the
text is fuel enough.
-/

namespace Intake.Json

/-- A container that is open. -/
inductive Frame
  | array
  | object
deriving DecidableEq, Repr

/-- What comes next: a value, or what may follow one. -/
inductive Due
  | value
  | next
deriving DecidableEq, Repr

/-- Passes over a member's name and its colon. -/
def skipName (bytes : Bytes) : Option Bytes := do
  let bytes ← mark? '"' bytes
  let bytes ← Quoted.skip bytes
  mark? ':' bytes

/-- Passes over a word, a number or a string. -/
def skipScalar : Bytes → Option Bytes
  | [] => none
  | b :: rest =>
    if b = byte 'n' then word? nullWord (b :: rest)
    else if b = byte 't' then word? trueWord (b :: rest)
    else if b = byte 'f' then word? falseWord (b :: rest)
    else if b = byte '"' then Quoted.skip rest
    else (Number.scan (b :: rest)).map (·.2)

/-- Passes over the rest of a value inside of the open containers. -/
def walk : Nat → Due → List Frame → Bytes → Option Bytes
  | 0, _, _, _ => none
  | fuel + 1, .value, frames, bytes =>
    match skipSpace bytes with
    | [] => none
    | b :: rest =>
      if b = byte '[' then
        match mark? ']' rest with
        | some rest => walk fuel .next frames rest
        | none => walk fuel .value (.array :: frames) rest
      else if b = byte '\x7b' then
        match mark? '\x7d' rest with
        | some rest => walk fuel .next frames rest
        | none => (skipName rest).bind (walk fuel .value (.object :: frames))
      else (skipScalar (b :: rest)).bind (walk fuel .next frames)
  | _ + 1, .next, [], bytes => some bytes
  | fuel + 1, .next, .array :: frames, bytes =>
    match skipSpace bytes with
    | [] => none
    | b :: rest =>
      if b = byte ',' then walk fuel .value (.array :: frames) rest
      else if b = byte ']' then walk fuel .next frames rest
      else none
  | fuel + 1, .next, .object :: frames, bytes =>
    match skipSpace bytes with
    | [] => none
    | b :: rest =>
      if b = byte ',' then (skipName rest).bind (walk fuel .value (.object :: frames))
      else if b = byte '\x7d' then walk fuel .next frames rest
      else none

/-- Passes over one value; `fuel` has to exceed the number of bytes. -/
def skipWithin (fuel : Nat) (bytes : Bytes) : Option Bytes := walk fuel .value [] bytes

/-- Passes over one value. -/
def skip (bytes : Bytes) : Option Bytes := skipWithin (bytes.length + 1) bytes

end Intake.Json
