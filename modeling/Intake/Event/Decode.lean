import Intake.Event.Field
import Intake.Instant.Reader
import Intake.Json.Skip

/-!
# Reading raw events

A raw event is a JSON object whose members are its fields in any order, or an array of the fields in
their declared order. The text is read from left to right, the first fault ends it, and what stands
after the value is not looked at. Unknown members are skipped, a field given twice is a mismatch
(`ts` and `timestamp` are one field), and an empty identifier is none.
-/

namespace Intake.RawEvent

open Json

abbrev Scan (α : Type) := Except Fault (α × Bytes)

/-- The fault of a value of the wrong type, which is looked at as far as its type shows. -/
def wrongType : Bytes → Fault
  | [] => .malformed
  | b :: rest =>
    if b = byte '[' ∨ b = byte '\x7b' then .mismatched
    else if b = byte '"' then
      if (Quoted.scan [] rest).isSome then .mismatched else .malformed
    else if b = byte 'n' ∨ b = byte 't' ∨ b = byte 'f' then
      if (skipScalar (b :: rest)).isSome then .mismatched else .malformed
    else
      match Number.scan (b :: rest) with
      | some (n, _) => if n.isFinite then .mismatched else .malformed
      | none => .malformed

/-- Reads a string. -/
def text (bytes : Bytes) : Scan String :=
  match skipSpace bytes with
  | [] => .error .malformed
  | b :: rest =>
    if b = byte '"' then
      match Quoted.scan [] rest with
      | some r => .ok r
      | none => .error .malformed
    else .error (wrongType (b :: rest))

/-- Reads a 64-bit integer. -/
def integer (bytes : Bytes) : Scan Int64 :=
  match skipSpace bytes with
  | [] => .error .malformed
  | b :: rest =>
    if b = byte '-' ∨ isDigit b then
      match Number.scan (b :: rest) with
      | none => .error .malformed
      | some (n, rest) =>
        match n.toInt64? with
        | some i => .ok (i, rest)
        | none => .error (if n.isFinite then .mismatched else .malformed)
    else .error (wrongType (b :: rest))

/-- Reads `null` as nothing, and anything else with `read`. -/
def optional {α : Type} (read : Bytes → Scan α) (bytes : Bytes) : Scan (Option α) :=
  match skipSpace bytes with
  | [] => .error .malformed
  | b :: rest =>
    if b = byte 'n' then
      match word? nullWord (b :: rest) with
      | some rest => .ok (none, rest)
      | none => .error .malformed
    else (read (b :: rest)).map fun (a, rest) => (some a, rest)

/-- Reads an identifier; the empty text is none. -/
def identifier (bytes : Bytes) : Except Fault (Option Uuid × Bytes) := do
  let (s, rest) ← optional text bytes
  match s with
  | none => .ok (none, rest)
  | some s =>
    if s = "" then .ok (none, rest)
    else
      match Uuid.read? s with
      | some u => .ok (some u, rest)
      | none => .error .mismatched

/-- Reads an instant. -/
def instant (bytes : Bytes) : Except Fault (Instant × Bytes) := do
  let (s, rest) ← text bytes
  match Instant.read? s with
  | some t => .ok (t, rest)
  | none => .error .mismatched

/-- Reads the value of one field into the event. -/
def readField (raw : RawEvent) (bytes : Bytes) : Field → Scan RawEvent
  | .eventId => (identifier bytes).map fun (v, rest) => ({ raw with eventId := v }, rest)
  | .timestamp =>
    (optional instant bytes).map fun (v, rest) => ({ raw with timestamp := v }, rest)
  | .kind => (text bytes).map fun (v, rest) => ({ raw with kind := v }, rest)
  | .sessionId => (text bytes).map fun (v, rest) => ({ raw with sessionId := v }, rest)
  | .userId => (identifier bytes).map fun (v, rest) => ({ raw with userId := v }, rest)
  | .videoId => (identifier bytes).map fun (v, rest) => ({ raw with videoId := v }, rest)
  | .query => (optional text bytes).map fun (v, rest) => ({ raw with query := v }, rest)
  | .dwellMs => (optional integer bytes).map fun (v, rest) => ({ raw with dwellMs := v }, rest)

def expect (r : Option Bytes) : Except Fault Bytes :=
  match r with
  | some rest => .ok rest
  | none => .error .malformed

/-- Reads one member, after its opening quote. `seen` holds the fields read before, and `fuel` exceeds
the number of bytes. -/
def member (fuel : Nat) (seen : List Field) (raw : RawEvent) (bytes : Bytes) :
    Except Fault (List Field × RawEvent × Bytes) :=
  match Quoted.scan [] bytes with
  | none => .error .malformed
  | some (name, rest) =>
    match Field.ofName? name with
    | none => do
      let rest ← expect (mark? ':' rest)
      let rest ← expect (skipWithin fuel rest)
      .ok (seen, raw, rest)
    | some field =>
      if field ∈ seen then .error .mismatched
      else do
        let rest ← expect (mark? ':' rest)
        let (raw, rest) ← readField raw rest field
        .ok (field :: seen, raw, rest)

/-- Reads the members that follow the first; `fuel` exceeds the number of bytes. -/
def members : Nat → List Field → RawEvent → Bytes → Except Fault RawEvent
  | 0, _, _, _ => .error .malformed
  | fuel + 1, seen, raw, bytes =>
    match skipSpace bytes with
    | [] => .error .malformed
    | b :: rest =>
      if b = byte '\x7d' then .ok raw
      else if b = byte ',' then do
        let rest ← expect (mark? '"' rest)
        let (seen, raw, rest) ← member fuel seen raw rest
        members fuel seen raw rest
      else .error .malformed

/-- Reads the members of an object, after its opening brace. -/
def object (bytes : Bytes) : Except Fault RawEvent :=
  match mark? '\x7d' bytes with
  | some _ => .ok {}
  | none => do
    let rest ← expect (mark? '"' bytes)
    let fuel := rest.length + 1
    let (seen, raw, rest) ← member fuel [] {} rest
    members fuel seen raw rest

/-- Reads the elements that follow the first, one for each field that is left. -/
def elements (raw : RawEvent) (bytes : Bytes) : List Field → Except Fault RawEvent
  | [] =>
    match mark? ']' bytes with
    | some _ => .ok raw
    | none => .error .malformed
  | field :: fields =>
    match skipSpace bytes with
    | [] => .error .malformed
    | b :: rest =>
      if b = byte ']' then .ok raw
      else if b = byte ',' then
        match mark? ']' rest with
        | some _ => .error .malformed
        | none => do
          let (raw, rest) ← readField raw rest field
          elements raw rest fields
      else .error .malformed

/-- Reads the elements of an array, after its opening bracket. -/
def array (bytes : Bytes) : Except Fault RawEvent :=
  match mark? ']' bytes with
  | some _ => .ok {}
  | none => do
    let (raw, rest) ← readField {} bytes .eventId
    elements raw rest Field.all.tail

/-- Reads a raw event. -/
def decode (bytes : Bytes) : Except Fault RawEvent :=
  match skipSpace bytes with
  | [] => .error .malformed
  | b :: rest =>
    if b = byte '\x7b' then object rest
    else if b = byte '[' then array rest
    else .error (wrongType (b :: rest))

end Intake.RawEvent
