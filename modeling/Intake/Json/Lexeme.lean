import Intake.Text.Digits

/-!
# Bytes of JSON

A JSON text is a list of bytes. Here are its blanks, its three words and the fault of a text: it is
malformed, or it is JSON of another shape than the one asked for.
-/

namespace Intake.Json

abbrev Bytes := List UInt8

/-- Why a text was not taken. -/
inductive Fault
  | malformed
  | mismatched
deriving DecidableEq, Repr

/-- The byte of an ASCII character. -/
abbrev byte (c : Char) : UInt8 := c.toUInt8

def isSpace (b : UInt8) : Bool :=
  b = byte ' ' || b = byte '\n' || b = byte '\t' || b = byte '\r'

def skipSpace : Bytes → Bytes
  | [] => []
  | b :: rest => if isSpace b then skipSpace rest else b :: rest

def isDigit (b : UInt8) : Bool := byte '0' ≤ b && b ≤ byte '9'

/-- Reads `word` at the front. -/
def word? (word bytes : Bytes) : Option Bytes :=
  if word.isPrefixOf bytes then some (bytes.drop word.length) else none

def nullWord : Bytes := "null".toList.map byte

def trueWord : Bytes := "true".toList.map byte

def falseWord : Bytes := "false".toList.map byte

/-- Reads the byte `c` after any blanks. -/
def mark? (c : Char) (bytes : Bytes) : Option Bytes :=
  match skipSpace bytes with
  | b :: rest => if b = byte c then some rest else none
  | [] => none

theorem skipSpace_append_of_all {ws : Bytes} (h : ws.all isSpace) (rest : Bytes) :
    skipSpace (ws ++ rest) = skipSpace rest := by
  induction ws with
  | nil => rfl
  | cons b ws ih =>
    simp only [List.all_cons, Bool.and_eq_true] at h
    simp [skipSpace, h.1, ih h.2]

theorem skipSpace_of_not_space {b : UInt8} (h : isSpace b = false) (rest : Bytes) :
    skipSpace (b :: rest) = b :: rest := by
  simp [skipSpace, h]

end Intake.Json
