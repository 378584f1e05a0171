import Intake.Text.Extending
import Intake.Text.Graphic
import Intake.Text.Digits

/-!
# Escaped text

A text in quotes that shows every character: quotes, backslashes and the common controls have short
escapes, and whatever shows nothing or would be drawn on its neighbour is written by its number.
-/

namespace Intake.Text

/-- The small hexadecimal digits of a number, without zeros in front. -/
def hexDigits (n : Nat) : List Char := Nat.toDigits 16 n

/-- The form of a character in an escaped text. -/
def escapeChar (c : Char) : List Char :=
  if c = '\x00' then ['\\', '0']
  else if c = '\t' then ['\\', 't']
  else if c = '\r' then ['\\', 'r']
  else if c = '\n' then ['\\', 'n']
  else if c = '\\' then ['\\', '\\']
  else if c = '"' then ['\\', '"']
  else if isExtending c || !isGraphic c then '\\' :: 'u' :: '\x7b' :: hexDigits c.toNat ++ ['\x7d']
  else [c]

/-- A text in quotes. -/
def escaped (s : String) : String :=
  String.ofList ('"' :: s.toList.flatMap escapeChar ++ ['"'])

end Intake.Text
