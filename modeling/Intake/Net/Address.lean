import Intake.Text.Digits

/-!
# Internet addresses

Which texts are addresses: four decimal numbers below 256 with dots between them, or eight groups of
hexadecimal digits with colons between them. Two colons stand for one or more groups of zeros, once,
and the last two groups may be written as four numbers.
-/

namespace Intake.Net

/-- The parts of a text between the characters `sep`. -/
def partsAt (sep : Char) : List Char → List (List Char)
  | [] => [[]]
  | c :: cs =>
    if c = sep then [] :: partsAt sep cs
    else
      match partsAt sep cs with
      | part :: parts => (c :: part) :: parts
      | [] => [[c]]

/-- Whether a text is a number below 256, without zeros in front. -/
def isOctet (cs : List Char) : Bool :=
  cs ≠ [] && cs.all Text.isDigit && cs.length ≤ 3 && Text.ofDigits cs < 256 &&
    (cs.length = 1 || cs.head? ≠ some '0')

def isAddress4 (cs : List Char) : Bool :=
  let parts := partsAt '.' cs
  parts.length = 4 && parts.all isOctet

def isGroup (cs : List Char) : Bool :=
  cs ≠ [] && cs.length ≤ 4 && cs.all fun c => (Text.hexDigit? c).isSome

/-- The groups that a list of parts writes, if each part is a group or, at the end, an address of
four numbers. -/
def groupCount? : List (List Char) → Option Nat
  | [] => some 0
  | [part] => if isGroup part then some 1 else if isAddress4 part then some 2 else none
  | part :: parts => if isGroup part then (groupCount? parts).map (· + 1) else none

/-- The parts on both sides of the first empty one. -/
def aroundGap (parts : List (List Char)) : Option (List (List Char) × List (List Char)) :=
  match parts.dropWhile (· ≠ []) with
  | _ :: rest => some (parts.takeWhile (· ≠ []), rest)
  | [] => none

/-- Takes away the empty part in front of a gap at the start, and the one after a gap at the end. -/
def trimGap (parts : List (List Char)) : Option (List (List Char)) :=
  let front := match parts with
    | [] :: [] :: rest => some ([] :: rest)
    | [] :: _ => none
    | parts => some parts
  front.bind fun parts =>
    match parts.reverse with
    | [] :: [] :: rest => some (([] :: rest).reverse)
    | [] :: _ => none
    | _ => some parts

def isAddress6 (cs : List Char) : Bool :=
  match trimGap (partsAt ':' cs) with
  | none => false
  | some parts =>
    match aroundGap parts with
    | none => groupCount? parts = some 8
    | some (left, right) =>
      left.all isGroup && (groupCount? right).any fun n => left.length + n ≤ 7

end Intake.Net
