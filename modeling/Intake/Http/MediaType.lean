import Intake.Text.Blank

/-!
# Media types

A media type is `type/subtype`, perhaps with a suffix after the last plus sign of the subtype, and
with parameters `name=value` after semicolons. Names and values are tokens; a value may stand in
quotes instead. Blanks are allowed before the name of a parameter and after a quoted value only.
-/

namespace Intake.Http

structure MediaType where
  main : String
  sub : String
  suffix : Option String
deriving DecidableEq, Repr

namespace MediaType

def isTokenChar (c : Char) : Bool := c.isAlphanum || "!#$%&'*+-.^_\x60|~".toList.contains c

/-- The characters that may stand between quotes. -/
def isQuotedChar (c : Char) : Bool := 31 < c.toNat && c.toNat != 127

/-- What follows a quoted value: nothing, or the next parameter. -/
def afterQuoted : List Char → Option (List Char)
  | [] => some []
  | c :: cs => if c = ';' then some cs else if c = ' ' then afterQuoted cs else none

/-- The rest after the inside of a quoted value, which is not empty; `first` holds at its start,
where a quote is a character like any other. -/
def quoted (first : Bool) : List Char → Option (List Char)
  | [] => none
  | c :: cs =>
    if c = '"' ∧ !first then afterQuoted cs
    else if isQuotedChar c then quoted false cs
    else none

/-- The rest after a value that is a token. -/
def bare (first : Bool) : List Char → Option (List Char)
  | [] => some []
  | c :: cs =>
    if isTokenChar c then bare false cs
    else if c = ';' ∧ !first then some cs
    else none

/-- The rest after one parameter. A blank rest holds none. -/
def parameter (first : Bool) : List Char → Option (List Char)
  | [] => if first then some [] else none
  | c :: cs =>
    if c = ' ' ∧ first then parameter true cs
    else if isTokenChar c then parameter false cs
    else if c = '=' ∧ !first then
      match cs with
      | '"' :: inner => quoted true inner
      | value => bare true value
    else none

/-- Whether `cs` is a list of parameters. A parameter is at least one character long, so no more
than `fuel` are read from a text of that length. -/
def areParameters : Nat → List Char → Bool
  | _, [] => true
  | 0, _ => false
  | fuel + 1, cs =>
    match parameter true cs with
    | some rest => areParameters fuel rest
    | none => false

/-- Splits a subtype at its last plus sign; one in front does not count. -/
def splitSuffix (cs : List Char) : List Char × Option (List Char) :=
  let tail := (cs.reverse.takeWhile (· ≠ '+')).reverse
  let front := cs.take (cs.length - tail.length - 1)
  if front = [] then (cs, none) else (front, some tail)

/-- Reads a media type, in small letters. -/
def read? (s : String) : Option MediaType :=
  let cs := s.toList
  let main := cs.takeWhile isTokenChar
  match main, cs.dropWhile isTokenChar with
  | _ :: _, '/' :: rest =>
    let sub := rest.takeWhile isTokenChar
    let tail := rest.dropWhile isTokenChar
    let ok := match tail with
      | [] => true
      | c :: ps => c = ';' && sub ≠ [] && areParameters ps.length ps
    if ok then
      let (sub, suffix) := splitSuffix (Text.lowerAscii sub)
      some {
        main := String.ofList (Text.lowerAscii main), sub := String.ofList sub
        suffix := suffix.map String.ofList }
    else none
  | _, _ => none

/-- Whether a body of this type is JSON. -/
def isJson (t : MediaType) : Bool :=
  t.main = "application" && (t.sub = "json" || t.suffix = some "json")

end MediaType

/-- Whether a header names a type of JSON. A header holds printable ASCII and tabs. -/
def namesJson (header : String) : Bool :=
  header.toList.all (fun c => (32 ≤ c.toNat && c.toNat < 127) || c = '\t') &&
    (MediaType.read? header).any (·.isJson)

end Intake.Http
