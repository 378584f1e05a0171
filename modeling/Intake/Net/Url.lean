import Intake.Net.Address
import Intake.Text.Blank

/-!
# URLs

A URL has a scheme, and after it either a path or two slashes, an authority and a path; a query
and a fragment may follow. The authority is a host, with a user in front and a port behind. Web
schemes always have a host. Controls and blanks at both ends are left out, and so are tabs and
line ends anywhere.
-/

namespace Intake.Net

structure Url where
  scheme : String
  user : String := ""
  password : Option String := none
  host : Option String := none
  port : Option Nat := none
  path : String := ""
  query : String := ""
  fragment : Option String := none
deriving DecidableEq, Repr

namespace Url

/-- The schemes whose URLs always have a host. -/
def webSchemes : List String := ["http", "https", "ws", "wss", "ftp"]

/-- A text without controls and blanks at its ends, and without tabs and line ends. -/
def cleaned (cs : List Char) : List Char :=
  let front := fun (cs : List Char) => cs.dropWhile fun c => c.toNat ≤ 32
  (front (front cs).reverse).reverse.filter fun c => c ≠ '\t' && c ≠ '\n' && c ≠ '\r'

/-- The scheme, in small letters, and what follows its colon. -/
def scheme? (cs : List Char) : Option (String × List Char) :=
  let isSchemeChar := fun (c : Char) => c.isAlphanum || c = '+' || c = '-' || c = '.'
  match cs, cs.dropWhile isSchemeChar with
  | c :: _, ':' :: rest =>
    if c.isAlpha then
      some (String.ofList (Text.lowerAscii (cs.takeWhile isSchemeChar)), rest)
    else none
  | _, _ => none

/-- Splits a text at the last `@`. -/
def splitUser (cs : List Char) : Option (List Char) × List Char :=
  let host := (cs.reverse.takeWhile (· ≠ '@')).reverse
  if host.length = cs.length then (none, cs)
  else (some (cs.take (cs.length - host.length - 1)), host)

/-- Splits a text at the first colon that is not in brackets. -/
def splitPort (inside : Bool) : List Char → List Char × Option (List Char)
  | [] => ([], none)
  | c :: cs =>
    if c = ':' ∧ !inside then ([], some cs)
    else
      let (host, port) := splitPort (if c = '[' then true else if c = ']' then false else inside) cs
      (c :: host, port)

/-- Whether a text may stand as a host: an address in brackets, or none of the reserved
characters. -/
def isHost (cs : List Char) : Bool :=
  match cs with
  | '[' :: rest =>
    match rest.reverse with
    | ']' :: inner => isAddress6 inner.reverse
    | _ => false
  | _ => !cs.any fun c => "\x00\t\n\r #/:<>?@[\\]^|".toList.contains c

/-- Reads a port; an empty one is none. -/
def port? (cs : List Char) : Option (Option Nat) :=
  if cs = [] then some none
  else if cs.all Text.isDigit ∧ Text.ofDigits cs < 65536 then some (some (Text.ofDigits cs))
  else none

/-- Reads what follows a scheme and an authority. -/
def withTail (u : Url) (cs : List Char) : Url :=
  let front := cs.takeWhile (· ≠ '#')
  let fragment := match cs.dropWhile (· ≠ '#') with
    | _ :: f => some (String.ofList f)
    | [] => none
  { u with
    path := String.ofList (front.takeWhile (· ≠ '?'))
    query := String.ofList ((front.dropWhile (· ≠ '?')).drop 1)
    fragment }

/-- Whether the text before the host names a user or a password. -/
def namesUser (user : List Char) : Bool := user ≠ [] && user ≠ [':']

/-- Reads an authority and what follows it. -/
def withAuthority? (isWeb : Bool) (scheme : String) (cs : List Char) : Option Url := do
  let isEnd := fun (c : Char) => c = '/' || c = '?' || c = '#' || (isWeb && c = '\\')
  let tail := cs.dropWhile (!isEnd ·)
  let (user?, rest) := splitUser (cs.takeWhile (!isEnd ·))
  let (host, port) := splitPort false rest
  let user := user?.getD []
  guard (isHost host)
  if host = [] then
    guard (!isWeb && port.isNone && !namesUser user && (user? ≠ some [] || tail = []))
  let port ← match port with
    | some cs => port? cs
    | none => some none
  let (name, password) := (user.takeWhile (· ≠ ':'), (user.dropWhile (· ≠ ':')).drop 1)
  let url : Url := {
    scheme, port, user := String.ofList name
    password := if password = [] then none else some (String.ofList password)
    host := if host = [] then none else some (String.ofList host) }
  return url.withTail tail

/-- Reads a URL. -/
def read? (s : String) : Option Url :=
  match scheme? (cleaned s.toList) with
  | none => none
  | some (scheme, rest) =>
    if webSchemes.contains scheme then
      withAuthority? true scheme (rest.dropWhile fun c => c = '/' || c = '\\')
    else
      match rest with
      | '/' :: '/' :: rest => withAuthority? false scheme rest
      | rest => some (withTail { scheme } rest)

/-! ### Escaped bytes -/

/-- The byte that an escape of these three characters stands for. -/
def escape? (b x y : UInt8) : Option UInt8 :=
  match Text.hexDigit? (Char.ofNat x.toNat), Text.hexDigit? (Char.ofNat y.toNat) with
  | some h, some l => if b = '%'.toUInt8 then some (h * 16 + l).toUInt8 else none
  | _, _ => none

/-- The bytes that a text with percent escapes stands for. -/
def unescape : List UInt8 → List UInt8
  | b :: x :: y :: rest =>
    match escape? b x y with
    | some c => c :: unescape rest
    | none => b :: unescape (x :: y :: rest)
  | bs => bs

/-- The text that a part of a URL stands for, if it is one. -/
def unescaped? (s : String) : Option String :=
  String.fromUTF8? (unescape s.toUTF8.toList).toByteArray

/-- The text that a name or a value of a query stands for. -/
def formText (cs : List Char) : String :=
  (unescaped? (String.ofList (cs.map fun c => if c = '+' then ' ' else c))).getD "\ufffd"

/-- The names and values of a query. -/
def pairs (u : Url) : List (String × String) :=
  (partsAt '&' u.query.toList).filter (· ≠ []) |>.map fun p =>
    (formText (p.takeWhile (· ≠ '=')), formText ((p.dropWhile (· ≠ '=')).drop 1))

end Url

end Intake.Net
