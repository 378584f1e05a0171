import Intake.Net.Url
import Intake.Reservation.Failure
import Intake.Span

/-!
# The server of the key store

Where the server is, read from a URL. What cannot be used is found out before a connection is tried:
timeouts of no length first, then the URL.
-/

namespace Intake.Reservation

/-- The place of a server: a host and a port, or a socket. -/
inductive Place
  | network (host : String) (port : Nat)
  | socket (path : String)
deriving DecidableEq, Repr

/-- A setting of the URL that cannot be used. -/
def badUrl : Failure := .server .clientSettings

namespace Place

/-- The number of a database in the path of a URL. -/
def isDatabase (path : String) : Bool :=
  let name := (((path.toList.dropWhile (· = '/')).reverse).dropWhile (· = '/')).reverse
  match name with
  | [] => true
  | '-' :: ds => ds ≠ [] && ds.all Text.isDigit && Text.ofDigits ds ≤ Nat.pow 2 63
  | _ => (Text.unsigned? (Nat.pow 2 63 - 1) (String.ofList name)).isSome

def isProtocol (value : String) : Bool := ["2", "3", "resp2", "resp3"].contains value

def ofUrl? (u : Net.Url) : Option Place :=
  let isText := fun s => (Net.Url.unescaped? s).isSome
  let knowsProtocol := u.pairs.all fun (name, value) => name ≠ "protocol" || isProtocol value
  if u.scheme = "unix" ∨ u.scheme = "redis+unix" ∨ u.scheme = "valkey+unix" then
    if knowsProtocol then some (socket u.path) else none
  else if u.scheme = "redis" ∨ u.scheme = "valkey" then
    match u.host with
    | some host =>
      if isDatabase u.path && isText u.user && u.password.all isText && knowsProtocol then
        some (network host (u.port.getD 6379))
      else none
    | none => none
  else none

end Place

/-- The server at a URL, for use with these timeouts. -/
def place (url : String) (response connection : Option Span) : Except Failure Place :=
  let zero := fun name => Failure.invalidConfiguration
    ("Redis " ++ name ++ " timeout cannot be Duration::ZERO - use None for no timeout")
  if response.any (·.nanos = 0) then .error (zero "response")
  else if connection.any (·.nanos = 0) then .error (zero "connection")
  else
    match (Net.Url.read? url).bind Place.ofUrl? with
    | some p => .ok p
    | none => .error badUrl

end Intake.Reservation
