import Intake.Database.Timeouts
import Intake.Net.Url

/-!
# The pool of connections

A pool is made from a URL without opening a connection. The URL has to be one, its user, password
and socket have to be texts, and the settings in its query have to be of their kinds.
-/

namespace Intake.Database

structure Pool where
  maxConnections : Nat
  applicationName : String
  timeouts : Timeouts
  openConnections : Nat := 0
  /-- Whether a connection is tried out before it is given away. -/
  testBeforeAcquire : Bool := true
deriving Repr

def sslModes : List String := ["disable", "allow", "prefer", "require", "verify-ca", "verify-full"]

/-- Whether a setting in a query has a value of its kind; unknown settings have any. -/
def isSetting (name value : String) : Bool :=
  if name = "sslmode" ∨ name = "ssl-mode" then
    sslModes.contains (String.ofList (Text.lowerAscii value.toList))
  else if name = "statement-cache-capacity" then
    (Text.unsigned? (Text.largestWord 64) value).isSome
  else if name = "hostaddr" then Net.isAddress4 value.toList || Net.isAddress6 value.toList
  else if name = "port" then (Text.unsigned? (Text.largestWord 16) value).isSome
  else true

/-- Whether a host is a text, or no path of a socket. -/
def isHostText (host : String) : Bool :=
  (Net.Url.unescape host.toUTF8.toList).head? ≠ some '/'.toUInt8 ||
    (Net.Url.unescaped? host).isSome

/-- Whether a database can be found by a URL. -/
def isLocation (u : Net.Url) : Bool :=
  u.host.all isHostText && (Net.Url.unescaped? u.user).isSome &&
    u.password.all (fun p => (Net.Url.unescaped? p).isSome) &&
    u.pairs.all fun (name, value) => isSetting name value

/-- A pool for the database at a URL. -/
def Pool.make? (url : String) (maxConnections : Nat) (applicationName : String)
    (timeouts : Timeouts) : Option Pool :=
  if (Net.Url.read? url).any isLocation then some { maxConnections, applicationName, timeouts }
  else none

end Intake.Database
