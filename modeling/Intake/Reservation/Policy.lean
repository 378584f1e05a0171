import Intake.Text.Blank
import Intake.Text.Escaped

/-!
# What to do without a reservation

When the key store cannot be asked, an event is either dropped as if it were a duplicate or written
without a reservation. A setting names the policy in letters of any case, blanks around it allowed.
-/

namespace Intake.Reservation

/-- What happens to an event whose reservation is unknown. -/
inductive Policy
  | failClosed
  | failOpen
deriving DecidableEq, Repr

namespace Policy

def name : Policy → String
  | failClosed => "fail_closed"
  | failOpen => "fail_open"

/-- A setting that names no policy. -/
structure Unknown where
  setting : String
deriving DecidableEq, Repr

def Unknown.message (e : Unknown) : String :=
  "invalid reservation policy " ++ Text.escaped e.setting ++ ", expected fail_closed or fail_open"

/-- Reads a setting. -/
def read (s : String) : Except Unknown Policy :=
  let name := String.ofList (Text.lowerAscii (Text.trim s.toList))
  if name = failClosed.name then .ok failClosed
  else if name = failOpen.name then .ok failOpen
  else .error ⟨s⟩

end Policy

end Intake.Reservation
