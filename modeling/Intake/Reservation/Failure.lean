/-!
# Failures of the key store

A command of the key store times out, was misconfigured, or fails on the server or on the way there.
A failure that a later attempt may outlive is transient; the others are unrecoverable.
-/

namespace Intake.Reservation

/-- What a server says about a failed command, or what is wrong with the client that gave it. -/
inductive ServerFault
  | unreadableReply
  | authentication
  | clientSettings
  | noClusterConnection
  | other
deriving DecidableEq, Repr

/-- How a transport fails. -/
inductive TransportFault
  | timedOut | wouldBlock | connectionRefused | notFound | connectionReset | connectionAborted
  | notConnected | brokenPipe | unexpectedEof | permissionDenied | other
deriving DecidableEq, Repr

/-- Why a command of the key store failed. -/
inductive Failure
  | timeout
  | invalidConfiguration (reason : String)
  | server (fault : ServerFault)
  | transport (fault : TransportFault)
deriving DecidableEq, Repr

/-- Faults after which the connection has to be made anew, or its settings changed. -/
def ServerFault.isUnrecoverable : ServerFault → Bool
  | .unreadableReply | .authentication | .clientSettings | .noClusterConnection => true
  | .other => false

/-- Faults after which the connection is gone. -/
def TransportFault.isUnrecoverable : TransportFault → Bool
  | .connectionRefused | .notFound | .connectionReset | .connectionAborted | .notConnected
  | .brokenPipe | .unexpectedEof => true
  | _ => false

namespace Failure

/-- The failure of a command by its transport; waiting too long is a timeout. -/
def ofTransport : TransportFault → Failure
  | .timedOut | .wouldBlock => timeout
  | fault => transport fault

/-- Whether a failure will not heal while the connection and its settings stay as they are. -/
def isUnrecoverable : Failure → Bool
  | timeout => false
  | invalidConfiguration _ => true
  | server fault => fault.isUnrecoverable
  | transport fault => fault.isUnrecoverable

/-- The word for a failure in the count of reservation errors. -/
def kind (f : Failure) : String := if f.isUnrecoverable then "unrecoverable" else "transient"

/-- The text of a failure; what a server or a transport says stays out of it. -/
def message? : Failure → Option String
  | timeout => some "Timeout error"
  | invalidConfiguration reason => some ("Invalid configuration: " ++ reason)
  | server _ | transport _ => none

end Failure

end Intake.Reservation
