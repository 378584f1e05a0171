/-!
# Errors of the store

An error says which step failed and carries its cause. A conflict leaves nothing behind and may be
run again. An error of a commit is ambiguous: the commit may have been done. `ofQuery` and
`ofCommit` tell conflicts from the rest by the code that the server gave.
-/

namespace Intake.Store

/-- What went wrong in the database or on the way there. -/
inductive Cause
  | poolTimedOut
  | poolClosed
  | rowNotFound
  | workerCrashed
  | protocol (text : String)
  | server (code : Option String) (text : String)
  | transport (text : String)
deriving DecidableEq, Repr

namespace Cause

def message : Cause → String
  | poolTimedOut => "pool timed out while waiting for an open connection"
  | poolClosed => "attempted to acquire a connection on a closed pool"
  | rowNotFound => "no rows returned by a query that expected to return at least one row"
  | workerCrashed => "attempted to communicate with a crashed background worker"
  | protocol text => "encountered unexpected or invalid data: " ++ text
  | server _ text => "error returned from database: " ++ text
  | transport text => "error communicating with database: " ++ text

/-- The codes of a serialization failure and of a deadlock. -/
def conflictCodes : List String := ["40001", "40P01"]

/-- Whether the server rolled the transaction back because of another one. -/
def isConflict : Cause → Bool
  | server (some code) _ => conflictCodes.contains code
  | _ => false

end Cause

/-- The step of a transaction that failed, and why. -/
inductive Error
  | connection (cause : Cause)
  | query (command : String) (cause : Cause)
  | commit (cause : Cause)
  | conflict (command : String) (cause : Cause)
deriving DecidableEq, Repr

namespace Error

def ofQuery (command : String) (cause : Cause) : Error :=
  if cause.isConflict then conflict command cause else query command cause

def ofCommit (cause : Cause) : Error :=
  if cause.isConflict then conflict "COMMIT" cause else commit cause

def message : Error → String
  | connection cause => "connection failed with: " ++ cause.message
  | query command cause => command ++ " query failed with: " ++ cause.message
  | commit cause => "commit failed with: " ++ cause.message
  | conflict command cause =>
    command ++ " aborted by a concurrent transaction: " ++ cause.message

def command? : Error → Option String
  | query command _ | conflict command _ => some command
  | connection _ | commit _ => none

/-- Whether the transaction may be run again as it was. -/
def isConflict : Error → Bool
  | conflict .. => true
  | _ => false

/-- Whether the commit may have been done. -/
def isAmbiguous : Error → Bool
  | commit _ => true
  | _ => false

end Error

end Intake.Store
