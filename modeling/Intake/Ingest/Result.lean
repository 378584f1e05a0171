import Intake.Event
import Intake.Span
import Intake.Store.Error

/-!
# Results of ingestion

An attempt inserts its event, finds that it is a duplicate, or fails. Only an event that breaks a
rule is not worth sending again.
-/

namespace Intake.Ingest

inductive Outcome
  | inserted
  | duplicate
deriving DecidableEq, Repr

/-- Why an attempt failed. -/
inductive Error
  | invalid (flaw : Event.Flaw)
  | storage (error : Store.Error)
  | timeout (limit : Span)
deriving DecidableEq, Repr

namespace Error

def message : Error → String
  | invalid flaw => "invalid event: " ++ flaw.message
  | storage error => "storage error: " ++ error.message
  | timeout limit => "ingestion did not finish within " ++ limit.text

def isRetryable : Error → Bool
  | invalid _ => false
  | storage _ | timeout _ => true

/-- The word for an error in the count of failures. -/
def kind : Error → String
  | invalid _ => "validation"
  | storage _ => "storage"
  | timeout _ => "timeout"

end Error

abbrev Result := Except Error Outcome

end Intake.Ingest
