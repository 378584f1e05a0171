import Intake.Span

/-!
# Timeouts of the database

Some timeouts bound the work of a connection and are set by a statement when it is opened; the
others are those of the pool.
-/

namespace Intake.Database

structure Timeouts where
  statement : Span := .ofSecs 2
  lock : Span := .ofMillis 500
  acquire : Span := .ofMillis 500
  idle : Span := .ofSecs 300
  lifetime : Span := .ofSecs 1800
  idleInTransaction : Span := .ofSecs 15
deriving DecidableEq, Repr

namespace Timeouts

/-- The milliseconds of a span, as many as 63 bits hold. -/
def millis (d : Span) : Nat := min d.millis (Nat.pow 2 63 - 1)

def setting (name : String) (d : Span) : String :=
  "SET " ++ name ++ " = '" ++ toString (millis d) ++ "ms'"

/-- The statements with which a connection starts. -/
def statements (t : Timeouts) : List String :=
  [setting "statement_timeout" t.statement, setting "lock_timeout" t.lock,
   setting "idle_in_transaction_session_timeout" t.idleInTransaction]

end Timeouts

end Intake.Database
