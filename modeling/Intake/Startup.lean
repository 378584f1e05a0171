import Intake.Config
import Intake.Database.Pool
import Intake.Reservation.Server

/-!
# Starting up

The service makes its pool of connections first and then looks for the server of the key store. No
connection to the database is opened before it is needed.
-/

namespace Intake.Startup

/-- Why the service does not start. -/
inductive Failure
  | config (e : Config.Unreadable)
  | pool
  | keyStore (f : Reservation.Failure)
deriving DecidableEq, Repr

def Failure.message : Failure → String
  | config e => e.message
  | pool => "failed to create postgres pool"
  | keyStore _ => "failed to create redis client"

def applicationName : String := "event-ingestion"

/-- What the service starts with. -/
structure Parts where
  config : Config
  pool : Database.Pool
  keyStore : Reservation.Place
deriving Repr

def timeouts (c : Config) : Database.Timeouts :=
  { statement := c.pgStatementTimeout, acquire := c.pgAcquireTimeout }

def prepare (env : Config.Environment) : Except Failure Parts := do
  let config ← (Config.read env).mapError .config
  let some pool :=
    Database.Pool.make? config.databaseUrl config.maxPgConnections applicationName (timeouts config)
    | throw .pool
  let keyStore ← (Reservation.place config.redisUrl (some config.redisResponseTimeout)
    (some config.redisConnectionTimeout)).mapError .keyStore
  return { config, pool, keyStore }

end Intake.Startup
