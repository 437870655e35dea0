import Symbolic.Text.Quoted

/-!
Loggers of the service. Levels go by name, from the most talkative to the gravest; what names there
are and how a logger is built is left to a library.
-/

namespace Symbolic

inductive Level where
  | debug
  | info
  | warn
  | error
  | dpanic
  | panic
  | fatal
deriving DecidableEq, Repr

namespace Level

def all : List Level :=
  [.debug, .info, .warn, .error, .dpanic, .panic, .fatal]

def name : Level → String
  | .debug => "debug"
  | .info => "info"
  | .warn => "warn"
  | .error => "error"
  | .dpanic => "dpanic"
  | .panic => "panic"
  | .fatal => "fatal"

def enabled (l : Level) : List Level :=
  all.dropWhile (· ≠ l)

end Level

inductive Stock where
  | development
  | production
deriving DecidableEq, Repr

structure LoggerConfig where
  stock : Stock
  level : Level
deriving DecidableEq, Repr

inductive LoggerError where
  | level (name cause : String)
  | build (cause : String)
deriving DecidableEq, Repr

def LoggerError.message : LoggerError → String
  | .level name cause => "invalid log level " ++ quote name ++ ": " ++ cause
  | .build cause => "failed to initialize logger: " ++ cause

/-- The library. What it refuses, it refuses in its own words. -/
structure Logging where
  parseLevel : String → Except String Level
  build : LoggerConfig → Except String Unit

/-- The configuration of the logger that is built. Being verbose lowers the level to `debug`, if its
name is one at all. -/
def Logging.new (l : Logging) (level format : String) (verbose : Bool) :
    Except LoggerError LoggerConfig := do
  let stock := if format = "console" then Stock.development else .production
  let parsed ← (l.parseLevel level).mapError (.level level)
  let config : LoggerConfig := ⟨stock, if verbose then .debug else parsed⟩
  let _ ← (l.build config).mapError .build
  return config

end Symbolic
