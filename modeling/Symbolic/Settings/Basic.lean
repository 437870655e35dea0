import Symbolic.Duration
import Symbolic.Text.Quoted

/-!
Settings of the service, their defaults, what a file may assign to them, and what makes them usable.
-/

namespace Symbolic

structure Settings where
  address : String
  maxBodyBytes : Int
  readHeaderTimeout : Duration
  readTimeout : Duration
  writeTimeout : Duration
  idleTimeout : Duration
  shutdownTimeout : Duration
  level : String
  format : String
  /-- How many calls of a batch may run at once; zero sets no bound. -/
  batchConcurrency : Int
  maxBatchSize : Int
deriving DecidableEq, Repr

inductive SettingsFault where
  | noAddress
  | bodyLimit (n : Int)
  | level (name : String)
  | format (name : String)
  | concurrency (n : Int)
  | batchSize (n : Int)
deriving DecidableEq, Repr

def SettingsFault.message : SettingsFault → String
  | .noAddress => "server.addr must be set"
  | .bodyLimit n => "server.max_body_bytes must be positive, got " ++ toString n
  | .level name => "logging.level " ++ quote name ++ " is not one of debug, info, warn, error"
  | .format name => "logging.format " ++ quote name ++ " is not one of json, console"
  | .concurrency n => "tool.batch_concurrency must not be negative, got " ++ toString n
  | .batchSize n => "tool.max_batch_size must be positive, got " ++ toString n

namespace Settings

def default : Settings where
  address := ":8080"
  maxBodyBytes := 1048576
  readHeaderTimeout := .ofSeconds 5
  readTimeout := .ofSeconds 15
  writeTimeout := .ofSeconds 15
  idleTimeout := .ofSeconds 60
  shutdownTimeout := .ofSeconds 10
  level := "info"
  format := "json"
  batchConcurrency := 8
  maxBatchSize := 256

/-- What a file assigns, by section and key. -/
structure Assignment where
  text : String → String → Option String
  integer : String → String → Option Int
  duration : String → String → Option Duration

def Assignment.empty : Assignment where
  text _ _ := none
  integer _ _ := none
  duration _ _ := none

def assigned (s : Settings) (a : Assignment) : Settings where
  address := (a.text "server" "addr").getD s.address
  maxBodyBytes := (a.integer "server" "max_body_bytes").getD s.maxBodyBytes
  readHeaderTimeout := (a.duration "server" "read_header_timeout").getD s.readHeaderTimeout
  readTimeout := (a.duration "server" "read_timeout").getD s.readTimeout
  writeTimeout := (a.duration "server" "write_timeout").getD s.writeTimeout
  idleTimeout := (a.duration "server" "idle_timeout").getD s.idleTimeout
  shutdownTimeout := (a.duration "server" "shutdown_timeout").getD s.shutdownTimeout
  level := (a.text "logging" "level").getD s.level
  format := (a.text "logging" "format").getD s.format
  batchConcurrency := (a.integer "tool" "batch_concurrency").getD s.batchConcurrency
  maxBatchSize := (a.integer "tool" "max_batch_size").getD s.maxBatchSize

/-- The first fault, in the order of the fields. -/
def fault? (s : Settings) : Option SettingsFault :=
  if s.address = "" then some .noAddress
  else if s.maxBodyBytes ≤ 0 then some (.bodyLimit s.maxBodyBytes)
  else if s.level ∉ ["debug", "info", "warn", "error"] then some (.level s.level)
  else if s.format ∉ ["json", "console"] then some (.format s.format)
  else if s.batchConcurrency < 0 then some (.concurrency s.batchConcurrency)
  else if s.maxBatchSize ≤ 0 then some (.batchSize s.maxBatchSize)
  else none

end Settings

end Symbolic
