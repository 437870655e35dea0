import Symbolic.Bindings
import Symbolic.Settings.Basic
import Symbolic.Yaml.Document
import Symbolic.Yaml.Mapping

/-!
Settings and bindings out of YAML. Every field of the settings may be left open, by leaving it out or
by giving null; a name that is bound to no value at all is bound to zero.
-/

namespace Symbolic.Settings

structure Patch where
  address : Option String := none
  maxBodyBytes : Option Int := none
  readHeaderTimeout : Option Duration := none
  readTimeout : Option Duration := none
  writeTimeout : Option Duration := none
  idleTimeout : Option Duration := none
  shutdownTimeout : Option Duration := none
  level : Option String := none
  format : Option String := none
  batchConcurrency : Option Int := none
  maxBatchSize : Option Int := none
deriving DecidableEq, Repr

namespace Patch

def unlessNull {α : Type} (read : Yaml.Scalar → Option α) (v : Yaml.Node) : Option (Option α) :=
  match v.scalar? with
  | none => none
  | some .null => some none
  | some s => (read s).map some

def greatest : Int := 0x7FFFFFFFFFFFFFFF

def least : Int := -0x8000000000000000

/-- A number without its fraction. Below the least integer, and exactly at 2 ^ 63, it is the least
one; above there is none. -/
def truncated? (x : Binary64) : Option Int :=
  if x.isNaN || (!x.isFinite && !x.negative) then none
  else if !x.isFinite then some least
  else
    let (num, den) := x.ratio
    let n : Int := if x.negative then -((num / den : Nat) : Int) else (num / den : Nat)
    if x.negative then some (if n < least then least else n)
    else if n ≤ greatest then some n
    else if num = den * (greatest + 1).toNat then some least
    else none

def integer? : Yaml.Scalar → Option Int
  | .int n => if n ≤ greatest then some n else none
  | .float x => truncated? x
  | _ => none

def duration? : Yaml.Scalar → Option Duration
  | .text s => Duration.parse? s
  | _ => none

def assignServer (p : Patch) (key : String) (v : Yaml.Node) : Option Patch :=
  match key with
  | "addr" => return { p with address := ← v.text? }
  | "max_body_bytes" => return { p with maxBodyBytes := ← unlessNull integer? v }
  | "read_header_timeout" => return { p with readHeaderTimeout := ← unlessNull duration? v }
  | "read_timeout" => return { p with readTimeout := ← unlessNull duration? v }
  | "write_timeout" => return { p with writeTimeout := ← unlessNull duration? v }
  | "idle_timeout" => return { p with idleTimeout := ← unlessNull duration? v }
  | "shutdown_timeout" => return { p with shutdownTimeout := ← unlessNull duration? v }
  | _ => some p

def assignLogging (p : Patch) (key : String) (v : Yaml.Node) : Option Patch :=
  match key with
  | "level" => return { p with level := ← v.text? }
  | "format" => return { p with format := ← v.text? }
  | _ => some p

def assignTool (p : Patch) (key : String) (v : Yaml.Node) : Option Patch :=
  match key with
  | "batch_concurrency" => return { p with batchConcurrency := ← unlessNull integer? v }
  | "max_batch_size" => return { p with maxBatchSize := ← unlessNull integer? v }
  | _ => some p

def assignAll (assign : Patch → String → Yaml.Node → Option Patch) (p : Patch) :
    List (String × Yaml.Node) → Option Patch
  | [] => some p
  | (name, v) :: rest => do assignAll assign (← assign p name v) rest

/-- The entries of a mapping are assigned in order. No field is assigned twice. -/
def mapping? (fields : List String) (assign : Patch → String → Yaml.Node → Option Patch) (p : Patch)
    (v : Yaml.Node) : Option Patch := do
  let entries ← v.entries?
  let names := (entries.map Prod.fst).filter (· ∈ fields)
  if names.Nodup then assignAll assign p entries else none

def serverFields : List String :=
  ["addr", "max_body_bytes", "read_header_timeout", "read_timeout", "write_timeout",
    "idle_timeout", "shutdown_timeout"]

def loggingFields : List String := ["level", "format"]

def toolFields : List String := ["batch_concurrency", "max_batch_size"]

def parts : List String := ["server", "logging", "tool"]

/-- Keys without a meaning are ignored, whatever their values. -/
def assign (p : Patch) (key : String) (v : Yaml.Node) : Option Patch :=
  match key with
  | "server" => mapping? serverFields assignServer p v
  | "logging" => mapping? loggingFields assignLogging p v
  | "tool" => mapping? toolFields assignTool p v
  | _ => some p

def ofNode? (v : Yaml.Node) : Option Patch :=
  mapping? parts assign {} v

def toAssignment (p : Patch) : Assignment where
  text part key :=
    match part, key with
    | "server", "addr" => p.address
    | "logging", "level" => p.level
    | "logging", "format" => p.format
    | _, _ => none
  integer part key :=
    match part, key with
    | "server", "max_body_bytes" => p.maxBodyBytes
    | "tool", "batch_concurrency" => p.batchConcurrency
    | "tool", "max_batch_size" => p.maxBatchSize
    | _, _ => none
  duration part key :=
    match part, key with
    | "server", "read_header_timeout" => p.readHeaderTimeout
    | "server", "read_timeout" => p.readTimeout
    | "server", "write_timeout" => p.writeTimeout
    | "server", "idle_timeout" => p.idleTimeout
    | "server", "shutdown_timeout" => p.shutdownTimeout
    | _, _ => none

end Patch

end Symbolic.Settings

namespace Symbolic.Bindings

def ofInt (n : Int) : Binary64 := Binary64.ofRatio (n < 0) n.natAbs 1

def value? (v : Yaml.Node) : Option Binary64 :=
  match v.scalar? with
  | some .null => some .zero
  | some (.int n) => some (ofInt n)
  | some (.float x) => some x
  | _ => none

def insertEntries (env : Bindings) : List (String × Yaml.Node) → Option Bindings
  | [] => some env
  | (name, v) :: rest => do (env.insert name (← value? v)).insertEntries rest

def ofNode? (v : Yaml.Node) : Option Bindings := do
  insertEntries empty (← v.entries?)

end Symbolic.Bindings

namespace Symbolic.Yaml

def expected {α : Type} (cause : String) : Option α → Except String α
  | some a => .ok a
  | none => .error cause

def decodeSettings (content : Bytes) : Except String Settings.Assignment :=
  expected "not a mapping of settings"
    (((parse content).bind Settings.Patch.ofNode?).map Settings.Patch.toAssignment)

def decodeBindings (content : Bytes) : Except String Bindings :=
  expected "not a mapping of names to numbers" ((parse content).bind Bindings.ofNode?)

end Symbolic.Yaml
