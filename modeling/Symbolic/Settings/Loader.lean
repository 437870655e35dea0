import Symbolic.Files
import Symbolic.Settings.Basic

/-!
Settings in three layers: the defaults, under a file, under variables of the environment. A file
that is missing assigns nothing, and a variable that is empty overrides nothing. What the content of a
file assigns is for a decoder to say.
-/

namespace Symbolic

/-- Variables of the environment; one that is not set is empty. -/
abbrev Environment := String → String

inductive SettingsError where
  | unreadable (cause : FileError)
  | malformed (cause : String)
  | unusable (cause : SettingsFault)
deriving DecidableEq, Repr

def SettingsError.message : SettingsError → String
  | .unreadable cause => "failed to read config: " ++ cause.message
  | .malformed cause => "failed to parse config: " ++ cause
  | .unusable cause => cause.message

namespace Settings

def override (value current : String) : String :=
  if value = "" then current else value

def withEnvironment (s : Settings) (environ : Environment) : Settings :=
  { s with
    address := override (environ "EXPRESSIVO_ADDR") s.address
    level := override (environ "EXPRESSIVO_LOG_LEVEL") s.level
    format := override (environ "EXPRESSIVO_LOG_FORMAT") s.format }

/-- What the file at a path assigns; no path at all names no file. -/
def readAssignment (decode : Bytes → Except String Assignment) (files : Files) (path : String) :
    Except SettingsError Assignment :=
  if path = "" then .ok .empty
  else
    match files path with
    | .error (.missing _) => .ok .empty
    | .error e => .error (.unreadable e)
    | .ok content => (decode content).mapError .malformed

def checked (s : Settings) : Except SettingsError Settings :=
  match s.fault? with
  | some e => .error (.unusable e)
  | none => .ok s

def load (decode : Bytes → Except String Assignment) (files : Files) (environ : Environment)
    (path : String) : Except SettingsError Settings := do
  let a ← readAssignment decode files path
  checked ((default.assigned a).withEnvironment environ)

end Settings

end Symbolic
