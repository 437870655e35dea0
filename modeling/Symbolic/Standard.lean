import Symbolic.Command.Run
import Symbolic.Command.Words
import Symbolic.Yaml.Decoded

/-!
The libraries that the program is run with: command lines with long and short flags, settings and
bindings in YAML, and loggers whose levels go by name in any letter case.
-/

namespace Symbolic

namespace Level

/-- Lower case as far as it gives ASCII letters: two letters outside ASCII do so as well. -/
def lower (c : Char) : Char :=
  if 0x41 ≤ c.toNat ∧ c.toNat ≤ 0x5A then Char.ofNat (c.toNat + 0x20)
  else if c = '\u0130' then 'i'
  else if c = '\u212A' then 'k'
  else c

/-- No name at all means `info`. -/
def ofName? (s : String) : Option Level :=
  let word := String.ofList (s.toList.map lower)
  if word = "" then some .info
  else if word = "warning" then some .warn
  else all.find? (·.name = word)

end Level

def Logging.standard : Logging where
  parseLevel s :=
    match Level.ofName? s with
    | some l => .ok l
    | none => .error ("unrecognized level: " ++ quote s)
  build _ := .ok ()

def Libraries.standard : Libraries where
  readWords := Invocation.ofWords
  decodeSettings := Yaml.decodeSettings
  decodeBindings := Yaml.decodeBindings
  logging := .standard

end Symbolic
