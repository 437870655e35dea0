import Symbolic.Sketch
import Symbolic.Tool.Call

/-!
Calls of tools on trees in which nodes may be absent. A call ends with a response, which may report
an error in the parameters, or with a fault of an operation that has met an absent node.
-/

namespace Symbolic.Tool.Sketched

open Json (Members)

/-- What is done for a call: it may fault, and it may come upon a wrong parameter. -/
abbrev Attempt := ExceptT CallError (Except Sketch.Fault)

def checked {α : Type} (x : Except CallError α) : Attempt α :=
  ExceptT.mk (.ok x)

def treeParam (params : Members) (key : String) : Attempt Sketch :=
  checked (Tool.treeParam Sketch.decode params key)

def respond (e : Sketch) : Except Sketch.Fault Response :=
  return { result := some (← e.toJson), string := ← e.render }

def run (o : MemberOrder) (params : Members) : Tool → Attempt Response
  | .render => do respond (← treeParam params "expr")
  | .diff => do
    let e ← treeParam params "expr"
    let v ← checked (nameParam params "var")
    respond (← e.diff v)
  | .simplify => do
    let e ← treeParam params "expr"
    let env ← checked (envParam o params "env")
    respond (← e.simplify env)
  | .equal => do
    let a ← treeParam params "a"
    let b ← treeParam params "b"
    let same ← a.equal b
    return { result := some (.bool same), string := boolText same }
  | .hash => do
    let e ← treeParam params "expr"
    let text := hexPadded 16 (← e.hash).toNat
    return { result := some (.string text), string := text }
  | .freeVariables => do
    let e ← treeParam params "expr"
    let names ← e.freeNames
    return { result := some (.array (names.map .string)), string := namesText names }
  | .catalogue => return { string := catalogueText }

def call (o : MemberOrder) (r : Request) : Except Sketch.Fault Response :=
  match ofName? r.tool with
  | none => .ok { error := (CallError.unknownTool r.tool).message }
  | some t => do
    match ← (run o r.params t).run with
    | .ok response => return response
    | .error cause => return { error := cause.message }

end Symbolic.Tool.Sketched
