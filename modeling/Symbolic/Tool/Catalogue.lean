import Symbolic.Json.Printer
import Symbolic.Tool.Basic

/-!
The catalogue describes every tool and the JSON schema of its parameters.
-/

namespace Symbolic.Tool

structure Param where
  name : String
  type : String
  required : Bool

def description : Tool → String
  | .render => "Render an expression in canonical form"
  | .diff => "Derivative d/dvar, unsimplified"
  | .simplify => "Substitute env bindings and fold constant operators"
  | .equal => "Structural, order-sensitive equality"
  | .hash => "Structural hash as 16 hex digits"
  | .freeVariables => "Sorted variable names"
  | .catalogue => "Return this tool schema"

/-- The parameters, sorted by name. -/
def params : Tool → List Param
  | .render | .hash | .freeVariables => [⟨"expr", "object", true⟩]
  | .diff => [⟨"expr", "object", true⟩, ⟨"var", "string", true⟩]
  | .simplify => [⟨"env", "object", false⟩, ⟨"expr", "object", true⟩]
  | .equal => [⟨"a", "object", true⟩, ⟨"b", "object", true⟩]
  | .catalogue => []

def schema (ps : List Param) : Json :=
  .object [
    ("properties", .object (ps.map fun p => (p.name, .object [("type", .string p.type)]))),
    ("required", .array ((ps.filter (·.required)).map (.string ·.name))),
    ("type", .string "object")]

def toJson (t : Tool) : Json :=
  .object [
    ("description", .string t.description),
    ("inputSchema", schema t.params),
    ("name", .string t.name)]

def catalogueText : String :=
  (Json.object [("tools", .array (all.map toJson))]).indented 0

end Symbolic.Tool
