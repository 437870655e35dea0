import Symbolic.Expr.Codec

/-!
The tools by name, the parameters each of them takes, and what a call of one is answered with.
-/

namespace Symbolic

inductive Tool where
  | render
  | diff
  | simplify
  | equal
  | hash
  | freeVariables
  | catalogue
deriving DecidableEq, Repr

namespace Tool

def all : List Tool :=
  [.render, .diff, .simplify, .equal, .hash, .freeVariables, .catalogue]

def name : Tool → String
  | .render => "render"
  | .diff => "diff"
  | .simplify => "simplify"
  | .equal => "equal"
  | .hash => "hash"
  | .freeVariables => "free_variables"
  | .catalogue => "tool_spec"

def ofName? (s : String) : Option Tool :=
  all.find? (·.name = s)

structure Request where
  tool : String
  params : Json.Members

inductive CallError where
  | missing (key : String)
  | notObject (key : String)
  | notExpr (key : String) (cause : DecodeError)
  | notString (key : String)
  | notEnvironment (key : String)
  | notNumber (key name : String)
  | notName (cause : LeafError)
  | unknownTool (name : String)
deriving DecidableEq, Repr

def CallError.message : CallError → String
  | .missing key => "missing param: " ++ key
  | .notObject key => "invalid type for param " ++ key
  | .notExpr key cause => "param " ++ key ++ ": " ++ cause.message
  | .notString key => "param " ++ key ++ " must be a string"
  | .notEnvironment key => "param " ++ key ++ " must be an object"
  | .notNumber key name => "param " ++ key ++ "." ++ name ++ " must be a number"
  | .notName cause => cause.message
  | .unknownTool name => "unknown tool: " ++ name

structure Response where
  result : Option Json := none
  string : String := ""
  error : String := ""

/-- A text that is empty is left out. -/
def textMember (key text : String) : Json.Members :=
  if text = "" then [] else [(key, .string text)]

def Response.toJson (r : Response) : Json :=
  .object (r.result.toList.map ("result", ·) ++ textMember "string" r.string
    ++ textMember "error" r.error)

/-- An order in which the members of objects are come upon. It is not the written one in general,
and it may be another one at each call. -/
structure MemberOrder where
  arrange : Json.Members → Json.Members
  perm (ms : Json.Members) : (arrange ms).Perm ms

def MemberOrder.written : MemberOrder := ⟨id, fun ms => .refl ms⟩

end Tool

end Symbolic
