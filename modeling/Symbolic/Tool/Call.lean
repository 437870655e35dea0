import Symbolic.Expr.Calculus
import Symbolic.Expr.Render
import Symbolic.Expr.Walk
import Symbolic.Tool.Catalogue

/-!
Calls of tools, one by one and in batches. Parameters are checked in the order in which a tool needs
them, so the first one that is wrong is reported.
-/

namespace Symbolic.Tool

open Json (Members)

def treeParam {α : Type} (decode : Members → Except DecodeError α) (params : Members)
    (key : String) : Except CallError α :=
  match params.get? key with
  | none => .error (.missing key)
  | some (.object m) => (decode m).mapError (.notExpr key)
  | some _ => .error (.notObject key)

def exprParam : Members → String → Except CallError Expr :=
  treeParam Expr.decode

def stringParam (params : Members) (key : String) : Except CallError String :=
  match params.get? key with
  | none => .error (.missing key)
  | some (.string s) => .ok s
  | some _ => .error (.notString key)

def nameParam (params : Members) (key : String) : Except CallError String := do
  let s ← stringParam params key
  if isName s.toList then return s else .error (.notName (.name (Text.ofString s)))

/-- The values of the members. The first one come upon that is no number is reported. -/
def bindingsOf (key : String) : Members → Except CallError Bindings
  | [] => .ok .empty
  | (name, .number x) :: rest => return (← bindingsOf key rest).insert name x
  | (name, _) :: _ => .error (.notNumber key name)

def envParam (o : MemberOrder) (params : Members) (key : String) : Except CallError Bindings :=
  match params.get? key with
  | none | some .null => .ok .empty
  | some (.object m) => bindingsOf key (o.arrange (Members.effective m))
  | some _ => .error (.notEnvironment key)

def respond (e : Expr) : Response :=
  { result := some e.toJson, string := e.render }

def boolText (b : Bool) : String :=
  if b then "true" else "false"

def namesText (names : List String) : String :=
  "[" ++ String.intercalate " " names ++ "]"

def run (o : MemberOrder) (params : Members) : Tool → Except CallError Response
  | .render => return respond (← exprParam params "expr")
  | .diff => do
    let e ← exprParam params "expr"
    let v ← nameParam params "var"
    return respond (e.diff v)
  | .simplify => do
    let e ← exprParam params "expr"
    let env ← envParam o params "env"
    return respond (e.simplify env)
  | .equal => do
    let a ← exprParam params "a"
    let b ← exprParam params "b"
    return { result := some (.bool (a = b)), string := boolText (a = b) }
  | .hash => do
    let e ← exprParam params "expr"
    return { result := some (.string e.hashText), string := e.hashText }
  | .freeVariables => do
    let e ← exprParam params "expr"
    return { result := some (.array (e.freeNames.map .string)), string := namesText e.freeNames }
  | .catalogue => return { string := catalogueText }

def call (o : MemberOrder) (r : Request) : Response :=
  match ofName? r.tool with
  | none => { error := (CallError.unknownTool r.tool).message }
  | some t =>
    match t.run o r.params with
    | .ok response => response
    | .error cause => { error := cause.message }

inductive BatchError where
  | cancelled
  | expired
deriving DecidableEq, Repr

def BatchError.message : BatchError → String
  | .cancelled => "context canceled"
  | .expired => "context deadline exceeded"

/-- The responses to the requests, if at each of them the members come in the order given for it. -/
def callAll (orders : Nat → MemberOrder) (requests : List Request) : List Response :=
  requests.mapIdx fun i q => call (orders i) q

/-- The responses in the order of the requests, however many calls are under way at a time; none at
all if the caller's context has ended, even for no requests. -/
def batch (ended : Option BatchError) (orders : Nat → MemberOrder) (requests : List Request) :
    Except BatchError (List Response) :=
  match ended with
  | some e => .error e
  | none => .ok (callAll orders requests)

end Symbolic.Tool
