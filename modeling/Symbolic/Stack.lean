import Symbolic.Expr.Calculus
import Symbolic.Expr.Codec
import Symbolic.Expr.Render
import Symbolic.Expr.Walk
import Symbolic.Json.Printer

/-!
A stack calculator over expressions, the top of the stack first. A step that fails leaves the stack
as it was.
-/

namespace Symbolic.Stack

inductive Step where
  | number (text : Text)
  | name (text : Text)
  | parse (text : List Char)
  | combine (op : Operator)
  | diff (name : String) (times : Int)
  | simplify (env : Bindings)
  | operand (side : Side)
  | pick (index : Int)
  | swap
  | drop
  | equal
  | render
  | json
  | freeNames

inductive StepError where
  | underflow
  | leaf
  | refused (cause : ParseError)

inductive Answer where
  | flag (b : Bool)
  | text (s : String)
  | names (xs : List String)

def push (s : List Expr) (r : Except ParseError Expr) : Except StepError (List Expr × Option Answer) :=
  match r with
  | .ok e => .ok (e :: s, none)
  | .error cause => .error (.refused cause)

def pickAt (s : List Expr) : Int → Option Expr
  | .ofNat i => s[i]?
  | .negSucc _ => none

def operandOf (side : Side) (e : Expr) : Option Expr :=
  e.operands?.map fun (l, r) =>
    match side with
    | .left => l
    | .right => r

def run : Step → List Expr → Except StepError (List Expr × Option Answer)
  | .number t, s => push s ((Expr.ofNumeral t).mapError fun e => .decode (.leaf e))
  | .name t, s => push s ((Expr.ofName t).mapError fun e => .decode (.leaf e))
  | .parse cs, s => push s (Expr.parse cs)
  | .combine op, r :: l :: s => .ok (op.apply l r :: s, none)
  | .diff v n, e :: s => .ok (e.diffN v n :: s, none)
  | .simplify env, e :: s => .ok (e.simplify env :: s, none)
  | .operand side, e :: s =>
    match operandOf side e with
    | some x => .ok (x :: s, none)
    | none => .error .leaf
  | .pick i, s =>
    match pickAt s i with
    | some e => .ok (e :: s, none)
    | none => .error .underflow
  | .swap, a :: b :: s => .ok (b :: a :: s, none)
  | .drop, _ :: s => .ok (s, none)
  | .equal, b :: a :: s => .ok (b :: a :: s, some (.flag (a = b)))
  | .render, e :: s => .ok (e :: s, some (.text e.render))
  | .json, e :: s => .ok (e :: s, some (.text e.toJson.compact))
  | .freeNames, e :: s => .ok (e :: s, some (.names e.freeNames))
  | _, _ => .error .underflow

/-- The stack after a step, with the answer of the step. -/
structure Report where
  stack : List Expr
  answer : Option Answer

def runAll : List Step → List Expr → List (Except StepError Report)
  | [], _ => []
  | step :: steps, s =>
    match run step s with
    | .ok (s', answer) => .ok ⟨s', answer⟩ :: runAll steps s'
    | .error e => .error e :: runAll steps s

end Symbolic.Stack
