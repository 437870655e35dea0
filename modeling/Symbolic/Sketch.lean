import Symbolic.Expr.Calculus
import Symbolic.Expr.Codec
import Symbolic.Expr.Render
import Symbolic.Expr.Walk

/-!
Trees in which nodes may be absent. Each operation looks at nodes in its own order and stops with a
fault at the first absent node that it has to tell the kind of. On a tree without absent nodes it
does what the operation of the same name does on expressions.
-/

namespace Symbolic

inductive Sketch where
  | absent
  | num (value : Number)
  | var (name : String)
  | sum (left right : Sketch)
  | prod (left right : Sketch)
deriving DecidableEq, Repr

namespace Sketch

/-- An absent node was met where a kind is needed, or was itself asked for its text. -/
inductive Fault where
  | unhandled
  | noReceiver
deriving DecidableEq, Repr

def Fault.message? : Fault → Option String
  | .unhandled => some "unhandled case: <nil>"
  | .noReceiver => none

def ofExpr : Expr → Sketch
  | .num n => .num n
  | .var x => .var x
  | .sum l r => .sum (ofExpr l) (ofExpr r)
  | .prod l r => .prod (ofExpr l) (ofExpr r)

def isConstant : Sketch → Bool
  | .num _ => true
  | _ => false

def isSum : Sketch → Bool
  | .sum _ _ => true
  | _ => false

def isLeaf : Sketch → Except Fault Bool
  | .absent => .error .unhandled
  | .num _ | .var _ => .ok true
  | .sum _ _ | .prod _ _ => .ok false

def operand? (side : Side) : Sketch → Option Sketch
  | .sum l r | .prod l r =>
    match side with
    | .left => some l
    | .right => some r
  | .absent | .num _ | .var _ => none

/-- Whether an operand is bracketed, decided before its text is made. -/
def needsBrackets (parent : Operator) (side : Side) (e : Sketch) : Except Fault Bool := do
  if ← e.isLeaf then return false
  match parent, side with
  | .sum, .left => return false
  | .sum, .right => return e.isSum
  | .prod, .left => return e.isSum
  | .prod, .right => return true

def write : Sketch → Except Fault String
  | .absent => .error .unhandled
  | .num n => .ok n.render
  | .var x => .ok x
  | .sum l r => do
    let left := Expr.bracketed (← l.needsBrackets .sum .left) (← l.write)
    let right := Expr.bracketed (← r.needsBrackets .sum .right) (← r.write)
    return left ++ " + " ++ right
  | .prod l r => do
    let left := Expr.bracketed (← l.needsBrackets .prod .left) (← l.write)
    let right := Expr.bracketed (← r.needsBrackets .prod .right) (← r.write)
    return left ++ " * " ++ right

def render : Sketch → Except Fault String
  | .absent => .error .noReceiver
  | e => e.write

def hash : Sketch → Except Fault UInt64
  | .absent => .error .unhandled
  | .num n => .ok (Expr.hash (.num n))
  | .var x => .ok (Expr.hash (.var x))
  | .sum l r => return 31 * (← l.hash) + (← r.hash)
  | .prod l r => return 37 * (← l.hash) + (← r.hash)

/-- The first tree leads; the second is looked at only where the first has a node. -/
def equal : Sketch → Sketch → Except Fault Bool
  | .absent, _ => .error .unhandled
  | .num a, b => .ok (b = .num a)
  | .var x, b => .ok (b = .var x)
  | .sum l r, .sum l' r' => do
    if ← l.equal l' then r.equal r' else return false
  | .prod l r, .prod l' r' => do
    if ← l.equal l' then r.equal r' else return false
  | .sum _ _, _ | .prod _ _, _ => .ok false

def diff (v : String) : Sketch → Except Fault Sketch
  | .absent => .error .unhandled
  | .num _ => .ok (.num .zero)
  | .var x => .ok (.num (if x = v then .one else .zero))
  | .sum l r => return .sum (← l.diff v) (← r.diff v)
  | .prod l r => return .sum (.prod l (← r.diff v)) (.prod r (← l.diff v))

def diffTimes (v : String) : Nat → Sketch → Except Fault Sketch
  | 0, e => .ok e
  | n + 1, e => do diffTimes v n (← e.diff v)

def diffN (v : String) (n : Int) (e : Sketch) : Except Fault Sketch :=
  e.diffTimes v n.toNat

def simplify (env : Bindings) : Sketch → Except Fault Sketch
  | .absent => .error .unhandled
  | .num n => .ok (.num n)
  | .var x =>
    match env.number? x with
    | some n => .ok (.num n)
    | none => .ok (.var x)
  | .sum l r => do
    match ← l.simplify env, ← r.simplify env with
    | .num a, .num b => return .num (a.add b)
    | l, r => return .sum l r
  | .prod l r => do
    match ← l.simplify env, ← r.simplify env with
    | .num a, .num b => return .num (a.mul b)
    | l, r => return .prod l r

def toJson : Sketch → Except Fault Json
  | .absent => .error .unhandled
  | .num n => .ok (Expr.toJson (.num n))
  | .var x => .ok (Expr.toJson (.var x))
  | .sum l r => return .object [("left", ← l.toJson), ("right", ← r.toJson), ("type", .string "sum")]
  | .prod l r =>
    return .object [("left", ← l.toJson), ("right", ← r.toJson), ("type", .string "product")]

def names : Sketch → List String → Except Fault (List String)
  | .absent, _ => .error .unhandled
  | .num _, seen => .ok seen
  | .var x, seen => .ok (insertName x seen)
  | .sum l r, seen | .prod l r, seen => do r.names (← l.names seen)

def freeNames (e : Sketch) : Except Fault (List String) :=
  e.names []

def combine : Operator → Sketch → Sketch → Sketch
  | .sum => .sum
  | .prod => .prod

def decode (m : Json.Members) : Except DecodeError Sketch := do
  match ← Expr.form m with
  | .number => return ofExpr (← Expr.decodeNumber m)
  | .named => return ofExpr (← Expr.decodeName m)
  | .operator op =>
    let l ← Expr.operand op .left m fun inner _ => decode inner
    let r ← Expr.operand op .right m fun inner _ => decode inner
    return combine op l r
termination_by sizeOf m
decreasing_by all_goals exact Expr.sizeOf_get?_lt ‹_›

def parse (cs : List Char) : Except ParseError Sketch :=
  match Json.parse cs with
  | .ok .null => .error (.decode .notObject)
  | .ok (.object m) =>
    if Json.membersFinite m then (decode m).mapError .decode else .error .malformed
  | _ => .error .malformed

end Sketch

end Symbolic
