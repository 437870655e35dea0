import Symbolic.Bindings
import Symbolic.Expr.Basic

/-!
Partial derivatives, and substitution of bound variables.

Derivatives go by the rules for sums and products, and nothing is simplified: the derivative of
`x * x` is `x * 1 + x * 1`. Substitution folds operators whose operands are both numbers. Nothing else
changes: `x + 0` and `x * 1` stay. A value that no numeral denotes binds nothing.
-/

namespace Symbolic

/-- The number a name is bound to, if its value is finite and not negative. -/
def Bindings.number? (env : Bindings) (name : String) : Option Number :=
  (env.get? name).bind Number.ofBinary64?

namespace Expr

def diff (v : String) : Expr → Expr
  | .num _ => zero
  | .var x => if x = v then one else zero
  | .sum l r => .sum (l.diff v) (r.diff v)
  | .prod l r => .sum (.prod l (r.diff v)) (.prod r (l.diff v))

def diffTimes (v : String) : Nat → Expr → Expr
  | 0, e => e
  | n + 1, e => diffTimes v n (e.diff v)

/-- The `n`-th derivative; a count that is not positive leaves the expression as it is. -/
def diffN (v : String) (n : Int) (e : Expr) : Expr :=
  e.diffTimes v n.toNat

def foldSum : Expr → Expr → Expr
  | .num a, .num b => .num (a.add b)
  | l, r => .sum l r

def foldProd : Expr → Expr → Expr
  | .num a, .num b => .num (a.mul b)
  | l, r => .prod l r

def simplify (env : Bindings) : Expr → Expr
  | .num n => .num n
  | .var x =>
    match env.number? x with
    | some n => .num n
    | none => .var x
  | .sum l r => foldSum (l.simplify env) (r.simplify env)
  | .prod l r => foldProd (l.simplify env) (r.simplify env)

end Expr

end Symbolic
