import Symbolic.Number

/-!
Expression trees over numbers and named variables, built from binary sums and products.
-/

namespace Symbolic

inductive Expr where
  | num (value : Number)
  | var (name : String)
  | sum (left right : Expr)
  | prod (left right : Expr)
deriving DecidableEq, Repr

inductive Kind where
  | num
  | var
  | sum
  | prod
deriving DecidableEq, Repr

namespace Kind

def label : Kind → String
  | .num => "number"
  | .var => "variable"
  | .sum => "sum"
  | .prod => "product"

/-- Kinds are numbered from one. -/
def ofCode? : Int → Option Kind
  | 1 => some .num
  | 2 => some .var
  | 3 => some .sum
  | 4 => some .prod
  | _ => none

/-- The label of a numbered kind; a number that no kind has is shown itself. -/
def labelOfCode (n : Int) : String :=
  match ofCode? n with
  | some k => k.label
  | none => "Kind(" ++ toString n ++ ")"

end Kind

namespace Expr

def zero : Expr := .num .zero

def one : Expr := .num .one

def kind : Expr → Kind
  | .num _ => .num
  | .var _ => .var
  | .sum _ _ => .sum
  | .prod _ _ => .prod

def isConstant : Expr → Bool
  | .num _ => true
  | _ => false

def isSum : Expr → Bool
  | .sum _ _ => true
  | _ => false

def isLeaf : Expr → Bool
  | .num _ | .var _ => true
  | .sum _ _ | .prod _ _ => false

def operands? : Expr → Option (Expr × Expr)
  | .sum l r | .prod l r => some (l, r)
  | .num _ | .var _ => none

end Expr

end Symbolic
