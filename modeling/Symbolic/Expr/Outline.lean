import Symbolic.Expr.Basic
import Symbolic.Text.Quoted

/-!
An outline of a tree, a part a line, indented by four spaces a level. A number is laid open down to
the 64-bit words of its numerator and denominator in lowest terms, lowest word first. Nothing is
shown below the tenth level.
-/

namespace Symbolic.Expr

def indentLine (s : String) : String := "    " ++ s

def labelled (label : String) : List String → List String
  | [] => [label ++ ","]
  | [only] => [label ++ only ++ ","]
  | first :: rest => (label ++ first) :: rest.dropLast ++ [rest.getLastD "" ++ ","]

def outlineBlock (opening : String) (parts : List String) : List String :=
  (opening ++ "\x7b") :: parts.map indentLine ++ ["\x7d"]

/-- The words of a number below `2 ^ (64 * fuel)`, lowest first. -/
def words : Nat → Nat → List Nat
  | 0, _ => []
  | fuel + 1, n => if n = 0 then [] else n % 0x10000000000000000 :: words fuel (n / 0x10000000000000000)

def wordText (n : Nat) : String := "0x" ++ hexPadded 1 n

def integerOutline (n : Nat) : List String :=
  if n = 0 then ["big.Int\x7b\x7d"]
  else
    outlineBlock "big.Int" (labelled "neg: " ["false"] ++ labelled "abs: "
      ["\x7b" ++ String.intercalate ", " ((words (n.log2 + 1) n).map wordText) ++ "\x7d"])

def tooDeep : List String := ["&!%v(DEPTH EXCEEDED)"]

def ratioOutline : Nat → Rat → List String
  | 0, _ => tooDeep
  | _ + 1, q =>
    outlineBlock "&big.Rat"
      (labelled "a:  " (integerOutline q.num.natAbs) ++ labelled "b:  " (integerOutline q.den))

/-- The operands of a node. The first lines up with the second if it takes a single line. -/
def operandsOutline (l r : List String) : List String :=
  labelled (if l.length = 1 then "left:  " else "left: ") l ++ labelled "right: " r

def outlineLines : Expr → Nat → List String
  | _, 0 => tooDeep
  | .num n, depth + 1 =>
    outlineBlock "&expressivo.Number" (labelled "val: " (ratioOutline depth n.toRat))
  | .var x, _ + 1 => ["&expressivo.Variable\x7bname:" ++ quote x ++ "\x7d"]
  | .sum l r, depth + 1 =>
    outlineBlock "&expressivo.Sum" (operandsOutline (l.outlineLines depth) (r.outlineLines depth))
  | .prod l r, depth + 1 =>
    outlineBlock "&expressivo.Product"
      (operandsOutline (l.outlineLines depth) (r.outlineLines depth))

def outline (e : Expr) : String :=
  String.intercalate "\n" (e.outlineLines 10)

end Symbolic.Expr
