import Symbolic.Expr.Basic
import Symbolic.Text.Quoted

/-!
Canonical infix text, and a structural hash in 64-bit words.

Products bind tighter than sums and both associate to the left, so a sum is bracketed as the right
operand of a sum and as either operand of a product, and a product only as the right operand of a
product. A leaf hashes its text after a byte for its kind; an operator mixes the hashes of its
operands, the left one multiplied by a factor of its own.
-/

namespace Symbolic

/-- The 64-bit FNV-1a hash. -/
def fnv1a (bs : Bytes) : UInt64 :=
  bs.foldl (fun h b => (h ^^^ b.toUInt64) * 1099511628211) 14695981039346656037

namespace Expr

def bracketed (brackets : Bool) (s : String) : String :=
  if brackets then "(" ++ s ++ ")" else s

def render : Expr → String
  | .num n => n.render
  | .var x => x
  | .sum l r => l.render ++ " + " ++ bracketed r.isSum r.render
  | .prod l r => bracketed l.isSum l.render ++ " * " ++ bracketed (!r.isLeaf) r.render

def leafHash (tag : UInt8) (text : String) : UInt64 :=
  fnv1a (tag :: Bytes.ofString text)

def hash : Expr → UInt64
  | .num n => leafHash 0x6E n.render
  | .var x => leafHash 0x76 x
  | .sum l r => 31 * l.hash + r.hash
  | .prod l r => 37 * l.hash + r.hash

def hashText (e : Expr) : String :=
  hexPadded 16 e.hash.toNat

end Expr

end Symbolic
