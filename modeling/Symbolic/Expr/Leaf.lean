import Symbolic.Expr.Basic
import Symbolic.Text.Quoted

/-!
Leaves from outside texts. A number is a numeral or a binary64 value that is not negative; a
variable is named by a non-empty run of ASCII letters.
-/

namespace Symbolic

inductive LeafError where
  | numeral (text : Text)
  | value (x : Binary64)
  | name (text : Text)
deriving DecidableEq, Repr

def LeafError.message : LeafError → String
  | .numeral t => "invalid numeric literal: " ++ t.quote
  | .value x => "invalid numeric literal: " ++ x.toText
  | .name t => "invalid identifier: " ++ t.quote

def LeafError.abortMessage (e : LeafError) : String :=
  "expressivo: " ++ e.message

def isName (cs : List Char) : Bool :=
  !cs.isEmpty && cs.all isLetter

namespace Expr

def ofNumeral (t : Text) : Except LeafError Expr :=
  match Number.parse? t.chars with
  | some n => .ok (.num n)
  | none => .error (.numeral t)

def ofBinary64 (x : Binary64) : Except LeafError Expr :=
  match Number.ofBinary64? x with
  | some n => .ok (.num n)
  | none => .error (.value x)

def ofName (t : Text) : Except LeafError Expr :=
  if isName t.chars then .ok (.var (String.ofList t.chars)) else .error (.name t)

/-- Every number is on the grid, and every variable is named by a run of letters. -/
def WellFormed : Expr → Prop
  | .num n => n.OnGrid
  | .var x => isName x.toList = true
  | .sum l r | .prod l r => l.WellFormed ∧ r.WellFormed

instance decidableWellFormed : DecidablePred WellFormed
  | .num n => inferInstanceAs (Decidable n.OnGrid)
  | .var x => inferInstanceAs (Decidable (isName x.toList = true))
  | .sum l r | .prod l r =>
    have := decidableWellFormed l
    have := decidableWellFormed r
    inferInstanceAs (Decidable (l.WellFormed ∧ r.WellFormed))

end Expr

end Symbolic
