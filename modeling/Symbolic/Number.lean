import Symbolic.Binary64.Shortest

/-!
Numbers with four decimal places, none of them negative. A number is kept as a plain rational, which
promises neither; every way to make one cuts off what lies past the last place, and `OnGrid` is what
the numbers so made have in common.
-/

namespace Symbolic

structure Number where
  toRat : Rat
deriving DecidableEq, Repr

namespace Number

def places : Nat := 4

def scale : Nat := 10000

def zero : Number := ⟨0⟩

def one : Number := ⟨1⟩

/-- Not negative, and a whole number of units of the last place. -/
def OnGrid (n : Number) : Prop :=
  0 ≤ n.toRat ∧ (scale * n.toRat).isInt = true

instance (n : Number) : Decidable n.OnGrid :=
  inferInstanceAs (Decidable (_ ∧ _))

def isInteger (n : Number) : Bool :=
  n.toRat.isInt

def isZero (n : Number) : Bool :=
  n.toRat = 0

/-- A rational cut off after the last place, toward zero. A whole number stays as it is. -/
def truncate (r : Rat) : Rat :=
  if r.isInt then r else mkRat ((r.num * scale).tdiv r.den) scale

def ofRat (r : Rat) : Number :=
  ⟨truncate r⟩

def add (a b : Number) : Number :=
  ofRat (a.toRat + b.toRat)

def mul (a b : Number) : Number :=
  ofRat (a.toRat * b.toRat)

def ofDecimal (d : Decimal) : Number :=
  ofRat (mkRat d.numerator d.denominator)

/-- The shortest decimal of a finite value that is not negative, cut off after the last place. -/
def ofBinary64? (x : Binary64) : Option Number :=
  if x.isFinite && (x.isZero || !x.negative) then some (ofDecimal x.shortest) else none

/-- The number with the given digits before and after the point; digits past the last place are
dropped. -/
def ofDigits (whole fraction : List Char) : Number :=
  let kept := fraction.take places
  ⟨mkRat (digitsValue (whole ++ kept)) (Nat.pow 10 kept.length)⟩

/-- A run of digits, then nothing or a point and another run of digits. -/
def parse? (cs : List Char) : Option Number :=
  let whole := cs.takeWhile isDigit
  match cs.dropWhile isDigit with
  | [] => if whole.isEmpty then none else some (ofDigits whole [])
  | point :: fraction =>
    if point = '.' ∧ whole ≠ [] ∧ fraction ≠ [] ∧ fraction.all isDigit then
      some (ofDigits whole fraction)
    else none

def signed (negative : Bool) (digits : List Char) : List Char :=
  if negative then '-' :: digits else digits

def roundedUnits (r : Rat) : Nat :=
  (2 * (r.num.natAbs * scale) + r.den) / (2 * r.den)

def placesText (r : Rat) : List Char :=
  let units := roundedUnits r
  let fraction := decimalDigits (units % scale)
  signed (r.num < 0) (decimalDigits (units / scale)
    ++ '.' :: (List.replicate (places - fraction.length) '0' ++ fraction))

def trimZeros (cs : List Char) : List Char :=
  (cs.reverse.dropWhile (· = '0')).reverse

def trimPoint (cs : List Char) : List Char :=
  if cs.getLast? = some '.' then cs.dropLast else cs

def text (n : Number) : List Char :=
  if n.isInteger then signed (n.toRat.num < 0) (decimalDigits n.toRat.num.natAbs)
  else trimPoint (trimZeros (placesText n.toRat))

def render (n : Number) : String :=
  String.ofList n.text

def toBinary64 (n : Number) : Binary64 :=
  Binary64.ofRatio (n.toRat.num < 0) n.toRat.num.natAbs n.toRat.den

end Number

end Symbolic
