/-!
Decimals: a natural coefficient times a power of ten, and the two ways of writing one.
-/

namespace Symbolic

def decimalDigits (n : Nat) : List Char :=
  Nat.toDigits 10 n

def isDigit (c : Char) : Bool :=
  0x30 ≤ c.toNat && c.toNat ≤ 0x39

def digitValue (c : Char) : Nat :=
  c.toNat - 0x30

def digitsValue (cs : List Char) : Nat :=
  cs.foldl (fun n c => n * 10 + digitValue c) 0

structure Decimal where
  coefficient : Nat
  exponent : Int
deriving DecidableEq, Repr

namespace Decimal

def numerator (d : Decimal) : Nat :=
  d.coefficient * Nat.pow 10 d.exponent.toNat

def denominator (d : Decimal) : Nat :=
  Nat.pow 10 (-d.exponent).toNat

/-- The power of ten of the first digit. -/
def magnitude (d : Decimal) : Int :=
  d.exponent + ((decimalDigits d.coefficient).length - 1 : Nat)

def stripZeros : Nat → Nat → Int → Decimal
  | 0, c, e => ⟨c, e⟩
  | fuel + 1, c, e =>
    if c % 10 = 0 ∧ c ≠ 0 then stripZeros fuel (c / 10) (e + 1) else ⟨c, e⟩

def normalize (d : Decimal) : Decimal :=
  stripZeros (decimalDigits d.coefficient).length d.coefficient d.exponent

/-- All digits around the point, with neither exponent nor superfluous point. -/
def positional (d : Decimal) : List Char :=
  match d.exponent with
  | .ofNat n => decimalDigits (d.coefficient * Nat.pow 10 n)
  | .negSucc n =>
    let digits := decimalDigits d.coefficient
    let filled := List.replicate (n + 2 - digits.length) '0' ++ digits
    filled.take (filled.length - (n + 1)) ++ '.' :: filled.drop (filled.length - (n + 1))

/-- One digit before the point; the exponent has a sign and at least two digits. -/
def scientific (d : Decimal) : List Char :=
  let digits := decimalDigits d.coefficient
  let shown := decimalDigits d.magnitude.natAbs
  let fraction := digits.drop 1
  digits.take 1 ++ (if fraction.isEmpty then [] else '.' :: fraction)
    ++ 'e' :: (if d.magnitude < 0 then '-' else '+') :: List.replicate (2 - shown.length) '0' ++ shown

end Decimal

end Symbolic
