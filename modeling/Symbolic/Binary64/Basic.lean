import Symbolic.Decimal

/-!
Binary64 values, kept as their 64 bits, and the rounding of a quotient of natural numbers to the
nearest of them. A finite value is `m * 2 ^ q` with `m < 2 ^ 53` and `-1074 ≤ q ≤ 971`.
-/

namespace Symbolic

structure Binary64 where
  bits : UInt64
deriving DecidableEq, Repr

namespace Binary64

def negative (x : Binary64) : Bool :=
  0x8000000000000000 ≤ x.bits

def magnitudeBits (x : Binary64) : Nat :=
  x.bits.toNat % 0x8000000000000000

def isFinite (x : Binary64) : Bool :=
  x.magnitudeBits < 0x7FF0000000000000

def isNaN (x : Binary64) : Bool :=
  0x7FF0000000000000 < x.magnitudeBits

def isZero (x : Binary64) : Bool :=
  x.magnitudeBits = 0

/-- The integer `m` of a finite value `m * 2 ^ q`. -/
def significand (x : Binary64) : Nat :=
  let fraction := x.magnitudeBits % 0x10000000000000
  if x.magnitudeBits < 0x10000000000000 then fraction else fraction + 0x10000000000000

def exponent (x : Binary64) : Int :=
  if x.magnitudeBits < 0x10000000000000 then -1074
  else (x.magnitudeBits / 0x10000000000000 : Nat) - 1075

def ofMagnitude (negative : Bool) (bits : Nat) : Binary64 :=
  ⟨UInt64.ofNat (bits + if negative then 0x8000000000000000 else 0)⟩

def zero : Binary64 := ⟨0⟩

def nan : Binary64 := ⟨0x7FF8000000000001⟩

def infinity (negative : Bool) : Binary64 :=
  ofMagnitude negative 0x7FF0000000000000

/-- The value `m * 2 ^ q` for `m ≤ 2 ^ 53`, where `q` is the least exponent if `m < 2 ^ 52`.
Consecutive bit patterns are consecutive values, so a carry into the exponent needs no case. -/
def pack (negative : Bool) (m : Nat) (q : Int) : Binary64 :=
  let bits := (q + 1074).toNat * 0x10000000000000 + m
  if bits < 0x7FF0000000000000 then ofMagnitude negative bits else infinity negative

def roundHalfEven (a b : Nat) : Nat :=
  let twice := 2 * (a % b)
  if twice < b ∨ twice = b ∧ a / b % 2 = 0 then a / b else a / b + 1

def shifted (a b : Nat) : Int → Nat × Nat
  | .ofNat n => (a, b * Nat.pow 2 n)
  | .negSucc n => (a * Nat.pow 2 (n + 1), b)

def scaled (m : Nat) : Int → Nat × Nat
  | .ofNat n => (m * Nat.pow 2 n, 1)
  | .negSucc n => (m, Nat.pow 2 (n + 1))

/-- The exponent at which `a / b` has 53 bits, or the least one if there it has fewer. -/
def exponentFor (a b : Nat) : Int :=
  let guess := (a.log2 : Int) - b.log2 - 52
  let (num, den) := shifted a b guess
  let q := if num / den < 0x10000000000000 then guess - 1 else guess
  if q < -1074 then -1074 else q

/-- The value nearest to `a / b`, ties to even, infinite from half a step past the greatest. -/
def ofRatio (negative : Bool) (a b : Nat) : Binary64 :=
  if a = 0 then ofMagnitude negative 0
  else
    let q := exponentFor a b
    let (num, den) := shifted a b q
    pack negative (roundHalfEven num den) q

/-- The value nearest to a decimal. One whose first digit stands far outside the range is decided
without its power of ten. -/
def ofDecimal (negative : Bool) (d : Decimal) : Binary64 :=
  if d.coefficient = 0 then ofMagnitude negative 0
  else if 310 < d.magnitude then infinity negative
  else if d.magnitude < -330 then ofMagnitude negative 0
  else ofRatio negative d.numerator d.denominator

def ofScaled (negative : Bool) (m : Nat) (e : Int) : Binary64 :=
  if m = 0 then ofMagnitude negative 0
  else if 1100 < e + m.log2 then infinity negative
  else if e + m.log2 < -1200 then ofMagnitude negative 0
  else
    let (num, den) := scaled m e
    ofRatio negative num den

def ratio (x : Binary64) : Nat × Nat :=
  scaled x.significand x.exponent

end Binary64

end Symbolic
