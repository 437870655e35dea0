import Symbolic.Binary64.Basic

/-!
The shortest decimal that reads back as a given finite binary64 value. The reals that round to
`m * 2 ^ q` form an interval whose ends belong to it when `m` is even; on each grid of decimals,
coarsest first, the two neighbours of the value are tested against that interval.
-/

namespace Symbolic.Binary64

def tenMagnitude (a b : Nat) : Int :=
  if b ≤ a then ((decimalDigits (a / b)).length : Int) - 1
  else -(decimalDigits ((b - 1) / a)).length

/-- Twice the distance from the value to the lower end of its interval, in quarters of the last
place: the step below a power of two is half the step above it. -/
def lowerGap (x : Binary64) : Nat :=
  if x.significand = 0x10000000000000 ∧ x.exponent ≠ -1074 then 1 else 2

/-- Factors `(f, g)` such that `c * 10 ^ t` compares with `w * 2 ^ s` as `c * f` does with `w * g`. -/
def commonFactors (t s : Int) : Nat × Nat :=
  (Nat.pow 10 t.toNat * Nat.pow 2 (-s).toNat, Nat.pow 2 s.toNat * Nat.pow 10 (-t).toNat)

def onGrid? (x : Binary64) (t : Int) : Option Decimal :=
  let (f, g) := commonFactors t (x.exponent - 2)
  let value := 4 * x.significand * g
  let low := (4 * x.significand - x.lowerGap) * g
  let high := (4 * x.significand + 2) * g
  let closed := x.significand % 2 = 0
  let reads (c : Nat) : Bool := low < c * f && c * f < high || closed && (low = c * f || c * f = high)
  let below := value / f
  let nearest := roundHalfEven value f
  if reads nearest then some ⟨nearest, t⟩
  else if reads below then some ⟨below, t⟩
  else if reads (below + 1) then some ⟨below + 1, t⟩
  else none

/-- The shortest decimal for the magnitude of a finite value; seventeen digits always suffice. -/
def shortest (x : Binary64) : Decimal :=
  if x.isZero then ⟨0, 0⟩
  else
    let (a, b) := x.ratio
    let first := tenMagnitude a b
    (((List.range 17).findSome? fun (i : Nat) => x.onGrid? (first - i)).getD ⟨0, 0⟩).normalize

/-- The shortest digits, with an exponent when the first digit stands before the fifth decimal
place or past the sixth integral one. -/
def toText (x : Binary64) : String :=
  if x.isNaN then "NaN"
  else if !x.isFinite then (if x.negative then "-Inf" else "+Inf")
  else
    let d := x.shortest
    let digits := if d.magnitude < -4 ∨ 6 ≤ d.magnitude then d.scientific else d.positional
    String.ofList (if x.negative then '-' :: digits else digits)

end Symbolic.Binary64
