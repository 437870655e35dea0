import Symbolic.Binary64.Basic

/-!
Lengths of time as people write them, such as `1h2m3.5s`: numbers with a unit each, added up.
A length is counted in nanoseconds and lies between -2 ^ 63 and 2 ^ 63 - 1.
-/

namespace Symbolic

structure Duration where
  nanoseconds : Int
deriving DecidableEq, Repr

namespace Duration

def ofSeconds (n : Nat) : Duration := ⟨n * 1000000000⟩

def unit? (name : List Char) : Option Nat :=
  match String.ofList name with
  | "ns" => some 1
  | "us" | "\u00b5s" | "\u03bcs" => some 1000
  | "ms" => some 1000000
  | "s" => some 1000000000
  | "m" => some 60000000000
  | "h" => some 3600000000000
  | _ => none

def bound : Nat := 0x8000000000000000

/-- Digits of a fraction as a number and the power of ten that divides it, cut off before it grows
past the bound. -/
def fraction : List Char → Nat × Nat → Nat × Nat
  | [], acc => acc
  | c :: cs, (n, scale) =>
    if (bound - 1) / 10 < n ∨ bound < n * 10 + digitValue c then (n, scale)
    else fraction cs (n * 10 + digitValue c, scale * 10)

/-- Nanoseconds of a fraction of a unit, reckoned in binary64 and cut down. -/
def fractionOf (n scale unit : Nat) : Nat :=
  let (a, b) := (Binary64.ofRatio false n 1).ratio
  let (a', b') := (Binary64.ofRatio false unit scale).ratio
  let (num, den) := (Binary64.ofRatio false (a * a') (b * b')).ratio
  num / den

def isAmount (c : Char) : Bool := c = '.' || isDigit c

def term? (cs : List Char) : Option (Nat × List Char) := do
  let whole := cs.takeWhile isDigit
  let rest := cs.dropWhile isDigit
  let (digits, rest) := match rest with
    | '.' :: more => (more.takeWhile isDigit, more.dropWhile isDigit)
    | _ => ([], rest)
  if whole.isEmpty && digits.isEmpty then none
  let unit ← unit? (rest.takeWhile fun c => !isAmount c)
  let (n, scale) := fraction digits (0, 1)
  if bound < digitsValue whole * unit then none
  let v := digitsValue whole * unit + if n = 0 then 0 else fractionOf n scale unit
  if bound < v then none else some (v, rest.dropWhile fun c => !isAmount c)

/-- Terms added up modulo 2 ^ 64, where no sum on the way may pass the bound. -/
def terms? : Nat → Nat → List Char → Option Nat
  | 0, _, _ => none
  | _ + 1, sum, [] => some sum
  | fuel + 1, sum, cs => do
    let (v, rest) ← term? cs
    let sum := (sum + v) % (2 * bound)
    if bound < sum then none else terms? fuel sum rest

def magnitude? (cs : List Char) : Option Nat :=
  match cs with
  | [] => none
  | ['0'] => some 0
  | _ => terms? (cs.length + 1) 0 cs

def parse? (s : String) : Option Duration :=
  match s.toList with
  | '-' :: cs => (magnitude? cs).map fun n => ⟨-(n : Int)⟩
  | cs =>
    match magnitude? (if cs.head? = some '+' then cs.tail else cs) with
    | some n => if n < bound then some ⟨n⟩ else none
    | none => none

end Duration

end Symbolic
