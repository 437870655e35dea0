import Symbolic.Binary64.Basic

/-!
Numbers as people type them: decimal or hexadecimal with an optional exponent, digits grouped by
underscores, infinities and the undefined value by name.
-/

namespace Symbolic

inductive NumeralError where
  | malformed
  | outOfRange
deriving DecidableEq, Repr

def NumeralError.message : NumeralError → String
  | .malformed => "invalid syntax"
  | .outOfRange => "value out of range"

namespace Numeral

def asciiLower (c : Char) : Char :=
  if 0x41 ≤ c.toNat ∧ c.toNat ≤ 0x5A then Char.ofNat (c.toNat + 0x20) else c

def hexValue (c : Char) : Nat :=
  let l := asciiLower c
  if isDigit c then digitValue c
  else if 0x61 ≤ l.toNat ∧ l.toNat ≤ 0x66 then l.toNat - 0x61 + 10
  else 16

def isHexDigit (c : Char) : Bool :=
  hexValue c < 16

def valueIn (base : Nat) (cs : List Char) : Nat :=
  cs.foldl (fun n c => n * base + hexValue c) 0

/-- What stands before an underscore decides whether it may group digits. -/
inductive Seen where
  | start
  | digit
  | underscore
  | other
deriving DecidableEq

def groupedFrom (digit : Char → Bool) : Seen → List Char → Bool
  | seen, [] => seen ≠ .underscore
  | seen, c :: cs =>
    if digit c then groupedFrom digit .digit cs
    else if c = '_' then seen = .digit && groupedFrom digit .underscore cs
    else seen ≠ .underscore && groupedFrom digit .other cs

/-- Underscores group digits as they may; a base mark counts as a digit before them. -/
def grouped : List Char → Bool
  | '0' :: m :: cs =>
    match asciiLower m with
    | 'x' => groupedFrom isHexDigit .digit cs
    | 'b' | 'o' => groupedFrom isDigit .digit cs
    | _ => groupedFrom isDigit .start ('0' :: m :: cs)
  | cs => groupedFrom isDigit .start cs

def splitSign : List Char → Bool × List Char
  | '-' :: cs => (true, cs)
  | '+' :: cs => (false, cs)
  | cs => (false, cs)

def exponent? (cs : List Char) : Option Int :=
  let (negative, digits) := splitSign cs
  if digits.isEmpty || !digits.all isDigit then none
  else if negative then some (-(digitsValue digits : Int))
  else some (digitsValue digits)

def splitPoint (digit : Char → Bool) (cs : List Char) : List Char × List Char × List Char :=
  match cs.dropWhile digit with
  | '.' :: rest => (cs.takeWhile digit, rest.takeWhile digit, rest.dropWhile digit)
  | rest => (cs.takeWhile digit, [], rest)

def decimal? (negative : Bool) (cs : List Char) : Option Binary64 :=
  let (whole, fraction, rest) := splitPoint isDigit cs
  let value (e : Int) := Binary64.ofDecimal negative
    ⟨digitsValue (whole ++ fraction), e - fraction.length⟩
  if whole.isEmpty && fraction.isEmpty then none
  else
    match rest with
    | [] => some (value 0)
    | mark :: power => if asciiLower mark = 'e' then (exponent? power).map value else none

def hexadecimal? (negative : Bool) (cs : List Char) : Option Binary64 :=
  let (whole, fraction, rest) := splitPoint isHexDigit cs
  if whole.isEmpty && fraction.isEmpty then none
  else
    match rest with
    | [] => none
    | mark :: power =>
      if asciiLower mark = 'p' then
        (exponent? power).map fun e =>
          Binary64.ofScaled negative (valueIn 16 (whole ++ fraction)) (e - 4 * fraction.length)
      else none

def unsigned? (negative : Bool) : List Char → Option Binary64
  | '0' :: m :: cs =>
    if asciiLower m = 'x' then hexadecimal? negative cs else decimal? negative ('0' :: m :: cs)
  | cs => decimal? negative cs

def named? (cs : List Char) : Option Binary64 :=
  let (negative, word) := splitSign cs
  let word := word.map asciiLower
  if word = "inf".toList ∨ word = "infinity".toList then some (Binary64.infinity negative)
  else if cs.map asciiLower = "nan".toList then some Binary64.nan
  else none

end Numeral

/-- A number that rounds to infinity is out of range; one that rounds to zero is zero. -/
def Binary64.parse (cs : List Char) : Except NumeralError Binary64 :=
  match Numeral.named? cs with
  | some x => .ok x
  | none =>
    let (negative, body) := Numeral.splitSign cs
    if !Numeral.grouped body then .error .malformed
    else
      match Numeral.unsigned? negative (body.filter (· ≠ '_')) with
      | none => .error .malformed
      | some x => if x.isFinite then .ok x else .error .outOfRange

end Symbolic
