import Symbolic.Binary64.Reader

/-!
Integers of 64 bits as people type them: decimal, or in another base after a mark for it, digits
grouped by underscores. A zero before other digits marks base eight.
-/

namespace Symbolic.Numeral

def baseOf? : Char → Option Nat
  | 'b' => some 2
  | 'o' => some 8
  | 'x' => some 16
  | _ => none

def splitBase : List Char → Nat × List Char
  | '0' :: mark :: c :: cs =>
    match baseOf? (asciiLower mark) with
    | some base => (base, c :: cs)
    | none => (8, mark :: c :: cs)
  | '0' :: cs => (8, cs)
  | cs => (10, cs)

/-- Digits are taken one by one, so a number out of range is found before a later bad digit. -/
def naturalFrom (base : Nat) : Nat → List Char → Except NumeralError Nat
  | n, [] => .ok n
  | n, c :: cs =>
    if c = '_' then naturalFrom base n cs
    else if base ≤ hexValue c then .error .malformed
    else if 0x10000000000000000 ≤ n * base + hexValue c then .error .outOfRange
    else naturalFrom base (n * base + hexValue c) cs

def natural64 (cs : List Char) : Except NumeralError Nat := do
  if cs.isEmpty then .error .malformed
  let (base, digits) := splitBase cs
  let n ← naturalFrom base 0 digits
  if grouped cs then return n else .error .malformed

def signed64 (negative : Bool) (n : Nat) : Except NumeralError Int :=
  if negative then
    if n ≤ 0x8000000000000000 then .ok (-(n : Int)) else .error .outOfRange
  else if n < 0x8000000000000000 then .ok (n : Int)
  else .error .outOfRange

def integer64 (cs : List Char) : Except NumeralError Int := do
  let (negative, body) := splitSign cs
  signed64 negative (← natural64 body)

def integerIn (base : Nat) (cs : List Char) : Except NumeralError Int := do
  let (negative, body) := splitSign cs
  if body.isEmpty then .error .malformed
  signed64 negative (← naturalFrom base 0 body)

end Symbolic.Numeral
