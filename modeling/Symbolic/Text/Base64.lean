import Symbolic.Text.Bytes

/-!
Bytes written in the 64 digits `A` to `Z`, `a` to `z`, `0` to `9`, `+` and `/`: four digits for three
bytes, with `=` in place of the digits that the last bytes leave over. Line breaks do not count.
-/

namespace Symbolic.Base64

def digit? (c : Char) : Option Nat :=
  if 'A' ≤ c && c ≤ 'Z' then some (c.toNat - 'A'.toNat)
  else if 'a' ≤ c && c ≤ 'z' then some (c.toNat - 'a'.toNat + 26)
  else if '0' ≤ c && c ≤ '9' then some (c.toNat - '0'.toNat + 52)
  else if c = '+' then some 62
  else if c = '/' then some 63
  else none

def group? : List Char → Option Bytes
  | [a, b, '=', '='] => do
    let n := (← digit? a) * 64 + (← digit? b)
    return [UInt8.ofNat (n / 16)]
  | [a, b, c, '='] => do
    let n := ((← digit? a) * 64 + (← digit? b)) * 64 + (← digit? c)
    return [UInt8.ofNat (n / 1024), UInt8.ofNat (n / 4 % 256)]
  | [a, b, c, d] => do
    let n := (((← digit? a) * 64 + (← digit? b)) * 64 + (← digit? c)) * 64 + (← digit? d)
    return [UInt8.ofNat (n / 65536), UInt8.ofNat (n / 256 % 256), UInt8.ofNat (n % 256)]
  | _ => none

def groups? : List Char → Option Bytes
  | [] => some []
  | [a, b, c, d] => group? [a, b, c, d]
  | a :: b :: c :: d :: rest => do
    let bytes ← group? [a, b, c, d]
    if d = '=' then none
    return bytes ++ (← groups? rest)
  | _ => none

def decode? (s : String) : Option Bytes :=
  groups? (s.toList.filter fun c => c ≠ '\n' && c ≠ '\r')

end Symbolic.Base64
