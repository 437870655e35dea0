import Symbolic.Text.Bytes
import Symbolic.Text.Printable

/-!
Quoted text for messages: printable characters stand for themselves, the quote and the backslash
are escaped, everything else is written as an escape of its code point, and a stray byte as an
escape of the byte.
-/

namespace Symbolic

def hexPadded (width n : Nat) : String :=
  let digits := Nat.toDigits 16 n
  String.ofList (List.replicate (width - digits.length) '0' ++ digits)

namespace Quoted

def letter? : Char → Option Char
  | '\x07' => some 'a'
  | '\x08' => some 'b'
  | '\x0c' => some 'f'
  | '\n' => some 'n'
  | '\r' => some 'r'
  | '\t' => some 't'
  | '\x0b' => some 'v'
  | _ => none

def escapeChar (mark c : Char) : String :=
  if c = mark ∨ c = '\\' then String.ofList ['\\', c]
  else if isPrintable c then c.toString
  else
    match letter? c with
    | some x => String.ofList ['\\', x]
    | none =>
      if c.toNat < 0x80 then "\\x" ++ hexPadded 2 c.toNat
      else if c.toNat < 0x10000 then "\\u" ++ hexPadded 4 c.toNat
      else "\\U" ++ hexPadded 8 c.toNat

def escape (mark : Char) : Glyph → String
  | .char c => escapeChar mark c
  | .stray b => "\\x" ++ hexPadded 2 b.toNat

end Quoted

def Text.quote (t : Text) : String :=
  "\"" ++ String.join (t.map (Quoted.escape '"')) ++ "\""

def quote (s : String) : String :=
  (Text.ofString s).quote

def quoteChar (c : Char) : String :=
  "'" ++ Quoted.escapeChar '\'' c ++ "'"

end Symbolic
