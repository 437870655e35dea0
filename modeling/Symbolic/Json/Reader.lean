import Symbolic.Binary64.Reader
import Symbolic.Json.Basic

/-!
Reading JSON text. A fault says whether the text ended too early or cannot be continued to a value
at all. Nesting deeper than a given bound cannot be read. A number too large for binary64 is read
as an infinite one, which `Json.isFinite` tells apart.
-/

namespace Symbolic.Json

inductive Fault where
  | truncated
  | malformed
deriving DecidableEq, Repr

abbrev Taken (α : Type) := α × List Char

def isSpace (c : Char) : Bool :=
  c = ' ' || c = '\t' || c = '\n' || c = '\r'

def skipSpace (cs : List Char) : List Char :=
  cs.dropWhile isSpace

def faultAt : List Char → Fault
  | [] => .truncated
  | _ :: _ => .malformed

def word (v : Json) : List Char → List Char → Except Fault (Taken Json)
  | [], cs => .ok (v, cs)
  | _ :: _, [] => .error .truncated
  | w :: ws, c :: cs => if w = c then word v ws cs else .error .malformed

inductive Piece where
  | char (c : Char)
  | unit (v : Nat)

def isHighSurrogate (v : Nat) : Bool := 0xD800 ≤ v && v < 0xDC00

def isLowSurrogate (v : Nat) : Bool := 0xDC00 ≤ v && v < 0xE000

/-- A high surrogate followed by a low one is one character; a surrogate alone becomes U+FFFD. -/
def joinPieces : List Piece → List Char
  | [] => []
  | .char c :: rest => c :: joinPieces rest
  | .unit v :: .unit w :: rest =>
    if isHighSurrogate v && isLowSurrogate w then
      Char.ofNat (0x10000 + (v - 0xD800) * 0x400 + (w - 0xDC00)) :: joinPieces rest
    else
      (if isHighSurrogate v || isLowSurrogate v then '\uFFFD' else Char.ofNat v)
        :: joinPieces (.unit w :: rest)
  | .unit v :: rest =>
    (if isHighSurrogate v || isLowSurrogate v then '\uFFFD' else Char.ofNat v) :: joinPieces rest

/-- Where the reading of a string stands: between characters, after a backslash, or with some hex
digits of an escape still to come. -/
inductive Inside where
  | plain
  | escape
  | code (missing value : Nat)

def escaped? : Char → Option Char
  | '"' => some '"'
  | '\\' => some '\\'
  | '/' => some '/'
  | 'b' => some '\x08'
  | 'f' => some '\x0c'
  | 'n' => some '\n'
  | 'r' => some '\r'
  | 't' => some '\t'
  | _ => none

def pieces : Inside → List Char → List Piece → Except Fault (Taken (List Piece))
  | _, [], _ => .error .truncated
  | .plain, c :: cs, acc =>
    if c = '"' then .ok (acc.reverse, cs)
    else if c = '\\' then pieces .escape cs acc
    else if c.toNat < 0x20 then .error .malformed
    else pieces .plain cs (.char c :: acc)
  | .escape, c :: cs, acc =>
    if c = 'u' then pieces (.code 4 0) cs acc
    else
      match escaped? c with
      | some x => pieces .plain cs (.char x :: acc)
      | none => .error .malformed
  | .code missing value, c :: cs, acc =>
    if Numeral.isHexDigit c then
      let v := value * 16 + Numeral.hexValue c
      if missing = 1 then pieces .plain cs (.unit v :: acc) else pieces (.code (missing - 1) v) cs acc
    else .error .malformed

def stringBody (cs : List Char) : Except Fault (Taken String) := do
  let (ps, rest) ← pieces .plain cs []
  return (String.ofList (joinPieces ps), rest)

def digitRun (cs : List Char) : Except Fault (Taken (List Char)) :=
  let digits := cs.takeWhile isDigit
  let rest := cs.dropWhile isDigit
  if digits.isEmpty then .error (faultAt rest) else .ok (digits, rest)

def wholePart : List Char → Except Fault (Taken (List Char))
  | '0' :: rest => .ok (['0'], rest)
  | cs => digitRun cs

def fractionPart : List Char → Except Fault (Taken (List Char))
  | '.' :: cs => digitRun cs
  | cs => .ok ([], cs)

def exponentPart : List Char → Except Fault (Taken Int)
  | [] => .ok (0, [])
  | c :: cs => do
    if Numeral.asciiLower c = 'e' then
      let (negative, body) := Numeral.splitSign cs
      let (digits, rest) ← digitRun body
      return (if negative then -(digitsValue digits : Int) else digitsValue digits, rest)
    else return (0, c :: cs)

def unsignedNumber (negative : Bool) (cs : List Char) : Except Fault (Taken Json) := do
  let (whole, cs) ← wholePart cs
  let (fraction, cs) ← fractionPart cs
  let (e, cs) ← exponentPart cs
  return (.number (Binary64.ofDecimal negative
    ⟨digitsValue (whole ++ fraction), e - fraction.length⟩), cs)

def scalar : List Char → Except Fault (Taken Json)
  | [] => .error .truncated
  | c :: cs =>
    if c = '"' then do
      let (s, rest) ← stringBody cs
      return (.string s, rest)
    else if c = '-' then unsignedNumber true cs
    else if isDigit c then unsignedNumber false (c :: cs)
    else if c = 'n' then word .null "ull".toList cs
    else if c = 't' then word (.bool true) "rue".toList cs
    else if c = 'f' then word (.bool false) "alse".toList cs
    else .error .malformed

abbrev ValueReader := List Char → Except Fault (Taken Json)

def items (item : ValueReader) : Nat → List Char → List Json → Except Fault (Taken Json)
  | 0, cs, _ => .error (faultAt cs)
  | bound + 1, cs, acc => do
    let (v, rest) ← item cs
    match skipSpace rest with
    | ',' :: rest => items item bound rest (v :: acc)
    | ']' :: rest => return (.array (v :: acc).reverse, rest)
    | rest => .error (faultAt rest)

def arrayBody (item : ValueReader) (bound : Nat) (cs : List Char) : Except Fault (Taken Json) :=
  match skipSpace cs with
  | ']' :: rest => .ok (.array [], rest)
  | rest => items item bound rest []

def memberKey (cs : List Char) : Except Fault (Taken String) := do
  match skipSpace cs with
  | '"' :: rest =>
    let (k, rest) ← stringBody rest
    match skipSpace rest with
    | ':' :: rest => return (k, rest)
    | rest => .error (faultAt rest)
  | rest => .error (faultAt rest)

def members (item : ValueReader) : Nat → List Char → Members → Except Fault (Taken Json)
  | 0, cs, _ => .error (faultAt cs)
  | bound + 1, cs, acc => do
    let (k, rest) ← memberKey cs
    let (v, rest) ← item rest
    match skipSpace rest with
    | ',' :: rest => members item bound rest ((k, v) :: acc)
    | '\x7d' :: rest => return (.object ((k, v) :: acc).reverse, rest)
    | rest => .error (faultAt rest)

def objectBody (item : ValueReader) (bound : Nat) (cs : List Char) : Except Fault (Taken Json) :=
  match skipSpace cs with
  | '\x7d' :: rest => .ok (.object [], rest)
  | rest => members item bound rest []

/-- The first value of a text, nested at most `depth` deep and with at most `bound` entries in any
array or object. -/
def valueWithin (bound : Nat) : Nat → ValueReader
  | 0, cs => scalar (skipSpace cs)
  | depth + 1, cs =>
    match skipSpace cs with
    | '[' :: rest => arrayBody (valueWithin bound depth) bound rest
    | '\x7b' :: rest => objectBody (valueWithin bound depth) bound rest
    | rest => scalar rest

/-- The first value of a text, nested at most `depth` deep. An entry takes at least one character,
so the length of the text bounds their number. -/
def value (depth : Nat) (cs : List Char) : Except Fault (Taken Json) :=
  valueWithin cs.length depth cs

def nestingLimit : Nat := 10000

def parse (cs : List Char) : Except Fault Json := do
  let (v, rest) ← value nestingLimit cs
  match skipSpace rest with
  | [] => return v
  | _ => .error .malformed

end Symbolic.Json
