import Symbolic.Binary64.Reader
import Symbolic.Yaml.Cursor

/-!
Scalars as they are written within lines: plain, in single quotes, in double quotes. A line break
within a scalar is folded: it counts as one space, or as the line breaks that follow it.
-/

namespace Symbolic.Yaml

/-- What stands between two parts of a scalar: blanks of one line, or line breaks, the first of which
may be escaped. Both are kept last one first. -/
inductive Gap where
  | blanks (last : List Char)
  | broken (first : Option Char) (more : List Char)

namespace Gap

def none : Gap := .blanks []

def isNone : Gap → Bool
  | .blanks [] => true
  | _ => false

def isBroken : Gap → Bool
  | .broken _ _ => true
  | .blanks _ => false

def blank (c : Char) : Gap → Gap
  | .blanks last => .blanks (c :: last)
  | g => g

def newline (c : Char) : Gap → Gap
  | .blanks _ => .broken (some c) []
  | .broken first more => .broken first (c :: more)

/-- The text that the gap stands for, last character first. Only a plain line break is folded. -/
def reversed : Gap → List Char
  | .blanks last => last
  | .broken (some '\n') [] => [' ']
  | .broken (some '\n') more => more
  | .broken (some c) more => more ++ [c]
  | .broken Option.none more => more

end Gap

def isFlowMark (c : Char) : Bool :=
  c ∈ [',', '?', '[', ']', '\x7b', '\x7d']

/-- What can start no plain scalar, unless a character other than a blank follows. -/
def isIndicator (c : Char) : Bool :=
  c ∈ [',', '[', ']', '\x7b', '\x7d', '#', '&', '*', '!', '|', '>', '\'', '"', '%', '@', '\x60']

def startsPlain (flow : Bool) : List Char → Bool
  | [] => false
  | c :: cs =>
    if c = '-' then !opensBlank cs
    else if c = '?' || c = ':' then !flow && !opensBlank cs
    else !isIndicator c && !isBlank c && !isBreak c

def endsPlain (flow : Bool) (indent : Nat) (gap : Gap) (c : Cursor) (ch : Char) (cs : List Char) :
    Bool :=
  (gap.isBroken && !flow && c.column < indent) || c.atMarker || (ch = '#' && !gap.isNone)
    || (ch = ':' && opensBlank cs) || (flow && isFlowMark ch)

/-- The rest of a plain scalar, of which `done` has been read, last character first. It ends before
a mark, a comment, or a line that is indented too little, and takes in the blanks before it; the
second result tells whether a line was broken there. -/
def plainFrom (flow : Bool) (indent : Nat) :
    Nat → List Char → Gap → Cursor → Option (List Char × Bool × Cursor)
  | 0, _, _, _ => none
  | fuel + 1, done, gap, c =>
    match c.lineBreak? with
    | some (b, next) => plainFrom flow indent fuel done (gap.newline b) next
    | none =>
      match c.rest with
      | [] => some (done.reverse, gap.isBroken, c)
      | ch :: cs =>
        if isBlank ch then
          if gap.isBroken && ch = '\t' && c.column < indent then none
          else plainFrom flow indent fuel done (gap.blank ch) c.step
        else if endsPlain flow indent gap c ch cs then some (done.reverse, gap.isBroken, c)
        else plainFrom flow indent fuel (ch :: (gap.reversed ++ done)) .none c.step

def plain (flow : Bool) (indent : Nat) (c : Cursor) : Option (List Char × Bool × Cursor) :=
  plainFrom flow indent (c.rest.length + 1) [] .none c

def singleFrom : Nat → List Char → Gap → Cursor → Option (List Char × Cursor)
  | 0, _, _, _ => none
  | fuel + 1, done, gap, c =>
    match c.lineBreak? with
    | some (b, next) => singleFrom fuel done (gap.newline b) next
    | none =>
      match c.rest with
      | [] => none
      | '\'' :: '\'' :: _ => singleFrom fuel ('\'' :: (gap.reversed ++ done)) .none (c.skip 2)
      | ch :: _ =>
        if isBlank ch then singleFrom fuel done (gap.blank ch) c.step
        else if ch = '\'' then some ((gap.reversed ++ done).reverse, c.step)
        else if c.atMarker then none
        else singleFrom fuel (ch :: (gap.reversed ++ done)) .none c.step

def shortEscape? : Char → Option Char
  | '0' => some '\x00'
  | 'a' => some '\x07'
  | 'b' => some '\x08'
  | 't' => some '\t'
  | '\t' => some '\t'
  | 'n' => some '\n'
  | 'v' => some '\x0b'
  | 'f' => some '\x0c'
  | 'r' => some '\r'
  | 'e' => some '\x1b'
  | ' ' => some ' '
  | '"' => some '"'
  | '\'' => some '\''
  | '\\' => some '\\'
  | 'N' => some '\u0085'
  | '_' => some '\u00a0'
  | 'L' => some '\u2028'
  | 'P' => some '\u2029'
  | _ => none

def codeLength? : Char → Option Nat
  | 'x' => some 2
  | 'u' => some 4
  | 'U' => some 8
  | _ => none

def escape? : List Char → Option (Char × Nat)
  | [] => none
  | mark :: cs =>
    match codeLength? mark with
    | some n =>
      let digits := cs.take n
      let v := Numeral.valueIn 16 digits
      if digits.length = n && digits.all Numeral.isHexDigit && v.isValidChar then
        some (Char.ofNat v, n + 1)
      else none
    | none => (shortEscape? mark).map (·, 1)

def doubleFrom : Nat → List Char → Gap → Cursor → Option (List Char × Cursor)
  | 0, _, _, _ => none
  | fuel + 1, done, gap, c =>
    match c.lineBreak? with
    | some (b, next) => doubleFrom fuel done (gap.newline b) next
    | none =>
      match c.rest with
      | [] => none
      | '\\' :: cs =>
        match c.step.lineBreak? with
        | some (_, next) => doubleFrom fuel (gap.reversed ++ done) (.broken none []) next
        | none =>
          match escape? cs with
          | some (ch, n) =>
            doubleFrom fuel (ch :: (gap.reversed ++ done)) .none (c.skip (n + 1))
          | none => none
      | ch :: _ =>
        if isBlank ch then doubleFrom fuel done (gap.blank ch) c.step
        else if ch = '"' then some ((gap.reversed ++ done).reverse, c.step)
        else if c.atMarker then none
        else doubleFrom fuel (ch :: (gap.reversed ++ done)) .none c.step

def quoted (c : Cursor) : Option (List Char × Cursor) :=
  let first := c.step
  if c.rest.head? = some '"' then doubleFrom (first.rest.length + 1) [] .none first
  else singleFrom (first.rest.length + 1) [] .none first

end Symbolic.Yaml
