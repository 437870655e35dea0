/-!
A place in a YAML text: what is left of it, how many characters came before, and line and column. A
place also tells whether a line was broken since the last character before it that is no blank.
-/

namespace Symbolic.Yaml

structure Cursor where
  rest : List Char
  index : Nat
  line : Nat
  column : Nat
  broken : Bool

def isBlank (c : Char) : Bool := c = ' ' || c = '\t'

def isBreak (c : Char) : Bool :=
  c ∈ ['\n', '\r', '\u0085', '\u2028', '\u2029']

def opensBlank : List Char → Bool
  | [] => true
  | c :: _ => isBlank c || isBreak c

namespace Cursor

def start (cs : List Char) : Cursor := ⟨cs, 0, 0, 0, false⟩

def step (c : Cursor) : Cursor :=
  match c.rest with
  | [] => c
  | ch :: cs => ⟨cs, c.index + 1, c.line, c.column + 1, c.broken && isBlank ch⟩

def skip : Nat → Cursor → Cursor
  | 0, c => c
  | n + 1, c => skip n c.step

def skipWhile (p : Char → Bool) (c : Cursor) : Cursor :=
  c.skip (c.rest.takeWhile p).length

def skipBlanks : Cursor → Cursor := skipWhile isBlank

def skipLine : Cursor → Cursor := skipWhile fun ch => !isBreak ch

def nextLine (c : Cursor) (width : Nat) (cs : List Char) : Cursor :=
  ⟨cs, c.index + width, c.line + 1, 0, true⟩

/-- The line break here, as it counts within a scalar, and the place after it. -/
def lineBreak? (c : Cursor) : Option (Char × Cursor) :=
  match c.rest with
  | [] => none
  | '\r' :: '\n' :: cs => some ('\n', c.nextLine 2 cs)
  | ch :: cs =>
    if ch = '\u2028' || ch = '\u2029' then some (ch, c.nextLine 1 cs)
    else if isBreak ch then some ('\n', c.nextLine 1 cs)
    else none

def pastBreak (c : Cursor) : Cursor :=
  match c.lineBreak? with
  | some (_, c) => c
  | none => c

def atMarker (c : Cursor) : Bool :=
  c.column = 0 &&
    match c.rest with
    | '-' :: '-' :: '-' :: cs => opensBlank cs
    | '.' :: '.' :: '.' :: cs => opensBlank cs
    | _ => false

def skipTo (index : Nat) : Nat → Cursor → Cursor
  | 0, c => c
  | fuel + 1, c =>
    if index ≤ c.index then c
    else
      match c.lineBreak? with
      | some (_, c) => skipTo index fuel c
      | none => skipTo index fuel c.step

def commentReach : Nat := 512

/-- How far the comment on one of the next lines is away, if nothing but blanks comes before it. -/
def commentAhead? (cs : List Char) : Option Nat :=
  let n := (cs.takeWhile fun ch => isBlank ch || ch = '\n' || ch = '\r').length
  let onNext := cs.head? = some '\n' || cs.head? = some '\r'
  if onNext && n < commentReach && (cs.drop n).head? = some '#' then some n else none

def skipComments : Nat → Cursor → Cursor
  | 0, c => c
  | fuel + 1, c =>
    let c := c.skipLine
    match commentAhead? c.rest with
    | some n => skipComments fuel (c.skipTo (c.index + n) n)
    | none => c

def skipRemark (c : Cursor) : Cursor :=
  let n := (c.rest.takeWhile isBlank).length
  if !c.broken && n < commentReach && (c.rest.drop n).head? = some '#' then c.skipLine else c

/-- Over blanks, comments and line breaks to the next token, and whether a key may start there. A
tab does not count as a blank where it would indent a key, and outside brackets a key may start on
every line. Under a second byte order mark the first character of each line is lost. -/
def settle (marked : Nat) (flow : Bool) : Nat → Bool → Cursor → Bool × Cursor
  | 0, allowed, c => (allowed, c)
  | fuel + 1, allowed, c =>
    let lost := c.column = 0 && (c.index + 4 ≤ marked || (c.index = 0 && 0 < marked))
    let c := if lost then c.step else c
    let c := c.skipWhile fun ch => ch = ' ' || (ch = '\t' && (flow || !allowed))
    let c := if c.rest.head? = some '#' then skipComments (fuel + 1) c else c
    match c.lineBreak? with
    | some (_, c) => settle marked flow fuel (allowed || !flow) c
    | none => (allowed, c)

end Cursor

end Symbolic.Yaml
