import Symbolic.Yaml.Block
import Symbolic.Yaml.Lexeme
import Symbolic.Yaml.Property
import Symbolic.Yaml.Source

/-!
Reading tokens. Whether a token starts a key is known only at the mark after the key, so tokens wait
in a queue until then: no further than the line and 1024 characters. A token is handed out only
when two more are known.
-/

namespace Symbolic.Yaml

structure KeyStart where
  /-- Nothing has ruled the key out. -/
  possible : Bool
  /-- No other token than a key can start there. -/
  required : Bool
  /-- The number of the token that starts there. -/
  number : Nat
  index : Nat
  line : Nat
  column : Nat

def keyReach : Nat := 1024

def nestingLimit : Nat := 10000

namespace KeyStart

def none (number : Nat) (c : Cursor) : KeyStart :=
  ⟨false, false, number, c.index, c.line, c.column⟩

/-- Whether the key can still end at a place. It is an error if it cannot but has to. -/
def live? (k : KeyStart) (c : Cursor) : Option Bool :=
  if !k.possible then some false
  else if k.line < c.line || k.index + keyReach < c.index then
    if k.required then Option.none else some false
  else some true

end KeyStart

structure Lexer where
  /-- More than the number of characters. -/
  size : Nat
  complete : Bool
  marked : Nat
  cursor : Cursor
  /-- The tokens that are known and not yet taken. -/
  queue : List Token
  /-- How many tokens have been taken. -/
  taken : Nat
  /-- A key may start here. -/
  allowed : Bool
  /-- The columns of the open blocks, innermost first. -/
  indents : List Nat
  /-- How many brackets are open. -/
  depth : Nat
  /-- The last start of a key inside the innermost bracket. -/
  current : KeyStart
  /-- The starts of keys outside of it, innermost first. -/
  outer : List KeyStart
  /-- Which tokens may start a key, with the depth at which they do. -/
  waiting : List (Nat × Nat)

namespace Lexer

def start (s : Source) : Lexer where
  size := s.chars.length + 1
  complete := s.complete
  marked := s.marked
  cursor := .start s.chars
  queue := []
  taken := 0
  allowed := true
  indents := []
  depth := 0
  current := .none 0 (.start s.chars)
  outer := []
  waiting := []

def flow (l : Lexer) : Bool := 0 < l.depth

def next (l : Lexer) : Nat := l.taken + l.queue.length

/-- The least column of what belongs to the innermost block. -/
def least (l : Lexer) : Nat :=
  match l.indents with
  | [] => 0
  | column :: _ => column + 1

def emit (t : Token) (l : Lexer) : Lexer :=
  { l with queue := l.queue ++ [t] }

/-- Puts a token before the one with a number, or last if that one has been taken. -/
def emitAt (number : Nat) (t : Token) (l : Lexer) : Lexer :=
  if number < l.taken then l.emit t
  else
    let i := number - l.taken
    { l with queue := l.queue.take i ++ t :: l.queue.drop i }

def forget (number : Nat) (l : Lexer) : Lexer :=
  { l with waiting := l.waiting.filter fun (n, _) => n ≠ number }

def dropKey (l : Lexer) : Option Lexer :=
  if !l.current.possible then some l
  else if l.current.required then none
  else some (({ l with current := { l.current with possible := false } }).forget l.current.number)

def saveKey (l : Lexer) : Option Lexer := do
  if !l.allowed then return l
  let l ← l.dropKey
  let c := l.cursor
  let key : KeyStart :=
    ⟨true, !l.flow && l.indents.head? = some c.column, l.next, c.index, c.line, c.column⟩
  let l := l.forget l.next
  return { l with current := key, waiting := (l.next, l.depth) :: l.waiting }

/-- Opens a block at a column, unless it goes on with the one that is open. -/
def roll (column : Nat) (number : Option Nat) (t : Token) (l : Lexer) : Option Lexer :=
  if l.flow || column < l.least then some l
  else if nestingLimit ≤ l.indents.length then none
  else
    let l := { l with indents := column :: l.indents }
    some (match number with
      | some n => l.emitAt n t
      | none => l.emit t)

def unroll (column : Nat) (l : Lexer) : Lexer :=
  if l.flow then l
  else
    let closed := l.indents.takeWhile (column ≤ ·)
    { l with
      indents := l.indents.dropWhile (column ≤ ·)
      queue := l.queue ++ closed.map fun _ => .blockEnd }

def mark (width : Nat) (t : Token) (l : Lexer) : Lexer :=
  ({ l with cursor := l.cursor.skip width }).emit t

def allow (allowed : Bool) (l : Lexer) : Lexer :=
  { l with allowed }

def lexStreamEnd (l : Lexer) : Option Lexer := do
  let c := l.cursor
  let c := if c.column = 0 then c else { c with column := 0, line := c.line + 1 }
  let l ← (({ l with cursor := c }).unroll 0).dropKey
  return (l.allow false).emit .streamEnd

def lexDirective (l : Lexer) : Option Lexer := do
  let l ← (l.unroll 0).dropKey
  let (t, c) ← directive l.size l.cursor
  return ({ l with cursor := c, allowed := false }).emit t

def lexMarker (t : Token) (l : Lexer) : Option Lexer := do
  let l ← (l.unroll 0).dropKey
  return (l.allow false).mark 3 t

def lexOpening (t : Token) (l : Lexer) : Option Lexer := do
  let l ← l.saveKey
  if nestingLimit ≤ l.depth then none
  let l := { l with
    depth := l.depth + 1
    outer := l.current :: l.outer
    current := .none l.next l.cursor }
  return (l.allow true).mark 1 t

def leave (l : Lexer) : Lexer :=
  match l.outer with
  | [] => l
  | key :: outer =>
    ({ l with depth := l.depth - 1, outer, current := key }).forget l.current.number

def lexClosing (t : Token) (l : Lexer) : Option Lexer := do
  let l ← l.dropKey
  return (l.leave.allow false).mark 1 t

def lexComma (l : Lexer) : Option Lexer := do
  let l ← l.dropKey
  return (l.allow true).mark 1 .comma

def lexEntry (l : Lexer) : Option Lexer := do
  if !l.flow && !l.allowed then none
  let l ← (← l.roll l.cursor.column none .blockSequence).dropKey
  return (l.allow true).mark 1 .entry

def lexKey (l : Lexer) : Option Lexer := do
  if !l.flow && !l.allowed then none
  let l ← (← l.roll l.cursor.column none .blockMapping).dropKey
  return (l.allow (!l.flow)).mark 1 .key

/-- The mark between a key and its value. If a key may end here, the tokens that tell so go before
it. -/
def lexValue (l : Lexer) : Option Lexer := do
  let key := l.current
  let live ← key.live? l.cursor
  let l := { l with current := { key with possible := false } }
  if live then
    let l ← (l.emitAt key.number .key).roll key.column (some key.number) .blockMapping
    return ((l.forget key.number).allow false).mark 1 .value
  else
    if !l.flow && !l.allowed then none
    let l ← l.roll l.cursor.column none .blockMapping
    return (l.allow (!l.flow)).mark 1 .value

def lexNode (read : Cursor → Option (Token × Bool × Cursor)) (l : Lexer) : Option Lexer := do
  let l ← l.saveKey
  let (t, allowed, c) ← read l.cursor
  return ({ l with cursor := c, allowed }).emit t

def readAnchor (c : Cursor) : Option (Token × Bool × Cursor) :=
  (anchorName c).map fun (name, c) => (.anchor name, false, c)

def readAlias (c : Cursor) : Option (Token × Bool × Cursor) :=
  (anchorName c).map fun (name, c) => (.reference name, false, c)

def readTag (size : Nat) (c : Cursor) : Option (Token × Bool × Cursor) :=
  (tag size c).map fun (t, c) => (t, false, c)

def readQuoted (c : Cursor) : Option (Token × Bool × Cursor) :=
  (quoted c).map fun (cs, c) => (.scalar (String.ofList cs) true, false, c)

/-- After a plain scalar a key may start, if a line was broken at its end. -/
def readPlain (flow : Bool) (least : Nat) (c : Cursor) : Option (Token × Bool × Cursor) :=
  (plain flow least c).map fun (cs, broken, c) => (.scalar (String.ofList cs) false, broken, c)

def lexBlock (l : Lexer) : Option Lexer := do
  let l ← l.dropKey
  let (cs, c) ← block l.size l.least l.cursor
  return ({ l with cursor := c, allowed := true }).emit (.scalar (String.ofList cs) true)

def lexToken (c : Char) (cs : List Char) (l : Lexer) : Option Lexer :=
  match c with
  | '[' => l.lexOpening .openBracket
  | '\x7b' => l.lexOpening .openBrace
  | ']' => l.lexClosing .closeBracket
  | '\x7d' => l.lexClosing .closeBrace
  | ',' => l.lexComma
  | '*' => l.lexNode readAlias
  | '&' => l.lexNode readAnchor
  | '!' => l.lexNode (readTag l.size)
  | '\'' | '"' => l.lexNode readQuoted
  | c =>
    if c = '-' && opensBlank cs then l.lexEntry
    else if c = '?' && (l.flow || opensBlank cs) then l.lexKey
    else if c = ':' && (l.flow || opensBlank cs) then l.lexValue
    else if (c = '|' || c = '>') && !l.flow then l.lexBlock
    else if startsPlain l.flow (c :: cs) then l.lexNode (readPlain l.flow l.least)
    else none

/-- Reads one more token, with those that come with it. A comment after a token belongs to it, but
not after the mark of a sequence item. -/
def lex (l : Lexer) : Option Lexer := do
  let (allowed, c) := l.cursor.settle l.marked l.flow l.size l.allowed
  let l := ({ l with cursor := c, allowed }).unroll (c.column + 1)
  if !l.complete && (c.rest.drop 3).isEmpty then none
  match c.rest with
  | [] => l.lexStreamEnd
  | ch :: cs =>
    if c.column = 0 && ch = '%' then l.lexDirective
    else if c.atMarker then l.lexMarker (if ch = '-' then .documentStart else .documentEnd)
    else
      let l ← l.lexToken ch cs
      if l.queue.getLast? = some .entry then return l
      return { l with cursor := l.cursor.skipRemark }

/-- The start of a key at a depth, by its place among all of them from the innermost on. -/
def keyAt? (depth : Nat) (l : Lexer) : Option KeyStart :=
  (l.current :: l.outer)[l.depth - depth]?

def ruleOut (depth : Nat) (l : Lexer) : Lexer :=
  let ruledOut (k : KeyStart) : KeyStart := { k with possible := false }
  if depth = l.depth then { l with current := ruledOut l.current }
  else { l with outer := l.outer.modify (l.depth - depth - 1) ruledOut }

def ready (l : Lexer) : Option (Bool × Lexer) :=
  match l.queue with
  | _ :: _ :: _ :: _ =>
    match l.waiting.lookup l.taken with
    | none => some (true, l)
    | some depth => do
      let live ← ((l.keyAt? depth).getD l.current).live? l.cursor
      return if live then (false, l) else (true, l.ruleOut depth)
  | _ => some (false, l)

def fill : Nat → Lexer → Option Lexer
  | 0, _ => none
  | fuel + 1, l => do
    let (done, l) ← l.ready
    if done then return l else fill fuel (← l.lex)

def peek (l : Lexer) : Option (Token × Lexer) := do
  let l ← fill (l.size + 4) l
  return (← l.queue.head?, l)

def take (l : Lexer) : Lexer :=
  ({ l with queue := l.queue.tail, taken := l.taken + 1 }).forget l.taken

end Lexer

end Symbolic.Yaml
