import Symbolic.Binary64.Reader
import Symbolic.Text.Bytes
import Symbolic.Yaml.Cursor

/-!
The tokens of YAML, and what is said about nodes and documents: anchors and aliases, tags, and
directives. A tag is written as a handle with a suffix, or in full between angle brackets.
-/

namespace Symbolic.Yaml

/-- The ends of blocks have no text of their own: they stand where the indentation goes back. -/
inductive Token where
  | streamEnd
  | version (major minor : Nat)
  | handle (name expansion : String)
  | documentStart
  | documentEnd
  | blockSequence
  | blockMapping
  | blockEnd
  | openBracket
  | closeBracket
  | openBrace
  | closeBrace
  | entry
  | comma
  | key
  | value
  | reference (name : String)
  | anchor (name : String)
  | tag (handle suffix : String)
  | scalar (text : String) (quoted : Bool)
deriving DecidableEq, Repr

def isWord (c : Char) : Bool :=
  isDigit c || ('a' ≤ c && c ≤ 'z') || ('A' ≤ c && c ≤ 'Z') || c = '_' || c = '-'

def takeWord (c : Cursor) : List Char × Cursor :=
  (c.rest.takeWhile isWord, c.skipWhile isWord)

def endsAnchor (cs : List Char) : Bool :=
  opensBlank cs ||
    match cs with
    | c :: _ => c ∈ ['?', ':', ',', ']', '\x7d', '%', '@', '\x60']
    | [] => true

def anchorName (c : Cursor) : Option (String × Cursor) :=
  let (name, c) := takeWord c.step
  if !name.isEmpty && endsAnchor c.rest then some (String.ofList name, c) else none

/-- A handle: a word between exclamation marks, of which the last one may be missing. -/
def takeHandle (c : Cursor) : Option (List Char × Cursor) :=
  match c.rest with
  | '!' :: _ =>
    let (word, c) := takeWord c.step
    if c.rest.head? = some '!' then some ('!' :: (word ++ ['!']), c.step)
    else some ('!' :: word, c)
  | _ => none

def isTagMark (c : Char) : Bool :=
  isWord c || c ∈ [';', '/', '?', ':', '@', '&', '=', '+', '$', ',', '.', '!', '~', '*', '\'', '(',
    ')', '[', ']']

def widthOfLead (b : Nat) : Option Nat :=
  if b < 0x80 then some 1
  else if b < 0xC0 then none
  else if b < 0xE0 then some 2
  else if b < 0xF0 then some 3
  else if b < 0xF8 then some 4
  else none

def escapedBytes : Nat → List Char → Option Bytes
  | 0, _ => some []
  | n + 1, '%' :: a :: b :: cs =>
    if Numeral.isHexDigit a && Numeral.isHexDigit b then
      (escapedBytes n cs).map (UInt8.ofNat (Numeral.valueIn 16 [a, b]) :: ·)
    else none
  | _ + 1, _ => none

def escapedChar? (cs : List Char) : Option (Char × Nat) := do
  let lead ← escapedBytes 1 cs
  let n ← widthOfLead ((lead.head?.map UInt8.toNat).getD 0)
  let (c, _) ← Bytes.char? (← escapedBytes n cs)
  return (c, n)

def tagText : Nat → List Char → Cursor → Option (List Char × Cursor)
  | 0, _, _ => none
  | fuel + 1, done, c =>
    match c.rest with
    | '%' :: _ =>
      match escapedChar? c.rest with
      | some (ch, n) => tagText fuel (ch :: done) (c.skip (3 * n))
      | none => none
    | ch :: _ =>
      if isTagMark ch then tagText fuel (ch :: done) c.step else some (done.reverse, c)
    | [] => some (done.reverse, c)

def isHandle (cs : List Char) : Bool :=
  1 < cs.length && cs.getLast? = some '!'

def fullTag (size : Nat) (c : Cursor) : Option (Token × Cursor) := do
  let (text, c) ← tagText size [] (c.skip 2)
  if text.isEmpty || c.rest.head? ≠ some '>' then none
  return (.tag "" (String.ofList text), c.step)

/-- The tag by a handle. What was taken for a handle may belong to the suffix, and a lone exclamation
mark is no handle either. -/
def shortTag (size : Nat) (c : Cursor) : Option (Token × Cursor) := do
  let (handle, c) ← takeHandle c
  let (text, c) ← tagText size [] c
  if isHandle handle then
    if text.isEmpty then none
    return (.tag (String.ofList handle) (String.ofList text), c)
  else
    let suffix := handle.drop 1 ++ text
    return (if suffix.isEmpty then .tag "" "!" else .tag "!" (String.ofList suffix), c)

def tag (size : Nat) (c : Cursor) : Option (Token × Cursor) := do
  let (t, c) ← match c.rest with
    | '!' :: '<' :: _ => fullTag size c
    | _ => shortTag size c
  if opensBlank c.rest then return (t, c) else none

def versionPart (c : Cursor) : Option (Nat × Cursor) :=
  let digits := c.rest.takeWhile isDigit
  if digits.isEmpty || 2 < digits.length then none
  else some (Numeral.valueIn 10 digits, c.skip digits.length)

def versionDirective (c : Cursor) : Option (Token × Cursor) := do
  let (major, c) ← versionPart c.skipBlanks
  if c.rest.head? ≠ some '.' then none
  let (minor, c) ← versionPart c.step
  return (.version major minor, c)

def handleDirective (size : Nat) (c : Cursor) : Option (Token × Cursor) := do
  let (handle, c) ← takeHandle c.skipBlanks
  if handle ≠ ['!'] && !isHandle handle then none
  if !(c.rest.head?.map isBlank).getD false then none
  let (text, c) ← tagText size [] c.skipBlanks
  if text.isEmpty || !opensBlank c.rest then none
  return (.handle (String.ofList handle) (String.ofList text), c)

def directive (size : Nat) (c : Cursor) : Option (Token × Cursor) := do
  let (name, c) := takeWord c.step
  if !opensBlank c.rest then none
  let (t, c) ←
    if name = "YAML".toList then versionDirective c
    else if name = "TAG".toList then handleDirective size c
    else none
  let c := c.skipBlanks
  let c := if c.rest.head? = some '#' then c.skipLine else c
  if !c.rest.isEmpty && c.lineBreak?.isNone then none
  return (t, c.pastBreak)

end Symbolic.Yaml
