import Symbolic.Binary64.Reader
import Symbolic.Yaml.Cursor

/-!
Scalars written as indented lines, which are kept as they are or folded. Marks after the first one
say what becomes of the line breaks at the end and how far the lines are indented.
-/

namespace Symbolic.Yaml

inductive Chomping where
  | clip
  | strip
  | keep
deriving DecidableEq, Repr

def takeChomping (c : Cursor) : Option Chomping × Cursor :=
  match c.rest with
  | '+' :: _ => (some .keep, c.step)
  | '-' :: _ => (some .strip, c.step)
  | _ => (none, c)

/-- An indentation in one digit, which is not zero; without one it is zero. -/
def takeIndentation (c : Cursor) : Option (Nat × Cursor) :=
  match c.rest with
  | '0' :: _ => none
  | d :: _ => some (if isDigit d then (digitValue d, c.step) else (0, c))
  | [] => some (0, c)

def blockMarks (c : Cursor) : Option (Chomping × Nat × Cursor) := do
  let (before, c) := takeChomping c
  let (indentation, c) ← takeIndentation c
  match before with
  | some chomping => return (chomping, indentation, c)
  | none =>
    let (after, c) := takeChomping c
    return (after.getD .clip, indentation, c)

/-- Over indentation and empty lines to the next line with content. The result holds the line breaks,
last one first, and the deepest indentation seen. A tab may not indent a line. -/
def emptyLines (indent : Nat) :
    Nat → Nat → List Char → Cursor → Option (Nat × List Char × Cursor)
  | 0, _, _, _ => none
  | fuel + 1, deepest, breaks, c =>
    let spaces := (c.rest.takeWhile (· = ' ')).length
    let room := if indent = 0 then spaces else indent - c.column
    let c := c.skip (if spaces < room then spaces else room)
    let deepest := if deepest < c.column then c.column else deepest
    if (indent = 0 || c.column < indent) && c.rest.head? = some '\t' then none
    else
      match c.lineBreak? with
      | some (b, next) => emptyLines indent fuel deepest (b :: breaks) next
      | none => some (deepest, breaks, c)

/-- The lines from one with content on. `done`, the break before it and the empty lines before it
are kept last character first. -/
def blockLines (literal : Bool) (chomping : Chomping) (indent : Nat) :
    Nat → List Char → List Char → List Char → Bool → Cursor → Option (List Char × Cursor)
  | 0, _, _, _, _, _ => none
  | fuel + 1, done, lead, empty, indented, c =>
    if c.column = indent && !c.rest.isEmpty then do
      let blank := (c.rest.head?.map isBlank).getD false
      let folded := !literal && !indented && !blank && lead = ['\n']
      let joint := if folded then (if empty.isEmpty then [' '] else []) else lead
      let line := c.rest.takeWhile fun ch => !isBreak ch
      let done := line.reverse ++ (empty ++ (joint ++ done))
      let (lead, c) := match c.skipLine.lineBreak? with
        | some (b, next) => ([b], next)
        | none => ([], c.skipLine)
      let (_, empty, c) ← emptyLines indent (fuel + 1) 0 [] c
      blockLines literal chomping indent fuel done lead empty blank c
    else
      let tail := match chomping with
        | .strip => []
        | .clip => lead
        | .keep => empty ++ lead
      some ((tail ++ done).reverse, c)

def block (size least : Nat) (c : Cursor) : Option (List Char × Cursor) := do
  let literal := c.rest.head? = some '|'
  let (chomping, named, c) ← blockMarks c.step
  let c := c.skipBlanks
  let c := if c.rest.head? = some '#' then c.skipLine else c
  if !c.rest.isEmpty && c.lineBreak?.isNone then none
  let c := c.pastBreak
  let indent := if named = 0 then 0 else (least - 1) + named
  let (deepest, empty, c) ← emptyLines indent size 0 [] c
  let indent :=
    if indent ≠ 0 then indent
    else if deepest < least then least
    else if deepest = 0 then 1
    else deepest
  blockLines literal chomping indent size [] [] empty false c

end Symbolic.Yaml
