import Symbolic.Text.Bytes

/-!
The characters of a YAML text. A text is checked in pieces of 512 bytes; what comes before the piece
that holds the first character out of place can still be read.
-/

namespace Symbolic.Yaml

structure Source where
  chars : List Char
  /-- The text goes no further than its characters here. -/
  complete : Bool
  /-- How many characters at the start are read under a second byte order mark. -/
  marked : Nat

def isAllowed (c : Char) : Bool :=
  let n := c.toNat
  c = '\t' || c = '\n' || c = '\r' || (0x20 ≤ n && n ≤ 0x7E) || n = 0x85
    || (0xA0 ≤ n && n ≠ 0xFFFE && n ≠ 0xFFFF)

def byteOrderMark : Char := '\uFEFF'

def pieceSize : Nat := 512

namespace Source

def char? : Glyph → Option Char
  | .char c => if isAllowed c then some c else none
  | .stray _ => none

def width : Glyph → Nat
  | .char c => c.utf8Size
  | .stray _ => 1

/-- The pieces of a text that can be read, last character first, and whether they are all of it.
The piece at hand has `used` bytes so far. -/
def gather : Text → Nat → List Char → List Char → List Char × Bool
  | [], _, piece, done => (piece ++ done, true)
  | g :: gs, used, piece, done =>
    let starts := pieceSize < used + width g
    let done := if starts then piece ++ done else done
    match char? g with
    | none => (done, false)
    | some c =>
      if starts then gather gs (width g) [c] done else gather gs (used + width g) (c :: piece) done

def fitting (bytes : Nat) : List Char → Nat
  | [] => 0
  | c :: cs => if c.utf8Size ≤ bytes then fitting (bytes - c.utf8Size) cs + 1 else 0

/-- The characters after a byte order mark, which counts among the first bytes. -/
def ofBytes (bs : Bytes) : Source :=
  let (glyphs, used) : Text × Nat :=
    match bs.text with
    | .char c :: gs => if c = byteOrderMark then (gs, c.utf8Size) else (.char c :: gs, 0)
    | gs => (gs, 0)
  let (done, complete) := gather glyphs used [] []
  let chars := done.reverse
  { chars, complete,
    marked :=
      if chars.head? = some byteOrderMark then fitting (pieceSize - used) chars else 0 }

end Source

end Symbolic.Yaml
