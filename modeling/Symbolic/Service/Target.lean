import Symbolic.Binary64.Reader
import Symbolic.Text.Quoted

/-!
What a request asks for: a path and a query. A target is written as a path, or as a whole address of
which the scheme and the host do not count. A path is clean if no part of it is empty, `.` or `..`;
escaping one keeps all that is not a letter, a digit or a mark of paths as percent signs with two
hex digits.
-/

namespace Symbolic.Service

structure Target where
  path : Bytes
  query : String
deriving DecidableEq, Repr

def decodePercents : Bytes → Bytes
  | 0x25 :: a :: b :: rest =>
    UInt8.ofNat (Numeral.valueIn 16 [Char.ofNat a.toNat, Char.ofNat b.toNat])
      :: decodePercents rest
  | b :: rest => b :: decodePercents rest
  | [] => []

def isSchemeMark (c : Char) : Bool :=
  isDigit c || c = '+' || c = '-' || c = '.'

def afterScheme? : List Char → Option (List Char)
  | [] => none
  | c :: cs =>
    if isLetter c then
      match cs.dropWhile fun d => isLetter d || isSchemeMark d with
      | ':' :: rest => some rest
      | _ => none
    else none

def afterHost (cs : List Char) : List Char :=
  cs.dropWhile (· ≠ '/')

/-- The path of an address without its query. With a scheme but no slash after it there is none. -/
def pathPart (cs : List Char) : List Char :=
  match afterScheme? cs with
  | none => cs
  | some ('/' :: '/' :: rest) => afterHost rest
  | some ('/' :: rest) => '/' :: rest
  | some _ => []

inductive TargetFault where
  | controlCharacter
  | empty
  | noScheme
  | relative
  | badEscape (text : Bytes)
deriving DecidableEq, Repr

def TargetFault.message : TargetFault → String
  | .controlCharacter => "net/url: invalid control character in URL"
  | .empty => "empty url"
  | .noScheme => "missing protocol scheme"
  | .relative => "invalid URI for request"
  | .badEscape text => "invalid URL escape " ++ text.text.quote

def isHexByte (b : UInt8) : Bool :=
  Numeral.isHexDigit (Char.ofNat b.toNat)

def badEscape? : Bytes → Option Bytes
  | [] => none
  | b :: bs =>
    if b ≠ 0x25 || ((bs.take 2).length = 2 && (bs.take 2).all isHexByte) then badEscape? bs
    else some (b :: bs.take 2)

def isControl (c : Char) : Bool := c.toNat < 0x20 || c.toNat = 0x7F

namespace Target

def whole : Target := ⟨Bytes.ofString "*", ""⟩

/-- The first question mark starts the query. Without a scheme, a path has to start with a slash. -/
def parse (s : String) : Except TargetFault Target :=
  let cs := s.toList
  let address := cs.takeWhile (· ≠ '?')
  let path := Bytes.ofString (String.ofList (pathPart address))
  if cs.any isControl then .error .controlCharacter
  else if cs.isEmpty then .error .empty
  else if cs.head? = some ':' then .error .noScheme
  else if (afterScheme? address).isNone && address.head? ≠ some '/' then .error .relative
  else
    match badEscape? path with
    | some text => .error (.badEscape text)
    | none =>
      .ok ⟨decodePercents path, String.ofList ((cs.dropWhile (· ≠ '?')).drop 1)⟩

end Target

def slash : UInt8 := 0x2F

def splitPath : Bytes → List Bytes
  | [] => [[]]
  | b :: bs =>
    if b = slash then [] :: splitPath bs
    else
      match splitPath bs with
      | part :: parts => (b :: part) :: parts
      | [] => [[b]]

/-- The parts of a clean path: `..` takes back the part before it, if there is one. -/
def cleanParts (done : List Bytes) : List Bytes → List Bytes
  | [] => done.reverse
  | part :: parts =>
    if part = [] || part = Bytes.ofString "." then cleanParts done parts
    else if part = Bytes.ofString ".." then cleanParts done.tail parts
    else cleanParts (part :: done) parts

def cleanPath (path : Bytes) : Bytes :=
  let parts := cleanParts [] (splitPath path)
  let joined := parts.flatMap fun part => slash :: part
  if joined = [] then [slash]
  else if path.getLast? = some slash then joined ++ [slash]
  else joined

def isPathMark (c : Char) : Bool :=
  c ∈ ['-', '_', '.', '~', '$', '&', '+', ',', '/', ':', ';', '=', '@']

def percent (b : UInt8) : List Char :=
  ['%', Nat.digitChar (b.toNat / 16), Nat.digitChar (b.toNat % 16)].map Char.toUpper

def escapePath (path : Bytes) : List Char :=
  path.flatMap fun b =>
    let c := Char.ofNat b.toNat
    if isLetter c || isDigit c || isPathMark c then [c] else percent b

namespace Target

def isClean (t : Target) : Bool :=
  cleanPath t.path = t.path

def location (t : Target) : String :=
  String.ofList (escapePath (cleanPath t.path))
    ++ (if t.query = "" then "" else "?" ++ t.query)

end Target

end Symbolic.Service
