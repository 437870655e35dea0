import Symbolic.Integer
import Symbolic.Text.Base64

/-!
YAML nodes: scalars, sequences, mappings, and aliases of nodes that stand elsewhere. What a plain
scalar stands for is read off its spelling, unless a tag names the kind; a quoted one without a tag
is always a text.
-/

namespace Symbolic.Yaml

inductive Node where
  | scalar (text : String) (quoted : Bool) (tag : Option String)
  | sequence (items : List Node)
  | mapping (entries : List (Node × Node))
  | reference (name : String) (target : Node)
deriving Repr

inductive Scalar where
  | null
  | bool (b : Bool)
  | int (n : Int)
  | float (x : Binary64)
  | text (s : String)
deriving Repr

def null : Node := .scalar "" false none

def named? (s : String) : Option Scalar :=
  if s ∈ ["", "~", "null", "Null", "NULL"] then some .null
  else if s ∈ ["true", "True", "TRUE"] then some (.bool true)
  else if s ∈ ["false", "False", "FALSE"] then some (.bool false)
  else if s ∈ [".nan", ".NaN", ".NAN"] then some (.float .nan)
  else if s ∈ [".inf", ".Inf", ".INF", "+.inf", "+.Inf", "+.INF"] then
    some (.float (.infinity false))
  else if s ∈ ["-.inf", "-.Inf", "-.INF"] then some (.float (.infinity true))
  else none

def signedDigits? : List Char → Option Scalar
  | '0' :: mark :: sign :: cs =>
    let base := if mark = 'b' then 2 else if mark = 'o' then 8 else 0
    if base = 0 || (sign ≠ '+' && sign ≠ '-') then none
    else
      match Numeral.integerIn base (sign :: cs) with
      | .ok n => some (.int n)
      | .error _ => none
  | _ => none

/-- An integer of 64 bits, signed or not; anything else in decimal digits that binary64 can hold.
Underscores do not count. -/
def digits? (s : List Char) : Option Scalar :=
  let plain := s.filter (· ≠ '_')
  match Numeral.integer64 plain, Numeral.natural64 plain with
  | .ok n, _ => some (.int n)
  | _, .ok n => some (.int n)
  | _, _ =>
    let (negative, body) := Numeral.splitSign plain
    match Numeral.decimal? negative body with
    | some x => if x.isFinite then some (.float x) else none
    | none => signedDigits? plain

def number? (s : List Char) : Option Scalar :=
  match s with
  | [] => none
  | c :: _ =>
    if c = '.' then
      match Binary64.parse s with
      | .ok x => some (.float x)
      | .error _ => none
    else if c = '+' || c = '-' || isDigit c then digits? s
    else none

def plainScalar (s : String) : Scalar :=
  match named? s with
  | some v => v
  | none => (number? s.toList).getD (.text s)

def ownTags : String := "tag:yaml.org,2002:"

def shortened (tag : String) : String :=
  let own := ownTags.toList
  if own.isPrefixOf tag.toList then "!!" ++ String.ofList (tag.toList.drop own.length) else tag

def isDated (cs : List Char) : Bool :=
  (cs.takeWhile isDigit).length = 4 && (cs.drop 4).head? = some '-'

/-- A whole number of 64 bits with a sign may stand for the same number with a fraction. -/
def floated? : Scalar → Option Scalar
  | .float x => some (.float x)
  | .int n =>
    if n ≤ 0x7FFFFFFFFFFFFFFF then some (.float (Binary64.ofRatio (n < 0) n.natAbs 1)) else none
  | _ => none

/-- What a scalar with a tag stands for: a kind that YAML knows has to fit the spelling, and under any
other tag it is a text. -/
def tagged? (tag : String) (s : String) : Option Scalar :=
  match shortened tag, plainScalar s with
  | "!!str", _ => some (.text s)
  | "!!binary", _ => (Base64.decode? s).map fun bytes => .text (String.ofList (Bytes.chars bytes))
  | "!!null", .null => some .null
  | "!!bool", .bool b => some (.bool b)
  | "!!int", .int n => some (.int n)
  | "!!float", v => floated? v
  | "!!timestamp", .text s => if isDated s.toList then some (.text s) else none
  | "!!null", _ | "!!bool", _ | "!!int", _ | "!!timestamp", _ => none
  | _, _ => some (.text s)

namespace Node

def content : Node → Node
  | .reference _ target => target
  | v => v

def scalar? (v : Node) : Option Scalar :=
  match v.content with
  | .scalar s _ (some tag) => tagged? tag s
  | .scalar s quoted none => some (if quoted then .text s else plainScalar s)
  | _ => none

def isNull (v : Node) : Bool :=
  match v.scalar? with
  | some .null => true
  | _ => false

def text? (v : Node) : Option (Option String) :=
  match v.scalar?, v.content with
  | some .null, _ => some none
  | some (.text s), _ => some (some s)
  | some _, .scalar s _ _ => some (some s)
  | _, _ => none

def isMerge : Node → Bool
  | .scalar s quoted none => s = "<<" && !quoted
  | .scalar s _ (some tag) => s = "<<" && shortened tag = "!!merge"
  | _ => false

def keyText : Node → Nat × String
  | .scalar s _ _ => (0, s)
  | .sequence _ => (1, "")
  | .mapping _ => (2, "")
  | .reference name _ => (3, name)

end Node

end Symbolic.Yaml
