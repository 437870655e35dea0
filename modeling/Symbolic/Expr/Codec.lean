import Symbolic.Expr.Leaf
import Symbolic.Json.Reader

/-!
Expressions as JSON objects. Every object has a `type`; a number has a `value`, a variable a `name`,
a sum or product a `left` and a `right` object. Other keys are ignored. Decoding reports the first
fault from left to right, under the path that leads to it.
-/

namespace Symbolic

inductive Operator where
  | sum
  | prod
deriving DecidableEq, Repr

namespace Operator

def label : Operator → String
  | .sum => "sum"
  | .prod => "product"

def apply : Operator → Expr → Expr → Expr
  | .sum => .sum
  | .prod => .prod

end Operator

inductive Side where
  | left
  | right
deriving DecidableEq, Repr

def Side.label : Side → String
  | .left => "left"
  | .right => "right"

inductive DecodeError where
  | notObject
  | missingType
  | badType
  | unknownType (label : String)
  | missingValue
  | badValue
  | missingName
  | badName
  | leaf (cause : LeafError)
  | missingOperand (op : Operator) (side : Side)
  | badOperand (op : Operator) (side : Side)
  | within (op : Operator) (side : Side) (inner : DecodeError)
deriving DecidableEq, Repr

namespace DecodeError

def message : DecodeError → String
  | .notObject => "expression must be an object"
  | .missingType => "missing 'type' field"
  | .badType => "field 'type' must be a non-empty string"
  | .unknownType label => "unknown expression type: " ++ label
  | .missingValue => "number: missing 'value'"
  | .badValue => "number: 'value' must be a string or number"
  | .missingName => "variable: missing \"name\""
  | .badName => "variable: \"name\" must be a string"
  | .leaf cause => cause.message
  | .missingOperand op side => op.label ++ ": missing " ++ quote side.label
  | .badOperand op side => op.label ++ ": " ++ quote side.label ++ " must be an object"
  | .within op side inner => op.label ++ ": " ++ side.label ++ ": " ++ inner.message

def leaf? : DecodeError → Option LeafError
  | .leaf cause => some cause
  | .within _ _ inner => inner.leaf?
  | _ => none

end DecodeError

namespace Expr

open Json (Members)

def toJson : Expr → Json
  | .num n => .object [("type", .string "number"), ("value", .string n.render)]
  | .var x => .object [("name", .string x), ("type", .string "variable")]
  | .sum l r => .object [("left", l.toJson), ("right", r.toJson), ("type", .string "sum")]
  | .prod l r => .object [("left", l.toJson), ("right", r.toJson), ("type", .string "product")]

/-- What the `type` of an object announces. -/
inductive Form where
  | number
  | named
  | operator (op : Operator)

def form (m : Members) : Except DecodeError Form :=
  match m.get? "type" with
  | none => .error .missingType
  | some (.string label) =>
    if label = "" then .error .badType
    else if label = "number" then .ok .number
    else if label = "variable" then .ok .named
    else if label = "sum" then .ok (.operator .sum)
    else if label = "product" then .ok (.operator .prod)
    else .error (.unknownType label)
  | some _ => .error .badType

def decodeNumber (m : Members) : Except DecodeError Expr :=
  match m.get? "value" with
  | none | some .null => .error .missingValue
  | some (.string s) => (ofNumeral (Text.ofString s)).mapError .leaf
  | some (.number x) => (ofBinary64 x).mapError .leaf
  | some _ => .error .badValue

def decodeName (m : Members) : Except DecodeError Expr :=
  match m.get? "name" with
  | none => .error .missingName
  | some (.string s) => (ofName (Text.ofString s)).mapError .leaf
  | some _ => .error .badName

def operand {α : Type} (op : Operator) (side : Side) (m : Members)
    (decode : (inner : Members) → m.get? side.label = some (.object inner) → Except DecodeError α) :
    Except DecodeError α :=
  match h : m.get? side.label with
  | none => .error (.missingOperand op side)
  | some (.object inner) => (decode inner h).mapError (.within op side)
  | some _ => .error (.badOperand op side)

theorem sizeOf_get?_lt {m inner : Members} {key : String} (h : m.get? key = some (.object inner)) :
    sizeOf inner < sizeOf m := by
  induction m with
  | nil => simp [Json.Members.get?] at h
  | cons kv rest ih =>
    obtain ⟨k, v⟩ := kv
    rw [Json.Members.get?] at h
    split at h
    · have := ih (by simp_all)
      simp; omega
    · split at h
      · obtain rfl : v = .object inner := by simpa using h
        simp; omega
      · simp at h

def decode (m : Members) : Except DecodeError Expr := do
  match ← form m with
  | .number => decodeNumber m
  | .named => decodeName m
  | .operator op =>
    let l ← operand op .left m fun inner _ => decode inner
    let r ← operand op .right m fun inner _ => decode inner
    return op.apply l r
termination_by sizeOf m
decreasing_by all_goals exact sizeOf_get?_lt ‹_›

end Expr

inductive ParseError where
  | malformed
  | decode (cause : DecodeError)
deriving DecidableEq, Repr

namespace ParseError

def message : ParseError → String
  | .malformed => "decode expression: the text is not a JSON object"
  | .decode cause => cause.message

def leaf? : ParseError → Option LeafError
  | .malformed => none
  | .decode cause => cause.leaf?

end ParseError

def Expr.parse (cs : List Char) : Except ParseError Expr :=
  match Json.parse cs with
  | .ok .null => .error (.decode .notObject)
  | .ok (.object m) =>
    if Json.membersFinite m then (decode m).mapError .decode else .error .malformed
  | _ => .error .malformed

end Symbolic
