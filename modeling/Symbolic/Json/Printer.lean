import Symbolic.Binary64.Shortest
import Symbolic.Json.Basic
import Symbolic.Text.Quoted

/-!
JSON text: compact on one line, or indented by two spaces a level. Characters that would be live in
a web page or break a line of a script are escaped inside strings.
-/

namespace Symbolic.Json

def escapeChar (c : Char) : String :=
  match c with
  | '"' => "\\\""
  | '\\' => "\\\\"
  | '\x08' => "\\b"
  | '\x0c' => "\\f"
  | '\n' => "\\n"
  | '\r' => "\\r"
  | '\t' => "\\t"
  | _ =>
    if c.toNat < 0x20 || c = '<' || c = '>' || c = '&' || c = '\u2028' || c = '\u2029' then
      "\\u" ++ hexPadded 4 c.toNat
    else c.toString

def stringText (s : String) : String :=
  "\"" ++ String.join (s.toList.map escapeChar) ++ "\""

/-- The shortest digits, with an exponent outside the range from one millionth to 10 ^ 21. -/
def numberText (x : Binary64) : String :=
  let d := x.shortest
  let digits := if d.magnitude < -6 ∨ 21 ≤ d.magnitude then d.scientific else d.positional
  String.ofList (if x.negative then '-' :: digits else digits)

mutual

def compact : Json → String
  | .null => "null"
  | .bool true => "true"
  | .bool false => "false"
  | .number x => numberText x
  | .string s => stringText s
  | .array items => "[" ++ String.intercalate "," (compactItems items) ++ "]"
  | .object members => "\x7b" ++ String.intercalate "," (compactMembers members) ++ "\x7d"

def compactItems : List Json → List String
  | [] => []
  | v :: rest => v.compact :: compactItems rest

def compactMembers : List (String × Json) → List String
  | [] => []
  | (k, v) :: rest => (stringText k ++ ":" ++ v.compact) :: compactMembers rest

end

def newline (level : Nat) : String :=
  String.ofList ('\n' :: List.replicate (2 * level) ' ')

def block (opening closing : String) (level : Nat) (parts : List String) : String :=
  if parts.isEmpty then opening ++ closing
  else
    opening ++ newline (level + 1) ++ String.intercalate ("," ++ newline (level + 1)) parts
      ++ newline level ++ closing

mutual

def indented (level : Nat) : Json → String
  | .array items => block "[" "]" level (indentedItems (level + 1) items)
  | .object members => block "\x7b" "\x7d" level (indentedMembers (level + 1) members)
  | v => v.compact

def indentedItems (level : Nat) : List Json → List String
  | [] => []
  | v :: rest => v.indented level :: indentedItems level rest

def indentedMembers (level : Nat) : List (String × Json) → List String
  | [] => []
  | (k, v) :: rest => (stringText k ++ ": " ++ v.indented level) :: indentedMembers level rest

end

end Symbolic.Json
