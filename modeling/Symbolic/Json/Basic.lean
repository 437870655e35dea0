import Symbolic.Binary64.Basic

/-!
JSON values. An object keeps its members in the order of the text; where a key is repeated, the last
member with that key is the one that counts.
-/

namespace Symbolic

inductive Json where
  | null
  | bool (b : Bool)
  | number (x : Binary64)
  | string (s : String)
  | array (items : List Json)
  | object (members : List (String × Json))
deriving Repr

namespace Json

abbrev Members := List (String × Json)

def Members.get? (key : String) : Members → Option Json
  | [] => none
  | (k, v) :: rest =>
    match get? key rest with
    | some w => some w
    | none => if k = key then some v else none

/-- The members that count, each key once. -/
def Members.effective : Members → Members
  | [] => []
  | (k, v) :: rest =>
    let later := effective rest
    if later.any (·.1 = k) then later else (k, v) :: later

def isNumber : Json → Bool
  | .number _ => true
  | _ => false

mutual

def isFinite : Json → Bool
  | .number x => x.isFinite
  | .array items => itemsFinite items
  | .object members => membersFinite members
  | _ => true

def itemsFinite : List Json → Bool
  | [] => true
  | v :: rest => v.isFinite && itemsFinite rest

def membersFinite : List (String × Json) → Bool
  | [] => true
  | (_, v) :: rest => v.isFinite && membersFinite rest

end

end Json

end Symbolic
