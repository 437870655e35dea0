import Symbolic.Yaml.Lexer
import Symbolic.Yaml.Node

/-!
The entries of a mapping by name. A mapping may take in the entries of others under the key `<<`: its
own entries come first, and a name that it has, or that was taken in before, is not taken in again.
-/

namespace Symbolic.Yaml

def distinctKeys : List (Node × Node) → Bool
  | [] => true
  | (k, _) :: rest => rest.all (fun (k', _) => k'.keyText ≠ k.keyText) && distinctKeys rest

/-- The entries with their names. A null key names nothing, and a collection is no name. -/
def withNames? : List (Node × Node) → Option (List (String × Node))
  | [] => some []
  | (k, v) :: rest => do
    if k.isMerge then withNames? rest
    else
      match ← k.text? with
      | none => withNames? rest
      | some name => return (name, v) :: (← withNames? rest)

def textNames (entries : List (Node × Node)) : List String :=
  entries.filterMap fun (k, _) =>
    match k.scalar? with
    | some (.text s) => some s
    | _ => none

def mergeSources? : Node → Option (List Node)
  | .sequence items => some items
  | .mapping entries => some [.mapping entries]
  | .reference _ (.mapping entries) => some [.mapping entries]
  | _ => none

def sources? (entries : List (Node × Node)) : Option (List Node) :=
  match entries.find? fun (k, _) => k.isMerge with
  | some (_, v) => mergeSources? v
  | none => some []

/-- The entries whose names are not hidden, each of which hides its name from then on. -/
def visible : List String → List (String × Node) → List (String × Node) × List String
  | hidden, [] => ([], hidden)
  | hidden, (name, v) :: rest =>
    if name ∈ hidden then visible hidden rest
    else
      let (others, hidden) := visible (name :: hidden) rest
      ((name, v) :: others, hidden)

def takeIn : Nat → List String → List Node → Option (List (String × Node) × List String)
  | _, hidden, [] => some ([], hidden)
  | 0, _, _ :: _ => none
  | fuel + 1, hidden, v :: rest =>
    match v.content with
    | .mapping entries => do
      if !distinctKeys entries then none
      let (own, hidden) := visible hidden (← withNames? entries)
      let (inner, hidden) ← takeIn fuel hidden (← sources? entries)
      let (others, hidden) ← takeIn fuel hidden rest
      return (own ++ (inner ++ others), hidden)
    | _ => none

/-- The entries of a mapping; null has none. A null that is taken in replaces nothing. -/
def Node.entries? (v : Node) : Option (List (String × Node)) :=
  match v.content with
  | .mapping entries => do
    if !distinctKeys entries then none
    let own ← withNames? entries
    let (taken, _) ← takeIn nestingLimit (textNames entries) (← sources? entries)
    return own ++ taken.filter fun (name, v) => !(v.isNull && own.any (·.1 = name))
  | _ => if v.isNull then some [] else none

end Symbolic.Yaml
