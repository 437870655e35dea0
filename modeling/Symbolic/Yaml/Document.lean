import Symbolic.Yaml.Lexer
import Symbolic.Yaml.Node

/-!
Reading documents from tokens. Only the first document of a text counts, and of what follows it no
more is read than the tokens that are looked at.
-/

namespace Symbolic.Yaml

/-- A node that has been named. It has no value as long as it is being read. -/
structure Anchored where
  number : Nat
  name : String
  value : Option Node

structure Reading where
  lexer : Lexer
  /-- What the handles of tags stand for. -/
  handles : List (String × String)
  /-- The named nodes, last one first. -/
  anchored : List Anchored

namespace Reading

def peek (r : Reading) : Option (Token × Reading) := do
  let (t, lexer) ← r.lexer.peek
  return (t, { r with lexer })

def take (r : Reading) : Reading :=
  { r with lexer := r.lexer.take }

/-- The tag that a handle and a suffix stand for. A lone exclamation mark is no tag. -/
def tag? (r : Reading) (handle suffix : String) : Option (Option String) :=
  if handle = "" then some (if suffix = "!" then none else some suffix)
  else (r.handles.lookup handle).map fun start => some (start ++ suffix)

/-- The node that an alias stands for. Inside of that very node there is none yet, and what the
alias stands for there has no end; it can be no scalar and no mapping. -/
def aliased? (r : Reading) (name : String) : Option Node :=
  (r.anchored.find? (·.name = name)).map fun a => .reference name (a.value.getD (.sequence []))

def name (r : Reading) (anchor : Option String) : Reading :=
  match anchor with
  | some name => { r with anchored := ⟨r.anchored.length, name, none⟩ :: r.anchored }
  | none => r

def assign (r : Reading) (number : Nat) (v : Node) : Reading :=
  { r with
    anchored := r.anchored.map fun a => if a.number = number then { a with value := some v } else a }

end Reading

structure Properties where
  anchor : Option String := none
  tag : Option String := none
  /-- Something is said, so that the node itself may be left out. -/
  given : Bool := false

def properties (r : Reading) : Option (Properties × Reading) := do
  let (t, r) ← r.peek
  match t with
  | .anchor anchor =>
    let (t, r) ← r.take.peek
    match t with
    | .tag handle suffix =>
      let tag ← r.tag? handle suffix
      return (⟨some anchor, tag, true⟩, r.take)
    | _ => return (⟨some anchor, none, true⟩, r)
  | .tag handle suffix =>
    let tag ← r.tag? handle suffix
    let (t, r) ← r.take.peek
    match t with
    | .anchor anchor => return (⟨some anchor, tag, true⟩, r.take)
    | _ => return (⟨none, tag, true⟩, r)
  | _ => return ({}, r)

mutual

/-- A node. Outside brackets it may be a block, and after a key a sequence that is indented no further
than the key. -/
def node (blocks level : Bool) : Nat → Reading → Option (Node × Reading)
  | 0, _ => none
  | fuel + 1, r => do
    let (t, r) ← r.peek
    match t with
    | .reference name => return (← r.aliased? name, r.take)
    | _ =>
      let (p, r) ← properties r
      let number := r.anchored.length
      let (v, r) ← content blocks level p fuel (r.name p.anchor)
      return (v, if p.anchor.isSome then r.assign number v else r)

def content (blocks level : Bool) (p : Properties) : Nat → Reading → Option (Node × Reading)
  | 0, _ => none
  | fuel + 1, r => do
    let (t, r) ← r.peek
    match t with
    | .scalar text quoted => return (.scalar text quoted p.tag, r.take)
    | .openBracket =>
      let (items, r) ← flowItems true fuel r.take
      return (.sequence items, r)
    | .openBrace =>
      let (entries, r) ← flowEntries true fuel r.take
      return (.mapping entries, r)
    | _ =>
      if level && t = .entry then
        let (items, r) ← levelItems fuel r
        return (.sequence items, r)
      else if blocks && t = .blockSequence then
        let (items, r) ← blockItems fuel r.take
        return (.sequence items, r)
      else if blocks && t = .blockMapping then
        let (entries, r) ← blockEntries fuel r.take
        return (.mapping entries, r)
      else if p.given then return (.scalar "" false p.tag, r)
      else none

def blockNode (level : Bool) (ends : List Token) : Nat → Reading → Option (Node × Reading)
  | 0, _ => none
  | fuel + 1, r => do
    let (t, r) ← r.peek
    if t ∈ ends then return (null, r) else node true level fuel r

def blockItems : Nat → Reading → Option (List Node × Reading)
  | 0, _ => none
  | fuel + 1, r => do
    let (t, r) ← r.peek
    match t with
    | .entry =>
      let (item, r) ← blockNode false [.entry, .blockEnd] fuel r.take
      let (items, r) ← blockItems fuel r
      return (item :: items, r)
    | .blockEnd => return ([], r.take)
    | _ => none

/-- The items of a sequence that is indented no further than the key before it. It ends where no
item follows. -/
def levelItems : Nat → Reading → Option (List Node × Reading)
  | 0, _ => none
  | fuel + 1, r => do
    let (t, r) ← r.peek
    match t with
    | .entry =>
      let (item, r) ← blockNode false [.entry, .key, .value, .blockEnd] fuel r.take
      let (items, r) ← levelItems fuel r
      return (item :: items, r)
    | _ => return ([], r)

def blockEntries : Nat → Reading → Option (List (Node × Node) × Reading)
  | 0, _ => none
  | fuel + 1, r => do
    let (t, r) ← r.peek
    match t with
    | .key =>
      let (key, r) ← blockNode true [.key, .value, .blockEnd] fuel r.take
      let (t, r) ← r.peek
      let (value, r) ←
        if t = .value then blockNode true [.key, .value, .blockEnd] fuel r.take else some (null, r)
      let (entries, r) ← blockEntries fuel r
      return ((key, value) :: entries, r)
    | .blockEnd => return ([], r.take)
    | _ => none

def flowValue (closing : Token) : Nat → Reading → Option (Node × Reading)
  | 0, _ => none
  | fuel + 1, r => do
    let (t, r) ← r.peek
    if t = .value then
      let (t, r) ← r.take.peek
      if t = .comma || t = closing then return (null, r) else node false false fuel r
    else return (null, r)

/-- Items up to the closing bracket, before which a comma may stand. An item may be a key with its
value; the token after a key that is left out does not count. -/
def flowItems (first : Bool) : Nat → Reading → Option (List Node × Reading)
  | 0, _ => none
  | fuel + 1, r => do
    let (t, r) ← r.peek
    if t = .closeBracket then return ([], r.take)
    if !first && t ≠ .comma then none
    let (t, r) ← if first then some (t, r) else r.take.peek
    match t with
    | .closeBracket => return ([], r.take)
    | .key =>
      let (t, r) ← r.take.peek
      let (key, r) ←
        if t ∈ [.value, .comma, .closeBracket] then some (null, r.take) else node false false fuel r
      let (value, r) ← flowValue .closeBracket fuel r
      let (items, r) ← flowItems false fuel r
      return (.mapping [(key, value)] :: items, r)
    | _ =>
      let (item, r) ← node false false fuel r
      let (items, r) ← flowItems false fuel r
      return (item :: items, r)

/-- Entries up to the closing brace. A node that is no key counts as one without a value. -/
def flowEntries (first : Bool) : Nat → Reading → Option (List (Node × Node) × Reading)
  | 0, _ => none
  | fuel + 1, r => do
    let (t, r) ← r.peek
    if t = .closeBrace then return ([], r.take)
    if !first && t ≠ .comma then none
    let (t, r) ← if first then some (t, r) else r.take.peek
    match t with
    | .closeBrace => return ([], r.take)
    | .key =>
      let (t, r) ← r.take.peek
      let (key, r) ←
        if t ∈ [.value, .comma, .closeBrace] then some (null, r) else node false false fuel r
      let (value, r) ← flowValue .closeBrace fuel r
      let (entries, r) ← flowEntries false fuel r
      return ((key, value) :: entries, r)
    | _ =>
      let (key, r) ← node false false fuel r
      let (entries, r) ← flowEntries false fuel r
      return ((key, null) :: entries, r)

end

def addHandle (handles : List (String × String)) (name expansion : String) :
    Option (List (String × String)) :=
  if (handles.lookup name).isSome then none else some (handles ++ [(name, expansion)])

def directives : Nat → Bool → Reading → Option Reading
  | 0, _, _ => none
  | fuel + 1, versioned, r => do
    let (t, r) ← r.peek
    match t with
    | .version major minor =>
      if versioned || major ≠ 1 || minor ≠ 1 then none else directives fuel true r.take
    | .handle name expansion =>
      let handles ← addHandle r.handles name expansion
      directives fuel versioned { r.take with handles }
    | _ => return r

def withStandardHandles (r : Reading) : Reading :=
  { r with handles := r.handles ++ [("!", "!"), ("!!", ownTags)] }

def isDirective : Token → Bool
  | .version _ _ | .handle _ _ => true
  | _ => false

def marked (fuel : Nat) (r : Reading) : Option (Node × Reading) := do
  let (t, r) ← r.peek
  if isDirective t || t ∈ [.documentStart, .documentEnd, .streamEnd] then return (null, r)
  else node true false fuel r

/-- The first document of a text. A text without one is null, as is a document without content. -/
def document (fuel : Nat) (r : Reading) : Option Node := do
  let (t, r) ← r.peek
  if t = .streamEnd then return null
  let (v, r) ←
    if isDirective t || t = .documentStart then do
      let (t, r) ← (← directives fuel false r).peek
      if t ≠ .documentStart then none
      marked fuel (withStandardHandles r.take)
    else node true false fuel (withStandardHandles r)
  let _ ← r.peek
  return v

def parse (bs : Bytes) : Option Node :=
  let lexer := Lexer.start (Source.ofBytes bs)
  document (16 * lexer.size + 64) { lexer, handles := [], anchored := [] }

end Symbolic.Yaml
