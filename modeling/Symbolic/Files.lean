import Symbolic.Text.Bytes

/-!
Files by path. Reading one gives its bytes or tells why it cannot be read.
-/

namespace Symbolic

inductive FileError where
  | missing (path : String)
  | isDirectory (path : String)
  | notDirectory (path : String)
  | denied (path : String)
  | nameTooLong (path : String)
  | invalid (path : String)
deriving DecidableEq, Repr

def FileError.message : FileError → String
  | .missing path => "open " ++ path ++ ": no such file or directory"
  | .isDirectory path => "read " ++ path ++ ": is a directory"
  | .notDirectory path => "open " ++ path ++ ": not a directory"
  | .denied path => "open " ++ path ++ ": permission denied"
  | .nameTooLong path => "open " ++ path ++ ": file name too long"
  | .invalid path => "open " ++ path ++ ": invalid argument"

abbrev Files := String → Except FileError Bytes

namespace Files

def splitSlashes : List Char → List (List Char)
  | [] => [[]]
  | c :: cs =>
    if c = '/' then [] :: splitSlashes cs
    else
      match splitSlashes cs with
      | part :: parts => (c :: part) :: parts
      | [] => [[c]]

/-- The names along a path. A slash at its end is followed by an empty name. -/
def segments (path : String) : List String :=
  (splitSlashes path.toList).map String.ofList

def staysPut (name : String) : Bool := name = "" || name = "."

/-- A place on the way along a path: below the working directory or below the root by the names
that led there, last one first, or some levels above the working directory. -/
inductive Place where
  | working (names : List String)
  | root (names : List String)
  | above (levels : Nat)

inductive Found where
  | directory
  | file (content : Bytes)
  | nothing

def look (known : List (List String × Bytes)) (names : List String) : Found :=
  match known.lookup names with
  | some content => .file content
  | none => if known.any fun (name, _) => names.isPrefixOf name then .directory else .nothing

def machine : List String → Found
  | [] => .directory
  | [name] =>
    if name ∈ ["bin", "dev", "etc", "home", "proc", "root", "sys", "tmp", "usr", "var"] then
      .directory
    else .nothing
  | ["dev", "null"] => .file []
  | _ => .nothing

def find (known : List (List String × Bytes)) : Place → Found
  | .working [] => .directory
  | .working names => look known names.reverse
  | .root names => machine names.reverse
  | .above _ => .directory

namespace Place

def parent : Place → Place
  | .working [] => .above 1
  | .working (_ :: names) => .working names
  | .root names => .root names.tail
  | .above n => .above (n + 1)

/-- The place that a name leads to. Nothing but the way up is known from above the working
directory. -/
def child? (name : String) : Place → Option Place
  | .working names => some (.working (name :: names))
  | .root names => some (.root (name :: names))
  | .above _ => none

end Place

def longestName : Nat := 255

def longestPath : Nat := 4095

/-- Follows the names of a path. A name has to be short enough only once its directory is reached. -/
def follow (known : List (List String × Bytes)) (path : String) :
    List String → Place → Except FileError Bytes
  | [], place =>
    match find known place with
    | .directory => .error (.isDirectory path)
    | .file content => .ok content
    | .nothing => .error (.missing path)
  | name :: names, place =>
    match find known place with
    | .nothing => .error (.missing path)
    | .file _ => .error (.notDirectory path)
    | .directory =>
      if staysPut name then follow known path names place
      else if name = ".." then follow known path names place.parent
      else if longestName < name.utf8ByteSize then .error (.nameTooLong path)
      else
        match place.child? name with
        | some next => follow known path names next
        | none => .error (.missing path)

def ofList (entries : List (String × Bytes)) : Files := fun path =>
  let known := entries.map fun (name, content) =>
    ((segments name).filter fun part => !staysPut part, content)
  if path.toList.contains '\x00' then .error (.invalid path)
  else if path = "" then .error (.missing path)
  else if longestPath < path.utf8ByteSize then .error (.nameTooLong path)
  else
    follow known path (segments path)
      (if path.toList.head? = some '/' then .root [] else .working [])

end Files

end Symbolic
