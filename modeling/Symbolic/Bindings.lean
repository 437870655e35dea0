import Symbolic.Binary64.Reader
import Symbolic.Files
import Symbolic.Text.Quoted

/-!
Bindings of names to binary64 values. A name has at most one value, the one bound last.

Bindings are given as pairs `name=value` or in a file. The name of a pair is what stands before the
first `=`; white space around name and value is dropped once the pair has been found to have a name.
What the content of a file binds is for a decoder to say.
-/

namespace Symbolic

structure Bindings where
  entries : List (String × Binary64)
deriving Repr

namespace Bindings

def empty : Bindings := ⟨[]⟩

def get? (env : Bindings) (name : String) : Option Binary64 :=
  env.entries.lookup name

def insert (env : Bindings) (name : String) (x : Binary64) : Bindings :=
  ⟨(name, x) :: env.entries.filter (·.1 ≠ name)⟩

/-- The bindings of both, those of `other` first. -/
def override (env other : Bindings) : Bindings :=
  other.entries.foldr (fun (name, x) acc => acc.insert name x) env

end Bindings

inductive PairError where
  | shape (pair : String)
  | value (pair text : String) (cause : NumeralError)
deriving DecidableEq, Repr

def PairError.message : PairError → String
  | .shape pair => "binding " ++ quote pair ++ ": want name=value"
  | .value pair text cause =>
    "binding " ++ quote pair ++ ": strconv.ParseFloat: parsing " ++ quote text ++ ": " ++ cause.message

namespace Bindings

def cut? (pair : String) : Option (String × String) :=
  match pair.toList.dropWhile (· ≠ '=') with
  | [] => none
  | _ :: value => some (String.ofList (pair.toList.takeWhile (· ≠ '=')), String.ofList value)

def ofPair (pair : String) : Except PairError (String × Binary64) :=
  match cut? pair with
  | none => .error (.shape pair)
  | some (name, value) =>
    if name = "" then .error (.shape pair)
    else
      match Binary64.parse (trimBlank value).toList with
      | .ok x => .ok (trimBlank name, x)
      | .error cause => .error (.value pair (trimBlank value) cause)

/-- Pairs are taken in order: a later one replaces an earlier one of the same name. -/
def insertPairs (env : Bindings) : List String → Except PairError Bindings
  | [] => .ok env
  | pair :: rest => do
    let (name, x) ← ofPair pair
    insertPairs (env.insert name x) rest

def ofPairs (pairs : List String) : Except PairError Bindings :=
  insertPairs empty pairs

end Bindings

inductive BindingsError where
  | unreadable (cause : FileError)
  | malformed (path cause : String)
deriving DecidableEq, Repr

def BindingsError.message : BindingsError → String
  | .unreadable cause => "failed to read env file: " ++ cause.message
  | .malformed path cause => "failed to parse env file " ++ path ++ ": " ++ cause

def Bindings.load (decode : Bytes → Except String Bindings) (files : Files) (path : String) :
    Except BindingsError Bindings :=
  match files path with
  | .error e => .error (.unreadable e)
  | .ok content => (decode content).mapError (.malformed path)

end Symbolic
