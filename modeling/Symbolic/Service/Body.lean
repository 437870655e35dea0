import Symbolic.Json.Reader
import Symbolic.Text.Quoted
import Symbolic.Tool.Basic

/-!
The body of a request: one JSON value within the first bytes of it, up to a limit, that tells which
tool to call. The value is read whole before anything is made of it.

Two things here are ways of the stream decoder that reads bodies, and not rules of JSON. Only a number
needs a look at the character after it. And the decoder takes a read that fails for any other reason
than the end of the body, such as the limit, for more to come.
-/

namespace Symbolic.Service

inductive Body where
  | content (bytes : Bytes)
  | unreadable (cause : String)
  | crash

inductive BodyError where
  | tooLarge
  | malformed
  | mismatch
  | unknownField (key : String)
  | trailing
deriving DecidableEq, Repr

/-- A body that is no value, or a value of the wrong kind, is refused in the words of the decoder. -/
def BodyError.message (complaint : String) : BodyError → String
  | .tooLarge => "http: request body too large"
  | .malformed | .mismatch => complaint
  | .unknownField key => "json: unknown field " ++ quote key
  | .trailing => "invalid JSON: trailing data"

def window (limit : Int) (content : Bytes) : List Char :=
  Bytes.chars (content.take limit.toNat)

def exceeds (limit : Int) (content : Bytes) : Bool :=
  limit.toNat < content.length

/-- What the decoder takes for more after a value. It is asked as within an array or an object, so a
closing mark is none; at the end of what may be read, the limit is. -/
def hasTrailing (more : Bool) (rest : List Char) : Bool :=
  match Json.skipSpace rest with
  | [] => more
  | c :: _ => c ≠ ']' && c ≠ '\x7d'

/-- The first value of a body. A number that reaches the last byte that may be read, with more to
come, could go on; every other value tells by itself where it ends. -/
def readValue (limit : Int) (content : Bytes) : Except BodyError (Json × List Char) :=
  let more := exceeds limit content
  match Json.value Json.nestingLimit (window limit content) with
  | .ok (v, rest) => if more && rest.isEmpty && v.isNumber then .error .tooLarge else .ok (v, rest)
  | .error .truncated => .error (if more then .tooLarge else .malformed)
  | .error .malformed => .error .malformed

def readBody {α : Type} (decode : Json → Except BodyError α) (limit : Int) (content : Bytes) :
    Except BodyError α := do
  let (v, rest) ← readValue limit content
  let a ← decode v
  if hasTrailing (exceeds limit content) rest then .error .trailing else return a

/-- A letter without regard to case, for the letters that keys are written with. -/
def foldLetter (c : Char) : Char :=
  if c = '\u017f' then 's' else if c = '\u212a' then 'k' else Numeral.asciiLower c

def foldName (s : String) : String :=
  String.ofList (s.toList.map foldLetter)

/-- Null leaves the tool as it is and takes back the parameters; further parameters are added. -/
def setField (r : Tool.Request) (key : String) (v : Json) : Except BodyError Tool.Request :=
  match foldName key, v with
  | "tool", .null => .ok r
  | "tool", .string s => .ok { r with tool := s }
  | "tool", _ => .error .mismatch
  | "params", .null => .ok { r with params := [] }
  | "params", .object m =>
    if Json.membersFinite m then .ok { r with params := r.params ++ m } else .error .mismatch
  | "params", _ => .error .mismatch
  | _, _ => .error (.unknownField key)

def setFields (r : Tool.Request) : Json.Members → Except BodyError Tool.Request
  | [] => .ok r
  | (key, v) :: rest => do setFields (← setField r key v) rest

def requestOf : Json → Except BodyError Tool.Request
  | .null => .ok ⟨"", []⟩
  | .object m => setFields ⟨"", []⟩ m
  | _ => .error .mismatch

def requestsFrom : List Json → Except BodyError (List Tool.Request)
  | [] => .ok []
  | v :: rest => return (← requestOf v) :: (← requestsFrom rest)

def requestsOf : Json → Except BodyError (List Tool.Request)
  | .null => .ok []
  | .array items => requestsFrom items
  | _ => .error .mismatch

end Symbolic.Service
