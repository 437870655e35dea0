import Symbolic.Service.Target

/-!
The line that starts a request: a method, a target and a version, with one blank between them.
-/

namespace Symbolic.Service

inductive RequestFault where
  | malformed (line : String)
  | invalidMethod (method : String)
  | invalidVersion (version : String)
  | invalidTarget (target : String) (cause : TargetFault)
deriving DecidableEq, Repr

def RequestFault.message : RequestFault → String
  | .malformed line => "malformed HTTP request " ++ quote line
  | .invalidMethod method => "invalid method " ++ quote method
  | .invalidVersion version => "malformed HTTP version " ++ quote version
  | .invalidTarget target cause => "parse " ++ quote target ++ ": " ++ cause.message

def version : String := "HTTP/1.0"

def isTokenChar (c : Char) : Bool :=
  isLetter c || isDigit c ||
    c ∈ ['!', '#', '$', '%', '&', '\'', '*', '+', '-', '.', '^', '_', '\x60', '|', '~']

def cutBlank? (cs : List Char) : Option (List Char × List Char) :=
  match cs.dropWhile (· ≠ ' ') with
  | _ :: rest => some (cs.takeWhile (· ≠ ' '), rest)
  | [] => none

def firstLine (cs : List Char) : List Char :=
  let line := cs.takeWhile (· ≠ '\n')
  if line.getLast? = some '\r' then line.dropLast else line

/-- The target of a request for a connection is a host, unless it starts with a slash. -/
def addressFor (method target : String) : String :=
  if method = "CONNECT" && target.toList.head? ≠ some '/' then "http://" ++ target else target

def targetFor (method target : String) : Except RequestFault Target :=
  if target = "*" then .ok .whole
  else
    let address := addressFor method target
    match Target.parse address with
    | .ok t => .ok t
    | .error cause => .error (.invalidTarget address cause)

/-- The method and the target that the line of a request names. A request without a method fetches. -/
def requestLine (method target : String) : Except RequestFault (String × Target) :=
  let method := if method = "" then "GET" else method
  let line := firstLine (method ++ " " ++ target ++ " " ++ version).toList
  match cutBlank? line with
  | none => .error (.malformed (String.ofList line))
  | some (method, rest) =>
    match cutBlank? rest with
    | none => .error (.malformed (String.ofList line))
    | some (target, last) =>
      let method := String.ofList method
      if method = "" || !method.toList.all isTokenChar then .error (.invalidMethod method)
      else if String.ofList last ≠ version then .error (.invalidVersion (String.ofList last))
      else (targetFor method (String.ofList target)).map (method, ·)

end Symbolic.Service
