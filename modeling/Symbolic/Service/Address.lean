import Symbolic.Decimal
import Symbolic.Binary64.Reader

/-!
Addresses to listen on: a host, which may stand in square brackets, and after the last colon a port,
given by number or by the name of a service.
-/

namespace Symbolic.Service

inductive AddressError where
  | missingPort (address : String)
  | tooManyColons (address : String)
  | missingBracket (address : String)
  | strayOpening (address : String)
  | strayClosing (address : String)
  | invalidPort (port : String)
  | unknownPort (name : String)
deriving DecidableEq, Repr

def AddressError.message : AddressError → String
  | .missingPort a => "listen tcp: address " ++ a ++ ": missing port in address"
  | .tooManyColons a => "listen tcp: address " ++ a ++ ": too many colons in address"
  | .missingBracket a => "listen tcp: address " ++ a ++ ": missing ']' in address"
  | .strayOpening a => "listen tcp: address " ++ a ++ ": unexpected '[' in address"
  | .strayClosing a => "listen tcp: address " ++ a ++ ": unexpected ']' in address"
  | .invalidPort p => "listen tcp: address " ++ p ++ ": invalid port"
  | .unknownPort p => "listen tcp: lookup tcp/" ++ p ++ ": unknown port"

def splitLastColon (cs : List Char) : Option (List Char × List Char) :=
  match cs.reverse.dropWhile (· ≠ ':') with
  | [] => none
  | _ :: before => some (before.reverse, (cs.reverse.takeWhile (· ≠ ':')).reverse)

def splitBracketed (address : String) (cs : List Char) :
    Except AddressError (List Char × List Char) :=
  let host := cs.takeWhile (· ≠ ']')
  match cs.dropWhile (· ≠ ']') with
  | [] => .error (.missingBracket address)
  | _ :: ':' :: port =>
    if port.contains ':' then .error (.tooManyColons address)
    else if host.contains '[' || port.contains '[' then .error (.strayOpening address)
    else if port.contains ']' then .error (.strayClosing address)
    else .ok (host, port)
  | _ => .error (.missingPort address)

def splitAddress (address : String) : Except AddressError (List Char × List Char) :=
  match splitLastColon address.toList, address.toList with
  | none, _ => .error (.missingPort address)
  | some _, '[' :: cs => splitBracketed address cs
  | some (host, port), cs =>
    if host.contains ':' then .error (.tooManyColons address)
    else if cs.contains '[' then .error (.strayOpening address)
    else if cs.contains ']' then .error (.strayClosing address)
    else .ok (host, port)

def serviceNames : List String :=
  ["ftp", "ftps", "gopher", "http", "https", "imap2", "imap3", "imaps", "pop3", "pop3s", "smtp",
    "submissions", "ssh", "telnet"]

inductive Port where
  | number (n : Int)
  | name

/-- A number that has grown past every port is not read further. -/
def portFrom (negative : Bool) (n : Nat) : List Char → Port
  | [] => .number (if negative then -(n : Int) else n)
  | c :: cs =>
    if !isDigit c then .name
    else if 0x40000000 ≤ n then .number (if negative then -(n : Int) else n)
    else portFrom negative (n * 10 + digitValue c) cs

def portOf (cs : List Char) : Port :=
  let (negative, body) := Numeral.splitSign cs
  portFrom negative 0 body

def checkPort (cs : List Char) : Except AddressError Unit :=
  match portOf cs with
  | .number n =>
    if 0 ≤ n ∧ n ≤ 65535 then .ok () else .error (.invalidPort (String.ofList cs))
  | .name =>
    if String.ofList (cs.map Numeral.asciiLower) ∈ serviceNames then .ok ()
    else .error (.unknownPort (String.ofList cs))

def checkAddress (address : String) : Except AddressError Unit := do
  let (_, port) ← splitAddress address
  checkPort port

/-- Listening until the caller withdraws. `none` means that it does not end by itself. -/
def listen (address : String) (cancelled : Bool) : Option (Except AddressError Unit) :=
  if cancelled then some (.ok ())
  else
    match checkAddress address with
    | .error e => some (.error e)
    | .ok () => none

end Symbolic.Service
