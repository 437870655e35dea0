import Symbolic.Service.Reply
import Symbolic.Service.RequestLine
import Symbolic.Settings.Basic

/-!
The service: four places, of which two take calls of tools. A request is answered by itself.
-/

namespace Symbolic.Service

structure Request where
  method : String
  target : Target
  body : Body
  /-- The other side has withdrawn the request. -/
  cancelled : Bool

/-- What an answer depends on besides the settings and the request. -/
structure Occasion where
  time : String
  /-- The order of members at each call of a tool that the request leads to. -/
  orders : Nat → Tool.MemberOrder
  /-- What the decoder says of the body, if it holds no value or one of the wrong kind. -/
  complaint : String

def Request.page (r : Request) : Page :=
  if r.method = "GET" then .whole
  else if r.method = "HEAD" then .kind
  else .none

inductive Route where
  | tool
  | batch
  | catalogue
  | health
deriving DecidableEq, Repr

def Route.path : Route → String
  | .tool => "/tool"
  | .batch => "/batch"
  | .catalogue => "/schema"
  | .health => "/health"

def Route.ofPath? (path : Bytes) : Option Route :=
  [.tool, .batch, .catalogue, .health].find? fun r => Bytes.ofString r.path = path

def posted {α : Type} (s : Settings) (o : Occasion) (r : Request)
    (decode : Json → Except BodyError α) (answer : α → Reply) : Reply :=
  if r.method ≠ "POST" then .methodNotAllowed
  else
    match r.body with
    | .crash => .failed
    | .unreadable cause => .badRequest cause
    | .content bytes =>
      match readBody decode s.maxBodyBytes bytes with
      | .error e => .badRequest (e.message o.complaint)
      | .ok a => answer a

def answerBatch (s : Settings) (o : Occasion) (cancelled : Bool) (requests : List Tool.Request) :
    Reply :=
  if s.maxBatchSize < requests.length then .batchTooLarge requests.length s.maxBatchSize
  else
    match Tool.batch (if cancelled then some .cancelled else none) o.orders requests with
    | .ok responses => .batch responses
    | .error e => .unavailable e

def answer (s : Settings) (o : Occasion) (r : Request) : Reply :=
  match Route.ofPath? r.target.path with
  | none => .notFound
  | some .tool => posted s o r requestOf fun q => .tool (Tool.call (o.orders 0) q)
  | some .batch => posted s o r requestsOf (answerBatch s o r.cancelled)
  | some .catalogue => .catalogue
  | some .health => .health o.time

/-- A path that is not clean is answered by the address of the clean one, except to a request for a
connection, whose path is taken as it is. -/
def handle (s : Settings) (o : Occasion) (r : Request) : Reply :=
  if r.target = .whole then .noTarget
  else if r.method = "CONNECT" || r.target.isClean then answer s o r
  else .moved r.page r.target.location

end Symbolic.Service
