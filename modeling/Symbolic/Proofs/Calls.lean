import Symbolic.Service.Handler

/-!
Which calls of tools a request leads to. What is done with a request is set out as a plan, in which
no tool has been called yet; carrying the plan out gives the answer.
-/

namespace Symbolic.Service

/-- An answer that no tool is called for, or the calls that are answered. -/
inductive Plan where
  | reply (r : Reply)
  | tool (q : Tool.Request)
  | batch (qs : List Tool.Request)

namespace Plan

def calls : Plan → List Tool.Request
  | .reply _ => []
  | .tool q => [q]
  | .batch qs => qs

def carryOut (o : Occasion) : Plan → Reply
  | .reply r => r
  | .tool q => .tool (Tool.call (o.orders 0) q)
  | .batch qs => .batch (Tool.callAll o.orders qs)

end Plan

def planBody {α : Type} (o : Occasion) (decode : Json → Except BodyError α) (next : α → Plan)
    (limit : Int) (bytes : Bytes) : Plan :=
  match readBody decode limit bytes with
  | .error e => .reply (.badRequest (e.message o.complaint))
  | .ok a => next a

def planPosted {α : Type} (s : Settings) (o : Occasion) (r : Request)
    (decode : Json → Except BodyError α) (next : α → Plan) : Plan :=
  if r.method ≠ "POST" then .reply .methodNotAllowed
  else
    match r.body with
    | .crash => .reply .failed
    | .unreadable cause => .reply (.badRequest cause)
    | .content bytes => planBody o decode next s.maxBodyBytes bytes

def planBatch (s : Settings) (cancelled : Bool) (requests : List Tool.Request) : Plan :=
  if s.maxBatchSize < requests.length then
    .reply (.batchTooLarge requests.length s.maxBatchSize)
  else if cancelled then .reply (.unavailable .cancelled)
  else .batch requests

def planAt (s : Settings) (o : Occasion) (r : Request) : Plan :=
  match Route.ofPath? r.target.path with
  | none => .reply .notFound
  | some .tool => planPosted s o r requestOf .tool
  | some .batch => planPosted s o r requestsOf (planBatch s r.cancelled)
  | some .catalogue => .reply .catalogue
  | some .health => .reply (.health o.time)

def plan (s : Settings) (o : Occasion) (r : Request) : Plan :=
  if r.target = .whole then .reply .noTarget
  else if r.method = "CONNECT" || r.target.isClean then planAt s o r
  else .reply (.moved r.page r.target.location)

theorem posted_eq_carryOut {α : Type} (s : Settings) (o : Occasion) (r : Request)
    (decode : Json → Except BodyError α) (next : α → Plan) :
    posted s o r decode (fun a => (next a).carryOut o) =
      (planPosted s o r decode next).carryOut o := by
  unfold posted planPosted
  split
  · rfl
  cases r.body with
  | crash => rfl
  | unreadable cause => rfl
  | content bytes =>
    simp only [planBody]
    cases readBody decode s.maxBodyBytes bytes with
    | error e => rfl
    | ok a => rfl

theorem answerBatch_eq_carryOut (s : Settings) (o : Occasion) (cancelled : Bool)
    (requests : List Tool.Request) :
    answerBatch s o cancelled requests = (planBatch s cancelled requests).carryOut o := by
  unfold answerBatch planBatch Tool.batch
  split
  · rfl
  cases cancelled with
  | false => rfl
  | true => rfl

theorem answer_eq_carryOut (s : Settings) (o : Occasion) (r : Request) :
    answer s o r = (planAt s o r).carryOut o := by
  have hb : answerBatch s o r.cancelled = fun qs => (planBatch s r.cancelled qs).carryOut o :=
    funext (answerBatch_eq_carryOut s o r.cancelled)
  unfold answer planAt
  cases Route.ofPath? r.target.path with
  | none => rfl
  | some route =>
    cases route with
    | tool => exact posted_eq_carryOut s o r requestOf .tool
    | batch => rw [hb, posted_eq_carryOut]
    | catalogue => rfl
    | health => rfl

theorem handle_eq_carryOut (s : Settings) (o : Occasion) (r : Request) :
    handle s o r = (plan s o r).carryOut o := by
  unfold handle plan
  split
  · rfl
  split
  · exact answer_eq_carryOut s o r
  · rfl

end Symbolic.Service
