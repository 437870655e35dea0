import Symbolic.Tool.Call

/-!
A batch as it is carried out: a loop launches one worker for each request, the workers run at the
same time, and the caller's context may end at any moment. The workers form a group with a context
of its own, which ends with the caller's, with the first worker that reports an error, and once the
loop has waited for all workers. Who moves next is left open, so that a run is any list of moves.
-/

namespace Symbolic.Tool

/-- The requests of a batch, and how many workers may be under way at a time. A limit that is not
positive sets no bound. -/
structure Batch where
  requests : List Request
  limit : Int
  /-- The order of members at the call for each request. -/
  orders : Nat → MemberOrder

namespace Batch

inductive Worker where
  | launched
  /-- It has found the group's context open and goes on to the call. -/
  | cleared
  | stored
  /-- It has found the group's context ended and is about to report that. -/
  | stopped (cause : BatchError)
  | finished
deriving DecidableEq, Repr

def Worker.looked : Option BatchError → Worker
  | some e => .stopped e
  | none => .cleared

/-- What the batch is answered with. A slot that no worker has filled holds nothing. -/
abbrev Outcome := Except BatchError (List (Option Response))

inductive Phase where
  /-- The next request has not been looked at. -/
  | looping
  /-- The group's context was open, and the next worker waits for room. -/
  | launching
  | waiting
  /-- All workers have finished without an error, and the caller's context is still to be asked. -/
  | checking
  | returned (outcome : Outcome)

/-- Where the loop goes once it has waited for the workers. -/
def Phase.joined : Option BatchError → Phase
  | some e => .returned (.error e)
  | none => .checking

def Outcome.checked (slots : List (Option Response)) : Option BatchError → Outcome
  | some e => .error e
  | none => .ok slots

structure State where
  phase : Phase
  /-- The workers launched so far, in the order of the requests. -/
  workers : List Worker
  slots : List (Option Response)
  /-- How the caller's context has ended. -/
  caller : Option BatchError
  /-- How the group's context has ended. -/
  group : Option BatchError
  /-- The first error that a worker has reported. -/
  failure : Option BatchError

inductive Move where
  | loop
  | worker (i : Nat)
  /-- The end of the caller's context reaches the group's. -/
  | relay
  /-- The caller's context ends. -/
  | withdraw (cause : BatchError)
deriving DecidableEq, Repr

/-- A move that the batch makes by itself. -/
def Move.isOwn : Move → Bool
  | .withdraw _ => false
  | _ => true

def start (b : Batch) (ended : Option BatchError) : State where
  phase := .looping
  workers := []
  slots := List.replicate b.requests.length none
  caller := ended
  group := ended
  failure := none

def State.live (s : State) : Nat :=
  s.workers.countP (· ≠ .finished)

def hasRoom (b : Batch) (s : State) : Bool :=
  b.limit ≤ 0 || s.live < b.limit

def loopStep (b : Batch) (s : State) : Option State :=
  match s.phase with
  | .looping =>
    if s.workers.length < b.requests.length && s.group.isNone then
      some { s with phase := .launching }
    else some { s with phase := .waiting }
  | .launching =>
    if b.hasRoom s then some { s with phase := .looping, workers := s.workers ++ [.launched] }
    else none
  | .waiting =>
    if s.workers.all (· = .finished) then
      some { s with phase := .joined s.failure, group := s.group.or (some .cancelled) }
    else none
  | .checking => some { s with phase := .returned (.checked s.slots s.caller) }
  | .returned _ => none

def workerStep (b : Batch) (i : Nat) (q : Request) (s : State) : Worker → Option State
  | .launched => some { s with workers := s.workers.set i (.looked s.group) }
  | .cleared =>
    some { s with
      workers := s.workers.set i .stored
      slots := s.slots.set i (some (call (b.orders i) q)) }
  | .stored => some { s with workers := s.workers.set i .finished }
  | .stopped e =>
    some { s with
      workers := s.workers.set i .finished
      failure := s.failure.or (some e)
      group := s.group.or (some .cancelled) }
  | .finished => none

def step (b : Batch) (s : State) : Move → Option State
  | .loop => b.loopStep s
  | .worker i =>
    match s.workers[i]?, b.requests[i]? with
    | some w, some q => b.workerStep i q s w
    | _, _ => none
  | .relay =>
    match s.caller, s.group with
    | some e, none => some { s with group := some e }
    | _, _ => none
  | .withdraw e =>
    match s.caller with
    | none => some { s with caller := some e }
    | some _ => none

/-- The state after the moves, if each of them is possible in its turn. -/
def run (b : Batch) : List Move → State → Option State
  | [], s => some s
  | m :: ms, s => (b.step s m).bind (b.run ms)

end Batch

end Symbolic.Tool
