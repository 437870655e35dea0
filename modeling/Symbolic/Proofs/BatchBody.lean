import Mathlib.Data.List.Forall2
import Symbolic.Proofs.Ascii
import Symbolic.Proofs.RequestBody
import Symbolic.Proofs.Responses
import Symbolic.Proofs.Schedules

/-!
A batch against the calls it is made of. The texts of calls that are answered one by one, put
between brackets with commas, are read as exactly those calls, and the answer is made of their
answers in the same way.
-/

namespace Symbolic

namespace Json

end Json

namespace Service

open Json (Blank Denotes Spaced nestingLimit)

def bracketed (ts : List Bytes) : Bytes :=
  0x5B :: (List.intercalate [0x2C] ts ++ [0x5D])

/-- A request that posts one value to the place for single calls and is answered. -/
structure Answered (s : Settings) (r : Request) (t : Bytes) : Prop where
  posts : Posts r .tool t
  value : ∃ depth v, Spaced (Denotes depth) t.chars v
  status : ∃ o, (handle s o r).status = 200

section Answering
variable {s : Settings} {o : Occasion}

/-- A body that the request can be answered with, on some occasion. -/
def Gives (s : Settings) (q : Request) (body : String) : Prop :=
  ∃ o, (handle s o q).body = body

section Calls
variable {rs : List Request} {cs : List Tool.Request}
  (h : List.Forall₂ (fun r c => ∀ o, handle s o r = .tool (Tool.call (o.orders 0) c)) rs cs)
include h

end Calls

variable {rs : List Request} {ts : List Bytes} {r : Request}

end Answering

end Service

end Symbolic
