import Symbolic.Proofs.Calls
import Symbolic.Proofs.Closure
import Symbolic.Proofs.RequestBody
import Symbolic.Proofs.RoundTrip
import Symbolic.Tool.Sketched

/-!
No fault can be met. Whatever is decoded has no absent node, and no operation brings one in, so that
on trees in which nodes may be absent everything goes as it does on expressions: each call of a
tool, each request, and each sequence of operations on decoded documents.
-/

namespace Symbolic

namespace Sketch

theorem needsBrackets_ofExpr (parent : Operator) (side : Side) (e : Expr) :
    (ofExpr e).needsBrackets parent side = .ok (match parent, side with
      | .sum, .left => false
      | .sum, .right => e.isSum
      | .prod, .left => e.isSum
      | .prod, .right => !e.isLeaf) := by
  cases e <;> cases parent <;> cases side <;> rfl

theorem write_ofExpr (e : Expr) : (ofExpr e).write = .ok e.render := by
  induction e with
  | num n => rfl
  | var x => rfl
  | sum l r ihl ihr =>
    rw [ofExpr, write, ihl, ihr, needsBrackets_ofExpr, needsBrackets_ofExpr]
    rfl
  | prod l r ihl ihr =>
    rw [ofExpr, write, ihl, ihr, needsBrackets_ofExpr, needsBrackets_ofExpr]
    rfl

theorem render_ofExpr (e : Expr) : (ofExpr e).render = .ok e.render := by
  rw [← write_ofExpr]
  cases e <;> rfl

theorem hash_ofExpr (e : Expr) : (ofExpr e).hash = .ok e.hash := by
  induction e with
  | num n => rfl
  | var x => rfl
  | sum l r ihl ihr =>
    rw [ofExpr, hash, ihl, ihr]
    rfl
  | prod l r ihl ihr =>
    rw [ofExpr, hash, ihl, ihr]
    rfl

theorem equal_ofExpr (a b : Expr) : (ofExpr a).equal (ofExpr b) = .ok (decide (a = b)) := by
  induction a generalizing b with
  | num n => cases b <;> simp [ofExpr, equal, eq_comm]
  | var x => cases b <;> simp [ofExpr, equal, eq_comm]
  | sum l r ihl ihr =>
    cases b with
    | sum l' r' =>
      rw [ofExpr, ofExpr, equal, ihl, ihr]
      by_cases hl : l = l' <;> simp [hl, bind, Except.bind, pure, Except.pure]
    | num _ | var _ | prod _ _ => simp [ofExpr, equal]
  | prod l r ihl ihr =>
    cases b with
    | prod l' r' =>
      rw [ofExpr, ofExpr, equal, ihl, ihr]
      by_cases hl : l = l' <;> simp [hl, bind, Except.bind, pure, Except.pure]
    | num _ | var _ | sum _ _ => simp [ofExpr, equal]

/-- The names are added in the order of the walk, whatever it meets afterwards. -/
theorem names_walkOnto (e : Expr) (rest : List Expr) (seen : List String) :
    ∃ names, (ofExpr e).names seen = .ok names ∧
      ((e.walkOnto (fun _ => true) rest).filterMap Expr.name?).foldl
          (fun names x => insertName x names) seen =
        (rest.filterMap Expr.name?).foldl (fun names x => insertName x names) names := by
  induction e generalizing rest seen with
  | num n => exact ⟨seen, rfl, rfl⟩
  | var x => exact ⟨insertName x seen, rfl, rfl⟩
  | sum l r ihl ihr =>
    obtain ⟨mid, hl, hlw⟩ := ihl (r.walkOnto (fun _ => true) rest) seen
    obtain ⟨names, hr, hrw⟩ := ihr rest mid
    refine ⟨names, ?_, hlw.trans hrw⟩
    rw [ofExpr, Sketch.names, hl]
    exact hr
  | prod l r ihl ihr =>
    obtain ⟨mid, hl, hlw⟩ := ihl (r.walkOnto (fun _ => true) rest) seen
    obtain ⟨names, hr, hrw⟩ := ihr rest mid
    refine ⟨names, ?_, hlw.trans hrw⟩
    rw [ofExpr, Sketch.names, hl]
    exact hr

theorem freeNames_ofExpr (e : Expr) : (ofExpr e).freeNames = .ok e.freeNames := by
  obtain ⟨names, hn, hw⟩ := names_walkOnto e [] []
  rw [freeNames, hn, Expr.freeNames, Expr.walk, hw]
  rfl

end Sketch

namespace Tool.Sketched

open Json (Members)
open Sketch (ofExpr)

theorem treeParam_eq_map (params : Members) (key : String) :
    Tool.treeParam Sketch.decode params key = (exprParam params key).map ofExpr := by
  rw [exprParam, Tool.treeParam, Tool.treeParam]
  cases params.get? key with
  | none => rfl
  | some v =>
    cases v with
    | object m =>
      simp only [Sketch.decode_eq_map]
      exact (map_mapError ofExpr (CallError.notExpr key) (Expr.decode m)).symm
    | null | bool | number | string | array => rfl

theorem respond_ofExpr (e : Expr) :
    (liftM (respond (ofExpr e)) : Attempt Response) = checked (.ok (Tool.respond e)) := by
  rw [respond, Expr.sketch_toJson, Sketch.render_ofExpr]
  rfl

theorem treeParam_bind {α : Type} (params : Members) (key : String) (f : Sketch → Attempt α) :
    (treeParam params key >>= f) =
      checked (exprParam params key) >>= fun e => f (ofExpr e) := by
  rw [treeParam, treeParam_eq_map]
  cases exprParam params key <;> rfl

theorem checked_bind {α β : Type} {x : Except CallError α} {f : α → Attempt β}
    {g : α → Except CallError β} (h : ∀ a, f a = checked (g a)) :
    (checked x >>= f) = checked (x >>= g) := by
  cases x with
  | error d => rfl
  | ok a => exact h a

/-- On trees in which nodes may be absent, a tool does what it does on expressions. -/
theorem run_eq_checked (o : MemberOrder) (params : Members) (t : Tool) :
    run o params t = checked (t.run o params) := by
  cases t with
  | render =>
    rw [run, treeParam_bind]
    exact checked_bind respond_ofExpr
  | diff =>
    rw [run, treeParam_bind]
    refine checked_bind fun e => checked_bind fun v => ?_
    rw [Sketch.diff_ofExpr]
    exact respond_ofExpr (e.diff v)
  | simplify =>
    rw [run, treeParam_bind]
    refine checked_bind fun e => checked_bind fun env => ?_
    rw [Sketch.simplify_ofExpr]
    exact respond_ofExpr (e.simplify env)
  | equal =>
    rw [run, treeParam_bind]
    refine checked_bind fun a => ?_
    rw [treeParam_bind]
    refine checked_bind fun b => ?_
    rw [Sketch.equal_ofExpr]
    rfl
  | hash =>
    rw [run, treeParam_bind]
    refine checked_bind fun e => ?_
    rw [Sketch.hash_ofExpr]
    rfl
  | freeVariables =>
    rw [run, treeParam_bind]
    refine checked_bind fun e => ?_
    rw [Sketch.freeNames_ofExpr]
    rfl
  | catalogue => rfl

theorem call_eq_ok (o : MemberOrder) (r : Request) : call o r = .ok (Tool.call o r) := by
  rw [call, Tool.call]
  cases ofName? r.tool with
  | none => rfl
  | some t =>
    simp only [run_eq_checked]
    cases t.run o r.params <;> rfl

end Tool.Sketched

namespace Service

def Plan.perform (o : Occasion) : Plan → Except Sketch.Fault Reply
  | .reply r => .ok r
  | .tool q => return .tool (← Tool.Sketched.call (o.orders 0) q)
  | .batch qs =>
    return .batch (← qs.zipIdx.mapM fun (q, i) => Tool.Sketched.call (o.orders i) q)

/-- The answer that is sent. Where there was a fault, the service has failed. -/
def recovered : Except Sketch.Fault Reply → Reply
  | .ok r => r
  | .error _ => .failed

theorem Plan.perform_eq_ok (o : Occasion) (p : Plan) : p.perform o = .ok (p.carryOut o) := by
  cases p with
  | reply r => rfl
  | tool q =>
    rw [perform, Tool.Sketched.call_eq_ok]
    rfl
  | batch qs =>
    have hc : (fun qi : Tool.Request × Nat => Tool.Sketched.call (o.orders qi.2) qi.1) =
        fun qi => pure (Tool.call (o.orders qi.2) qi.1) :=
      funext fun qi => Tool.Sketched.call_eq_ok (o.orders qi.2) qi.1
    rw [perform, hc, List.mapM_pure, carryOut, Tool.callAll, List.mapIdx_eq_zipIdx_map]
    rfl

theorem status_eq_failed {r : Reply} (h : r.status = 500) : r = .failed := by
  cases r <;> simp_all [Reply.status]

theorem posted_eq_failed {α : Type} {s : Settings} {o : Occasion} {r : Request}
    {decode : Json → Except BodyError α} {answer : α → Reply}
    (h : posted s o r decode answer = .failed) : r.body = .crash ∨ ∃ a, answer a = .failed := by
  unfold posted at h
  split at h
  · simp at h
  · split at h
    · next hb => exact .inl hb
    · simp at h
    · split at h
      · simp at h
      · next a _ => exact .inr ⟨a, h⟩

theorem answerBatch_ne_failed (s : Settings) (o : Occasion) (cancelled : Bool)
    (requests : List Tool.Request) : answerBatch s o cancelled requests ≠ .failed := by
  unfold answerBatch
  split
  · simp
  · split <;> simp

/-- The service itself fails only over a body that cannot be read without a crash. -/
theorem body_eq_crash_of_failed {s : Settings} {o : Occasion} {r : Request}
    (h : handle s o r = .failed) : r.body = .crash := by
  unfold handle at h
  split at h
  · simp at h
  split at h
  · unfold answer at h
    split at h
    · simp at h
    · rcases posted_eq_failed h with hb | ⟨q, hq⟩
      · exact hb
      · simp at hq
    · rcases posted_eq_failed h with hb | ⟨qs, hq⟩
      · exact hb
      · exact absurd hq (answerBatch_ne_failed s o r.cancelled qs)
    · simp at h
    · simp at h
  · simp at h

end Service

namespace Sketch

/-- No node of the tree is absent. -/
def Whole (s : Sketch) : Prop :=
  ∃ e, s = ofExpr e

/-- One use of an operation. Trees are referred to by their places, from zero on in the order in
which they were made. -/
inductive Use where
  | parse (text : List Char)
  | render (i : Nat)
  | hash (i : Nat)
  | equal (i j : Nat)
  | toJson (i : Nat)
  | freeNames (i : Nat)
  | diffN (v : String) (n : Int) (i : Nat)
  | simplify (env : Bindings) (i : Nat)

def asked {α : Type} (trees : List Sketch) (i : Nat) (f : Sketch → Except Fault α) :
    Except Fault (List Sketch) := do
  let _ ← trees[i]?.mapM f
  return []

def changed (trees : List Sketch) (i : Nat) (f : Sketch → Except Fault Sketch) :
    Except Fault (List Sketch) :=
  return (← trees[i]?.mapM f).toList

/-- The trees that a use makes out of those made before. A text that is refused makes none. -/
def Use.made (trees : List Sketch) : Use → Except Fault (List Sketch)
  | .parse text => .ok (Sketch.parse text).toOption.toList
  | .render i => asked trees i Sketch.render
  | .hash i => asked trees i Sketch.hash
  | .equal i j => asked trees i fun a => trees[j]?.mapM a.equal
  | .toJson i => asked trees i Sketch.toJson
  | .freeNames i => asked trees i Sketch.freeNames
  | .diffN v n i => changed trees i (Sketch.diffN v n)
  | .simplify env i => changed trees i (Sketch.simplify env)

def uses : List Use → List Sketch → Except Fault (List Sketch)
  | [], trees => .ok trees
  | u :: us, trees => do uses us (trees ++ (← u.made trees))

section Uses
variable {trees : List Sketch}

theorem asked_eq_ok {α : Type} (h : ∀ s ∈ trees, s.Whole) (i : Nat)
    {f : Sketch → Except Fault α} (hf : ∀ e, ∃ a, f (ofExpr e) = .ok a) :
    asked trees i f = .ok [] := by
  rw [asked]
  cases hi : trees[i]? with
  | none => rfl
  | some s =>
    obtain ⟨e, rfl⟩ := h s (List.mem_of_getElem? hi)
    obtain ⟨a, ha⟩ := hf e
    rw [Option.mapM_some, ha]
    rfl

theorem changed_eq_ok (h : ∀ s ∈ trees, s.Whole) (i : Nat)
    {f : Sketch → Except Fault Sketch} {g : Expr → Expr}
    (hf : ∀ e, f (ofExpr e) = .ok (ofExpr (g e))) :
    ∃ new, changed trees i f = .ok new ∧ ∀ s ∈ new, s.Whole := by
  rw [changed]
  cases hi : trees[i]? with
  | none => exact ⟨[], rfl, by simp⟩
  | some s =>
    obtain ⟨e, rfl⟩ := h s (List.mem_of_getElem? hi)
    refine ⟨[ofExpr (g e)], ?_, by simp [Whole]⟩
    rw [Option.mapM_some, hf]
    rfl

theorem whole_of_parse {cs : List Char} {s : Sketch} (h : parse cs = .ok s) : s.Whole := by
  rw [parse_eq_map] at h
  obtain ⟨e, -, he⟩ := map_eq_ok.mp h
  exact ⟨e, he.symm⟩

theorem Use.made_eq_ok (h : ∀ s ∈ trees, s.Whole) (u : Use) :
    ∃ new, u.made trees = .ok new ∧ ∀ s ∈ new, s.Whole := by
  cases u with
  | parse cs =>
    refine ⟨_, rfl, ?_⟩
    intro s hs
    cases hp : Sketch.parse cs with
    | error d => simp [hp, Except.toOption] at hs
    | ok t =>
      obtain rfl : s = t := by simpa [hp, Except.toOption] using hs
      exact whole_of_parse hp
  | render i => exact ⟨[], asked_eq_ok h i fun e => ⟨_, render_ofExpr e⟩, by simp⟩
  | hash i => exact ⟨[], asked_eq_ok h i fun e => ⟨_, hash_ofExpr e⟩, by simp⟩
  | equal i j =>
    refine ⟨[], asked_eq_ok h i fun a => ?_, by simp⟩
    cases hj : trees[j]? with
    | none => exact ⟨none, rfl⟩
    | some s =>
      obtain ⟨b, rfl⟩ := h s (List.mem_of_getElem? hj)
      exact ⟨some (decide (a = b)), by rw [Option.mapM_some, equal_ofExpr]; rfl⟩
  | toJson i => exact ⟨[], asked_eq_ok h i fun e => ⟨_, Expr.sketch_toJson e⟩, by simp⟩
  | freeNames i => exact ⟨[], asked_eq_ok h i fun e => ⟨_, freeNames_ofExpr e⟩, by simp⟩
  | diffN v n i => exact changed_eq_ok h i fun e => diffTimes_ofExpr v n.toNat e
  | simplify env i => exact changed_eq_ok h i (simplify_ofExpr env)

theorem uses_eq_ok (h : ∀ s ∈ trees, s.Whole) (us : List Use) :
    ∃ all, uses us trees = .ok all ∧ ∀ s ∈ all, s.Whole := by
  induction us generalizing trees with
  | nil => exact ⟨trees, rfl, h⟩
  | cons u us ih =>
    obtain ⟨new, hn, hw⟩ := u.made_eq_ok h
    have ha : ∀ s ∈ trees ++ new, s.Whole := by
      intro s hs
      exact (List.mem_append.mp hs).elim (h s) (hw s)
    obtain ⟨all, hr, hall⟩ := ih ha
    refine ⟨all, ?_, hall⟩
    rw [uses, hn]
    exact hr

end Uses

end Sketch

/-- Where nodes may be absent, every call of a tool still comes to its response; every request is
answered as it should be, and never by a failure of the service unless its body crashes the reader;
and over documents that were read, no sequence of operations meets an absent node. -/
theorem never_faults :
    (∀ (o : Tool.MemberOrder) (r : Tool.Request), Tool.Sketched.call o r = .ok (Tool.call o r)) ∧
    (∀ (s : Settings) (o : Service.Occasion) (r : Service.Request),
      Service.recovered ((Service.plan s o r).perform o) = Service.handle s o r ∧
      (r.body ≠ .crash → (Service.recovered ((Service.plan s o r).perform o)).status ≠ 500)) ∧
    ∀ trees : List Sketch, (∀ t ∈ trees, ∃ cs, Sketch.parse cs = .ok t) →
      ∀ us, ∃ all, Sketch.uses us trees = .ok all := by
  have hr (s : Settings) (o : Service.Occasion) (r : Service.Request) :
      Service.recovered ((Service.plan s o r).perform o) = Service.handle s o r := by
    rw [Service.Plan.perform_eq_ok, Service.recovered, Service.handle_eq_carryOut]
  refine ⟨Tool.Sketched.call_eq_ok, fun s o r => ⟨hr s o r, ?_⟩, ?_⟩
  · intro hb hs
    rw [hr] at hs
    exact hb (Service.body_eq_crash_of_failed (Service.status_eq_failed hs))
  · intro trees ht us
    have hw : ∀ t ∈ trees, t.Whole := by
      intro t hm
      obtain ⟨cs, hcs⟩ := ht t hm
      exact Sketch.whole_of_parse hcs
    obtain ⟨all, ha, -⟩ := Sketch.uses_eq_ok hw us
    exact ⟨all, ha⟩

theorem never_faults_variable :
    let o := Service.Occasion.plain
    let p := Service.plan .default o (Service.post .tool Service.renderCall)
    let us : List Sketch.Use := [.diffN "x" 2 0, .simplify .empty 1, .equal 2 0, .render 2, .hash 1,
      .toJson 0, .freeNames 0]
    (Service.recovered (p.perform o)).status ≠ 500 ∧ ∃ all, Sketch.uses us [.var "x"] = .ok all := by
  refine ⟨(never_faults.2.1 _ _ _).2 nofun, never_faults.2.2 _ ?_ _⟩
  intro t ht
  obtain rfl : t = .var "x" := by simpa using ht
  exact ⟨"\x7b\"type\":\"variable\",\"name\":\"x\"\x7d".toList, by decide +kernel⟩

-- An absent node that is given is met by the operations that tell the kinds of nodes.
example : Sketch.uses [.diffN "x" 0 0, .hash 1] [.sum .absent (.var "x")] = .error .unhandled := rfl

end Symbolic
