import Symbolic.Proofs.Parameters
import Symbolic.Proofs.RoundTrip

/-!
What calls of tools are answered with, and answers as parameters of further calls. A tool that
answers with an expression gives the object of a well-formed one, so the object is taken back as it
stands: rendering it gives the same response again, and so does simplifying it under the bindings
that it was simplified under. The order in which members are come upon shows in a response only where
it names one of several bindings that are no numbers.
-/

namespace Symbolic.Tool

open Json (Members)

theorem append_ne_empty {s : String} (h : s ≠ "") (t : String) : s ++ t ≠ "" :=
  fun he => h (String.append_eq_empty_iff.mp he).1

theorem leafMessage_ne_empty (cause : LeafError) : cause.message ≠ "" := by
  cases cause with
  | numeral t => exact append_ne_empty (by decide) _
  | value x => exact append_ne_empty (by decide) _
  | name t => exact append_ne_empty (by decide) _

theorem CallError.message_ne_empty (cause : CallError) : cause.message ≠ "" := by
  cases cause with
  | notName cause => exact leafMessage_ne_empty cause
  | missing key => exact append_ne_empty (by decide) _
  | notObject key => exact append_ne_empty (by decide) _
  | notExpr key cause =>
    exact append_ne_empty (append_ne_empty (append_ne_empty (by decide) _) _) _
  | notString key => exact append_ne_empty (append_ne_empty (by decide) _) _
  | notEnvironment key => exact append_ne_empty (append_ne_empty (by decide) _) _
  | notNumber key name =>
    exact append_ne_empty (append_ne_empty (append_ne_empty (append_ne_empty (by decide) _) _) _) _
  | unknownTool name => exact append_ne_empty (by decide) _

theorem ofName?_name (t : Tool) : ofName? t.name = some t := by
  cases t <;> rfl

theorem ofName?_eq_some_iff {s : String} {t : Tool} : ofName? s = some t ↔ s = t.name := by
  constructor
  · intro h
    have hn := List.find?_some h
    exact (of_decide_eq_true hn).symm
  · rintro rfl
    exact ofName?_name t

theorem name_inj {t u : Tool} (h : t.name = u.name) : t = u := by
  have ht := ofName?_name t
  rw [h, ofName?_name] at ht
  exact (Option.some.inj ht).symm

section Runs
variable {o : MemberOrder} {t : Tool} {params : Members} {r : Response}

theorem call_of_run (h : t.run o params = .ok r) : call o ⟨t.name, params⟩ = r := by
  rw [call, ofName?_name]
  simp only [h]

theorem error_of_run (h : t.run o params = .ok r) : r.error = "" := by
  cases t with
  | render | hash | freeVariables =>
    obtain ⟨e, -, rfl⟩ := bind_pure_eq_ok.mp h
    rfl
  | diff | simplify | equal =>
    obtain ⟨e, p, -, -, rfl⟩ := bind_bind_pure_eq_ok.mp h
    rfl
  | catalogue =>
    cases h
    rfl

theorem error_call_eq_empty_iff :
    (call o ⟨t.name, params⟩).error = "" ↔ ∃ r, t.run o params = .ok r := by
  constructor
  · intro h
    cases hr : t.run o params with
    | ok r => exact ⟨r, rfl⟩
    | error cause =>
      rw [call, ofName?_name] at h
      simp only [hr] at h
      exact absurd h cause.message_ne_empty
  · rintro ⟨r, hr⟩
    rw [call_of_run hr]
    exact error_of_run hr

-- Of two bindings that are no numbers, the one that is come upon first is named.
example :
    let q : Request := ⟨"simplify", [("expr", Expr.toJson (.var "x")),
      ("env", .object [("a", .string "p"), ("b", .string "q")])]⟩
    (call .written q).error = "param env.a must be a number" ∧
      (call ⟨List.reverse, List.reverse_perm⟩ q).error = "param env.b must be a number" := by
  decide +kernel

theorem exprParam_toJson {key : String} {e : Expr} (h : e.WellFormed)
    (hp : params.get? key = some e.toJson) : exprParam params key = .ok e :=
  exprParam_eq_ok_iff.mpr ⟨e.toMembers, hp.trans (by rw [Expr.toJson_eq_object]),
    Expr.decode_toMembers h⟩

theorem wellFormed_of_exprParam {key : String} {e : Expr} (h : exprParam params key = .ok e) :
    e.WellFormed := by
  obtain ⟨m, -, hm⟩ := exprParam_eq_ok_iff.mp h
  exact Expr.wellFormed_of_decode hm

/-- What a tool gives if it answers with an expression: the expression is well-formed, and it stays
as it is under the bindings that it was simplified under. -/
theorem exists_expr_of_run (ht : t = .render ∨ t = .diff ∨ t = .simplify)
    (h : t.run o params = .ok r) :
    ∃ e : Expr, e.WellFormed ∧ r = respond e ∧
      (t = .simplify → ∃ env, envParam o params "env" = .ok env ∧ e.simplify env = e) := by
  obtain rfl | rfl | rfl := ht
  · obtain ⟨e, he, rfl⟩ := bind_pure_eq_ok.mp h
    exact ⟨e, wellFormed_of_exprParam he, rfl, nofun⟩
  · obtain ⟨e, v, he, -, rfl⟩ := bind_bind_pure_eq_ok.mp h
    exact ⟨e.diff v, (wellFormed_of_exprParam he).diff v, rfl, nofun⟩
  · obtain ⟨e, env, he, henv, rfl⟩ := bind_bind_pure_eq_ok.mp h
    exact ⟨e.simplify env, (wellFormed_of_exprParam he).simplify env, rfl,
      fun _ => ⟨env, henv, e.simplify_idem env⟩⟩

end Runs

/-- The result of a call that renders, differentiates or simplifies without an error is a parameter
that renders to the same response. If the call simplified, simplifying its result under the same
bindings gives the same response as well. -/
theorem call_again {o : MemberOrder} {q : Request} (ht : q.tool ∈ ["render", "diff", "simplify"])
    (h : (call o q).error = "") :
    ∃ v text, call o q = { result := some v, string := text } ∧
      (∀ (o' : MemberOrder) (params : Members), params.get? "expr" = some v →
        call o' ⟨"render", params⟩ = call o q) ∧
      (q.tool = "simplify" → ∀ (o' : MemberOrder) (params : Members),
        params.get? "expr" = some v → params.get? "env" = q.params.get? "env" →
        call o' ⟨"simplify", params⟩ = call o q) := by
  obtain ⟨name, params⟩ := q
  obtain ⟨t, htree, rfl⟩ : ∃ t : Tool, (t = .render ∨ t = .diff ∨ t = .simplify) ∧ name = t.name := by
    simp only [List.mem_cons, List.not_mem_nil, or_false] at ht
    obtain rfl | rfl | rfl := ht
    · exact ⟨.render, .inl rfl, rfl⟩
    · exact ⟨.diff, .inr (.inl rfl), rfl⟩
    · exact ⟨.simplify, .inr (.inr rfl), rfl⟩
  obtain ⟨r, hr⟩ := error_call_eq_empty_iff.mp h
  obtain ⟨e, he, rfl, hs⟩ := exists_expr_of_run htree hr
  rw [call_of_run hr]
  refine ⟨e.toJson, e.render, rfl, ?_, ?_⟩
  · intro o' params' hv
    have hexpr := exprParam_toJson he hv
    exact call_of_run (t := .render) (bind_pure_eq_ok.mpr ⟨e, hexpr, rfl⟩)
  · intro hn o' params' hv henv'
    obtain ⟨env, henv, hidem⟩ := hs (name_inj (u := .simplify) hn)
    obtain ⟨env', hbind, hx⟩ := envParam_congr henv o'
    have hexpr := exprParam_toJson he hv
    have hsame : envParam o' params' "env" = .ok env' := by
      rw [← hbind, envParam, envParam, henv']
    refine call_of_run (t := .simplify) (bind_bind_pure_eq_ok.mpr ⟨e, env', hexpr, hsame, ?_⟩)
    rw [Expr.simplify_congr hx e, hidem]

theorem call_again_partial :
    let tree := Json.object [("type", .string "product"),
      ("left", .object [("type", .string "variable"), ("name", .string "x")]),
      ("right", .object [("type", .string "variable"), ("name", .string "y")])]
    let env := Json.object [("x", .number ⟨0x3FD5555555555555⟩), ("y", .number ⟨0xBFF0000000000000⟩)]
    let o := MemberOrder.written
    let r := call o ⟨"simplify", [("expr", tree), ("env", env)]⟩
    r.error = "" ∧ ∃ v text, r = { result := some v, string := text } ∧
      call o ⟨"render", [("expr", v)]⟩ = r ∧
      call o ⟨"simplify", [("expr", v), ("env", env)]⟩ = r := by
  intro tree env o r
  have he : r.error = "" := by decide +kernel
  obtain ⟨v, text, hv, hrender, hsimplify⟩ := call_again (by simp) he
  exact ⟨he, v, text, hv, hrender o _ rfl, hsimplify rfl o _ rfl rfl⟩

end Symbolic.Tool
