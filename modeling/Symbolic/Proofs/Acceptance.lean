import Symbolic.Proofs.Faultless
import Symbolic.Proofs.Rendering
import Symbolic.Proofs.Responses

/-!
Which calls are answered. A tool that finds its parameters right answers with a text that is never
empty, and with a value unless it is the catalogue; a call that fails has neither. So whether a call
was answered can be told from its error alone, and from its text as well.
-/

namespace Symbolic

theorem append_ne_empty_of_right (s : String) {t : String} (h : t ≠ "") : s ++ t ≠ "" :=
  fun he => h (String.append_eq_empty_iff.mp he).2

theorem ofList_ne_empty {cs : List Char} (h : cs ≠ []) : String.ofList cs ≠ "" := by
  intro he
  apply h
  simpa using congrArg String.toList he

theorem hexPadded_ne_empty {width : Nat} (h : 0 < width) (n : Nat) : hexPadded width n ≠ "" := by
  apply ofList_ne_empty
  intro he
  obtain ⟨hz, hd⟩ := List.append_eq_nil_iff.mp he
  rw [hd, List.length_nil, List.replicate_eq_nil_iff] at hz
  omega

theorem Json.block_ne_empty {opening : String} (h : opening ≠ "") (closing : String) (level : Nat)
    (parts : List String) : block opening closing level parts ≠ "" := by
  rw [block]
  split
  · exact Tool.append_ne_empty h _
  · simp only [String.append_assoc]
    exact Tool.append_ne_empty h _

theorem Expr.render_ne_empty {e : Expr} (h : e.WellFormed) : e.render ≠ "" := by
  cases e with
  | num n => exact ofList_ne_empty (Number.text_ne_nil h)
  | var x =>
    rintro rfl
    cases h
  | sum l r =>
    exact Tool.append_ne_empty (append_ne_empty_of_right _ (by decide)) _
  | prod l r =>
    exact Tool.append_ne_empty (append_ne_empty_of_right _ (by decide)) _

namespace Tool

open Json (Members)

theorem catalogueText_ne_empty : catalogueText ≠ "" := by
  rw [catalogueText, Json.indented]
  exact Json.block_ne_empty (by decide) _ _ _

theorem string_of_run {o : MemberOrder} {t : Tool} {params : Members} {r : Response}
    (h : t.run o params = .ok r) : r.string ≠ "" ∧ (r.result = none ↔ t = .catalogue) := by
  cases t with
  | render =>
    obtain ⟨e, he, rfl⟩ := bind_pure_eq_ok.mp h
    exact ⟨Expr.render_ne_empty (wellFormed_of_exprParam he), nofun, nofun⟩
  | diff =>
    obtain ⟨e, v, he, -, rfl⟩ := bind_bind_pure_eq_ok.mp h
    exact ⟨Expr.render_ne_empty ((wellFormed_of_exprParam he).diff v), nofun, nofun⟩
  | simplify =>
    obtain ⟨e, env, he, -, rfl⟩ := bind_bind_pure_eq_ok.mp h
    exact ⟨Expr.render_ne_empty ((wellFormed_of_exprParam he).simplify env), nofun, nofun⟩
  | equal =>
    obtain ⟨a, b, -, -, rfl⟩ := bind_bind_pure_eq_ok.mp h
    refine ⟨?_, nofun, nofun⟩
    simp only [boolText]
    split
    · decide
    · decide
  | hash =>
    obtain ⟨e, -, rfl⟩ := bind_pure_eq_ok.mp h
    exact ⟨hexPadded_ne_empty (by decide) _, nofun, nofun⟩
  | freeVariables =>
    obtain ⟨e, -, rfl⟩ := bind_pure_eq_ok.mp h
    exact ⟨append_ne_empty_of_right _ (by decide), nofun, nofun⟩
  | catalogue =>
    cases h
    exact ⟨catalogueText_ne_empty, fun _ => rfl, fun _ => rfl⟩

/-- The parameter is an object that denotes an expression. -/
def GivesExpr (params : Members) (key : String) : Prop :=
  ∃ m e, params.get? key = some (.object m) ∧ Expr.decode m = .ok e

/-- What a tool asks of its parameters. -/
def Accepts (params : Members) : Tool → Prop
  | .render | .hash | .freeVariables => GivesExpr params "expr"
  | .diff => GivesExpr params "expr" ∧
      ∃ s, params.get? "var" = some (.string s) ∧ Letters s.toList
  | .simplify => GivesExpr params "expr" ∧
      (params.get? "env" = none ∨ params.get? "env" = some .null ∨
        ∃ m, params.get? "env" = some (.object m) ∧ Numeric m)
  | .equal => GivesExpr params "a" ∧ GivesExpr params "b"
  | .catalogue => True

theorem exists_run_iff {o : MemberOrder} {t : Tool} {params : Members} :
    (∃ r, t.run o params = .ok r) ↔ t.Accepts params := by
  cases t with
  | render | hash | freeVariables => exact exists_bind_pure_iff.trans exists_exprParam_iff
  | diff =>
    exact exists_bind_bind_pure_iff.trans (and_congr exists_exprParam_iff exists_nameParam_iff)
  | simplify =>
    exact exists_bind_bind_pure_iff.trans (and_congr exists_exprParam_iff exists_envParam_iff)
  | equal =>
    exact exists_bind_bind_pure_iff.trans (and_congr exists_exprParam_iff exists_exprParam_iff)
  | catalogue => exact ⟨fun _ => trivial, fun _ => ⟨_, rfl⟩⟩

theorem call_cases (o : MemberOrder) (q : Request) :
    (∃ (t : Tool) (r : Response), q.tool = t.name ∧ t.run o q.params = .ok r ∧ call o q = r) ∨
      (∃ cause : CallError, call o q = { error := cause.message }) ∧
        ∀ t : Tool, q.tool = t.name → ¬ t.Accepts q.params := by
  rw [call]
  cases ht : ofName? q.tool with
  | none =>
    refine .inr ⟨⟨_, rfl⟩, ?_⟩
    intro t hn
    rw [ofName?_eq_some_iff.mpr hn] at ht
    cases ht
  | some t =>
    dsimp only
    cases hr : t.run o q.params with
    | ok r => exact .inl ⟨t, r, ofName?_eq_some_iff.mp ht, hr, rfl⟩
    | error cause =>
      refine .inr ⟨⟨cause, rfl⟩, ?_⟩
      intro u hu ha
      obtain rfl : t = u := name_inj ((ofName?_eq_some_iff.mp ht).symm.trans hu)
      obtain ⟨r, hr'⟩ := (exists_run_iff (o := o)).mpr ha
      rw [hr] at hr'
      cases hr'

/-- Every call gets a response. Either it reports an error and has no value and no text, or it
reports none and has a text, and then a value unless the catalogue was asked for. It reports none
exactly if the tool exists and accepts the parameters. -/
theorem call_answers_or_fails (o : MemberOrder) (q : Request) :
    Sketched.call o q = .ok (call o q) ∧
    (((call o q).error ≠ "" ∧ (call o q).result = none ∧ (call o q).string = "") ∨
      ((call o q).error = "" ∧ (call o q).string ≠ "" ∧
        ((call o q).result = none ↔ q.tool = "tool_spec"))) ∧
    ((call o q).error = "" ↔ ∃ t : Tool, q.tool = t.name ∧ t.Accepts q.params) := by
  refine ⟨Sketched.call_eq_ok o q, ?_⟩
  obtain ⟨t, r, ht, hr, hq⟩ | ⟨⟨cause, hq⟩, hn⟩ := call_cases o q
  · rw [hq, ht]
    have he := error_of_run hr
    obtain ⟨hstring, hresult⟩ := string_of_run hr
    have hspec : t.name = "tool_spec" ↔ t = .catalogue :=
      ⟨fun h => name_inj (u := .catalogue) h, fun h => by rw [h, name]⟩
    refine ⟨.inr ⟨he, hstring, hresult.trans hspec.symm⟩, ?_⟩
    exact ⟨fun _ => ⟨t, rfl, exists_run_iff.mp ⟨r, hr⟩⟩, fun _ => he⟩
  · rw [hq]
    have he : cause.message ≠ "" := cause.message_ne_empty
    refine ⟨.inl ⟨he, rfl, rfl⟩, ?_⟩
    constructor
    · intro h
      exact absurd h he
    · rintro ⟨t, ht, ha⟩
      exact absurd ha (hn t ht)

end Tool

end Symbolic
