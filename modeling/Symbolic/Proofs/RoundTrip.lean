import Symbolic.Proofs.Decoding
import Symbolic.Proofs.JsonText
import Symbolic.Proofs.Numeral
import Symbolic.Sketch

/-!
Expressions through JSON and back, as objects and as texts. The object of a well-formed expression
denotes it. Its text is legible, and an object lies inside another as a node lies below another, so
the text is read back up to the height that the reader allows and refused above it.
-/

namespace Symbolic

namespace Json

theorem isPlain_of_isLetter {c : Char} (h : isLetter c = true) : isPlain c = true := by
  refine isPlain_of_class (by decide) ?_ h
  simp only [isLetter, Bool.or_eq_true, Bool.and_eq_true, decide_eq_true_eq] at h
  omega

theorem isPlain_of_isDigit {c : Char} (h : isDigit c = true) : isPlain c = true := by
  refine isPlain_of_class (by decide) ?_ h
  simp only [isDigit, Bool.and_eq_true, decide_eq_true_eq] at h
  omega

theorem plain_of_isName {x : String} (h : isName x.toList = true) : Plain x := by
  refine List.all_eq_true.mpr fun c hc => ?_
  have hx : x.toList ≠ [] ∧ ∀ c ∈ x.toList, isLetter c = true := by simpa [isName] using h
  exact isPlain_of_isLetter (hx.2 c hc)

theorem plain_render {n : Number} (h : n.OnGrid) : Plain n.render := by
  refine List.all_eq_true.mpr fun c hc => ?_
  have ht : c ∈ n.text := by simpa [Number.render] using hc
  rcases Number.isDigit_or_point_of_mem_text h ht with hd | rfl
  · exact isPlain_of_isDigit hd
  · decide

end Json

namespace Expr

open Json (Members)

/-- The levels of a tree; a leaf has one. -/
def height : Expr → Nat
  | .num _ | .var _ => 1
  | .sum l r | .prod l r => max l.height r.height + 1

def toMembers : Expr → Members
  | .num n => [("type", .string "number"), ("value", .string n.render)]
  | .var x => [("name", .string x), ("type", .string "variable")]
  | .sum l r => [("left", l.toJson), ("right", r.toJson), ("type", .string "sum")]
  | .prod l r => [("left", l.toJson), ("right", r.toJson), ("type", .string "product")]

theorem toJson_eq_object (e : Expr) : e.toJson = .object e.toMembers := by
  cases e <;> rfl

theorem decode_pair (op : Operator) {ml mr : Members} {l r : Expr} (hl : decode ml = .ok l)
    (hr : decode mr = .ok r) :
    decode [("left", .object ml), ("right", .object mr), ("type", .string op.label)] =
      .ok (op.apply l r) := by
  refine decode_eq_ok_iff.mpr (.inr (.inr ⟨op, l, r, ml, mr, ?_, ?_, hl, ?_, hr, rfl⟩))
  · cases op <;> rfl
  · simp [Members.get?]
  · simp [Members.get?]

theorem decode_toMembers {e : Expr} (h : e.WellFormed) : decode e.toMembers = .ok e := by
  induction e with
  | num n =>
    have hn : decodeNumber (toMembers (.num n)) = .ok (.num n) := by
      have hp : Number.parse? n.text = some n := Number.parse?_text h
      simp [decodeNumber, toMembers, Members.get?, ofNumeral, Number.render, hp]
    exact decode_eq_ok_iff.mpr (.inl ⟨rfl, hn⟩)
  | var x =>
    have hn : decodeName (toMembers (.var x)) = .ok (.var x) := by
      have hx : isName x.toList = true := h
      simp [decodeName, toMembers, Members.get?, ofName, hx]
    exact decode_eq_ok_iff.mpr (.inr (.inl ⟨rfl, hn⟩))
  | sum l r ihl ihr =>
    rw [toMembers, toJson_eq_object l, toJson_eq_object r]
    exact decode_pair .sum (ihl h.1) (ihr h.2)
  | prod l r ihl ihr =>
    rw [toMembers, toJson_eq_object l, toJson_eq_object r]
    exact decode_pair .prod (ihl h.1) (ihr h.2)

theorem nesting_toJson (e : Expr) : e.toJson.nesting = e.height := by
  induction e with
  | num n => rfl
  | var x => rfl
  | sum l r ihl ihr => simp [toJson, Json.nesting, Json.membersNesting, height, ihl, ihr]
  | prod l r ihl ihr => simp [toJson, Json.nesting, Json.membersNesting, height, ihl, ihr]

theorem isFinite_toJson (e : Expr) : e.toJson.isFinite = true := by
  induction e with
  | num n => rfl
  | var x => rfl
  | sum l r ihl ihr => simp [toJson, Json.isFinite, Json.membersFinite, ihl, ihr]
  | prod l r ihl ihr => simp [toJson, Json.isFinite, Json.membersFinite, ihl, ihr]

theorem legible_pair {bound : Nat} (hb : 3 ≤ bound) (op : Operator) {l r : Json}
    (hl : Json.Legible bound l) (hr : Json.Legible bound r) :
    Json.Legible bound (.object [("left", l), ("right", r), ("type", .string op.label)]) := by
  have hop : Json.Plain op.label := by cases op <;> decide +kernel
  refine .object (by simp) (by simpa using hb) ?_ ?_
  · simp only [List.forall_mem_cons, List.not_mem_nil, false_implies, implies_true, and_true]
    decide +kernel
  · simp only [List.forall_mem_cons, List.not_mem_nil, false_implies, implies_true, and_true]
    exact ⟨hl, hr, .string hop⟩

theorem legible_leaf {bound : Nat} (hb : 3 ≤ bound) {k k' s s' : String} (hk : Json.Plain k)
    (hs : Json.Plain s) (hk' : Json.Plain k') (hs' : Json.Plain s') :
    Json.Legible bound (.object [(k, .string s), (k', .string s')]) := by
  refine .object (by simp) (by simp only [List.length_cons, List.length_nil]; omega) ?_ ?_
  · simp [hk, hk']
  · simpa using ⟨.string hs, .string hs'⟩

theorem legible_toJson {bound : Nat} (hb : 3 ≤ bound) {e : Expr} (h : e.WellFormed) :
    Json.Legible bound e.toJson := by
  induction e with
  | num n =>
    exact legible_leaf hb (by decide +kernel) (by decide +kernel) (by decide +kernel)
      (Json.plain_render h)
  | var x =>
    exact legible_leaf hb (by decide +kernel) (Json.plain_of_isName h) (by decide +kernel)
      (by decide +kernel)
  | sum l r ihl ihr => exact legible_pair hb .sum (ihl h.1) (ihr h.2)
  | prod l r ihl ihr => exact legible_pair hb .prod (ihl h.1) (ihr h.2)

theorem length_compact_toJson (e : Expr) : 3 ≤ e.toJson.compact.toList.length := by
  have hne : e.toMembers ≠ [] := by cases e <;> simp [toMembers]
  obtain ⟨t, ht⟩ := Json.compactMembers_head hne ['\x7d']
  have hc := Json.toList_compact_object e.toMembers []
  rw [ht, List.append_nil, ← toJson_eq_object] at hc
  have hb : t ≠ [] := by
    rintro rfl
    have := congrArg List.getLast? ht
    simp at this
  rw [hc]
  have := List.length_pos_iff.mpr hb
  simp only [List.length_cons]
  omega

/-- The text is read back if the tree is not too high, and refused as a text otherwise. -/
theorem json_parse_compact {e : Expr} (h : e.WellFormed) :
    Json.parse e.toJson.compact.toList =
      if e.height ≤ Json.nestingLimit then .ok e.toJson else .error .malformed := by
  have hr := (legible_toJson (length_compact_toJson e) h).readsBack Json.nestingLimit []
  rw [List.append_nil, nesting_toJson] at hr
  rw [Json.parse, Json.value, hr]
  by_cases hh : e.height ≤ Json.nestingLimit
  · simp [hh, bind, Except.bind, Json.skipSpace, pure, Except.pure]
  · simp [hh, bind, Except.bind]

theorem parse_compact {e : Expr} (h : e.WellFormed) :
    Expr.parse e.toJson.compact.toList =
      if e.height ≤ Json.nestingLimit then .ok e else .error .malformed := by
  have hf := isFinite_toJson e
  rw [toJson_eq_object, Json.isFinite] at hf
  rw [Expr.parse, json_parse_compact h]
  by_cases hh : e.height ≤ Json.nestingLimit
  · simp [hh, toJson_eq_object, hf, decode_toMembers h]
  · simp [hh]

theorem sketch_toJson (e : Expr) : (Sketch.ofExpr e).toJson = .ok e.toJson := by
  induction e with
  | num n => rfl
  | var x => rfl
  | sum l r ihl ihr =>
    rw [Sketch.ofExpr, Sketch.toJson, ihl, ihr]
    rfl
  | prod l r ihl ihr =>
    rw [Sketch.ofExpr, Sketch.toJson, ihl, ihr]
    rfl

/-- A well-formed expression is written as an object that denotes it, never with a fault. Its text is
read back exactly up to height 10000, and above it is an error of the text. -/
theorem json_roundTrip {e : Expr} (h : e.WellFormed) :
    (∃ m, e.toJson = .object m ∧ decode m = .ok e) ∧
      (Sketch.ofExpr e).toJson = .ok e.toJson ∧
      Expr.parse e.toJson.compact.toList =
        (if e.height ≤ 10000 then .ok e else .error .malformed) ∧
      "decode expression: ".toList <+: ParseError.malformed.message.toList := by
  refine ⟨⟨e.toMembers, toJson_eq_object e, decode_toMembers h⟩, sketch_toJson e, parse_compact h, ?_⟩
  decide +kernel

theorem json_roundTrip_nested :
    let e : Expr := .prod (.sum (.var "x") (.num ⟨1 / 16⟩)) (.var "y")
    e.WellFormed ∧ Expr.parse e.toJson.compact.toList = .ok e := by
  intro e
  have hw : e.WellFormed := by decide +kernel
  refine ⟨hw, ?_⟩
  rw [(json_roundTrip hw).2.2.1]
  rfl

end Expr

end Symbolic
