import Symbolic.Proofs.Brackets
import Symbolic.Proofs.Faultless

/-!
When two trees are the same. Comparing them in lockstep, comparing their canonical texts and comparing
their JSON texts give the same answer on well-formed trees: a text is read back as the one tree it was
written for, however high that tree is. What is the same for the comparison is the same for every
operation.
-/

namespace Symbolic

theorem Bytes.ofString_inj {s t : String} : Bytes.ofString s = Bytes.ofString t ↔ s = t := by
  rw [← String.toByteArray_inj, ← String.utf8Encode_toList, ← String.utf8Encode_toList]
  exact List.toByteArray_inj.symm

theorem Json.Legible.compact_inj {bound : Nat} {u v : Json} (hu : Legible bound u)
    (hv : Legible bound v) (h : u.compact = v.compact) : u = v := by
  have hru := hu.readsBack (max u.nesting v.nesting) []
  have hrv := hv.readsBack (max u.nesting v.nesting) []
  rw [if_pos (by simp)] at hru hrv
  rw [h, hrv] at hru
  simpa using hru.symm

namespace Expr

section Texts
variable {a b : Expr} (ha : a.WellFormed) (hb : b.WellFormed)
include ha hb

theorem render_inj (h : a.render = b.render) : a = b := by
  have ht := tokens_render ha
  rw [h, tokens_render hb] at ht
  have hs : a.spelling = b.spelling := (Option.some.inj ht).symm
  have hr := (reads_spelling ha).2.2
  rw [hs] at hr
  exact hr.unique (reads_spelling hb).2.2

theorem toJson_inj (h : a.toJson = b.toJson) : a = b := by
  rw [toJson_eq_object, toJson_eq_object] at h
  have hd := decode_toMembers ha
  rw [Json.object.inj h, decode_toMembers hb] at hd
  exact (Except.ok.inj hd).symm

theorem compact_toJson_inj (h : a.toJson.compact = b.toJson.compact) : a = b :=
  toJson_inj ha hb ((legible_toJson le_rfl ha).compact_inj (legible_toJson le_rfl hb) h)

end Texts

end Expr

namespace Sketch

theorem WellFormed.exists_expr {s : Sketch} (h : s.WellFormed) :
    ∃ e : Expr, e.WellFormed ∧ s = ofExpr e := by
  induction s with
  | absent => cases h
  | num n => exact ⟨.num n, h, rfl⟩
  | var x => exact ⟨.var x, h, rfl⟩
  | sum l r ihl ihr =>
    obtain ⟨l', hl, rfl⟩ := ihl h.1
    obtain ⟨r', hr, rfl⟩ := ihr h.2
    exact ⟨.sum l' r', ⟨hl, hr⟩, rfl⟩
  | prod l r ihl ihr =>
    obtain ⟨l', hl, rfl⟩ := ihl h.1
    obtain ⟨r', hr, rfl⟩ := ihr h.2
    exact ⟨.prod l' r', ⟨hl, hr⟩, rfl⟩

/-- Neither meets a fault, and both come to the same. -/
def Agree {α : Type} (x y : Except Fault α) : Prop :=
  ∃ v, x = .ok v ∧ y = .ok v

theorem agree_ok_iff {α : Type} {v w : α} : Agree (.ok v) (.ok w) ↔ v = w := by
  constructor
  · intro h
    obtain ⟨u, hv, hw⟩ := h
    rw [Except.ok.inj hv, Except.ok.inj hw]
  · intro h
    exact ⟨v, rfl, by rw [h]⟩

def jsonBytes (s : Sketch) : Except Fault Bytes :=
  return Bytes.ofString (← s.toJson).compact

theorem jsonBytes_ofExpr (e : Expr) : (ofExpr e).jsonBytes = .ok (Bytes.ofString e.toJson.compact) := by
  rw [jsonBytes, Expr.sketch_toJson]
  rfl

/-- Neither meets a fault, and the two trees are found equal. -/
def Alike (x y : Except Fault Sketch) : Prop :=
  ∃ s t, x = .ok s ∧ y = .ok t ∧ s.equal t = .ok true

theorem equal_ofExpr_iff {a b : Expr} : (ofExpr a).equal (ofExpr b) = .ok true ↔ a = b := by
  rw [equal_ofExpr, Except.ok.injEq, decide_eq_true_eq]

theorem alike_ofExpr (e : Expr) : Alike (.ok (ofExpr e)) (.ok (ofExpr e)) :=
  ⟨_, _, rfl, rfl, equal_ofExpr_iff.mpr rfl⟩

/-- Comparing well-formed trees never meets a fault. It finds them equal exactly if their canonical
texts agree, and exactly if the bytes of their JSON texts do. Trees that it finds equal have the same
hash and the same names, and so are their derivatives and what substitution makes of them. -/
theorem equal_iff_texts_agree {a b : Sketch} (ha : a.WellFormed) (hb : b.WellFormed) :
    (∃ same, a.equal b = .ok same) ∧
      (a.equal b = .ok true ↔ Agree a.render b.render) ∧
      (a.equal b = .ok true ↔ Agree a.jsonBytes b.jsonBytes) ∧
      (a.equal b = .ok true → Agree a.hash b.hash ∧ Agree a.freeNames b.freeNames ∧
        ∀ v env, Alike (a.diff v) (b.diff v) ∧ Alike (a.simplify env) (b.simplify env)) := by
  obtain ⟨e, he, rfl⟩ := ha.exists_expr
  obtain ⟨f, hf, rfl⟩ := hb.exists_expr
  rw [equal_ofExpr_iff, render_ofExpr, render_ofExpr, jsonBytes_ofExpr, jsonBytes_ofExpr,
    agree_ok_iff, agree_ok_iff, Bytes.ofString_inj]
  refine ⟨⟨_, equal_ofExpr e f⟩, ?_, ?_, ?_⟩
  · exact ⟨congrArg Expr.render, Expr.render_inj he hf⟩
  · exact ⟨congrArg fun x : Expr => x.toJson.compact, Expr.compact_toJson_inj he hf⟩
  · intro h
    subst h
    rw [hash_ofExpr, freeNames_ofExpr]
    refine ⟨⟨_, rfl, rfl⟩, ⟨_, rfl, rfl⟩, fun v env => ?_⟩
    rw [diff_ofExpr, simplify_ofExpr]
    exact ⟨alike_ofExpr _, alike_ofExpr _⟩

/-- The same leaves in the same order, but `x + (y + z)` is not `x + y + z`. -/
theorem equal_iff_texts_agree_nested :
    let a := ofExpr (.sum (.var "x") (.sum (.var "y") (.var "z")))
    let b := ofExpr (.sum (.sum (.var "x") (.var "y")) (.var "z"))
    a.WellFormed ∧ b.WellFormed ∧ a.equal b = .ok false ∧
      ¬ Agree a.render b.render ∧ ¬ Agree a.jsonBytes b.jsonBytes := by
  intro a b
  have ha : a.WellFormed := wellFormed_ofExpr (by decide +kernel)
  have hb : b.WellFormed := wellFormed_ofExpr (by decide +kernel)
  have hn : a.equal b ≠ .ok true := nofun
  obtain ⟨-, hr, hj, -⟩ := equal_iff_texts_agree ha hb
  exact ⟨ha, hb, rfl, fun h => hn (hr.mpr h), fun h => hn (hj.mpr h)⟩

end Sketch

end Symbolic
