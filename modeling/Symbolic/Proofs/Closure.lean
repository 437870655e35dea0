import Symbolic.Proofs.Decoding
import Symbolic.Proofs.Grid
import Symbolic.Sketch

/-!
What every tree has in common that the operations can make: its numbers are on the grid, its
variables are named by runs of letters, and no node is absent. Each operation keeps expressions
well-formed, and on the sketch of an expression it does what it does on the expression.
-/

namespace Symbolic

namespace Expr

open Json (Members)

theorem wellFormed_of_ofNumeral {t : Text} {e : Expr} (h : ofNumeral t = .ok e) : e.WellFormed := by
  unfold ofNumeral at h
  split at h
  · next n hn =>
    obtain rfl : Expr.num n = e := by simpa using h
    exact Number.onGrid_of_parse? hn
  · simp at h

theorem wellFormed_of_ofBinary64 {x : Binary64} {e : Expr} (h : ofBinary64 x = .ok e) :
    e.WellFormed := by
  unfold ofBinary64 at h
  split at h
  · next n hn =>
    obtain rfl : Expr.num n = e := by simpa using h
    exact Number.onGrid_of_ofBinary64? hn
  · simp at h

theorem wellFormed_of_ofName {t : Text} {e : Expr} (h : ofName t = .ok e) : e.WellFormed := by
  unfold ofName at h
  split at h
  · next hn =>
    obtain rfl : Expr.var (String.ofList t.chars) = e := by simpa using h
    simpa [WellFormed] using hn
  · simp at h

theorem wellFormed_of_decodeNumber {m : Members} {e : Expr} (h : decodeNumber m = .ok e) :
    e.WellFormed := by
  unfold decodeNumber at h
  split at h
  · simp at h
  · simp at h
  · exact wellFormed_of_ofNumeral (mapError_eq_ok.mp h)
  · exact wellFormed_of_ofBinary64 (mapError_eq_ok.mp h)
  · simp at h

theorem wellFormed_of_decodeName {m : Members} {e : Expr} (h : decodeName m = .ok e) :
    e.WellFormed := by
  unfold decodeName at h
  split at h
  · simp at h
  · exact wellFormed_of_ofName (mapError_eq_ok.mp h)
  · simp at h

theorem wellFormed_apply {op : Operator} {l r : Expr} (hl : l.WellFormed) (hr : r.WellFormed) :
    (op.apply l r).WellFormed := by
  cases op <;> exact ⟨hl, hr⟩

theorem wellFormed_of_decode {m : Members} {e : Expr} (h : decode m = .ok e) : e.WellFormed := by
  rcases decode_eq_ok_iff.mp h with ⟨-, hn⟩ | ⟨-, hn⟩ | ⟨op, l, r, ml, mr, -, hml, hl, hmr, hr, rfl⟩
  · exact wellFormed_of_decodeNumber hn
  · exact wellFormed_of_decodeName hn
  · exact wellFormed_apply (wellFormed_of_decode hl) (wellFormed_of_decode hr)
termination_by sizeOf m
decreasing_by
  · exact sizeOf_get?_lt hml
  · exact sizeOf_get?_lt hmr

theorem wellFormed_of_parse {cs : List Char} {e : Expr} (h : Expr.parse cs = .ok e) :
    e.WellFormed := by
  unfold Expr.parse at h
  split at h
  · simp at h
  · split at h
    · exact wellFormed_of_decode (mapError_eq_ok.mp h)
    · simp at h
  · simp at h

theorem WellFormed.diff {e : Expr} (h : e.WellFormed) (v : String) : (e.diff v).WellFormed := by
  induction e with
  | num n => exact Number.onGrid_zero
  | var x =>
    by_cases hx : x = v
    · rw [Expr.diff, if_pos hx]
      exact Number.onGrid_one
    · rw [Expr.diff, if_neg hx]
      exact Number.onGrid_zero
  | sum l r ihl ihr => exact ⟨ihl h.1, ihr h.2⟩
  | prod l r ihl ihr => exact ⟨⟨h.1, ihr h.2⟩, h.2, ihl h.1⟩

theorem WellFormed.diffTimes {e : Expr} (h : e.WellFormed) (v : String) (n : Nat) :
    (e.diffTimes v n).WellFormed := by
  induction n generalizing e with
  | zero => exact h
  | succ n ih => exact ih (h.diff v)

theorem WellFormed.foldSum {l r : Expr} (hl : l.WellFormed) (hr : r.WellFormed) :
    (Expr.foldSum l r).WellFormed := by
  unfold Expr.foldSum
  split
  · exact Number.OnGrid.add hl hr
  · exact ⟨hl, hr⟩

theorem WellFormed.foldProd {l r : Expr} (hl : l.WellFormed) (hr : r.WellFormed) :
    (Expr.foldProd l r).WellFormed := by
  unfold Expr.foldProd
  split
  · exact Number.OnGrid.mul hl hr
  · exact ⟨hl, hr⟩

/-- No value that a name is bound to leads off the grid: those that have no number bind nothing. -/
theorem onGrid_of_number? {env : Bindings} {x : String} {n : Number} (h : env.number? x = some n) :
    n.OnGrid := by
  obtain ⟨b, -, hb⟩ := Option.bind_eq_some_iff.mp h
  exact Number.onGrid_of_ofBinary64? hb

theorem WellFormed.simplify {e : Expr} (h : e.WellFormed) (env : Bindings) :
    (e.simplify env).WellFormed := by
  induction e with
  | num n => exact h
  | var x =>
    rw [Expr.simplify]
    split
    · next n hn => exact onGrid_of_number? hn
    · exact h
  | sum l r ihl ihr => exact (ihl h.1).foldSum (ihr h.2)
  | prod l r ihl ihr => exact (ihl h.1).foldProd (ihr h.2)

end Expr

namespace Sketch

open Json (Members)

/-- Every node is there, every number is on the grid, and every variable is named by a run of
letters. -/
def WellFormed : Sketch → Prop
  | .absent => False
  | .num n => n.OnGrid
  | .var x => isName x.toList = true
  | .sum l r | .prod l r => l.WellFormed ∧ r.WellFormed

theorem wellFormed_ofExpr {e : Expr} (h : e.WellFormed) : (ofExpr e).WellFormed := by
  induction e with
  | num n => exact h
  | var x => exact h
  | sum l r ihl ihr => exact ⟨ihl h.1, ihr h.2⟩
  | prod l r ihl ihr => exact ⟨ihl h.1, ihr h.2⟩

theorem diff_ofExpr (v : String) (e : Expr) : (ofExpr e).diff v = .ok (ofExpr (e.diff v)) := by
  induction e with
  | num n => rfl
  | var x =>
    by_cases hx : x = v
    · simp [ofExpr, diff, Expr.diff, hx, Expr.one]
    · simp [ofExpr, diff, Expr.diff, hx, Expr.zero]
  | sum l r ihl ihr =>
    rw [ofExpr, diff, ihl, ihr]
    rfl
  | prod l r ihl ihr =>
    rw [ofExpr, diff, ihr, ihl]
    rfl

theorem diffTimes_ofExpr (v : String) (n : Nat) (e : Expr) :
    (ofExpr e).diffTimes v n = .ok (ofExpr (e.diffTimes v n)) := by
  induction n generalizing e with
  | zero => rfl
  | succ n ih =>
    rw [diffTimes, diff_ofExpr]
    exact ih (e.diff v)

theorem simplify_ofExpr (env : Bindings) (e : Expr) :
    (ofExpr e).simplify env = .ok (ofExpr (e.simplify env)) := by
  induction e with
  | num n => rfl
  | var x =>
    rw [ofExpr, simplify, Expr.simplify]
    cases env.number? x <;> rfl
  | sum l r ihl ihr =>
    rw [ofExpr, simplify, ihl, ihr, Expr.simplify]
    cases l.simplify env <;> cases r.simplify env <;> rfl
  | prod l r ihl ihr =>
    rw [ofExpr, simplify, ihl, ihr, Expr.simplify]
    cases l.simplify env <;> cases r.simplify env <;> rfl

theorem combine_ofExpr (op : Operator) (l r : Expr) :
    combine op (ofExpr l) (ofExpr r) = ofExpr (op.apply l r) := by
  cases op <;> rfl

theorem operand_map {α β : Type} (g : α → β) (op : Operator) (side : Side) (m : Members)
    (f : (inner : Members) → m.get? side.label = some (.object inner) → Except DecodeError α) :
    Expr.operand op side m (fun inner h => (f inner h).map g) =
      (Expr.operand op side m f).map g := by
  unfold Expr.operand
  split
  · rfl
  · next inner h => exact (map_mapError g _ (f inner h)).symm
  · rfl

/-- No node of what is decoded is absent. -/
theorem decode_eq_map (m : Members) : decode m = (Expr.decode m).map ofExpr := by
  have ho (op : Operator) (side : Side) :
      Expr.operand op side m (fun inner _ => decode inner) =
        (Expr.operand op side m fun inner _ => Expr.decode inner).map ofExpr := by
    rw [← operand_map]
    congr 1
    funext inner h
    have := Expr.sizeOf_get?_lt h
    exact decode_eq_map inner
  rw [decode, Expr.decode]
  cases Expr.form m with
  | error d => rfl
  | ok f =>
    cases f with
    | number =>
      simp only [bind, Except.bind]
      cases Expr.decodeNumber m <;> rfl
    | named =>
      simp only [bind, Except.bind]
      cases Expr.decodeName m <;> rfl
    | operator op =>
      simp only [bind, Except.bind, ho]
      cases Expr.operand op .left m fun inner _ => Expr.decode inner with
      | error d => rfl
      | ok l =>
        cases Expr.operand op .right m fun inner _ => Expr.decode inner with
        | error d => rfl
        | ok r => exact congrArg Except.ok (combine_ofExpr op l r)
termination_by sizeOf m

theorem parse_eq_map (cs : List Char) : parse cs = (Expr.parse cs).map ofExpr := by
  rw [parse, Expr.parse]
  cases Json.parse cs with
  | error d => rfl
  | ok v =>
    cases v with
    | object m =>
      simp only [decode_eq_map]
      split
      · exact (map_mapError ofExpr ParseError.decode (Expr.decode m)).symm
      · rfl
    | null | bool | number | string | array => rfl

/-- The trees that can be made: leaves from texts, whatever is decoded from JSON, and what the
operations give on trees made before. -/
inductive Made : Sketch → Prop
  | numeral {t : Text} {e : Expr} : Expr.ofNumeral t = .ok e → Made (ofExpr e)
  | name {t : Text} {e : Expr} : Expr.ofName t = .ok e → Made (ofExpr e)
  | decoded {m : Members} {s : Sketch} : decode m = .ok s → Made s
  | parsed {cs : List Char} {s : Sketch} : parse cs = .ok s → Made s
  | sum {l r : Sketch} : Made l → Made r → Made (.sum l r)
  | prod {l r : Sketch} : Made l → Made r → Made (.prod l r)
  | operand {s s' : Sketch} {side : Side} : Made s → s.operand? side = some s' → Made s'
  | diff {s s' : Sketch} {v : String} : Made s → s.diff v = .ok s' → Made s'
  | diffN {s s' : Sketch} {v : String} {n : Int} : Made s → s.diffN v n = .ok s' → Made s'
  | simplify {s s' : Sketch} {env : Bindings} : Made s → s.simplify env = .ok s' → Made s'

theorem operand?_ofExpr {side : Side} {e : Expr} {s : Sketch} (h : e.WellFormed)
    (hs : (ofExpr e).operand? side = some s) : ∃ x : Expr, x.WellFormed ∧ s = ofExpr x := by
  cases e with
  | num n => simp [ofExpr, operand?] at hs
  | var x => simp [ofExpr, operand?] at hs
  | sum l r =>
    cases side with
    | left => exact ⟨l, h.1, by simpa [ofExpr, operand?] using hs.symm⟩
    | right => exact ⟨r, h.2, by simpa [ofExpr, operand?] using hs.symm⟩
  | prod l r =>
    cases side with
    | left => exact ⟨l, h.1, by simpa [ofExpr, operand?] using hs.symm⟩
    | right => exact ⟨r, h.2, by simpa [ofExpr, operand?] using hs.symm⟩

/-- A tree that can be made is the sketch of a well-formed expression. -/
theorem Made.exists_expr {s : Sketch} (h : Made s) : ∃ e : Expr, e.WellFormed ∧ s = ofExpr e := by
  induction h with
  | numeral he => exact ⟨_, Expr.wellFormed_of_ofNumeral he, rfl⟩
  | name he => exact ⟨_, Expr.wellFormed_of_ofName he, rfl⟩
  | decoded hs =>
    rw [decode_eq_map] at hs
    obtain ⟨e, he, rfl⟩ := map_eq_ok.mp hs
    exact ⟨e, Expr.wellFormed_of_decode he, rfl⟩
  | parsed hs =>
    rw [parse_eq_map] at hs
    obtain ⟨e, he, rfl⟩ := map_eq_ok.mp hs
    exact ⟨e, Expr.wellFormed_of_parse he, rfl⟩
  | sum _ _ ihl ihr =>
    obtain ⟨l, hl, rfl⟩ := ihl
    obtain ⟨r, hr, rfl⟩ := ihr
    exact ⟨.sum l r, ⟨hl, hr⟩, rfl⟩
  | prod _ _ ihl ihr =>
    obtain ⟨l, hl, rfl⟩ := ihl
    obtain ⟨r, hr, rfl⟩ := ihr
    exact ⟨.prod l r, ⟨hl, hr⟩, rfl⟩
  | operand _ hs ih =>
    obtain ⟨e, he, rfl⟩ := ih
    exact operand?_ofExpr he hs
  | @diff _ _ v _ hs ih =>
    obtain ⟨e, he, rfl⟩ := ih
    rw [diff_ofExpr] at hs
    exact ⟨e.diff v, he.diff v, (Except.ok.inj hs).symm⟩
  | @diffN _ _ v n _ hs ih =>
    obtain ⟨e, he, rfl⟩ := ih
    rw [Sketch.diffN, diffTimes_ofExpr] at hs
    exact ⟨e.diffTimes v n.toNat, he.diffTimes v n.toNat, (Except.ok.inj hs).symm⟩
  | @simplify _ _ env _ hs ih =>
    obtain ⟨e, he, rfl⟩ := ih
    rw [simplify_ofExpr] at hs
    exact ⟨e.simplify env, he.simplify env, (Except.ok.inj hs).symm⟩

/-- Every tree that can be made is well-formed, and every derivative and every substitution in it
can be made as well. -/
theorem wellFormed_of_made {s : Sketch} (h : Made s) :
    s.WellFormed ∧ (∀ v n, ∃ s', s.diffN v n = .ok s' ∧ Made s') ∧
      ∀ env, ∃ s', s.simplify env = .ok s' ∧ Made s' := by
  obtain ⟨e, he, hs⟩ := h.exists_expr
  refine ⟨?_, ?_, ?_⟩
  · rw [hs]
    exact wellFormed_ofExpr he
  · intro v n
    have hd : s.diffN v n = .ok (ofExpr (e.diffTimes v n.toNat)) := by
      rw [hs, Sketch.diffN, diffTimes_ofExpr]
    exact ⟨_, hd, h.diffN hd⟩
  · intro env
    have hd : s.simplify env = .ok (ofExpr (e.simplify env)) := by
      rw [hs, simplify_ofExpr]
    exact ⟨_, hd, h.simplify hd⟩

/-- The exact product is 0.02985 and is cut off after the last place. -/
theorem made_truncated_product :
    Made (.num ⟨149 / 5000⟩) ∧ (Sketch.num ⟨149 / 5000⟩).WellFormed := by
  have ha : Made (.num ⟨3 / 2⟩) :=
    @Made.numeral (Text.ofString "1.5") (.num ⟨3 / 2⟩) (by decide +kernel)
  have hb : Made (.num ⟨199 / 10000⟩) :=
    @Made.numeral (Text.ofString "000.01999") (.num ⟨199 / 10000⟩) (by decide +kernel)
  have hs : Made (.num ⟨149 / 5000⟩) :=
    @Made.simplify _ _ Bindings.empty (ha.prod hb) (by decide +kernel)
  exact ⟨hs, (wellFormed_of_made hs).1⟩

end Sketch

end Symbolic
