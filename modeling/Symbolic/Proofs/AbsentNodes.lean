import Symbolic.Proofs.Faultless
import Symbolic.Proofs.Positions
import Symbolic.Proofs.Substitution

/-!
Trees with absent nodes. An operation has to tell the kind of every node, so that it stops with the
same message wherever a node is absent, however it goes through the tree; only the text of a tree that
is absent as a whole fails in another way. On all other trees an operation gives what it gives on
expressions.
-/

namespace Symbolic.Sketch

section Parts

def part? (s : Sketch) : List Side → Option Sketch
  | [] => some s
  | side :: path => (s.operand? side).bind fun x => x.part? path

/-- A node is absent, at whatever depth. -/
def HasAbsent (s : Sketch) : Prop :=
  ∃ path, s.part? path = some .absent

@[elab_as_elim]
theorem combineInduction {motive : Sketch → Prop} (absent : motive .absent)
    (num : ∀ n, motive (.num n)) (var : ∀ x, motive (.var x))
    (combine : ∀ op l r, motive l → motive r → motive (combine op l r)) (s : Sketch) :
    motive s := by
  induction s with
  | absent => exact absent
  | num n => exact num n
  | var x => exact var x
  | sum l r ihl ihr => exact combine .sum l r ihl ihr
  | prod l r ihl ihr => exact combine .prod l r ihl ihr

theorem operand?_combine (op : Operator) (l r : Sketch) (side : Side) :
    (combine op l r).operand? side = some (match side with | .left => l | .right => r) := by
  cases op <;> cases side <;> rfl

theorem hasAbsent_combine {op : Operator} {l r : Sketch} :
    (combine op l r).HasAbsent ↔ l.HasAbsent ∨ r.HasAbsent := by
  constructor
  · rintro ⟨path, h⟩
    cases path with
    | nil => cases op <;> cases h
    | cons side path =>
      rw [part?, operand?_combine, Option.bind_some] at h
      cases side with
      | left => exact .inl ⟨path, h⟩
      | right => exact .inr ⟨path, h⟩
  · rintro (⟨path, h⟩ | ⟨path, h⟩)
    · refine ⟨.left :: path, ?_⟩
      rw [part?, operand?_combine]
      exact h
    · refine ⟨.right :: path, ?_⟩
      rw [part?, operand?_combine]
      exact h

theorem not_hasAbsent_ofExpr (e : Expr) : ¬ (ofExpr e).HasAbsent := by
  induction e using Expr.operatorInduction with
  | num n | var x =>
    rintro ⟨path, h⟩
    cases path with
    | nil => cases h
    | cons side path => cases h
  | apply op l r ihl ihr =>
    rw [← combine_ofExpr, hasAbsent_combine]
    exact not_or.mpr ⟨ihl, ihr⟩

theorem ofExpr_or_hasAbsent (s : Sketch) : (∃ e, s = ofExpr e) ∨ s.HasAbsent := by
  induction s using combineInduction with
  | absent => exact .inr ⟨[], rfl⟩
  | num n => exact .inl ⟨.num n, rfl⟩
  | var x => exact .inl ⟨.var x, rfl⟩
  | combine op l r ihl ihr =>
    obtain ⟨a, rfl⟩ | hl := ihl
    · obtain ⟨b, rfl⟩ | hr := ihr
      · exact .inl ⟨op.apply a b, combine_ofExpr op a b⟩
      · exact .inr (hasAbsent_combine.mpr (.inr hr))
    · exact .inr (hasAbsent_combine.mpr (.inl hl))

end Parts

section Strict
variable {ι α : Type}

/-- An operation that stops at an absent node, and at an operator if it stops at one of the operands.
It may depend on an index, as on the names that were seen before. -/
structure Strict (run : ι → Sketch → Except Fault α) : Prop where
  absent : ∀ i, run i .absent = .error .unhandled
  left : ∀ op l r, (∀ i, run i l = .error .unhandled) →
    ((∃ e, r = ofExpr e) ∨ ∀ i, run i r = .error .unhandled) →
    ∀ i, run i (combine op l r) = .error .unhandled
  right : ∀ op e r, (∀ i, run i r = .error .unhandled) →
    ∀ i, run i (combine op (ofExpr e) r) = .error .unhandled

theorem Strict.error_of_hasAbsent {run : ι → Sketch → Except Fault α} (h : Strict run) {s : Sketch}
    (hs : s.HasAbsent) : ∀ i, run i s = .error .unhandled := by
  induction s using combineInduction with
  | absent => exact h.absent
  | num n => exact absurd hs (not_hasAbsent_ofExpr (.num n))
  | var x => exact absurd hs (not_hasAbsent_ofExpr (.var x))
  | combine op l r ihl ihr =>
    obtain ⟨a, rfl⟩ | hl := l.ofExpr_or_hasAbsent
    · have hr := (hasAbsent_combine.mp hs).resolve_left (not_hasAbsent_ofExpr a)
      exact h.right op a r (ihr hr)
    · exact h.left op l r (ihl hl) (r.ofExpr_or_hasAbsent.imp_right ihr)

theorem strict_hash : Strict fun _ : Unit => hash where
  absent _ := rfl
  left op l r hl _ _ := by
    cases op
    all_goals
      rw [combine, hash, hl ()]
      rfl
  right op e r hr _ := by
    cases op
    all_goals
      rw [combine, hash, hash_ofExpr, hr ()]
      rfl

theorem strict_diff : Strict diff where
  absent _ := rfl
  left op l r hl hr v := by
    cases op with
    | sum =>
      rw [combine, diff, hl v]
      rfl
    | prod =>
      -- The right operand of a product is differentiated first.
      rw [combine, diff, hl v]
      obtain ⟨e, rfl⟩ | hr := hr
      · rw [diff_ofExpr]
        rfl
      · rw [hr v]
        rfl
  right op e r hr v := by
    cases op
    all_goals
      rw [combine, diff, hr v, diff_ofExpr]
      rfl

theorem strict_toJson : Strict fun _ : Unit => toJson where
  absent _ := rfl
  left op l r hl _ _ := by
    cases op
    all_goals
      rw [combine, toJson, hl ()]
      rfl
  right op e r hr _ := by
    cases op
    all_goals
      rw [combine, toJson, Expr.sketch_toJson, hr ()]
      rfl

theorem strict_names : Strict fun seen s => names s seen where
  absent _ := rfl
  left op l r hl _ seen := by
    cases op
    all_goals
      rw [combine, names, hl seen]
      rfl
  right op e r hr seen := by
    obtain ⟨mid, hm, -⟩ := names_walkOnto e [] seen
    cases op
    all_goals
      rw [combine, names, hm]
      exact hr mid

theorem needsBrackets_bind_write {s : Sketch} (h : s.write = .error .unhandled) (parent : Operator)
    (side : Side) (f : Bool → String → Except Fault String) :
    (do let b ← s.needsBrackets parent side; let t ← s.write; f b t) = .error .unhandled := by
  rw [h]
  cases s with
  | absent => rfl
  | num | var => cases h
  | sum | prod => cases parent <;> cases side <;> rfl

theorem strict_write : Strict fun _ : Unit => write where
  absent _ := rfl
  left op l r hl _ _ := by
    cases op with
    | sum => exact needsBrackets_bind_write (hl ()) .sum .left _
    | prod => exact needsBrackets_bind_write (hl ()) .prod .left _
  right op e r hr _ := by
    cases op with
    | sum =>
      rw [combine, write, needsBrackets_ofExpr, write_ofExpr]
      exact needsBrackets_bind_write (hr ()) .sum .right _
    | prod =>
      rw [combine, write, needsBrackets_ofExpr, write_ofExpr]
      exact needsBrackets_bind_write (hr ()) .prod .right _

end Strict

section Outcomes
variable {α : Type} {s : Sketch}

/-- The outcome is a fault with its message exactly if a node is absent. Otherwise it is a result: what
`f` makes of the expression that the tree stands for. -/
def Tells (s : Sketch) (outcome : Except Fault α) (f : Expr → α) : Prop :=
  ((∃ d, outcome = .error d ∧ d.message? = some "unhandled case: <nil>") ↔ s.HasAbsent) ∧
    (¬ s.HasAbsent → ∃ e, s = ofExpr e ∧ outcome = .ok (f e))

theorem tells {outcome : Except Fault α} {f : Expr → α}
    (ha : s.HasAbsent → outcome = .error .unhandled)
    (he : ∀ e, s = ofExpr e → outcome = .ok (f e)) : Tells s outcome f := by
  have hw (hn : ¬ s.HasAbsent) : ∃ e, s = ofExpr e ∧ outcome = .ok (f e) := by
    obtain ⟨e, hs⟩ := s.ofExpr_or_hasAbsent.resolve_right hn
    exact ⟨e, hs, he e hs⟩
  refine ⟨⟨?_, ?_⟩, hw⟩
  · rintro ⟨d, hd, -⟩
    by_contra hn
    obtain ⟨e, -, ho⟩ := hw hn
    cases hd.symm.trans ho
  · intro h
    exact ⟨.unhandled, ha h, rfl⟩

theorem tells_hash (s : Sketch) : Tells s s.hash Expr.hash := by
  refine tells (fun h => strict_hash.error_of_hasAbsent h ()) ?_
  rintro e rfl
  exact hash_ofExpr e

theorem tells_diff (s : Sketch) (v : String) : Tells s (s.diff v) fun e => ofExpr (e.diff v) := by
  refine tells (fun h => strict_diff.error_of_hasAbsent h v) ?_
  rintro e rfl
  exact diff_ofExpr v e

theorem tells_simplify (s : Sketch) (env : Bindings) :
    Tells s (s.simplify env) fun e => ofExpr (e.simplify env) := by
  refine tells ?_ ?_
  · intro h
    obtain ⟨e, rfl⟩ | hs := ofExpr_or_simplify_error s
    · exact absurd h (not_hasAbsent_ofExpr e)
    · exact hs env
  · rintro e rfl
    exact simplify_ofExpr env e

theorem tells_jsonText (s : Sketch) :
    Tells s (s.toJson.map Json.compact) fun e => e.toJson.compact := by
  refine tells ?_ ?_
  · intro h
    rw [strict_toJson.error_of_hasAbsent h ()]
    rfl
  · rintro e rfl
    rw [Expr.sketch_toJson]
    rfl

theorem tells_freeNames (s : Sketch) : Tells s s.freeNames Expr.freeNames := by
  refine tells (fun h => strict_names.error_of_hasAbsent h []) ?_
  rintro e rfl
  exact freeNames_ofExpr e

theorem tells_render (hs : s ≠ .absent) : Tells s s.render Expr.render := by
  have hr : s.render = s.write := by
    cases s with
    | absent => exact absurd rfl hs
    | num | var | sum | prod => rfl
  refine tells ?_ ?_
  · intro h
    rw [hr]
    exact strict_write.error_of_hasAbsent h ()
  · rintro e rfl
    exact render_ofExpr e

end Outcomes

/-- For every tree, the hash, every derivative, every substitution, the JSON text and the names are
refused as an unhandled case exactly if a node of the tree is absent, and so is the text unless the tree
itself is absent, which has no text at all. In all other cases the results are those for an
expression. -/
theorem absent_nodes_told (s : Sketch) :
    Tells s s.hash Expr.hash ∧
      (∀ v, Tells s (s.diff v) fun e => ofExpr (e.diff v)) ∧
      (∀ env, Tells s (s.simplify env) fun e => ofExpr (e.simplify env)) ∧
      Tells s (s.toJson.map Json.compact) (fun e => e.toJson.compact) ∧
      Tells s s.freeNames Expr.freeNames ∧
      (s ≠ .absent → Tells s s.render Expr.render) ∧
      render .absent = .error .noReceiver ∧ Fault.noReceiver.message? = none := by
  refine ⟨tells_hash s, tells_diff s, tells_simplify s, tells_jsonText s, tells_freeNames s, ?_, ?_⟩
  · intro hs
    exact tells_render hs
  · exact ⟨rfl, rfl⟩

theorem absent_nodes_told_nested :
    let s : Sketch := .prod (.var "x") (.sum (.num .one) .absent)
    s ≠ .absent ∧ ∃ d, s.render = .error d ∧ d.message? = some "unhandled case: <nil>" := by
  intro s
  have hs : s ≠ .absent := nofun
  have ha : s.HasAbsent := ⟨[.right, .right], rfl⟩
  obtain ⟨-, -, -, -, -, hr, -⟩ := absent_nodes_told s
  exact ⟨hs, (hr hs).1.mpr ha⟩

end Symbolic.Sketch
