import Symbolic.Proofs.FreeNames
import Symbolic.Proofs.Substitution

/-!
What simplification leaves behind. No operator keeps two numbers for its operands, and of the names
exactly those stay that the bindings do not replace; so a number is left exactly if they replace all
of them. A factor of zero takes no name away.
-/

namespace Symbolic.Expr

/-- No operator in the expression has a number on both sides. -/
def Folded : Expr → Prop
  | .num _ | .var _ => True
  | .sum l r | .prod l r =>
    ¬ (l.isConstant = true ∧ r.isConstant = true) ∧ l.Folded ∧ r.Folded

theorem isConstant_iff {e : Expr} : e.isConstant = true ↔ ∃ n, e = .num n := by
  cases e <;> simp [isConstant]

def fold : Operator → Expr → Expr → Expr
  | .sum => foldSum
  | .prod => foldProd

theorem fold_cases (op : Operator) (l r : Expr) :
    (∃ a b c, l = .num a ∧ r = .num b ∧ fold op l r = .num c) ∨
      ¬ (l.isConstant = true ∧ r.isConstant = true) ∧ fold op l r = op.apply l r := by
  cases op with
  | sum => cases l <;> cases r <;> simp [fold, foldSum, isConstant, Operator.apply]
  | prod => cases l <;> cases r <;> simp [fold, foldProd, isConstant, Operator.apply]

theorem Folded.fold {l r : Expr} (op : Operator) (hl : l.Folded) (hr : r.Folded) :
    (Expr.fold op l r).Folded := by
  obtain ⟨a, b, c, -, -, he⟩ | ⟨hc, he⟩ := fold_cases op l r
  · rw [he]
    trivial
  · rw [he]
    cases op <;> exact ⟨hc, hl, hr⟩

theorem folded_simplify (env : Bindings) (e : Expr) : (e.simplify env).Folded := by
  induction e with
  | num n => trivial
  | var x =>
    rw [simplify]
    split <;> trivial
  | sum l r ihl ihr => exact ihl.fold .sum ihr
  | prod l r ihl ihr => exact ihl.fold .prod ihr

/-- Numbers mention nothing, so no name is lost where two of them are folded. -/
theorem mentions_fold (op : Operator) {x : String} {l r : Expr} :
    (fold op l r).Mentions x ↔ l.Mentions x ∨ r.Mentions x := by
  obtain ⟨a, b, c, rfl, rfl, he⟩ | ⟨-, he⟩ := fold_cases op l r
  · rw [he]
    simp [Mentions]
  · rw [he]
    cases op <;> exact Iff.rfl

theorem mentions_simplify {env : Bindings} {x : String} {e : Expr} :
    (e.simplify env).Mentions x ↔ e.Mentions x ∧ ¬ env.Binds x := by
  induction e with
  | num n => simp [simplify, Mentions]
  | var y =>
    rw [simplify]
    cases hy : env.number? y with
    | none =>
      have hb : ¬ env.Binds y := (env.number?_eq_none_iff y).mp hy
      constructor
      · rintro rfl
        exact ⟨rfl, hb⟩
      · exact And.left
    | some n =>
      have hb : env.Binds y := (env.isSome_number?_iff y).mp (by rw [hy]; rfl)
      constructor
      · exact False.elim
      · rintro ⟨rfl, hx⟩
        exact hx hb
  | sum l r ihl ihr =>
    refine (mentions_fold .sum).trans ?_
    rw [ihl, ihr, Mentions, or_and_right]
  | prod l r ihl ihr =>
    refine (mentions_fold .prod).trans ?_
    rw [ihl, ihr, Mentions, or_and_right]

theorem Folded.isConstant_iff_forall_not_mentions {e : Expr} (h : e.Folded) :
    e.isConstant = true ↔ ∀ x, ¬ e.Mentions x := by
  induction e with
  | num n => simp [isConstant, Mentions]
  | var x => simp [isConstant, Mentions]
  | sum l r ihl ihr | prod l r ihl ihr =>
    obtain ⟨hc, hl, hr⟩ := h
    constructor
    · intro hf
      cases hf
    · intro hn
      have hlc : l.isConstant = true := (ihl hl).mpr fun x hx => hn x (.inl hx)
      have hrc : r.isConstant = true := (ihr hr).mpr fun x hx => hn x (.inr hx)
      exact absurd ⟨hlc, hrc⟩ hc

/-- Under any bindings, no operator with two numbers is left, the names that are left are those that
the bindings do not replace, and a number is left exactly if every name is replaced. -/
theorem simplify_leaves (e : Expr) (env : Bindings) :
    (e.simplify env).Folded ∧
      (∀ x, x ∈ (e.simplify env).freeNames ↔ x ∈ e.freeNames ∧ ¬ env.Binds x) ∧
      ((∃ n, e.simplify env = .num n) ↔ ∀ x ∈ e.freeNames, env.Binds x) := by
  have hf := folded_simplify env e
  refine ⟨hf, ?_, ?_⟩
  · intro x
    rw [mem_freeNames, mem_freeNames, mentions_simplify]
  · rw [← isConstant_iff, hf.isConstant_iff_forall_not_mentions]
    simp only [mentions_simplify, mem_freeNames, not_and_not_right]

-- A name that has no value stays, whatever it is multiplied by.
example : ((Expr.prod .zero (.var "x")).simplify .empty).freeNames = ["x"] := by decide +kernel

end Symbolic.Expr
