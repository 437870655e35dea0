import Symbolic.Proofs.NameOrder
import Symbolic.Proofs.Positions

/-!
The names of derivatives. Differentiating a product leaves both of its operands in the result, and
whatever is below no product becomes a number. So the names of a derivative are those that stand below
a product, and since they still stand below one, differentiating again neither loses nor adds any.
-/

namespace Symbolic.Expr

section Occurrences
variable {x : String}

theorem at?_apply_left (op : Operator) (l r : Expr) (q : Position) :
    (op.apply l r).at? (⟨op, .left⟩ :: q) = l.at? q := by
  cases op <;> rfl

theorem at?_apply_right (op : Operator) (l r : Expr) (q : Position) :
    (op.apply l r).at? (⟨op, .right⟩ :: q) = r.at? q := by
  cases op <;> rfl

theorem exists_at?_var_num_iff {p : Position → Prop} {n : Number} :
    (∃ q, (num n).at? q = some (.var x) ∧ p q) ↔ False := by
  refine ⟨?_, False.elim⟩
  rintro ⟨q, hq, -⟩
  cases q with
  | nil => cases hq
  | cons t q => cases hq

theorem exists_at?_var_var_iff {p : Position → Prop} {y : String} :
    (∃ q, (var y).at? q = some (.var x) ∧ p q) ↔ x = y ∧ p [] := by
  constructor
  · rintro ⟨q, hq, hp⟩
    cases q with
    | nil =>
      cases hq
      exact ⟨rfl, hp⟩
    | cons t q => cases hq
  · rintro ⟨rfl, hp⟩
    exact ⟨[], rfl, hp⟩

theorem exists_at?_var_apply_iff {p : Position → Prop} {op : Operator} {l r : Expr} :
    (∃ q, (op.apply l r).at? q = some (.var x) ∧ p q) ↔
      (∃ q, l.at? q = some (.var x) ∧ p (⟨op, .left⟩ :: q)) ∨
        ∃ q, r.at? q = some (.var x) ∧ p (⟨op, .right⟩ :: q) := by
  constructor
  · rintro ⟨q, hq, hp⟩
    cases q with
    | nil => cases op <;> cases hq
    | cons t q =>
      rw [at?, Option.bind_eq_some_iff] at hq
      obtain ⟨e, he, hq⟩ := hq
      obtain ⟨rfl, rfl⟩ | ⟨rfl, rfl⟩ := (below?_apply_eq_some op l r).mp he
      · exact .inl ⟨q, hq, hp⟩
      · exact .inr ⟨q, hq, hp⟩
  · rintro (⟨q, hq, hp⟩ | ⟨q, hq, hp⟩)
    · exact ⟨_, (at?_apply_left op l r q).trans hq, hp⟩
    · exact ⟨_, (at?_apply_right op l r q).trans hq, hp⟩

theorem mentions_apply {op : Operator} {l r : Expr} :
    (op.apply l r).Mentions x ↔ l.Mentions x ∨ r.Mentions x := by
  cases op <;> rfl

theorem mentions_iff_exists_at? {e : Expr} : e.Mentions x ↔ ∃ q, e.at? q = some (.var x) := by
  have h : e.Mentions x ↔ ∃ q, e.at? q = some (.var x) ∧ True := by
    induction e using operatorInduction with
    | num n => rw [exists_at?_var_num_iff, Mentions]
    | var y => rw [exists_at?_var_var_iff, Mentions, and_true]
    | apply op l r ihl ihr => rw [exists_at?_var_apply_iff, mentions_apply, ihl, ihr]
  simpa only [and_true] using h

/-- The name occurs below a product. -/
def MentionsInProduct (x : String) : Expr → Prop
  | .num _ | .var _ => False
  | .sum l r => l.MentionsInProduct x ∨ r.MentionsInProduct x
  | .prod l r => l.Mentions x ∨ r.Mentions x

theorem MentionsInProduct.mentions {e : Expr} (h : e.MentionsInProduct x) : e.Mentions x := by
  induction e with
  | num n => exact h
  | var y => exact h.elim
  | sum l r ihl ihr => exact h.imp ihl ihr
  | prod l r _ _ => exact h

theorem mentionsInProduct_iff_exists_at? {e : Expr} :
    e.MentionsInProduct x ↔ ∃ q, e.at? q = some (.var x) ∧ ∃ t ∈ q, t.op = .prod := by
  have ha (op : Operator) (l r : Expr) :=
    @exists_at?_var_apply_iff x (fun q => ∃ t ∈ q, t.op = .prod) op l r
  induction e with
  | num n => rw [exists_at?_var_num_iff, MentionsInProduct]
  | var y => simp [exists_at?_var_var_iff, MentionsInProduct]
  | sum l r ihl ihr =>
    -- Passing a sum does not count, so a product is passed further down.
    refine Iff.trans ?_ (ha .sum l r).symm
    simp only [MentionsInProduct, ihl, ihr, List.exists_mem_cons_iff, reduceCtorEq, false_or]
  | prod l r _ _ =>
    refine Iff.trans ?_ (ha .prod l r).symm
    simp only [MentionsInProduct, mentions_iff_exists_at?, List.exists_mem_cons_iff, true_or,
      and_true]

end Occurrences

section Derivatives
variable {v x : String} {e : Expr}

theorem mentions_diff : (e.diff v).Mentions x ↔ e.MentionsInProduct x := by
  induction e with
  | num n => rfl
  | var y =>
    rw [diff]
    split
    · rfl
    · rfl
  | sum l r ihl ihr => rw [diff, Mentions, ihl, ihr, MentionsInProduct]
  | prod l r ihl ihr =>
    constructor
    · intro h
      exact h.of_diff
    · rintro (hl | hr)
      · exact .inl (.inl hl)
      · exact .inr (.inl hr)

theorem mentionsInProduct_diff : (e.diff v).MentionsInProduct x ↔ e.MentionsInProduct x := by
  constructor
  · intro h
    exact mentions_diff.mp h.mentions
  · intro h
    induction e with
    | num n => exact h
    | var y => exact h.elim
    | sum l r ihl ihr => exact h.imp ihl ihr
    | prod l r _ _ => exact h.imp .inl .inl

theorem mentions_diffTimes_succ (n : Nat) :
    (e.diffTimes v (n + 1)).Mentions x ↔ e.MentionsInProduct x := by
  induction n generalizing e with
  | zero => exact mentions_diff
  | succ n ih => exact ih.trans mentionsInProduct_diff

theorem mem_freeNames_diffN {n : Int} (hn : 1 ≤ n) :
    x ∈ (e.diffN v n).freeNames ↔ e.MentionsInProduct x := by
  obtain ⟨m, rfl⟩ : ∃ m : Nat, n = m + 1 := ⟨n.toNat - 1, by omega⟩
  rw [mem_freeNames, diffN]
  exact mentions_diffTimes_succ m

end Derivatives

/-- The names of an expression are listed in the order of their bytes, and they are those at its
positions. The names of a derivative, of whatever order and by whatever name, are those at positions
that lie below a product: they are listed as they are for the expression, with the others left out,
and are the same for all derivatives. -/
theorem freeNames_diffN (e : Expr) :
    Increasing e.freeNames ∧ (∀ x, x ∈ e.freeNames ↔ ∃ q, e.at? q = some (.var x)) ∧
      ∀ (v : String) (n : Int), 1 ≤ n →
        (∀ x, x ∈ (e.diffN v n).freeNames ↔
          ∃ q, e.at? q = some (.var x) ∧ ∃ t ∈ q, t.op = .prod) ∧
        (e.diffN v n).freeNames.Sublist e.freeNames ∧
        ∀ (v' : String) (n' : Int), 1 ≤ n' →
          (e.diffN v' n').freeNames = (e.diffN v n).freeNames := by
  refine ⟨increasing_freeNames e, ?_, ?_⟩
  · intro x
    exact mem_freeNames.trans mentions_iff_exists_at?
  · intro v n hn
    refine ⟨?_, ?_, ?_⟩
    · intro x
      exact (mem_freeNames_diffN hn).trans mentionsInProduct_iff_exists_at?
    · refine (increasing_freeNames _).sublist_of_subset (increasing_freeNames e) ?_
      intro x hx
      exact mem_freeNames.mpr ((mem_freeNames_diffN hn).mp hx).mentions
    · intro v' n' hn'
      refine List.Pairwise.eq_of_mem_iff (increasing_freeNames _) (increasing_freeNames _) ?_
      intro x
      exact (mem_freeNames_diffN hn').trans (mem_freeNames_diffN hn).symm

theorem freeNames_diffN_third :
    let e : Expr := .sum (.var "x") (.prod (.var "y") (.sum (.num ⟨2⟩) (.var "b")))
    e.freeNames = ["b", "x", "y"] ∧ (e.diffN "z" 3).freeNames = ["b", "y"] := by
  intro e
  obtain ⟨-, -, h⟩ := freeNames_diffN e
  obtain ⟨-, -, he⟩ := h "x" 1 (by decide)
  refine ⟨by decide +kernel, (he "z" 3 (by decide)).trans ?_⟩
  decide +kernel

end Symbolic.Expr
