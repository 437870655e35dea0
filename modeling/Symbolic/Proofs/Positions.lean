import Mathlib.Data.List.Nodup
import Symbolic.Expr.Codec

/-!
Positions in an expression. A position is the way down from the root: the operators that are passed,
and the side that is taken at each. The nodes in pre-order are the parts at all positions, each
position once, and the leaves are those of them that have no operands.
-/

namespace Symbolic

/-- A step from an operator down to one of its operands. -/
structure Turn where
  op : Operator
  side : Side
deriving DecidableEq, Repr

abbrev Position := List Turn

/-- Pre-order: a position comes before those below it, and what is on the left of an operator before
what is on its right. -/
inductive Position.Before : Position → Position → Prop
  | above {t : Turn} {p : Position} : Before [] (t :: p)
  | beside {op : Operator} {p q : Position} : Before (⟨op, .left⟩ :: p) (⟨op, .right⟩ :: q)
  | within {t : Turn} {p q : Position} : Before p q → Before (t :: p) (t :: q)

namespace Expr

/-- The operand that a step leads to, if the expression has the operator of the step. -/
def below? : Expr → Turn → Option Expr
  | .sum l _, ⟨.sum, .left⟩ => some l
  | .sum _ r, ⟨.sum, .right⟩ => some r
  | .prod l _, ⟨.prod, .left⟩ => some l
  | .prod _ r, ⟨.prod, .right⟩ => some r
  | _, _ => none

def at? (e : Expr) : Position → Option Expr
  | [] => some e
  | t :: p => (e.below? t).bind fun x => x.at? p

/-- Parts of an operand as parts of the whole. -/
def lifted (t : Turn) (parts : List (Position × Expr)) : List (Position × Expr) :=
  parts.map fun (p, x) => (t :: p, x)

/-- The parts of an expression in pre-order, each with its position. -/
def nodes : Expr → List (Position × Expr)
  | .num n => [([], .num n)]
  | .var x => [([], .var x)]
  | .sum l r => ([], .sum l r) :: (lifted ⟨.sum, .left⟩ l.nodes ++ lifted ⟨.sum, .right⟩ r.nodes)
  | .prod l r => ([], .prod l r) :: (lifted ⟨.prod, .left⟩ l.nodes ++ lifted ⟨.prod, .right⟩ r.nodes)

@[elab_as_elim]
theorem operatorInduction {motive : Expr → Prop} (num : ∀ n, motive (.num n))
    (var : ∀ x, motive (.var x))
    (apply : ∀ (op : Operator) l r, motive l → motive r → motive (op.apply l r)) (e : Expr) :
    motive e := by
  induction e with
  | num n => exact num n
  | var x => exact var x
  | sum l r ihl ihr => exact apply .sum l r ihl ihr
  | prod l r ihl ihr => exact apply .prod l r ihl ihr

section Apply
variable (op : Operator) (l r : Expr)

theorem nodes_apply :
    (op.apply l r).nodes = ([], op.apply l r) ::
      (lifted ⟨op, .left⟩ l.nodes ++ lifted ⟨op, .right⟩ r.nodes) := by
  cases op <;> rfl

theorem isLeaf_apply : (op.apply l r).isLeaf = false := by
  cases op <;> rfl

theorem below?_apply_eq_some {t : Turn} {x : Expr} :
    (op.apply l r).below? t = some x ↔ (t = ⟨op, .left⟩ ∧ x = l) ∨ (t = ⟨op, .right⟩ ∧ x = r) := by
  obtain ⟨op', side⟩ := t
  cases op <;> cases op' <;> cases side <;>
    simp [Operator.apply, below?, eq_comm]

end Apply

theorem mem_lifted {t u : Turn} {p : Position} {x : Expr} {parts : List (Position × Expr)} :
    (u :: p, x) ∈ lifted t parts ↔ u = t ∧ (p, x) ∈ parts := by
  simp only [lifted, List.mem_map, Prod.exists, Prod.mk.injEq, List.cons.injEq]
  constructor
  · rintro ⟨q, y, hm, ⟨rfl, rfl⟩, rfl⟩
    exact ⟨rfl, hm⟩
  · rintro ⟨rfl, hm⟩
    exact ⟨p, x, hm, ⟨rfl, rfl⟩, rfl⟩

theorem nil_not_mem_lifted {t : Turn} {x : Expr} {parts : List (Position × Expr)} :
    ([], x) ∉ lifted t parts := by
  simp [lifted]

theorem mem_nodes {e : Expr} {p : Position} {x : Expr} : (p, x) ∈ e.nodes ↔ e.at? p = some x := by
  induction e using operatorInduction generalizing p with
  | num n => cases p <;> simp [nodes, at?, below?, eq_comm]
  | var y => cases p <;> simp [nodes, at?, below?, eq_comm]
  | apply op l r ihl ihr =>
    rw [nodes_apply, List.mem_cons, List.mem_append]
    cases p with
    | nil => simp [nil_not_mem_lifted, at?, eq_comm]
    | cons t p =>
      simp only [mem_lifted, ihl, ihr, at?, Option.bind_eq_some_iff, below?_apply_eq_some,
        Prod.mk.injEq, reduceCtorEq, false_and, false_or]
      constructor
      · rintro (⟨rfl, h⟩ | ⟨rfl, h⟩)
        · exact ⟨l, .inl ⟨rfl, rfl⟩, h⟩
        · exact ⟨r, .inr ⟨rfl, rfl⟩, h⟩
      · rintro ⟨y, ⟨rfl, rfl⟩ | ⟨rfl, rfl⟩, h⟩
        · exact .inl ⟨rfl, h⟩
        · exact .inr ⟨rfl, h⟩

theorem nodup_lifted {t : Turn} {parts : List (Position × Expr)} (h : parts.Nodup) :
    (lifted t parts).Nodup := by
  refine h.map ?_
  rintro ⟨p, x⟩ ⟨q, y⟩ he
  simpa using he

theorem nodup_nodes (e : Expr) : e.nodes.Nodup := by
  induction e using operatorInduction with
  | num n => simp [nodes]
  | var y => simp [nodes]
  | apply op l r ihl ihr =>
    have hd : List.Disjoint (lifted ⟨op, .left⟩ l.nodes) (lifted ⟨op, .right⟩ r.nodes) := by
      rintro ⟨p, x⟩ hl hr
      cases p with
      | nil => exact nil_not_mem_lifted hl
      | cons t p =>
        obtain ⟨rfl, -⟩ := mem_lifted.mp hl
        cases (mem_lifted.mp hr).1
    rw [nodes_apply, List.nodup_cons, List.mem_append]
    refine ⟨?_, (nodup_lifted ihl).append (nodup_lifted ihr) hd⟩
    rintro (h | h)
    · exact nil_not_mem_lifted h
    · exact nil_not_mem_lifted h

def leaves (e : Expr) : List (Position × Expr) :=
  e.nodes.filter fun (_, x) => x.isLeaf

theorem mem_leaves {e : Expr} {p : Position} {x : Expr} :
    (p, x) ∈ e.leaves ↔ e.at? p = some x ∧ x.isLeaf = true := by
  rw [leaves, List.mem_filter, mem_nodes]

theorem nodup_leaves (e : Expr) : e.leaves.Nodup :=
  (nodup_nodes e).filter _

theorem filter_lifted (t : Turn) (parts : List (Position × Expr)) :
    (lifted t parts).filter (fun (_, x) => x.isLeaf) =
      lifted t (parts.filter fun (_, x) => x.isLeaf) := by
  rw [lifted, lifted, List.filter_map]
  rfl

theorem leaves_apply (op : Operator) (l r : Expr) :
    (op.apply l r).leaves = lifted ⟨op, .left⟩ l.leaves ++ lifted ⟨op, .right⟩ r.leaves := by
  rw [leaves, nodes_apply, List.filter_cons_of_neg (by simp [isLeaf_apply]), List.filter_append,
    filter_lifted, filter_lifted, leaves, leaves]

end Expr

end Symbolic
