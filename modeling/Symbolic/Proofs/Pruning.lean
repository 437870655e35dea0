import Mathlib.Data.List.Infix
import Symbolic.Expr.Walk
import Symbolic.Proofs.Positions

/-!
Which nodes a walk meets. It goes through the positions in pre-order and leaves out those that have
above them a node that it does not go below, whatever else is equal or different in the tree.
-/

namespace Symbolic

theorem Position.Before.ne {p q : Position} (h : Before p q) : p ≠ q := by
  induction h with
  | above => exact (List.cons_ne_nil _ _).symm
  | beside => simp
  | within _ ih => simpa using ih

namespace Expr

section Reached
variable {down : Expr → Bool} {e x : Expr} {t : Turn} {p : Position}

/-- The walk goes below every node above the position. -/
def Reached (down : Expr → Bool) (e : Expr) (p : Position) : Prop :=
  ∀ q y, q <+: p → q ≠ p → e.at? q = some y → down y = true

theorem reached_iff_inits :
    e.Reached down p ↔ ∀ q ∈ p.inits, q ≠ p → ∀ y ∈ e.at? q, down y = true := by
  simp only [Reached, List.mem_inits, Option.mem_def]
  constructor
  · intro h q hq hne y hy
    exact h q y hq hne hy
  · intro h q y hq hne hy
    exact h q hq hne y hy

instance : Decidable (e.Reached down p) :=
  decidable_of_iff _ reached_iff_inits.symm

theorem reached_nil : e.Reached down [] := by
  intro q y hq hne _
  exact absurd (List.prefix_nil.mp hq) hne

theorem reached_cons (hx : e.below? t = some x) :
    e.Reached down (t :: p) ↔ down e = true ∧ x.Reached down p := by
  have hat (q) : e.at? (t :: q) = x.at? q := by rw [at?, hx, Option.bind_some]
  constructor
  · intro h
    refine ⟨h [] e List.nil_prefix (List.cons_ne_nil t p).symm rfl, ?_⟩
    intro q y hq hne hy
    exact h (t :: q) y (List.cons_prefix_cons.mpr ⟨rfl, hq⟩) (by simpa using hne) ((hat q).trans hy)
  · rintro ⟨he, h⟩ q y hq hne hy
    cases q with
    | nil =>
      cases hy
      exact he
    | cons u q =>
      obtain ⟨rfl, hqp⟩ := List.cons_prefix_cons.mp hq
      exact h q y hqp (by simpa using hne) ((hat q).symm.trans hy)

/-- The parts at the positions that a walk reaches, in pre-order. -/
def unpruned (down : Expr → Bool) (e : Expr) : List (Position × Expr) :=
  e.nodes.filter fun (p, _) => e.Reached down p

theorem mem_unpruned : (p, x) ∈ e.unpruned down ↔ e.at? p = some x ∧ e.Reached down p := by
  rw [unpruned, List.mem_filter, mem_nodes, decide_eq_true_eq]

theorem unpruned_of_isLeaf (h : e.isLeaf = true) : e.unpruned down = [([], e)] := by
  cases e with
  | num n => simp [unpruned, nodes, reached_nil]
  | var y => simp [unpruned, nodes, reached_nil]
  | sum | prod => cases h

/-- Below a node, everything is pruned or nothing that would not be pruned in the operand itself. -/
theorem filter_reached_lifted (hx : e.below? t = some x) :
    (lifted t x.nodes).filter (fun (p, _) => e.Reached down p) =
      if down e then lifted t (x.unpruned down) else [] := by
  rw [lifted, List.filter_map, unpruned, lifted]
  cases hd : down e with
  | true =>
    rw [if_pos rfl]
    congr 1
    apply List.filter_congr
    rintro ⟨p, y⟩ _
    simp [reached_cons hx, hd]
  | false =>
    simp [reached_cons hx, hd]

end Reached

section Apply
variable (down : Expr → Bool) (op : Operator) (l r : Expr)

theorem unpruned_apply :
    (op.apply l r).unpruned down = ([], op.apply l r) ::
      if down (op.apply l r) then
        lifted ⟨op, .left⟩ (l.unpruned down) ++ lifted ⟨op, .right⟩ (r.unpruned down)
      else [] := by
  have hl := (below?_apply_eq_some op l r).mpr (.inl ⟨rfl, rfl⟩)
  have hr := (below?_apply_eq_some op l r).mpr (.inr ⟨rfl, rfl⟩)
  rw [unpruned, nodes_apply, List.filter_cons_of_pos (by simp [reached_nil]), List.filter_append,
    filter_reached_lifted hl, filter_reached_lifted hr]
  split <;> rfl

theorem walkOnto_apply (rest : List Expr) :
    (op.apply l r).walkOnto down rest = op.apply l r ::
      if down (op.apply l r) then l.walkOnto down (r.walkOnto down rest) else rest := by
  cases op <;> rfl

end Apply

theorem map_snd_lifted (t : Turn) (parts : List (Position × Expr)) :
    (lifted t parts).map Prod.snd = parts.map Prod.snd := by
  rw [lifted, List.map_map]
  rfl

theorem walkOnto_eq_unpruned (down : Expr → Bool) (e : Expr) (rest : List Expr) :
    e.walkOnto down rest = (e.unpruned down).map Prod.snd ++ rest := by
  induction e using operatorInduction generalizing rest with
  | num n => rw [unpruned_of_isLeaf rfl]; rfl
  | var y => rw [unpruned_of_isLeaf rfl]; rfl
  | apply op l r ihl ihr =>
    rw [walkOnto_apply, unpruned_apply, List.map_cons, List.cons_append]
    split
    · rw [ihl, ihr, List.map_append, map_snd_lifted, map_snd_lifted, List.append_assoc]
    · rfl

section Order

def InOrder (parts : List (Position × Expr)) : Prop :=
  parts.Pairwise fun u v => u.1.Before v.1

theorem InOrder.lifted {parts : List (Position × Expr)} (h : InOrder parts) (t : Turn) :
    InOrder (lifted t parts) :=
  List.pairwise_map.mpr (h.imp .within)

theorem inOrder_nodes (e : Expr) : InOrder e.nodes := by
  induction e using operatorInduction with
  | num n => exact List.pairwise_singleton _ _
  | var y => exact List.pairwise_singleton _ _
  | apply op l r ihl ihr =>
    rw [nodes_apply, InOrder, List.pairwise_cons, List.pairwise_append]
    refine ⟨?_, ihl.lifted _, ihr.lifted _, ?_⟩
    · rintro ⟨p, x⟩ hm
      cases p with
      | nil => exact absurd hm (by simp [nil_not_mem_lifted])
      | cons t p => exact .above
    · rintro ⟨p, x⟩ hl ⟨q, y⟩ hr
      cases p with
      | nil => exact absurd hl nil_not_mem_lifted
      | cons t p =>
        cases q with
        | nil => exact absurd hr nil_not_mem_lifted
        | cons u q =>
          obtain ⟨rfl, -⟩ := mem_lifted.mp hl
          obtain ⟨rfl, -⟩ := mem_lifted.mp hr
          exact .beside

end Order

/-- A walk meets, in pre-order and each once, the positions of the expression that have no node above
them which the walk does not go below, and it meets there the part at that position. -/
theorem walk_eq_unpruned (down : Expr → Bool) (e : Expr) :
    e.walk down = (e.unpruned down).map Prod.snd ∧ InOrder (e.unpruned down) ∧
      ((e.unpruned down).map Prod.fst).Nodup ∧
      ∀ p x, (p, x) ∈ e.unpruned down ↔ e.at? p = some x ∧
        ∀ q y, q <+: p → q ≠ p → e.at? q = some y → down y = true := by
  have ho : InOrder (e.unpruned down) := (inOrder_nodes e).filter _
  refine ⟨?_, ho, ?_, ?_⟩
  · rw [walk, walkOnto_eq_unpruned, List.append_nil]
  · exact List.pairwise_map.mpr (ho.imp Position.Before.ne)
  · intro p x
    exact mem_unpruned

example :
    let e : Expr := .sum (.prod (.var "a") (.var "b")) (.var "a")
    e.walk (fun x => x.kind ≠ .prod) = [e, .prod (.var "a") (.var "b"), .var "a"] := by
  decide

end Expr

end Symbolic
