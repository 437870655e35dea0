import Symbolic.Expr.Calculus
import Symbolic.Expr.Walk

/-!
The names that a walk collects are the names that occur. A derivative brings in no name of its own.
-/

namespace Symbolic

theorem mem_insertName {x y : String} {names : List String} :
    y ∈ insertName x names ↔ y = x ∨ y ∈ names := by
  induction names with
  | nil => simp [insertName]
  | cons z names ih =>
    rw [insertName]
    split
    · next hx => simp [hx]
    · split
      · exact List.mem_cons
      · rw [List.mem_cons, ih, List.mem_cons]
        exact or_left_comm

theorem mem_foldl_insertName {y : String} (xs names : List String) :
    y ∈ xs.foldl (fun names x => insertName x names) names ↔ y ∈ names ∨ y ∈ xs := by
  induction xs generalizing names with
  | nil => simp
  | cons x xs ih =>
    rw [List.foldl_cons, ih, mem_insertName, List.mem_cons]
    exact or_assoc.trans or_left_comm

namespace Expr

/-- The name occurs in the expression. -/
def Mentions (x : String) : Expr → Prop
  | .num _ => False
  | .var y => x = y
  | .sum l r | .prod l r => l.Mentions x ∨ r.Mentions x

theorem mem_names_walkOnto {x : String} (e : Expr) (rest : List Expr) :
    x ∈ (e.walkOnto (fun _ => true) rest).filterMap name? ↔
      e.Mentions x ∨ x ∈ rest.filterMap name? := by
  induction e generalizing rest with
  | num n => simp [walkOnto, name?, Mentions]
  | var y => simp [walkOnto, name?, Mentions]
  | sum l r ihl ihr =>
    rw [walkOnto, if_pos rfl, List.filterMap_cons_none rfl, ihl, ihr, Mentions, or_assoc]
  | prod l r ihl ihr =>
    rw [walkOnto, if_pos rfl, List.filterMap_cons_none rfl, ihl, ihr, Mentions, or_assoc]

theorem mem_freeNames {x : String} {e : Expr} : x ∈ e.freeNames ↔ e.Mentions x := by
  rw [freeNames, mem_foldl_insertName, walk, mem_names_walkOnto]
  simp

theorem Mentions.of_diff {v x : String} {e : Expr} (h : (e.diff v).Mentions x) : e.Mentions x := by
  induction e with
  | num n => exact h
  | var y =>
    by_cases hy : y = v
    · rw [diff, if_pos hy] at h
      exact h.elim
    · rw [diff, if_neg hy] at h
      exact h.elim
  | sum l r ihl ihr => exact h.imp ihl ihr
  | prod l r ihl ihr =>
    rcases h with (hl | hr) | (hr | hl)
    · exact .inl hl
    · exact .inr (ihr hr)
    · exact .inr hr
    · exact .inl (ihl hl)

end Expr

end Symbolic
