import Symbolic.Proofs.FixedPoint
import Symbolic.Proofs.NormalForm

/-!
Differentiating what a partial substitution has left. A part that has become a number has the
derivative zero, where the part itself has a tree of sums and products; but each of these products
has a derivative of a replaced name for a factor, and so it vanishes as well. Operands that are cut
off early are cut off at the same digit as later.
-/

namespace Symbolic

/-- What the second bindings replace, the first replace by the same numbers. -/
def Bindings.Extends (env' env : Bindings) : Prop :=
  ∀ x, env.Binds x → env'.number? x = env.number? x

theorem Bindings.Extends.number?_staged {env env' : Bindings} (h : env'.Extends env) (x : String) :
    (env.staged env').number? x = env'.number? x := by
  rw [Bindings.number?_staged]
  by_cases hx : env.Binds x
  · rw [h x hx, Option.or_self]
  · rw [(env.number?_eq_none_iff x).mpr hx, Option.none_or]

namespace Expr

theorem units_diff_foldSum (env : Bindings) (v : String) (l r : Expr) :
    ((foldSum l r).diff v).units env = (l.diff v).units env + (r.diff v).units env := by
  obtain ⟨a, b, c, rfl, rfl, he⟩ | ⟨-, he⟩ := fold_cases .sum l r
  · rw [foldSum_num, diff, diff, diff, units_zero]
  · rw [fold] at he
    rw [he]
    rfl

/-- The derivative of a folded product is zero, and in that of the product as it stood each factor
meets the derivative of a number. -/
theorem units_diff_foldProd (env : Bindings) (v : String) (l r : Expr) :
    ((foldProd l r).diff v).units env =
      l.units env * (r.diff v).units env / Number.scale +
        r.units env * (l.diff v).units env / Number.scale := by
  obtain ⟨a, b, c, rfl, rfl, he⟩ | ⟨-, he⟩ := fold_cases .prod l r
  · rw [foldProd_num, diff, diff, diff, units_zero, Nat.mul_zero, Nat.mul_zero, Nat.zero_div]
  · rw [fold] at he
    rw [he]
    rfl

section Extends
variable {env env' : Bindings} {e : Expr}

theorem simplify_simplify_of_extends (h : env'.Extends env) (e : Expr) :
    (e.simplify env).simplify env' = e.simplify env' := by
  rw [simplify_simplify]
  exact simplify_congr h.number?_staged e

theorem units_simplify (he : env'.Extends env) (h : e.WellFormed)
    (hb : ∀ x, e.Mentions x → env'.Binds x) : (e.simplify env).units env' = e.units env' := by
  have hs := simplify_eq_units (h.simplify env) fun x hx => hb x (mentions_simplify.mp hx).1
  rw [simplify_simplify_of_extends he, simplify_eq_units h hb] at hs
  exact (Number.ofUnits_inj (Expr.num.inj hs)).symm

theorem units_diff_simplify (he : env'.Extends env) {v : String} (hv : ¬ env.Binds v)
    (h : e.WellFormed) (hb : ∀ x, e.Mentions x → env'.Binds x) :
    ((e.simplify env).diff v).units env' = (e.diff v).units env' := by
  induction e with
  | num n => rfl
  | var x =>
    rw [simplify]
    cases hx : env.number? x with
    | none => rfl
    | some n =>
      -- A name that has been replaced is not the one of the derivative.
      have hne : x ≠ v := by
        rintro rfl
        exact hv ((env.isSome_number?_iff x).mp (by rw [hx]; rfl))
      rw [diff, diff, if_neg hne]
  | sum l r ihl ihr =>
    rw [simplify, units_diff_foldSum, ihl h.1 fun x hx => hb x (.inl hx),
      ihr h.2 fun x hx => hb x (.inr hx), diff, units]
  | prod l r ihl ihr =>
    have hl : ∀ x, l.Mentions x → env'.Binds x := fun x hx => hb x (.inl hx)
    have hr : ∀ x, r.Mentions x → env'.Binds x := fun x hx => hb x (.inr hx)
    rw [simplify, units_diff_foldProd, units_simplify he h.1 hl, units_simplify he h.2 hr,
      ihl h.1 hl, ihr h.2 hr, diff, units, units, units]

end Extends

/-- A well-formed expression may be simplified under some bindings before it is differentiated by a
name that these do not replace: under bindings of all its names that agree on those replaced, the
derivative becomes the same number as without. To agree is to give the same numbers, as equal values
do. -/
theorem simplify_diff_simplify {e : Expr} (h : e.WellFormed) {v : String} {env env' : Bindings}
    (hv : ¬ env.Binds v) (he : ∀ x, env.Binds x → env'.number? x = env.number? x)
    (hb : ∀ x ∈ e.freeNames, env'.Binds x) :
    ∃ n, ((e.simplify env).diff v).simplify env' = .num n ∧ (e.diff v).simplify env' = .num n := by
  have hm : ∀ x, e.Mentions x → env'.Binds x := fun x hx => hb x (mem_freeNames.mpr hx)
  have hd : (e.diff v).simplify env' = .num (.ofUnits ((e.diff v).units env')) :=
    simplify_eq_units (h.diff v) fun x hx => hm x hx.of_diff
  have hs : ((e.simplify env).diff v).simplify env' =
      .num (.ofUnits (((e.simplify env).diff v).units env')) :=
    simplify_eq_units ((h.simplify env).diff v) fun x hx => hm x (mentions_simplify.mp hx.of_diff).1
  refine ⟨_, ?_, hd⟩
  rw [hs, units_diff_simplify he hv h hm]

/-- The values are 0.3333, 0.07 and zero. At first the name of the derivative has -1 for a value,
which binds nothing; the others are replaced, and 0.07 times 0.3333 is folded and cut off. The zero
is negative later, and the same number. -/
theorem simplify_diff_simplify_truncated :
    let e : Expr := .sum (.var "z")
      (.prod (.prod (.var "y") (.num ⟨3333 / 10000⟩)) (.prod (.var "x") (.var "x")))
    let env : Bindings :=
      ⟨[("x", ⟨0xBFF0000000000000⟩), ("y", ⟨0x3FB1EB851EB851EC⟩), ("z", ⟨0⟩)]⟩
    let env' : Bindings :=
      ⟨[("x", ⟨0x3FD554C985F06F69⟩), ("y", ⟨0x3FB1EB851EB851EC⟩), ("z", ⟨0x8000000000000000⟩)]⟩
    e.WellFormed ∧ ¬ env.Binds "x" ∧ (∀ x, env.Binds x → env'.number? x = env.number? x) ∧
      (∀ x ∈ e.freeNames, env'.Binds x) ∧
      ((e.simplify env).diff "x").simplify env' = .num ⟨155 / 10000⟩ := by
  intro e env env'
  have hw : e.WellFormed := by decide +kernel
  have hv : ¬ env.Binds "x" := by decide +kernel
  have he : ∀ x, env.Binds x → env'.number? x = env.number? x := by
    intro x hx
    have hne : (x == "x") = false := by
      rw [beq_eq_false_iff_ne]
      rintro rfl
      exact hv hx
    by_cases hz : x = "z"
    · subst hz
      decide +kernel
    · have hzf : (x == "z") = false := beq_eq_false_iff_ne.mpr hz
      simp [env, env', Bindings.number?, Bindings.get?, List.lookup_cons, hne, hzf]
  have hb : ∀ x ∈ e.freeNames, env'.Binds x := by decide +kernel
  have hn : (e.diff "x").simplify env' = .num ⟨155 / 10000⟩ := by decide +kernel
  obtain ⟨n, hs, hd⟩ := simplify_diff_simplify hw hv he hb
  exact ⟨hw, hv, he, hb, by rw [hs, ← hd, hn]⟩

end Expr

end Symbolic
