import Symbolic.Proofs.FixedPoint

/-!
The order in which partial derivatives are taken does not show in their values. Products are cut off,
so the value of a product alone does not decide the values of its derivatives; what does is how both
factors behave under all further derivatives. Expressions that behave alike may stand for each other
in a product, factors may be exchanged, and two derivatives may be.
-/

namespace Symbolic.Expr

/-- The derivatives by one name after the other. -/
def diffAll : List String → Expr → Expr
  | [], e => e
  | v :: vs, e => diffAll vs (e.diff v)

theorem WellFormed.diffAll {e : Expr} (h : e.WellFormed) (vs : List String) :
    (e.diffAll vs).WellFormed := by
  induction vs generalizing e with
  | nil => exact h
  | cons v vs ih => exact ih (h.diff v)

theorem Mentions.of_diffAll {x : String} {vs : List String} {e : Expr}
    (h : (e.diffAll vs).Mentions x) : e.Mentions x := by
  induction vs generalizing e with
  | nil => exact h
  | cons v vs ih => exact (ih h).of_diff

theorem units_diffAll_sum (env : Bindings) (vs : List String) (l r : Expr) :
    ((sum l r).diffAll vs).units env = (l.diffAll vs).units env + (r.diffAll vs).units env := by
  induction vs generalizing l r with
  | nil => rfl
  | cons v vs ih => exact ih (l.diff v) (r.diff v)

theorem units_diffAll_prod_cons (env : Bindings) (v : String) (vs : List String) (l r : Expr) :
    ((prod l r).diffAll (v :: vs)).units env =
      ((prod l (r.diff v)).diffAll vs).units env + ((prod r (l.diff v)).diffAll vs).units env :=
  units_diffAll_sum env vs (.prod l (r.diff v)) (.prod r (l.diff v))

/-- The same value, and the same value of every derivative. -/
def Alike (env : Bindings) (e f : Expr) : Prop :=
  ∀ vs, (e.diffAll vs).units env = (f.diffAll vs).units env

section Alike
variable {env : Bindings}

theorem Alike.refl (e : Expr) : Alike env e e := fun _ => rfl

theorem Alike.diff {e f : Expr} (h : Alike env e f) (v : String) :
    Alike env (e.diff v) (f.diff v) :=
  fun vs => h (v :: vs)

theorem Alike.prod {l l' r r' : Expr} (hl : Alike env l l') (hr : Alike env r r') :
    Alike env (.prod l r) (.prod l' r') := by
  intro vs
  -- The product rule turns one product into two, so the factors change along the way.
  induction vs generalizing l l' r r' with
  | nil =>
    have hl₀ : l.units env = l'.units env := hl []
    have hr₀ : r.units env = r'.units env := hr []
    rw [diffAll, diffAll, units, units, hl₀, hr₀]
  | cons v vs ih =>
    rw [units_diffAll_prod_cons, units_diffAll_prod_cons, ih hl (hr.diff v), ih hr (hl.diff v)]

/-- The product rule is symmetric in the factors, and so is a product that is cut off. -/
theorem alike_prod_comm (l r : Expr) : Alike env (.prod l r) (.prod r l) := by
  intro vs
  cases vs with
  | nil => rw [diffAll, diffAll, units, units, Nat.mul_comm]
  | cons v vs => rw [units_diffAll_prod_cons, units_diffAll_prod_cons, Nat.add_comm]

theorem alike_diff_diff (v w : String) (e : Expr) :
    Alike env ((e.diff v).diff w) ((e.diff w).diff v) := by
  induction e with
  | num n => exact .refl _
  | var x =>
    have hd (a b : String) : ((var x).diff a).diff b = zero := by
      rw [Expr.diff]
      split <;> rfl
    rw [hd, hd]
    exact .refl _
  | sum l r ihl ihr =>
    intro vs
    simp only [Expr.diff, units_diffAll_sum, ihl vs, ihr vs]
  | prod l r ihl ihr =>
    intro vs
    have hl := (Alike.refl l).prod ihr vs
    have hr := (Alike.refl r).prod ihl vs
    have hv := (alike_prod_comm _ _ : Alike env (.prod (l.diff v) (r.diff w)) _) vs
    have hw := (alike_prod_comm _ _ : Alike env (.prod (r.diff v) (l.diff w)) _) vs
    simp only [Expr.diff, units_diffAll_sum]
    omega

end Alike

theorem units_diffAll_perm (env : Bindings) {vs ws : List String} (h : vs.Perm ws) (e : Expr) :
    (e.diffAll vs).units env = (e.diffAll ws).units env := by
  induction h generalizing e with
  | nil => rfl
  | cons v _ ih => exact ih (e.diff v)
  | swap v w vs => exact alike_diff_diff w v e vs
  | trans _ _ ih₁ ih₂ => exact (ih₁ e).trans (ih₂ e)

/-- Under bindings of all its names, a well-formed expression has one number for its derivatives by
the same names in any order. -/
theorem simplify_diffAll_perm {e : Expr} (h : e.WellFormed) {vs ws : List String}
    (hp : vs.Perm ws) {env : Bindings} (hb : ∀ x ∈ e.freeNames, env.Binds x) :
    ∃ n, (e.diffAll vs).simplify env = .num n ∧ (e.diffAll ws).simplify env = .num n := by
  have hs (us : List String) :
      (e.diffAll us).simplify env = .num (.ofUnits ((e.diffAll us).units env)) :=
    simplify_eq_units (h.diffAll us) fun x hx => hb x (mem_freeNames.mpr hx.of_diffAll)
  refine ⟨_, hs vs, ?_⟩
  rw [hs ws, units_diffAll_perm env hp]

/-- The values of the names are 0.3333 and 0.07, so every product in the derivatives is cut off. -/
theorem simplify_diffAll_perm_truncated :
    let e : Expr := .prod (.prod (.var "x") (.var "y")) (.prod (.var "x") (.num ⟨7 / 10000⟩))
    let env : Bindings := ⟨[("x", ⟨0x3FD554C985F06F69⟩), ("y", ⟨0x3FB1EB851EB851EC⟩)]⟩
    e.WellFormed ∧ (∀ x ∈ e.freeNames, env.Binds x) ∧
      ∃ n, (e.diffAll ["x", "y", "x"]).simplify env = .num n ∧
        (e.diffAll ["y", "x", "x"]).simplify env = .num n := by
  intro e env
  have hw : e.WellFormed := by decide +kernel
  have hb : ∀ x ∈ e.freeNames, env.Binds x := by decide +kernel
  exact ⟨hw, hb, simplify_diffAll_perm hw (.swap "y" "x" ["x"]) hb⟩

end Symbolic.Expr
