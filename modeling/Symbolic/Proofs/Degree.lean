import Symbolic.Proofs.MixedDerivative

/-!
Derivatives beyond the degree. However large the tree of an iterated derivative grows, its products
share the derivatives out between the two factors, so if there are more of them than the degrees of
both allow, one factor has vanished. The value of that factor is exactly zero, and so is the product,
which has no digits to lose.
-/

namespace Symbolic.Expr

/-- The degree in a name: that of a product is the sum, that of a sum the greater one. -/
def degree (v : String) : Expr → Nat
  | .num _ => 0
  | .var x => if x = v then 1 else 0
  | .sum l r => max (l.degree v) (r.degree v)
  | .prod l r => l.degree v + r.degree v

theorem degree_eq_zero {v : String} {e : Expr} (h : ¬ e.Mentions v) : e.degree v = 0 := by
  induction e with
  | num n => rfl
  | var x => rw [degree, if_neg (Ne.symm h)]
  | sum l r ihl ihr =>
    rw [degree, ihl fun hl => h (.inl hl), ihr fun hr => h (.inr hr), Nat.max_self]
  | prod l r ihl ihr => rw [degree, ihl fun hl => h (.inl hl), ihr fun hr => h (.inr hr)]

theorem Mentions.of_diffTimes {v x : String} {n : Nat} {e : Expr}
    (h : (e.diffTimes v n).Mentions x) : e.Mentions x := by
  induction n generalizing e with
  | zero => exact h
  | succ n ih => exact (ih h).of_diff

theorem diffTimes_zero (v : String) (n : Nat) : zero.diffTimes v n = zero := by
  induction n with
  | zero => rfl
  | succ n ih => exact ih

theorem diffTimes_eq_diffAll (v : String) (n : Nat) (e : Expr) :
    e.diffTimes v n = e.diffAll (List.replicate n v) := by
  induction n generalizing e with
  | zero => rfl
  | succ n ih => exact ih (e.diff v)

section Vanishing
variable {env : Bindings} {v : String}

theorem units_diffTimes_sum (n : Nat) (l r : Expr) :
    ((sum l r).diffTimes v n).units env =
      (l.diffTimes v n).units env + (r.diffTimes v n).units env := by
  simp only [diffTimes_eq_diffAll, units_diffAll_sum]

theorem units_diffTimes_prod_succ (n : Nat) (l r : Expr) :
    ((prod l r).diffTimes v (n + 1)).units env =
      ((prod l (r.diff v)).diffTimes v n).units env +
        ((prod r (l.diff v)).diffTimes v n).units env :=
  units_diffTimes_sum n (.prod l (r.diff v)) (.prod r (l.diff v))

/-- The derivatives of a product vanish if, however they are shared out, one of the factors does. -/
theorem units_diffTimes_prod_eq_zero {n : Nat} {l r : Expr}
    (h : ∀ i j, i + j = n → (l.diffTimes v i).units env = 0 ∨ (r.diffTimes v j).units env = 0) :
    ((prod l r).diffTimes v n).units env = 0 := by
  -- The product rule exchanges the factors and differentiates one of them.
  induction n generalizing l r with
  | zero =>
    rw [diffTimes, units]
    obtain hl | hr := h 0 0 rfl
    · rw [diffTimes] at hl
      rw [hl, Nat.zero_mul, Nat.zero_div]
    · rw [diffTimes] at hr
      rw [hr, Nat.mul_zero, Nat.zero_div]
  | succ n ih =>
    have hl : ((prod l (r.diff v)).diffTimes v n).units env = 0 := by
      apply ih
      intro i j hij
      exact h i (j + 1) (by omega)
    have hr : ((prod r (l.diff v)).diffTimes v n).units env = 0 := by
      apply ih
      intro i j hij
      exact (h (j + 1) i (by omega)).symm
    rw [units_diffTimes_prod_succ, hl, hr]

theorem units_diffTimes_eq_zero {e : Expr} {n : Nat} (h : e.degree v < n) :
    (e.diffTimes v n).units env = 0 := by
  induction e generalizing n with
  | num a =>
    obtain ⟨k, rfl⟩ := Nat.exists_eq_add_of_lt h
    rw [diffTimes, diff, diffTimes_zero, units_zero]
  | var x =>
    rw [degree] at h
    by_cases hx : x = v
    · rw [if_pos hx] at h
      obtain ⟨k, rfl⟩ := Nat.exists_eq_add_of_le h
      rw [Nat.add_comm, diffTimes, diffTimes, diff, if_pos hx]
      change (zero.diffTimes v k).units env = 0
      rw [diffTimes_zero, units_zero]
    · rw [if_neg hx] at h
      obtain ⟨k, rfl⟩ := Nat.exists_eq_add_of_lt h
      rw [diffTimes, diff, if_neg hx, diffTimes_zero, units_zero]
  | sum l r ihl ihr =>
    rw [degree, Nat.max_lt] at h
    rw [units_diffTimes_sum, ihl h.1, ihr h.2]
  | prod l r ihl ihr =>
    rw [degree] at h
    apply units_diffTimes_prod_eq_zero
    intro i j hij
    by_cases hi : l.degree v < i
    · exact .inl (ihl hi)
    · exact .inr (ihr (by omega))

end Vanishing

/-- Under bindings of all its names, every derivative of a well-formed expression whose order is
beyond the degree is the number zero; so is the derivative by a name that does not occur in it. -/
theorem simplify_diffN_of_degree_lt {e : Expr} (h : e.WellFormed) {env : Bindings}
    (hb : ∀ x ∈ e.freeNames, env.Binds x) (v : String) :
    (∀ n : Int, e.degree v < n → (e.diffN v n).simplify env = .num .zero) ∧
      (v ∉ e.freeNames → (e.diff v).simplify env = .num .zero) := by
  have hz {n : Nat} (hn : e.degree v < n) : (e.diffTimes v n).simplify env = .num .zero := by
    have hm : ∀ x, (e.diffTimes v n).Mentions x → env.Binds x :=
      fun x hx => hb x (mem_freeNames.mpr hx.of_diffTimes)
    rw [simplify_eq_units (h.diffTimes v n) hm, units_diffTimes_eq_zero hn, Number.ofUnits_zero]
  constructor
  · intro n hn
    exact hz (by omega)
  · intro hv
    have hd : e.degree v = 0 := degree_eq_zero fun hm => hv (mem_freeNames.mpr hm)
    exact @hz 1 (by omega)

theorem simplify_diffN_of_degree_lt_square :
    let e : Expr := .prod (.prod (.sum (.var "x") .one) (.num ⟨3333 / 10000⟩))
      (.sum (.var "x") .one)
    let env : Bindings := ⟨[("x", ⟨0x3FD554C985F06F69⟩)]⟩
    e.WellFormed ∧ (∀ x ∈ e.freeNames, env.Binds x) ∧ e.degree "x" < (3 : Int) ∧
      (e.diffN "x" 2).simplify env = .num ⟨6666 / 10000⟩ ∧
      (e.diffN "x" 3).simplify env = .num .zero ∧ "y" ∉ e.freeNames ∧
      (e.diff "y").simplify env = .num .zero := by
  intro e env
  have hw : e.WellFormed := by decide +kernel
  have hb : ∀ x ∈ e.freeNames, env.Binds x := by decide +kernel
  have hd : e.degree "x" < (3 : Int) := by decide +kernel
  have hn : (e.diffN "x" 2).simplify env = .num ⟨6666 / 10000⟩ := by decide +kernel
  have hy : "y" ∉ e.freeNames := by decide +kernel
  exact ⟨hw, hb, hd, hn, (simplify_diffN_of_degree_lt hw hb "x").1 3 hd, hy,
    (simplify_diffN_of_degree_lt hw hb "y").2 hy⟩

end Symbolic.Expr
