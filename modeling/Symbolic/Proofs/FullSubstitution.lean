import Symbolic.Proofs.FixedPoint
import Symbolic.Proofs.Positional

/-!
What full substitution computes, said without numbers and bindings of numbers: natural numbers in
units of the last place, taken from the digits that the leaves are written with. Sums are exact; a
product is rounded down, once.
-/

namespace Symbolic

namespace Number

theorem cast_scale : (scale : Rat) = 10 ^ 4 := by
  norm_num [scale]

theorem ofUnits_eq (u : Nat) : ofUnits u = ⟨(u : Rat) / 10 ^ 4⟩ := by
  rw [ofUnits, Rat.mkRat_eq_div, Int.cast_natCast, cast_scale]

theorem OnGrid.cast_units {n : Number} (h : n.OnGrid) : (n.units : Rat) = 10 ^ 4 * n.toRat := by
  obtain ⟨u, rfl⟩ := h.exists_units
  rw [units_ofUnits, ofUnits_eq]
  ring

theorem OnGrid.toRat_eq {n : Number} (h : n.OnGrid) : n.toRat = (n.units : Rat) / 10 ^ 4 := by
  rw [h.cast_units]
  ring

theorem mul_units_bounds (a b : Nat) :
    ((a * b / scale : Nat) / 10 ^ 4 : Rat) ≤ a / 10 ^ 4 * (b / 10 ^ 4) ∧
      (a / 10 ^ 4 * (b / 10 ^ 4) : Rat) < (a * b / scale : Nat) / 10 ^ 4 + 1 / 10 ^ 4 := by
  have hlo : ((a * b / scale * scale : Nat) : Rat) ≤ (a * b : Nat) := by
    exact_mod_cast Nat.div_mul_le_self (a * b) scale
  have hhi : ((a * b : Nat) : Rat) < (scale * (a * b / scale + 1) : Nat) := by
    exact_mod_cast Nat.lt_mul_div_succ (a * b) (by decide)
  have he : (a / 10 ^ 4 * (b / 10 ^ 4) : Rat) = (a * b : Nat) / 10 ^ 8 := by
    push_cast
    ring
  rw [he]
  simp only [Nat.cast_mul, Nat.cast_add, Nat.cast_one, cast_scale] at hlo hhi ⊢
  constructor
  · linarith
  · linarith

end Number

theorem Bindings.units_eq_floor {env : Bindings} {x : String} {b : Binary64}
    (hg : env.get? x = some b) (hf : b.isFinite = true) (hp : 0 ≤ b.toRat) :
    env.units x = ⌊10 ^ 4 * decimalValue b.plainText⌋₊ := by
  have hn : env.number? x = some (.ofUnits ⌊Number.scale * decimalValue b.plainText⌋₊) := by
    rw [number?, hg, Option.bind_some, Number.ofBinary64?_eq_floor hf hp]
  rw [units, hn, Option.elim_some, Number.units_ofUnits, Number.cast_scale]

namespace Expr

/-- The value of an expression in units of the last place. A name counts with the value of its
binding as it is written out in decimal. -/
def fixedPoint (env : Bindings) : Expr → Nat
  | .num n => ⌊10 ^ 4 * n.toRat⌋₊
  | .var x => ⌊10 ^ 4 * (env.get? x).elim 0 fun b => decimalValue b.plainText⌋₊
  | .sum l r => l.fixedPoint env + r.fixedPoint env
  | .prod l r => l.fixedPoint env * r.fixedPoint env / 10 ^ 4

theorem fixedPoint_eq_units {env : Bindings} {e : Expr} (hb : ∀ x, e.Mentions x → env.Binds x) :
    e.fixedPoint env = e.units env := by
  induction e with
  | num n => rw [fixedPoint, units, Number.units, Number.cast_scale]
  | var x =>
    obtain ⟨b, hg, hf, hp⟩ := hb x rfl
    rw [fixedPoint, units, Bindings.units_eq_floor hg hf hp, hg, Option.elim_some]
  | sum l r ihl ihr =>
    rw [fixedPoint, units, ihl fun x hx => hb x (.inl hx), ihr fun x hx => hb x (.inr hx)]
  | prod l r ihl ihr =>
    rw [fixedPoint, units, ihl fun x hx => hb x (.inl hx), ihr fun x hx => hb x (.inr hx)]
    rfl

theorem fixedPoint_num {n : Number} (h : n.OnGrid) (env : Bindings) :
    ((num n).fixedPoint env : Rat) = 10 ^ 4 * n.toRat := by
  rw [fixedPoint_eq_units (by simp [Mentions]), units, h.cast_units]

theorem simplify_fixedPoint {e : Expr} (h : e.WellFormed) {env : Bindings}
    (hb : ∀ x, e.Mentions x → env.Binds x) :
    e.simplify env = .num ⟨e.fixedPoint env / 10 ^ 4⟩ := by
  rw [simplify_eq_units h hb, fixedPoint_eq_units hb, Number.ofUnits_eq]

/-- Under bindings of all its names, a well-formed expression becomes the number of its fixed-point
value. The leaves are taken whole, the number of a sum is the sum of the numbers of its operands, and
the number of a product falls short of the product by less than one unit of the last place. -/
theorem simplify_eq_fixedPoint {e : Expr} (h : e.WellFormed) {env : Bindings}
    (hb : ∀ x ∈ e.freeNames, env.Binds x) :
    e.simplify env = .num ⟨e.fixedPoint env / 10 ^ 4⟩ ∧
      (∀ n : Number, n.OnGrid → ((num n).fixedPoint env : Rat) = 10 ^ 4 * n.toRat) ∧
      (∀ l r, e = .sum l r → ∃ a b, l.simplify env = .num a ∧ r.simplify env = .num b ∧
        e.simplify env = .num ⟨a.toRat + b.toRat⟩) ∧
      ∀ l r, e = .prod l r → ∃ a b c, l.simplify env = .num a ∧ r.simplify env = .num b ∧
        e.simplify env = .num c ∧ c.toRat ≤ a.toRat * b.toRat ∧
        a.toRat * b.toRat < c.toRat + 1 / 10 ^ 4 := by
  have hm : ∀ x, e.Mentions x → env.Binds x := fun x hx => hb x (mem_freeNames.mpr hx)
  have hs := simplify_fixedPoint h hm
  refine ⟨hs, fun n hn => fixedPoint_num hn env, ?_, ?_⟩
  · rintro l r rfl
    have hl := simplify_fixedPoint h.1 fun x hx => hm x (.inl hx)
    have hr := simplify_fixedPoint h.2 fun x hx => hm x (.inr hx)
    refine ⟨_, _, hl, hr, ?_⟩
    rw [hs, fixedPoint, Nat.cast_add, add_div]
  · rintro l r rfl
    have hl := simplify_fixedPoint h.1 fun x hx => hm x (.inl hx)
    have hr := simplify_fixedPoint h.2 fun x hx => hm x (.inr hx)
    exact ⟨_, _, _, hl, hr, hs, Number.mul_units_bounds _ _⟩

/-- With 0.1 and a third for the names, 0.1003 times 0.3333 is cut off after 0.0334. -/
theorem simplify_eq_fixedPoint_third :
    let e : Expr := .prod (.sum (.var "x") (.num ⟨3 / 10000⟩)) (.var "y")
    let env : Bindings := ⟨[("x", ⟨0x3FB999999999999A⟩), ("y", ⟨0x3FD5555555555555⟩)]⟩
    e.WellFormed ∧ (∀ x ∈ e.freeNames, env.Binds x) ∧ e.simplify env = .num ⟨334 / 10 ^ 4⟩ := by
  intro e env
  have hw : e.WellFormed := by decide +kernel
  have hb : ∀ x ∈ e.freeNames, env.Binds x := by decide +kernel
  have hf : e.fixedPoint env = 334 := by decide +kernel
  refine ⟨hw, hb, ?_⟩
  rw [(simplify_eq_fixedPoint hw hb).1, hf]
  rfl

end Expr

end Symbolic
