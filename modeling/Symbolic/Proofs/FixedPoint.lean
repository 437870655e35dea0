import Mathlib.Algebra.Order.Floor.Semifield
import Mathlib.Data.Rat.Floor
import Symbolic.Proofs.FreeNames
import Symbolic.Proofs.Grid
import Symbolic.Proofs.Substitution

/-!
Full substitution is arithmetic in units of the last place. Sums are sums of units; a product has as
many units as fit, and this is the only place where digits are lost.
-/

namespace Symbolic

namespace Number

def units (n : Number) : Nat :=
  ⌊scale * n.toRat⌋₊

theorem units_ofUnits (u : Nat) : (ofUnits u).units = u := by
  have hu : (scale : Rat) * (ofUnits u).toRat = u := by
    rw [toRat_ofUnits, scale]
    push_cast
    ring
  rw [units, hu, Nat.floor_natCast]

theorem ofUnits_inj {a b : Nat} (h : ofUnits a = ofUnits b) : a = b := by
  rw [← units_ofUnits a, h, units_ofUnits]

theorem ofUnits_zero : ofUnits 0 = zero := by
  decide +kernel

theorem units_zero : zero.units = 0 := by
  rw [← ofUnits_zero, units_ofUnits]

theorem OnGrid.ofUnits_units {n : Number} (h : n.OnGrid) : ofUnits n.units = n := by
  obtain ⟨u, rfl⟩ := h.exists_units
  rw [units_ofUnits]

theorem add_ofUnits (a b : Nat) : (ofUnits a).add (ofUnits b) = ofUnits (a + b) := by
  have hs : (scale : Rat) * ((a : Rat) / 10000 + (b : Rat) / 10000) = ((a + b : Nat) : Rat) := by
    rw [scale]
    push_cast
    ring
  rw [add, toRat_ofUnits, toRat_ofUnits, ofRat_eq_ofUnits (by positivity), hs, Nat.floor_natCast]

theorem mul_ofUnits (a b : Nat) : (ofUnits a).mul (ofUnits b) = ofUnits (a * b / scale) := by
  have hs : (scale : Rat) * ((a : Rat) / 10000 * ((b : Rat) / 10000)) =
      ((a * b : Nat) : Rat) / (scale : Nat) := by
    rw [scale]
    push_cast
    ring
  rw [mul, toRat_ofUnits, toRat_ofUnits, ofRat_eq_ofUnits (by positivity), hs,
    Nat.floor_div_eq_div]

end Number

/-- The units of the number that a name is bound to; none if it is bound to no number. -/
def Bindings.units (env : Bindings) (x : String) : Nat :=
  (env.number? x).elim 0 Number.units

namespace Expr

/-- The value of an expression in units of the last place, each product cut off. -/
def units (env : Bindings) : Expr → Nat
  | .num n => n.units
  | .var x => env.units x
  | .sum l r => l.units env + r.units env
  | .prod l r => l.units env * r.units env / Number.scale

theorem units_zero (env : Bindings) : zero.units env = 0 :=
  Number.units_zero

theorem foldSum_num (a b : Number) : foldSum (.num a) (.num b) = .num (a.add b) := rfl

theorem foldProd_num (a b : Number) : foldProd (.num a) (.num b) = .num (a.mul b) := rfl

theorem simplify_eq_units {env : Bindings} {e : Expr} (h : e.WellFormed)
    (hb : ∀ x, e.Mentions x → env.Binds x) :
    e.simplify env = .num (.ofUnits (e.units env)) := by
  induction e with
  | num n => rw [simplify, units, Number.OnGrid.ofUnits_units h]
  | var x =>
    obtain ⟨n, hn⟩ := Option.isSome_iff_exists.mp ((env.isSome_number?_iff x).mpr (hb x rfl))
    have hu : env.units x = n.units := by rw [Bindings.units, hn, Option.elim_some]
    rw [units, hu, (onGrid_of_number? hn).ofUnits_units, simplify, hn]
  | sum l r ihl ihr =>
    rw [simplify, ihl h.1 fun x hx => hb x (.inl hx), ihr h.2 fun x hx => hb x (.inr hx),
      foldSum_num, Number.add_ofUnits, units]
  | prod l r ihl ihr =>
    rw [simplify, ihl h.1 fun x hx => hb x (.inl hx), ihr h.2 fun x hx => hb x (.inr hx),
      foldProd_num, Number.mul_ofUnits, units]

end Expr

end Symbolic
