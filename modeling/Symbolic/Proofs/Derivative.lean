import Mathlib.Algebra.MvPolynomial.PDeriv
import Mathlib.Data.Nat.Factorial.Basic
import Symbolic.Expr.Calculus

/-!
An expression denotes a polynomial with rational coefficients, and its value at a point is the value
of that polynomial. The formal partial derivative is taken monomial by monomial; it obeys the product
rule, so the derivative of a tree denotes the derivative of its polynomial, however often it is
taken.
-/

namespace Symbolic

open MvPolynomial

/-- Every monomial `a * x ^ k * m` becomes `a * k * x ^ (k - 1) * m`. -/
noncomputable def partialDeriv (v : String) (p : MvPolynomial String ℚ) : MvPolynomial String ℚ :=
  ∑ m ∈ p.support, monomial (m - Finsupp.single v 1) (p.coeff m * m v)

theorem partialDeriv_eq_pderiv (v : String) (p : MvPolynomial String ℚ) :
    partialDeriv v p = pderiv v p := by
  conv_rhs => rw [← p.support_sum_monomial_coeff, map_sum]
  rw [partialDeriv]
  exact Finset.sum_congr rfl fun m _ => pderiv_monomial.symm

theorem partialDeriv_mul (v : String) (p q : MvPolynomial String ℚ) :
    partialDeriv v (p * q) = p * partialDeriv v q + q * partialDeriv v p := by
  simp only [partialDeriv_eq_pderiv, pderiv_mul]
  ring

theorem coeff_iterate_partialDeriv (v : String) (n : Nat) (p : MvPolynomial String ℚ)
    (m : String →₀ ℕ) :
    coeff m ((partialDeriv v)^[n] p) =
      coeff (m + Finsupp.single v n) p * (m v + n).descFactorial n := by
  induction n generalizing p with
  | zero => simp
  | succ n ih =>
    have hs : m + Finsupp.single v n + Finsupp.single v 1 = m + Finsupp.single v (n + 1) := by
      rw [add_assoc, ← Finsupp.single_add]
    rw [Function.iterate_succ_apply, ih, partialDeriv_eq_pderiv, coeff_pderiv, hs,
      ← add_assoc (m v) n 1, Nat.succ_descFactorial_succ]
    simp only [Finsupp.add_apply, Finsupp.single_eq_same]
    push_cast
    ring

namespace Expr

noncomputable def polynomial : Expr → MvPolynomial String ℚ
  | .num n => C n.toRat
  | .var x => X x
  | .sum l r => l.polynomial + r.polynomial
  | .prod l r => l.polynomial * r.polynomial

/-- The exact value of a tree at a point, without truncation. -/
def valueAt (point : String → ℚ) : Expr → ℚ
  | .num n => n.toRat
  | .var x => point x
  | .sum l r => l.valueAt point + r.valueAt point
  | .prod l r => l.valueAt point * r.valueAt point

theorem eval_polynomial (point : String → ℚ) (e : Expr) :
    eval point e.polynomial = e.valueAt point := by
  induction e with
  | num n => simp [polynomial, valueAt]
  | var x => simp [polynomial, valueAt]
  | sum l r ihl ihr => simp [polynomial, valueAt, ihl, ihr]
  | prod l r ihl ihr => simp [polynomial, valueAt, ihl, ihr]

theorem polynomial_diff (v : String) (e : Expr) :
    (e.diff v).polynomial = partialDeriv v e.polynomial := by
  induction e with
  | num n => simp [diff, zero, polynomial, Number.zero, partialDeriv_eq_pderiv]
  | var x =>
    by_cases hx : x = v
    · simp [diff, hx, one, polynomial, Number.one, partialDeriv_eq_pderiv]
    · simp [diff, hx, zero, polynomial, Number.zero, partialDeriv_eq_pderiv, pderiv_X_of_ne hx]
  | sum l r ihl ihr =>
    rw [diff, polynomial, ihl, ihr, polynomial]
    simp [partialDeriv_eq_pderiv]
  | prod l r ihl ihr =>
    rw [diff, polynomial, polynomial, polynomial, ihl, ihr, polynomial, partialDeriv_mul]

theorem polynomial_diffTimes (v : String) (n : Nat) (e : Expr) :
    (e.diffTimes v n).polynomial = (partialDeriv v)^[n] e.polynomial := by
  induction n generalizing e with
  | zero => rfl
  | succ n ih => rw [diffTimes, ih, polynomial_diff, Function.iterate_succ_apply]

/-- The `n`-th derivative of a tree denotes the `n`-th partial derivative of its polynomial, which is
the polynomial itself if `n` is not positive; so its coefficients and its value at every point are
those of the derivative. -/
theorem polynomial_diffN (e : Expr) (v : String) (n : Int) :
    (e.diffN v n).polynomial = (partialDeriv v)^[n.toNat] e.polynomial ∧
      (∀ m, coeff m (e.diffN v n).polynomial =
        coeff (m + Finsupp.single v n.toNat) e.polynomial *
          (m v + n.toNat).descFactorial n.toNat) ∧
      ∀ point, (e.diffN v n).valueAt point =
        eval point ((partialDeriv v)^[n.toNat] e.polynomial) := by
  have hp : (e.diffN v n).polynomial = (partialDeriv v)^[n.toNat] e.polynomial :=
    polynomial_diffTimes v n.toNat e
  refine ⟨hp, ?_, ?_⟩
  · intro m
    rw [hp, coeff_iterate_partialDeriv]
  · intro point
    rw [← hp, eval_polynomial]

end Expr

end Symbolic
