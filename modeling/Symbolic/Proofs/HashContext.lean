import Symbolic.Proofs.Hashing

/-!
Hashes of trees that differ in one part. A context is a tree with a hole, given by the operators
around it. Every operator passes on to its own hash whether two operands hash alike: the right one
is added as it is, and the factor of the left one is odd, so that it can be cancelled modulo 2 ^ 64.
-/

namespace Symbolic

/-- An operator with one operand in its place; the hole is on the side of the turn. -/
structure Frame where
  turn : Turn
  other : Expr

def Frame.around : Frame → Expr → Expr
  | ⟨⟨op, .left⟩, r⟩, e => op.apply e r
  | ⟨⟨op, .right⟩, l⟩, e => op.apply l e

/-- A tree with one hole, as the frames around the hole from the root down. -/
abbrev Context := List Frame

namespace Context

def fill (c : Context) (e : Expr) : Expr :=
  c.foldr Frame.around e

def position (c : Context) : Position :=
  c.map Frame.turn

end Context

namespace Expr

theorem below?_eq_some_iff {e x : Expr} {t : Turn} :
    e.below? t = some x ↔ ∃ other, Frame.around ⟨t, other⟩ x = e := by
  obtain ⟨op, side⟩ := t
  cases e <;> cases op <;> cases side <;> simp [below?, Frame.around, Operator.apply, eq_comm]

theorem at?_eq_some_iff {e x : Expr} {p : Position} :
    e.at? p = some x ↔ ∃ c : Context, c.position = p ∧ c.fill x = e := by
  induction p generalizing e with
  | nil =>
    rw [at?, Option.some.injEq]
    constructor
    · rintro rfl
      exact ⟨[], rfl, rfl⟩
    · rintro ⟨c, hp, rfl⟩
      obtain rfl : c = [] := List.map_eq_nil_iff.mp hp
      rfl
  | cons t p ih =>
    rw [at?, Option.bind_eq_some_iff]
    simp only [below?_eq_some_iff, ih]
    constructor
    · rintro ⟨y, ⟨other, rfl⟩, c, rfl, rfl⟩
      exact ⟨⟨t, other⟩ :: c, rfl, rfl⟩
    · rintro ⟨c, hp, rfl⟩
      obtain ⟨⟨t', other⟩, c, rfl, rfl, rfl⟩ := List.map_eq_cons_iff.mp hp
      exact ⟨Context.fill c x, ⟨other, rfl⟩, c, rfl, rfl⟩

end Expr

theorem Operator.coprime_hashFactor (op : Operator) : Nat.Coprime (2 ^ 64) op.hashFactor := by
  apply Nat.Coprime.pow_left
  cases op with
  | sum => decide
  | prod => decide

namespace Expr

theorem hash_eq_iff_modEq {a b : Expr} :
    a.hash = b.hash ↔ a.hash.toNat ≡ b.hash.toNat [MOD 2 ^ 64] := by
  rw [← UInt64.toNat_inj]
  constructor
  · intro h
    rw [h]
  · intro h
    exact h.eq_of_lt_of_lt a.hash.toNat_lt b.hash.toNat_lt

theorem hash_apply_eq_iff {op op' : Operator} {l r l' r' : Expr} :
    (op.apply l r).hash = (op'.apply l' r').hash ↔
      op.hashFactor * l.hash.toNat + r.hash.toNat ≡
        op'.hashFactor * l'.hash.toNat + r'.hash.toNat [MOD 2 ^ 64] := by
  rw [← UInt64.toNat_inj, toNat_hash_apply, toNat_hash_apply]
  rfl

theorem hash_apply_left_iff (op : Operator) {s t : Expr} (r : Expr) :
    (op.apply s r).hash = (op.apply t r).hash ↔ s.hash = t.hash := by
  rw [hash_apply_eq_iff, Nat.ModEq.add_iff_right rfl, hash_eq_iff_modEq]
  constructor
  · intro h
    exact h.cancel_left_of_coprime op.coprime_hashFactor
  · intro h
    exact h.mul_left _

theorem hash_apply_right_iff (op : Operator) (l : Expr) {s t : Expr} :
    (op.apply l s).hash = (op.apply l t).hash ↔ s.hash = t.hash := by
  rw [hash_apply_eq_iff, Nat.ModEq.add_iff_left rfl, hash_eq_iff_modEq]

/-- The factors of the two operators differ by six, and three times a number has no more factors of
two than the number itself. -/
theorem hash_sum_eq_hash_prod_iff (l r : Expr) :
    (sum l r).hash = (prod l r).hash ↔ 2 ^ 63 ∣ l.hash.toNat := by
  have hd : 37 * l.hash.toNat - 31 * l.hash.toNat = 2 * (3 * l.hash.toNat) := by omega
  have h3 : Nat.Coprime (2 ^ 63) 3 := Nat.Coprime.pow_left 63 (by decide)
  calc
    (sum l r).hash = (prod l r).hash
        ↔ 31 * l.hash.toNat + r.hash.toNat ≡ 37 * l.hash.toNat + r.hash.toNat [MOD 2 ^ 64] :=
          @hash_apply_eq_iff .sum .prod l r l r
    _ ↔ 31 * l.hash.toNat ≡ 37 * l.hash.toNat [MOD 2 ^ 64] := Nat.ModEq.add_iff_right rfl
    _ ↔ 2 * 2 ^ 63 ∣ 2 * (3 * l.hash.toNat) := by
          rw [Nat.modEq_iff_dvd' (by omega), hd, pow_succ']
    _ ↔ 2 ^ 63 ∣ l.hash.toNat := by
          rw [Nat.mul_dvd_mul_iff_left (by decide), h3.dvd_mul_left]

end Expr

theorem Frame.hash_around_iff (f : Frame) {s t : Expr} :
    (f.around s).hash = (f.around t).hash ↔ s.hash = t.hash := by
  obtain ⟨⟨op, side⟩, other⟩ := f
  cases side with
  | left => exact Expr.hash_apply_left_iff op other
  | right => exact Expr.hash_apply_right_iff op other

theorem Context.hash_fill_iff (c : Context) {s t : Expr} :
    (c.fill s).hash = (c.fill t).hash ↔ s.hash = t.hash := by
  induction c with
  | nil => rfl
  | cons f c ih => exact f.hash_around_iff.trans ih

/-- A tree has a part at a position exactly if it is a context with its hole there, filled with the
part. In every context, filling the hole with one tree or another gives the same hash exactly if the
two trees have the same hash. A sum and a product of the same operands have the same hash exactly if
the hash of the left operand is a multiple of 2 ^ 63. -/
theorem hash_fill_eq_iff :
    (∀ (e s : Expr) (p : Position),
      e.at? p = some s ↔ ∃ c : Context, c.position = p ∧ c.fill s = e) ∧
    (∀ (c : Context) (s t : Expr), (c.fill s).hash = (c.fill t).hash ↔ s.hash = t.hash) ∧
    ∀ l r : Expr, (Expr.sum l r).hash = (Expr.prod l r).hash ↔ 2 ^ 63 ∣ l.hash.toNat := by
  refine ⟨?_, ?_, Expr.hash_sum_eq_hash_prod_iff⟩
  · intro e s p
    exact Expr.at?_eq_some_iff
  · intro c s t
    exact c.hash_fill_iff

end Symbolic
