import Mathlib.Algebra.BigOperators.Ring.List
import Mathlib.Data.Nat.ModEq
import Mathlib.Tactic.Ring
import Symbolic.Expr.Render
import Symbolic.Proofs.Positions

/-!
The hash as a sum over the leaves. On the way down to a leaf every operator passed on its left
multiplies the hash of the leaf by its factor, and one passed on its right by nothing. Factors
commute, so how often each operator is passed on its left decides, and not in which order.
-/

namespace Symbolic

def Operator.hashFactor : Operator → Nat
  | .sum => 31
  | .prod => 37

/-- What the hash of the leaf at a position is multiplied by in all. -/
def Position.weight (p : Position) : Nat :=
  31 ^ p.count ⟨.sum, .left⟩ * 37 ^ p.count ⟨.prod, .left⟩

theorem Position.weight_cons_left (op : Operator) (p : Position) :
    Position.weight (⟨op, .left⟩ :: p) = op.hashFactor * p.weight := by
  cases op with
  | sum =>
    simp [weight, Operator.hashFactor, pow_succ]
    ring
  | prod =>
    simp [weight, Operator.hashFactor, pow_succ]
    ring

theorem Position.weight_cons_right (op : Operator) (p : Position) :
    Position.weight (⟨op, .right⟩ :: p) = p.weight := by
  cases op <;> simp [weight]

namespace Expr

/-- The hash of a leaf, by the byte for its kind and its text. -/
def leafWord : Expr → UInt64
  | .num n => leafHash 0x6E n.render
  | .var x => leafHash 0x76 x
  | .sum _ _ | .prod _ _ => 0

theorem toNat_hash_apply (op : Operator) (l r : Expr) :
    (op.apply l r).hash.toNat = (op.hashFactor * l.hash.toNat + r.hash.toNat) % 2 ^ 64 := by
  cases op with
  | sum => simp [Operator.apply, hash, Operator.hashFactor]
  | prod => simp [Operator.apply, hash, Operator.hashFactor]

/-- The hashes of the leaves with their weights, added up without a bound. -/
def weightedSum (leaves : List (Position × Expr)) : Nat :=
  (leaves.map fun (p, x) => p.weight * x.leafWord.toNat).sum

theorem weightedSum_append (a b : List (Position × Expr)) :
    weightedSum (a ++ b) = weightedSum a + weightedSum b := by
  simp [weightedSum]

theorem weightedSum_lifted_left (op : Operator) (leaves : List (Position × Expr)) :
    weightedSum (lifted ⟨op, .left⟩ leaves) = op.hashFactor * weightedSum leaves := by
  rw [weightedSum, weightedSum, ← List.sum_map_mul_left, lifted, List.map_map]
  congr 1
  apply List.map_congr_left
  intro leaf _
  simp [Position.weight_cons_left, Nat.mul_assoc]

theorem weightedSum_lifted_right (op : Operator) (leaves : List (Position × Expr)) :
    weightedSum (lifted ⟨op, .right⟩ leaves) = weightedSum leaves := by
  rw [weightedSum, weightedSum, lifted, List.map_map]
  congr 1
  apply List.map_congr_left
  intro leaf _
  simp [Position.weight_cons_right]

theorem weightedSum_leaves_apply (op : Operator) (l r : Expr) :
    weightedSum (op.apply l r).leaves =
      op.hashFactor * weightedSum l.leaves + weightedSum r.leaves := by
  rw [leaves_apply, weightedSum_append, weightedSum_lifted_left, weightedSum_lifted_right]

theorem weightedSum_leaves_of_isLeaf {e : Expr} (h : e.isLeaf = true) :
    weightedSum e.leaves = e.hash.toNat := by
  cases e with
  | num n => simp [leaves, nodes, isLeaf, weightedSum, Position.weight, leafWord, hash]
  | var x => simp [leaves, nodes, isLeaf, weightedSum, Position.weight, leafWord, hash]
  | sum _ _ | prod _ _ => cases h

theorem toNat_hash_modEq (e : Expr) : e.hash.toNat ≡ weightedSum e.leaves [MOD 2 ^ 64] := by
  induction e using operatorInduction with
  | num n => rw [weightedSum_leaves_of_isLeaf rfl]
  | var x => rw [weightedSum_leaves_of_isLeaf rfl]
  | apply op l r ihl ihr =>
    rw [weightedSum_leaves_apply, toNat_hash_apply]
    exact (Nat.mod_modEq _ _).trans ((ihl.mul_left _).add ihr)

theorem toNat_hash_eq (e : Expr) : e.hash.toNat = weightedSum e.leaves % 2 ^ 64 := by
  rw [← toNat_hash_modEq e, Nat.mod_eq_of_lt e.hash.toNat_lt]

theorem hash_eq_of_weightedSum_eq {a b : Expr} (h : weightedSum a.leaves = weightedSum b.leaves) :
    a.hash = b.hash := by
  apply UInt64.toNat_inj.mp
  rw [toNat_hash_eq, toNat_hash_eq, h]

/-- A leaf with the number of times each operator is passed on its left above it. -/
def tally : Position × Expr → Nat × Nat × Expr
  | (p, x) => (p.count ⟨.sum, .left⟩, p.count ⟨.prod, .left⟩, x)

theorem weightedSum_eq_of_perm {a b : List (Position × Expr)}
    (h : (a.map tally).Perm (b.map tally)) : weightedSum a = weightedSum b := by
  have ht (ls : List (Position × Expr)) : weightedSum ls =
      ((ls.map tally).map fun (i, j, x) => 31 ^ i * 37 ^ j * x.leafWord.toNat).sum := by
    rw [List.map_map]
    rfl
  rw [ht, ht]
  exact (h.map _).sum_eq

theorem hash_exchange (a b c d : Expr) :
    (sum (prod a b) (prod c d)).hash = (prod (sum a c) (sum b d)).hash := by
  have hs := weightedSum_leaves_apply .sum
  have hp := weightedSum_leaves_apply .prod
  simp only [Operator.apply, Operator.hashFactor] at hs hp
  apply hash_eq_of_weightedSum_eq
  rw [hs, hp, hp, hp, hs, hs]
  ring

/-- The leaves are the parts without operands, each listed once. The hash is the sum of their hashes,
each multiplied by 31 for every sum and by 37 for every product that has the leaf on its left, modulo
2 ^ 64. So trees whose leaves have the same counts, in whatever order the operators are passed, have
the same hash, and so have a sum of products and the product of sums with its inner terms exchanged. -/
theorem hash_eq_sum_leaves :
    (∀ e : Expr,
      (∀ p x, (p, x) ∈ e.leaves ↔ e.at? p = some x ∧ x.isLeaf = true) ∧ e.leaves.Nodup ∧
      e.hash.toNat = (e.leaves.map fun (p, x) =>
        31 ^ p.count ⟨.sum, .left⟩ * 37 ^ p.count ⟨.prod, .left⟩ * x.leafWord.toNat).sum % 2 ^ 64) ∧
    (∀ e e' : Expr, (e.leaves.map tally).Perm (e'.leaves.map tally) → e.hash = e'.hash) ∧
    ∀ a b c d : Expr, (sum (prod a b) (prod c d)).hash = (prod (sum a c) (sum b d)).hash := by
  refine ⟨?_, ?_, hash_exchange⟩
  · intro e
    exact ⟨fun p x => mem_leaves, nodup_leaves e, toNat_hash_eq e⟩
  · intro e e' h
    exact hash_eq_of_weightedSum_eq (weightedSum_eq_of_perm h)

theorem hash_eq_sum_leaves_exchanged :
    let e : Expr := .sum (.prod (.var "x") (.var "y")) (.prod (.var "z") (.num .one))
    let e' : Expr := .prod (.sum (.var "x") (.var "z")) (.sum (.var "y") (.num .one))
    e.at? [⟨.sum, .left⟩, ⟨.prod, .left⟩] = some (.var "x") ∧
      e'.at? [⟨.prod, .left⟩, ⟨.sum, .left⟩] = some (.var "x") ∧
      (e.leaves.map tally).Perm (e'.leaves.map tally) ∧ e.hash = e'.hash := by
  intro e e'
  have hp : (e.leaves.map tally).Perm (e'.leaves.map tally) := by decide +kernel
  exact ⟨rfl, rfl, hp, hash_eq_sum_leaves.2.1 e e' hp⟩

end Expr

end Symbolic
