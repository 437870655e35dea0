import Symbolic.Proofs.Derivative
import Symbolic.Proofs.FullSubstitution

/-!
How far full substitution is from the exact value. Products lose digits and nothing gains any, so the
number that comes out is never too great; it is exact as long as the digits after the point, added up
along products, fit into the places that a number has; and greater leaves never make it smaller.
-/

namespace Symbolic

theorem exists_shifted_of_le {v : Rat} {d d' : Nat} (h : ∃ k : Nat, v * 10 ^ d = k) (hd : d ≤ d') :
    ∃ k : Nat, v * 10 ^ d' = k := by
  obtain ⟨k, hk⟩ := h
  have hp : (10 : Rat) ^ d' = 10 ^ d * 10 ^ (d' - d) := by rw [← pow_add, Nat.add_sub_cancel' hd]
  refine ⟨k * 10 ^ (d' - d), ?_⟩
  rw [hp, ← mul_assoc, hk]
  push_cast
  rfl

namespace Number

def fractionDigits (n : Number) : Nat :=
  (n.text.dropWhile isDigit).tail.length

theorem toRat_ofDigits (whole fraction : List Char) :
    (ofDigits whole fraction).toRat =
      digitsValue (whole ++ fraction.take places) / 10 ^ (fraction.take places).length := by
  simp [ofDigits, Rat.mkRat_eq_div]

theorem OnGrid.exists_digits {n : Number} (h : n.OnGrid) :
    ∃ whole fraction, n.fractionDigits = fraction.length ∧ n = ofDigits whole fraction := by
  obtain ⟨hd, hn⟩ | ⟨ds, fs, ht, hd, -, hn⟩ := exists_digits_of_parse? (parse?_text h)
  · refine ⟨n.text, [], ?_, hn⟩
    rw [fractionDigits, List.dropWhile_eq_nil_iff.mpr hd.2]
    rfl
  · refine ⟨ds, fs, ?_, hn⟩
    rw [fractionDigits, ht, dropWhile_isDigit_point hd.2, List.tail_cons]

theorem OnGrid.exists_shifted {n : Number} (h : n.OnGrid) :
    ∃ k : Nat, n.toRat * 10 ^ n.fractionDigits = k := by
  obtain ⟨ds, fs, hl, hn⟩ := h.exists_digits
  rw [hl, hn, toRat_ofDigits]
  refine exists_shifted_of_le ⟨digitsValue (ds ++ fs.take places), ?_⟩ (List.length_take_le' places fs)
  field_simp

theorem fractionDigits_of_isInteger {n : Number} (h : n.OnGrid) (hi : n.isInteger = true) :
    n.fractionDigits = 0 := by
  obtain ⟨u, rfl⟩ := h.exists_units
  have ht := text_ofUnits_whole ((isInteger_ofUnits u).mp hi)
  rw [fractionDigits, ht,
    List.dropWhile_eq_nil_iff.mpr fun c hc => isDigit_of_mem_decimalDigits hc]
  rfl

end Number

/-- The exact value of the number that a name is bound to; zero if it is bound to none. -/
def Bindings.value (env : Bindings) (x : String) : Rat :=
  (env.number? x).elim 0 Number.toRat

namespace Expr

/-- How many digits after the point the exact value can have. -/
def fractionDigits (env : Bindings) : Expr → Nat
  | .num n => n.fractionDigits
  | .var x => (env.number? x).elim 0 Number.fractionDigits
  | .sum l r => max (l.fractionDigits env) (r.fractionDigits env)
  | .prod l r => l.fractionDigits env + r.fractionDigits env

/-- The number at a leaf, which a name has by its binding. -/
def leafNumber? (env : Bindings) : Expr → Option Number
  | .num n => some n
  | .var x => env.number? x
  | .sum _ _ | .prod _ _ => none

/-- The number stands at a leaf of the expression. -/
def HasLeaf (env : Bindings) (n : Number) : Expr → Prop
  | .sum l r | .prod l r => l.HasLeaf env n ∨ r.HasLeaf env n
  | e => e.leafNumber? env = some n

/-- The second expression has the shape of the first, and its leaves are no less. -/
inductive Below (env env' : Bindings) : Expr → Expr → Prop
  | leaf {a b : Expr} {m n : Number} : a.leafNumber? env = some m → b.leafNumber? env' = some n →
      m.toRat ≤ n.toRat → Below env env' a b
  | sum {l r l' r' : Expr} : Below env env' l l' → Below env env' r r' →
      Below env env' (.sum l r) (.sum l' r')
  | prod {l r l' r' : Expr} : Below env env' l l' → Below env env' r r' →
      Below env env' (.prod l r) (.prod l' r')

/-- Every leaf has a number, and the number is on the grid. -/
inductive Settled (env : Bindings) : Expr → Prop
  | leaf {e : Expr} {n : Number} : e.leafNumber? env = some n → n.OnGrid → Settled env e
  | sum {l r : Expr} : Settled env l → Settled env r → Settled env (.sum l r)
  | prod {l r : Expr} : Settled env l → Settled env r → Settled env (.prod l r)

section Leaf
variable {env : Bindings} {e : Expr} {n : Number}

theorem eq_num_or_var_of_leafNumber? (h : e.leafNumber? env = some n) :
    e = .num n ∨ ∃ x, e = .var x ∧ env.number? x = some n := by
  cases e with
  | num m => exact .inl (congrArg num (Option.some.inj h))
  | var x => exact .inr ⟨x, rfl, h⟩
  | sum _ _ | prod _ _ => cases h

theorem units_of_leafNumber? (h : e.leafNumber? env = some n) : e.units env = n.units := by
  obtain rfl | ⟨x, rfl, hx⟩ := eq_num_or_var_of_leafNumber? h
  · rfl
  · rw [units, Bindings.units, hx, Option.elim_some]

theorem valueAt_of_leafNumber? (h : e.leafNumber? env = some n) :
    e.valueAt env.value = n.toRat := by
  obtain rfl | ⟨x, rfl, hx⟩ := eq_num_or_var_of_leafNumber? h
  · rfl
  · rw [valueAt, Bindings.value, hx, Option.elim_some]

theorem fractionDigits_of_leafNumber? (h : e.leafNumber? env = some n) :
    e.fractionDigits env = n.fractionDigits := by
  obtain rfl | ⟨x, rfl, hx⟩ := eq_num_or_var_of_leafNumber? h
  · rfl
  · rw [fractionDigits, hx, Option.elim_some]

theorem hasLeaf_of_leafNumber? (h : e.leafNumber? env = some n) : e.HasLeaf env n := by
  obtain rfl | ⟨x, rfl, -⟩ := eq_num_or_var_of_leafNumber? h
  · exact h
  · exact h

end Leaf

section Settled
variable {env : Bindings} {e : Expr}

theorem WellFormed.settled (h : e.WellFormed) (hb : ∀ x, e.Mentions x → env.Binds x) :
    Settled env e := by
  induction e with
  | num n => exact .leaf rfl h
  | var x =>
    obtain ⟨n, hn⟩ := Option.isSome_iff_exists.mp ((env.isSome_number?_iff x).mpr (hb x rfl))
    exact .leaf hn (onGrid_of_number? hn)
  | sum l r ihl ihr =>
    exact .sum (ihl h.1 fun x hx => hb x (.inl hx)) (ihr h.2 fun x hx => hb x (.inr hx))
  | prod l r ihl ihr =>
    exact .prod (ihl h.1 fun x hx => hb x (.inl hx)) (ihr h.2 fun x hx => hb x (.inr hx))

/-- Losing digits in the factors and in the product only ever makes the product smaller. -/
theorem Settled.units_le_valueAt (h : Settled env e) :
    (e.units env / 10 ^ 4 : Rat) ≤ e.valueAt env.value := by
  induction h with
  | leaf hl hg => rw [units_of_leafNumber? hl, valueAt_of_leafNumber? hl, hg.toRat_eq]
  | sum _ _ ihl ihr =>
    rw [units, valueAt, Nat.cast_add, add_div]
    exact add_le_add ihl ihr
  | @prod l r _ _ ihl ihr =>
    calc ((Expr.prod l r).units env / 10 ^ 4 : Rat)
        ≤ l.units env / 10 ^ 4 * (r.units env / 10 ^ 4) := (Number.mul_units_bounds _ _).1
      _ ≤ l.valueAt env.value * r.valueAt env.value :=
          mul_le_mul ihl ihr (by positivity) (le_trans (by positivity) ihl)

theorem Settled.exists_shifted (h : Settled env e) :
    ∃ k : Nat, e.valueAt env.value * 10 ^ e.fractionDigits env = k := by
  induction h with
  | leaf hl hg =>
    rw [valueAt_of_leafNumber? hl, fractionDigits_of_leafNumber? hl]
    exact hg.exists_shifted
  | sum _ _ ihl ihr =>
    obtain ⟨a, ha⟩ := exists_shifted_of_le ihl (le_max_left _ _)
    obtain ⟨b, hb⟩ := exists_shifted_of_le ihr (le_max_right _ _)
    refine ⟨a + b, ?_⟩
    rw [valueAt, fractionDigits, add_mul, ha, hb, Nat.cast_add]
  | @prod l r _ _ ihl ihr =>
    obtain ⟨a, ha⟩ := ihl
    obtain ⟨b, hb⟩ := ihr
    refine ⟨a * b, ?_⟩
    rw [valueAt, fractionDigits, pow_add, mul_mul_mul_comm, ha, hb, Nat.cast_mul]

theorem Settled.units_eq_valueAt (h : Settled env e) (hd : e.fractionDigits env ≤ 4) :
    (e.units env : Rat) = 10 ^ 4 * e.valueAt env.value := by
  induction h with
  | leaf hl hg => rw [units_of_leafNumber? hl, valueAt_of_leafNumber? hl, hg.cast_units]
  | sum _ _ ihl ihr =>
    rw [fractionDigits, max_le_iff] at hd
    rw [units, valueAt, Nat.cast_add, ihl hd.1, ihr hd.2, mul_add]
  | @prod l r hl hr ihl ihr =>
    obtain ⟨k, hk⟩ := exists_shifted_of_le (hl.prod hr).exists_shifted hd
    rw [fractionDigits] at hd
    have hu : l.units env * r.units env = k * Number.scale := by
      have hc : ((l.units env * r.units env : Nat) : Rat) = (k * Number.scale : Nat) := by
        rw [Nat.cast_mul, Nat.cast_mul, ihl (by omega), ihr (by omega), ← hk, valueAt,
          Number.cast_scale]
        ring
      exact_mod_cast hc
    rw [units, hu, Nat.mul_div_cancel _ (by decide), ← hk, mul_comm]

theorem Settled.fractionDigits_eq_zero (h : Settled env e)
    (hi : ∀ n, e.HasLeaf env n → n.isInteger = true) : e.fractionDigits env = 0 := by
  induction h with
  | leaf hl hg =>
    rw [fractionDigits_of_leafNumber? hl]
    exact Number.fractionDigits_of_isInteger hg (hi _ (hasLeaf_of_leafNumber? hl))
  | sum _ _ ihl ihr =>
    rw [fractionDigits, ihl fun n hn => hi n (.inl hn), ihr fun n hn => hi n (.inr hn), max_self]
  | prod _ _ ihl ihr =>
    rw [fractionDigits, ihl fun n hn => hi n (.inl hn), ihr fun n hn => hi n (.inr hn)]

end Settled

section Below
variable {env env' : Bindings} {e e' : Expr}

theorem Below.units_le (h : Below env env' e e') : e.units env ≤ e'.units env' := by
  induction h with
  | leaf ha hb hle =>
    rw [units_of_leafNumber? ha, units_of_leafNumber? hb]
    exact Nat.floor_le_floor (mul_le_mul_of_nonneg_left hle (by positivity))
  | sum _ _ ihl ihr => exact Nat.add_le_add ihl ihr
  | prod _ _ ihl ihr => exact Nat.div_le_div_right (Nat.mul_le_mul ihl ihr)

theorem Below.binds (h : Below env env' e e') {x : String} (hx : e'.Mentions x) :
    env'.Binds x := by
  induction h with
  | leaf _ hb _ =>
    obtain rfl | ⟨y, rfl, hy⟩ := eq_num_or_var_of_leafNumber? hb
    · exact hx.elim
    · obtain rfl : x = y := hx
      exact (env'.isSome_number?_iff x).mp (Option.isSome_iff_exists.mpr ⟨_, hy⟩)
  | sum _ _ ihl ihr => exact hx.elim ihl ihr
  | prod _ _ ihl ihr => exact hx.elim ihl ihr

end Below

/-- Under bindings of all its names, a well-formed expression becomes a number that is at most its
exact value, and is its exact value if no more than four digits after the point can come up, as with
leaves that are whole. Greater leaves in the same shape never give a smaller number. -/
theorem simplify_le_valueAt {e : Expr} (h : e.WellFormed) {env : Bindings}
    (hb : ∀ x ∈ e.freeNames, env.Binds x) :
    ∃ n, e.simplify env = .num n ∧ n.toRat ≤ e.valueAt env.value ∧
      (e.fractionDigits env ≤ 4 → n.toRat = e.valueAt env.value) ∧
      ((∀ m, e.HasLeaf env m → m.isInteger = true) → n.toRat = e.valueAt env.value) ∧
      ∀ (e' : Expr) (env' : Bindings), e'.WellFormed → Below env env' e e' →
        ∃ n', e'.simplify env' = .num n' ∧ n.toRat ≤ n'.toRat := by
  have hm : ∀ x, e.Mentions x → env.Binds x := fun x hx => hb x (mem_freeNames.mpr hx)
  have hs : Settled env e := h.settled hm
  have hexact : e.fractionDigits env ≤ 4 → (e.units env / 10 ^ 4 : Rat) = e.valueAt env.value := by
    intro hd
    rw [hs.units_eq_valueAt hd]
    ring
  refine ⟨_, simplify_eq_units h hm, ?_⟩
  rw [Number.ofUnits_eq]
  refine ⟨hs.units_le_valueAt, hexact, fun hi => hexact ?_, ?_⟩
  · rw [hs.fractionDigits_eq_zero hi]
    exact Nat.zero_le 4
  · intro e' env' h' hbelow
    refine ⟨_, simplify_eq_units h' fun x => hbelow.binds, ?_⟩
    rw [Number.ofUnits_eq]
    exact div_le_div_of_nonneg_right (by exact_mod_cast hbelow.units_le) (by positivity)

/-- One and a half times a quarter is exact; with 0.3333 in place of the name a digit is lost, and the
number is greater all the same. -/
theorem simplify_le_valueAt_quarter :
    let e : Expr := .prod (.num ⟨3 / 2⟩) (.var "x")
    let e' : Expr := .prod (.num ⟨3 / 2⟩) (.num ⟨3333 / 10000⟩)
    let env : Bindings := ⟨[("x", ⟨0x3FD0000000000000⟩)]⟩
    e.WellFormed ∧ (∀ x ∈ e.freeNames, env.Binds x) ∧ e.fractionDigits env ≤ 4 ∧ e'.WellFormed ∧
      Below env .empty e e' ∧
      ∃ n n', e.simplify env = .num n ∧ n.toRat = e.valueAt env.value ∧
        e'.simplify .empty = .num n' ∧ n.toRat ≤ n'.toRat := by
  intro e e' env
  have hw : e.WellFormed := by decide +kernel
  have hb : ∀ x ∈ e.freeNames, env.Binds x := by decide +kernel
  have hd : e.fractionDigits env ≤ 4 := by decide +kernel
  have hw' : e'.WellFormed := by decide +kernel
  have hx : (Expr.var "x").leafNumber? env = some ⟨1 / 4⟩ := by decide +kernel
  have hle : Below env .empty e e' :=
    .prod (.leaf rfl rfl le_rfl) (.leaf hx rfl (by norm_num))
  obtain ⟨n, hn, -, hexact, -, hmono⟩ := simplify_le_valueAt hw hb
  obtain ⟨n', hn', hlen⟩ := hmono e' .empty hw' hle
  exact ⟨hw, hb, hd, hw', hle, n, n', hn, hexact hd, hn', hlen⟩

end Expr

end Symbolic
