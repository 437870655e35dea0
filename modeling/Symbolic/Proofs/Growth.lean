import Symbolic.Proofs.Closure
import Symbolic.Proofs.JsonReading
import Symbolic.Proofs.Language
import Symbolic.Proofs.NormalForm
import Symbolic.Proofs.Positions
import Symbolic.Proofs.RoundTrip

/-!
How large results are, and whether they can be read again. A derivative is at most twice as high as
the expression, less one level, and has at most the square of its nodes; simplifying makes nothing
larger. What was read from a text is no higher than the text is nested, so a simplified expression
can always be written and read again, and a derivative if the expression takes up at most half of
the levels. The powers of a name show that no more than half will do.
-/

namespace Symbolic

namespace Json

theorem nesting_of_scalarText {cs : List Char} {v : Json} (h : ScalarText cs v) :
    v.nesting = 0 := by
  cases h with
  | nullWord | trueWord | falseWord | string => rfl
  | positive h =>
    cases h with
    | mk => rfl
  | negative h =>
    cases h with
    | mk => rfl

theorem Listed.forall_of_entry {α : Type} {entry : List Char → α → Prop} {p : α → Prop}
    (he : ∀ cs a, entry cs a → p a) {cs : List Char} {as : List α} (h : Listed entry cs as) :
    ∀ a ∈ as, p a := by
  induction h with
  | last ha => simpa using he _ _ ha
  | more ha _ ih => exact List.forall_mem_cons.mpr ⟨he _ _ ha, ih⟩

theorem itemsNesting_le {depth : Nat} {vs : List Json} (h : ∀ v ∈ vs, v.nesting ≤ depth) :
    itemsNesting vs ≤ depth := by
  induction vs with
  | nil => exact Nat.zero_le _
  | cons v vs ih =>
    obtain ⟨hv, hvs⟩ := List.forall_mem_cons.mp h
    exact Nat.max_le.mpr ⟨hv, ih hvs⟩

theorem membersNesting_le {depth : Nat} {ms : Members} (h : ∀ kv ∈ ms, kv.2.nesting ≤ depth) :
    membersNesting ms ≤ depth := by
  apply of_decide_eq_true
  rw [← all_nesting_le, List.all_eq_true]
  intro kv hkv
  exact decide_eq_true (h kv hkv)

theorem Denotes.nesting_le {depth : Nat} {cs : List Char} {v : Json} (h : Denotes depth cs v) :
    v.nesting ≤ depth := by
  induction depth generalizing cs v with
  | zero => exact (nesting_of_scalarText h).le
  | succ depth ih =>
    have hs (cs : List Char) (v : Json) (h : Spaced (Denotes depth) cs v) : v.nesting ≤ depth := by
      cases h with
      | mk _ hv _ => exact ih hv
    cases h with
    | scalar h => exact (nesting_of_scalarText h).le.trans (Nat.zero_le _)
    | emptyArray _ => simp [nesting, itemsNesting]
    | array h => exact Nat.succ_le_succ (itemsNesting_le (h.forall_of_entry hs))
    | emptyObject _ => simp [nesting, membersNesting]
    | object h =>
      refine Nat.succ_le_succ (membersNesting_le (h.forall_of_entry ?_))
      intro cs kv hkv
      cases hkv with
      | mk _ _ _ hv => exact hs _ _ hv

theorem nesting_le_of_parse {cs : List Char} {v : Json} (h : parse cs = .ok v) :
    v.nesting ≤ nestingLimit := by
  obtain ⟨⟨v', rest⟩, hv, hr⟩ := bind_eq_ok.mp h
  obtain ⟨lead, text, -, -, ht⟩ := exists_denotes_of_value hv
  dsimp only at hr
  split at hr
  · obtain rfl : v' = v := Except.ok.inj hr
    exact ht.nesting_le
  · cases hr

theorem nesting_le_of_get? {ms : Members} {key : String} {v : Json} (h : ms.get? key = some v) :
    v.nesting ≤ membersNesting ms := by
  induction ms with
  | nil => cases h
  | cons kv ms ih =>
    obtain ⟨k, w⟩ := kv
    rw [Members.get?] at h
    rw [membersNesting]
    split at h
    · next u hu =>
      cases h
      exact (ih hu).trans (Nat.le_max_right _ _)
    · split at h
      · cases h
        exact Nat.le_max_left _ _
      · cases h

end Json

namespace Expr

open Json (Members)

section Height

theorem height_pos (e : Expr) : 0 < e.height := by
  cases e <;> simp [height]

theorem height_apply (op : Operator) (l r : Expr) :
    (op.apply l r).height = max l.height r.height + 1 := by
  cases op <;> rfl

theorem height_le_of_describes {m : Members} {e : Expr} (h : Describes m e) :
    e.height ≤ Json.membersNesting m + 1 := by
  induction h with
  | numeral | float | named => exact Nat.le_add_left 1 _
  | operator _ hl hr _ _ ihl ihr =>
    have hml := Json.nesting_le_of_get? hl
    have hmr := Json.nesting_le_of_get? hr
    rw [Json.nesting] at hml hmr
    rw [height_apply]
    omega

theorem height_le_of_parse {cs : List Char} {e : Expr} (h : Expr.parse cs = .ok e) :
    e.height ≤ Json.nestingLimit := by
  rw [Expr.parse] at h
  split at h
  · cases h
  · next m hm =>
    split at h
    · have hd := decode_eq_ok_iff_describes.mp (mapError_eq_ok.mp h)
      exact (height_le_of_describes hd).trans (Json.nesting_le_of_parse hm)
    · cases h
  · cases h

end Height

section Size

def size (e : Expr) : Nat :=
  e.nodes.length

theorem size_num (n : Number) : (num n).size = 1 := rfl

theorem size_apply (op : Operator) (l r : Expr) : (op.apply l r).size = l.size + r.size + 1 := by
  simp [size, nodes_apply, lifted]

theorem size_sum (l r : Expr) : (sum l r).size = l.size + r.size + 1 :=
  size_apply .sum l r

theorem size_prod (l r : Expr) : (prod l r).size = l.size + r.size + 1 :=
  size_apply .prod l r

theorem size_pos (e : Expr) : 0 < e.size := by
  cases e <;> simp [size, nodes]

end Size

section Leaves

theorem height_of_isLeaf {e : Expr} (h : e.isLeaf = true) : e.height = 1 := by
  cases e with
  | num n => rfl
  | var x => rfl
  | sum l r | prod l r => cases h

theorem size_of_isLeaf {e : Expr} (h : e.isLeaf = true) : e.size = 1 := by
  cases e with
  | num n => rfl
  | var x => rfl
  | sum l r | prod l r => cases h

theorem isLeaf_diff_var (v x : String) : ((var x).diff v).isLeaf = true := by
  rw [diff]
  split
  · rfl
  · rfl

theorem isLeaf_simplify_var (env : Bindings) (x : String) :
    ((var x).simplify env).isLeaf = true := by
  rw [simplify]
  split
  · rfl
  · rfl

end Leaves

section Derivative

theorem height_diff_le (v : String) (e : Expr) : (e.diff v).height ≤ 2 * e.height - 1 := by
  induction e with
  | num n => exact Nat.le_refl 1
  | var x => exact (height_of_isLeaf (isLeaf_diff_var v x)).le
  | sum l r ihl ihr =>
    simp only [diff, height]
    omega
  | prod l r ihl ihr =>
    have hl := height_pos l
    have hr := height_pos r
    simp only [diff, height]
    omega

theorem square_add_add_one (a b : Nat) :
    (a + b + 1) ^ 2 = a ^ 2 + b ^ 2 + 2 * (a * b) + 2 * a + 2 * b + 1 := by
  ring

theorem size_diff_le (v : String) (e : Expr) : (e.diff v).size ≤ e.size ^ 2 := by
  induction e with
  | num n => exact Nat.le_refl 1
  | var x => exact (size_of_isLeaf (isLeaf_diff_var v x)).le
  | sum l r ihl ihr =>
    rw [diff, size_sum, size_sum, square_add_add_one]
    omega
  | prod l r ihl ihr =>
    -- The product rule adds the operands once more and three operators; `2 * a + 2 * b` pays.
    have hl := size_pos l
    have hr := size_pos r
    rw [diff, size_sum, size_prod, size_prod, size_prod, square_add_add_one]
    omega

end Derivative

section Simplification

theorem simplify_apply (env : Bindings) (op : Operator) (l r : Expr) :
    (op.apply l r).simplify env = fold op (l.simplify env) (r.simplify env) := by
  cases op <;> rfl

theorem height_simplify_le (env : Bindings) (e : Expr) : (e.simplify env).height ≤ e.height := by
  induction e using operatorInduction with
  | num n => exact Nat.le_refl 1
  | var x => exact (height_of_isLeaf (isLeaf_simplify_var env x)).le
  | apply op l r ihl ihr =>
    rw [simplify_apply, height_apply]
    obtain ⟨a, b, c, -, -, h⟩ | ⟨-, h⟩ := fold_cases op (l.simplify env) (r.simplify env)
    · rw [h]
      exact Nat.le_add_left 1 _
    · rw [h, height_apply]
      omega

theorem size_simplify_le (env : Bindings) (e : Expr) : (e.simplify env).size ≤ e.size := by
  induction e using operatorInduction with
  | num n => exact Nat.le_refl 1
  | var x => exact (size_of_isLeaf (isLeaf_simplify_var env x)).le
  | apply op l r ihl ihr =>
    rw [simplify_apply, size_apply]
    obtain ⟨a, b, c, -, -, h⟩ | ⟨-, h⟩ := fold_cases op (l.simplify env) (r.simplify env)
    · rw [h, size_num]
      exact Nat.le_add_left 1 _
    · rw [h, size_apply]
      omega

end Simplification

section Powers

/-- The product of `n + 1` factors `x`, the first two multiplied first. -/
def power : Nat → Expr
  | 0 => .var "x"
  | n + 1 => .prod (power n) (.var "x")

theorem wellFormed_power (n : Nat) : (power n).WellFormed := by
  have hx : (var "x").WellFormed := by decide
  induction n with
  | zero => exact hx
  | succ n ih => exact ⟨ih, hx⟩

theorem height_power (n : Nat) : (power n).height = n + 1 := by
  induction n with
  | zero => rfl
  | succ n ih =>
    rw [power, height, ih, height]
    omega

/-- Each factor adds two levels to the derivative, whatever name it is taken by. -/
theorem height_diff_power (v : String) (n : Nat) : ((power n).diff v).height = 2 * n + 1 := by
  have hx : ((var "x").diff v).height = 1 := height_of_isLeaf (isLeaf_diff_var v "x")
  induction n with
  | zero => exact hx
  | succ n ih =>
    rw [power, diff, height, height, height, height_power, hx, ih, height]
    omega

end Powers

/-- The derivative of a tree of height `h` with `s` nodes has at most height `2 * h - 1` and `s ^ 2`
nodes, and simplifying makes neither greater. So what was read from a text can be simplified,
written and read again, and if its height is at most 5000 it can also be differentiated, written and
read again. For every greater height up to the limit some text is read whose derivative, by whatever
name, is written as a text that is refused. -/
theorem growth_and_rereading :
    (∀ (e : Expr) (v : String) (env : Bindings),
      ((e.diff v).height ≤ 2 * e.height - 1 ∧ (e.diff v).size ≤ e.size ^ 2) ∧
        (e.simplify env).height ≤ e.height ∧ (e.simplify env).size ≤ e.size) ∧
    (∀ (cs : List Char) (e : Expr), Expr.parse cs = .ok e →
      (∀ env, Expr.parse (e.simplify env).toJson.compact.toList = .ok (e.simplify env)) ∧
        (e.height ≤ 5000 →
          ∀ v, Expr.parse (e.diff v).toJson.compact.toList = .ok (e.diff v))) ∧
    ∀ h, 5001 ≤ h → h ≤ 10000 → ∃ (cs : List Char) (e : Expr),
      Expr.parse cs = .ok e ∧ e.height = h ∧
        ∀ v, (Sketch.ofExpr (e.diff v)).toJson = .ok (e.diff v).toJson ∧
          Expr.parse (e.diff v).toJson.compact.toList = .error .malformed := by
  refine ⟨?_, ?_, ?_⟩
  · intro e v env
    exact ⟨⟨height_diff_le v e, size_diff_le v e⟩, height_simplify_le env e, size_simplify_le env e⟩
  · intro cs e h
    have hw := wellFormed_of_parse h
    have hl := height_le_of_parse h
    constructor
    · intro env
      rw [parse_compact (hw.simplify env), if_pos ((height_simplify_le env e).trans hl)]
    · intro hh v
      have hd := height_diff_le v e
      rw [parse_compact (hw.diff v), if_pos (by rw [Json.nestingLimit]; omega)]
  · intro h hlow hhigh
    obtain ⟨n, rfl⟩ : ∃ n, h = n + 1 := ⟨h - 1, by omega⟩
    have hw := wellFormed_power n
    refine ⟨(power n).toJson.compact.toList, power n, ?_, height_power n, ?_⟩
    · rw [parse_compact hw, height_power, if_pos (by rw [Json.nestingLimit]; omega)]
    · intro v
      refine ⟨sketch_toJson _, ?_⟩
      rw [parse_compact (hw.diff v), height_diff_power, if_neg (by rw [Json.nestingLimit]; omega)]

theorem growth_and_rereading_square :
    let x := "\x7b\"type\":\"variable\",\"name\":\"x\"\x7d"
    let text := "\x7b\"type\":\"product\", \"left\":" ++ x ++
      ", \"right\":" ++ x ++ ", \"id\":[0]\x7d"
    let e : Expr := .prod (.var "x") (.var "x")
    Expr.parse text.toList = .ok e ∧ e.height ≤ 5000 ∧
      Expr.parse (e.simplify .empty).toJson.compact.toList = .ok e ∧
      Expr.parse (e.diff "x").toJson.compact.toList =
        .ok (.sum (.prod (.var "x") .one) (.prod (.var "x") .one)) ∧
      ∃ (cs : List Char) (e : Expr), Expr.parse cs = .ok e ∧ e.height = 5001 ∧
        Expr.parse (e.diff "x").toJson.compact.toList = .error .malformed := by
  intro x text e
  have hp : Expr.parse text.toList = .ok e := by decide +kernel
  have hh : e.height ≤ 5000 := by decide
  obtain ⟨hs, hd⟩ := growth_and_rereading.2.1 text.toList e hp
  obtain ⟨cs, e', he, hl, hr⟩ := growth_and_rereading.2.2 5001 (by decide) (by decide)
  exact ⟨hp, hh, hs .empty, hd hh "x", cs, e', he, hl, (hr "x").2⟩

end Expr

end Symbolic
