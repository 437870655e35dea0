import Mathlib.Algebra.Order.Ring.Rat
import Mathlib.Data.Rat.Defs
import Mathlib.Tactic.Positivity
import Symbolic.Proofs.Closure

/-!
Which names a substitution replaces, and substitution in stages. A name is replaced if its value is
finite and not negative; any other value binds nothing, so it leaves the name to a later stage.
Folding operators early changes no digit of what a later stage gives.
-/

namespace Symbolic

namespace Binary64

def toRat (x : Binary64) : Rat :=
  let magnitude := mkRat x.ratio.1 x.ratio.2
  if x.negative then -magnitude else magnitude

theorem significand_eq_zero_iff (x : Binary64) : x.significand = 0 ↔ x.isZero = true := by
  simp only [significand, isZero, decide_eq_true_eq]
  split
  · omega
  · omega

theorem ratio_num_eq_zero_iff (x : Binary64) : x.ratio.1 = 0 ↔ x.isZero = true := by
  rw [← significand_eq_zero_iff, ratio]
  cases x.exponent with
  | ofNat n => simp [scaled]
  | negSucc n => rfl

theorem ratio_den_pos (x : Binary64) : 0 < x.ratio.2 := by
  rw [ratio]
  cases x.exponent with
  | ofNat n => exact Nat.one_pos
  | negSucc n => exact Nat.pow_pos Nat.two_pos

theorem zero_le_toRat_iff (x : Binary64) :
    0 ≤ x.toRat ↔ x.isZero = true ∨ x.negative = false := by
  have hm : (0 : Rat) ≤ mkRat x.ratio.1 x.ratio.2 := by
    rw [Rat.mkRat_eq_div]
    positivity
  have hz : mkRat x.ratio.1 x.ratio.2 = 0 ↔ x.isZero = true := by
    rw [Rat.mkRat_eq_zero (ratio_den_pos x).ne', ← ratio_num_eq_zero_iff]
    exact Int.natCast_eq_zero
  rw [toRat, ← hz]
  cases x.negative with
  | false => simp [hm]
  | true =>
    simp only [if_true, reduceCtorEq, or_false, neg_nonneg]
    exact ⟨fun h => le_antisymm h hm, fun h => h.le⟩

end Binary64

theorem Number.isSome_ofBinary64?_iff (x : Binary64) :
    (Number.ofBinary64? x).isSome = true ↔ x.isFinite = true ∧ 0 ≤ x.toRat := by
  rw [Binary64.zero_le_toRat_iff, Number.ofBinary64?]
  split
  · next h => simpa using h
  · next h => simpa using h

namespace Bindings

/-- The name has a value that is finite and not negative. -/
def Binds (env : Bindings) (x : String) : Prop :=
  ∃ b ∈ env.get? x, b.isFinite = true ∧ 0 ≤ b.toRat

instance (env : Bindings) (x : String) : Decidable (env.Binds x) :=
  inferInstanceAs (Decidable (∃ b ∈ env.get? x, _))

theorem isSome_number?_iff (env : Bindings) (x : String) :
    (env.number? x).isSome = true ↔ env.Binds x := by
  rw [number?, Binds]
  cases env.get? x with
  | none => simp
  | some b => simpa using Number.isSome_ofBinary64?_iff b

/-- A name has the value of the first stage if that one replaces it, and else the value of the
second. -/
def staged (first second : Bindings) : Bindings :=
  ⟨first.entries.filter (fun p => first.Binds p.1) ++ second.entries⟩

theorem lookup_filter_names {α : Type} (p : String → Bool) (x : String) (l : List (String × α)) :
    (l.filter fun kv => p kv.1).lookup x = if p x then l.lookup x else none := by
  induction l with
  | nil => simp
  | cons kv l ih =>
    obtain ⟨k, v⟩ := kv
    by_cases hk : x = k
    · subst hk
      cases hp : p x with
      | true => simp [hp]
      | false => simpa [hp] using ih
    · have hb : (x == k) = false := beq_eq_false_iff_ne.mpr hk
      cases hp : p k with
      | true => simpa [hp, List.lookup_cons, hb] using ih
      | false => simpa [hp, List.lookup_cons, hb] using ih

theorem get?_insert (env : Bindings) (k : String) (b : Binary64) (x : String) :
    (env.insert k b).get? x = if x = k then some b else env.get? x := by
  have hf := lookup_filter_names (fun name => decide (name ≠ k)) x env.entries
  by_cases hx : x = k
  · simp [get?, insert, hx]
  · have hb : (x == k) = false := beq_eq_false_iff_ne.mpr hx
    rw [get?, insert, List.lookup_cons, hb, if_neg hx, get?]
    simpa [hx] using hf

theorem get?_staged (first second : Bindings) (x : String) :
    (first.staged second).get? x = if first.Binds x then first.get? x else second.get? x := by
  have hf := lookup_filter_names (fun k => first.Binds k) x first.entries
  rw [get?, staged, List.lookup_append, hf]
  by_cases hx : first.Binds x
  · have hb := hx
    obtain ⟨b, hb, -⟩ := hb
    have hg : first.entries.lookup x = some b := hb
    simp [hx, get?, hg]
  · simp [hx, get?]

theorem number?_eq_none_iff (env : Bindings) (x : String) :
    env.number? x = none ↔ ¬ env.Binds x := by
  rw [← isSome_number?_iff, Option.not_isSome_iff_eq_none]

theorem number?_staged (first second : Bindings) (x : String) :
    (first.staged second).number? x = (first.number? x).or (second.number? x) := by
  rw [number?, get?_staged]
  by_cases hx : first.Binds x
  · obtain ⟨n, hn⟩ := Option.isSome_iff_exists.mp ((isSome_number?_iff first x).mpr hx)
    rw [if_pos hx, hn]
    exact hn
  · rw [if_neg hx, (number?_eq_none_iff first x).mpr hx]
    rfl

end Bindings

namespace Expr

/-- Only the numbers that the names are bound to count. -/
theorem simplify_congr {env env' : Bindings} (h : ∀ x, env.number? x = env'.number? x) (e : Expr) :
    e.simplify env = e.simplify env' := by
  induction e with
  | num n => rfl
  | var x => rw [simplify, simplify, h]
  | sum l r ihl ihr => rw [simplify, ihl, ihr, simplify]
  | prod l r ihl ihr => rw [simplify, ihl, ihr, simplify]

-- An operator is folded only if both operands are numbers, and these no stage changes any more.
theorem simplify_foldSum (env : Bindings) (l r : Expr) :
    (foldSum l r).simplify env = foldSum (l.simplify env) (r.simplify env) := by
  cases l <;> cases r <;> rfl

theorem simplify_foldProd (env : Bindings) (l r : Expr) :
    (foldProd l r).simplify env = foldProd (l.simplify env) (r.simplify env) := by
  cases l <;> cases r <;> rfl

theorem simplify_simplify (first second : Bindings) (e : Expr) :
    (e.simplify first).simplify second = e.simplify (first.staged second) := by
  induction e with
  | num n => rfl
  | var x =>
    rw [simplify, simplify, Bindings.number?_staged]
    cases hx : first.number? x with
    | none => rw [simplify, Option.none_or]
    | some n => rfl
  | sum l r ihl ihr => rw [simplify, simplify_foldSum, ihl, ihr, simplify]
  | prod l r ihl ihr => rw [simplify, simplify_foldProd, ihl, ihr, simplify]

theorem simplify_idem (env : Bindings) (e : Expr) :
    (e.simplify env).simplify env = e.simplify env := by
  rw [simplify_simplify]
  refine simplify_congr (fun x => ?_) e
  rw [Bindings.number?_staged]
  cases env.number? x <;> rfl

theorem simplify_empty_simplify (env : Bindings) (e : Expr) :
    (e.simplify .empty).simplify env = e.simplify env := by
  rw [simplify_simplify]
  refine simplify_congr (fun x => ?_) e
  rw [Bindings.number?_staged]
  rfl

end Expr

namespace Sketch

/-- A tree with an absent node is refused under all bindings alike. -/
theorem ofExpr_or_simplify_error (s : Sketch) :
    (∃ e, s = ofExpr e) ∨ ∀ env, s.simplify env = .error .unhandled := by
  induction s with
  | absent => exact .inr fun _ => rfl
  | num n => exact .inl ⟨.num n, rfl⟩
  | var x => exact .inl ⟨.var x, rfl⟩
  | sum l r ihl ihr =>
    rcases ihl with ⟨a, rfl⟩ | hl
    · rcases ihr with ⟨b, rfl⟩ | hr
      · exact .inl ⟨.sum a b, rfl⟩
      · exact .inr fun env => by rw [simplify, simplify_ofExpr, hr]; rfl
    · exact .inr fun env => by rw [simplify, hl]; rfl
  | prod l r ihl ihr =>
    rcases ihl with ⟨a, rfl⟩ | hl
    · rcases ihr with ⟨b, rfl⟩ | hr
      · exact .inl ⟨.prod a b, rfl⟩
      · exact .inr fun env => by rw [simplify, simplify_ofExpr, hr]; rfl
    · exact .inr fun env => by rw [simplify, hl]; rfl

theorem simplify_bind_simplify (first second : Bindings) (s : Sketch) :
    (do (← s.simplify first).simplify second) = s.simplify (first.staged second) := by
  rcases ofExpr_or_simplify_error s with ⟨e, rfl⟩ | h
  · rw [simplify_ofExpr, simplify_ofExpr, ← Expr.simplify_simplify]
    exact simplify_ofExpr second (e.simplify first)
  · rw [h, h]
    rfl

end Sketch

/-- Simplifying in two stages is simplifying once, under bindings that take a name from the second
stage only if the first does not replace it. So a stage may be repeated, and constants may be folded
beforehand, without any effect. -/
theorem simplify_in_stages (first second : Bindings) :
    (∀ x, (first.staged second).get? x =
        if first.Binds x then first.get? x else second.get? x) ∧
      (∀ e : Expr, (e.simplify first).simplify second = e.simplify (first.staged second)) ∧
      (∀ s : Sketch, (do (← s.simplify first).simplify second) =
        s.simplify (first.staged second)) ∧
      (∀ e : Expr, (e.simplify first).simplify first = e.simplify first) ∧
      ∀ e : Expr, (e.simplify .empty).simplify second = e.simplify second := by
  refine ⟨first.get?_staged second, ?_, ?_, ?_, ?_⟩
  · exact Expr.simplify_simplify first second
  · exact Sketch.simplify_bind_simplify first second
  · exact Expr.simplify_idem first
  · exact Expr.simplify_empty_simplify second

end Symbolic
