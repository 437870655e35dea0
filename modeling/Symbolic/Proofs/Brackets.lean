import Symbolic.Proofs.Rendering

/-!
How many brackets an expression needs. A sequence of tokens that is read as an expression has a pair
of them around every operand that its level does not take bare, possibly among others. The canonical
text has these pairs only, so no text of the expression has fewer brackets.
-/

namespace Symbolic

namespace Expr

theorem isLeaf_of_ofNumeral {t : Text} {e : Expr} (h : ofNumeral t = .ok e) :
    e.isLeaf = true := by
  unfold ofNumeral at h
  split at h
  · cases h
    rfl
  · cases h

theorem isLeaf_of_ofName {t : Text} {e : Expr} (h : ofName t = .ok e) : e.isLeaf = true := by
  unfold ofName at h
  split at h
  · cases h
    rfl
  · cases h

end Expr

namespace Infix

/-- The level takes the expression in brackets only. -/
def Level.encloses : Level → Expr → Bool
  | .sum, _ => false
  | .product, e => e.isSum
  | .factor, e => !e.isLeaf

theorem Level.encloses_product_imp {e : Expr} (h : Level.product.encloses e = true) :
    Level.factor.encloses e = true := by
  cases e with
  | sum l r => rfl
  | num _ | var _ | prod _ _ => cases h

theorem count_bracket (b : Bool) (ts : List Token) :
    (bracket b ts).count .opening = b.toNat + ts.count .opening := by
  cases b with
  | false => simp [bracket]
  | true => simp [bracket, Nat.add_comm]

theorem count_spelling_of_isLeaf {e : Expr} (h : e.isLeaf = true) :
    (bracket (Level.factor.encloses e) e.spelling).count .opening = 0 := by
  rw [Level.encloses, h]
  cases e with
  | num n => rfl
  | var x => rfl
  | sum _ _ | prod _ _ => cases h

/-- A sequence has at least the brackets of the expression that it is read as, and those that its
level asks for around it. -/
theorem Reads.count_opening_le {k : Level} {ts : List Token} {e : Expr} (h : Reads k ts e) :
    (bracket (k.encloses e) e.spelling).count .opening ≤ ts.count .opening := by
  induction h with
  | number hw =>
    rw [count_spelling_of_isLeaf (Expr.isLeaf_of_ofNumeral hw)]
    exact Nat.zero_le _
  | name hw =>
    rw [count_spelling_of_isLeaf (Expr.isLeaf_of_ofName hw)]
    exact Nat.zero_le _
  | @brackets ts e _ ih =>
    -- Whether or not the pair is needed, it pays for the one that a factor may need.
    have hb : (Level.factor.encloses e).toNat ≤ 1 := Bool.toNat_le _
    have hs : e.spelling.count .opening ≤ ts.count .opening := ih
    have ht : (Token.opening :: (ts ++ [.closing])).count .opening = ts.count .opening + 1 := by
      simp
    rw [count_bracket, ht]
    omega
  | @factor ts e _ ih =>
    have hb : (Level.product.encloses e).toNat ≤ (Level.factor.encloses e).toNat :=
      Bool.toNat_le_toNat fun h => Level.encloses_product_imp h
    rw [count_bracket] at ih ⊢
    omega
  | @star ts us l r _ _ ihl ihr =>
    calc
      (Expr.spelling (.prod l r)).count .opening
          = (bracket (Level.product.encloses l) l.spelling).count .opening
            + (bracket (Level.factor.encloses r) r.spelling).count .opening := by
            simp [Expr.spelling, Level.encloses]
      _ ≤ ts.count .opening + us.count .opening := Nat.add_le_add ihl ihr
      _ = (ts ++ .star :: us).count .opening := by simp
  | @product ts e _ ih =>
    rw [count_bracket] at ih
    exact Nat.le_of_add_left_le ih
  | @plus ts us l r _ _ ihl ihr =>
    calc
      (Expr.spelling (.sum l r)).count .opening
          = l.spelling.count .opening
            + (bracket (Level.product.encloses r) r.spelling).count .opening := by
            simp [Expr.spelling, Level.encloses]
      _ ≤ ts.count .opening + us.count .opening := Nat.add_le_add ihl ihr
      _ = (ts ++ .plus :: us).count .opening := by simp

theorem mark?_eq_opening_iff {c : Char} {t : Token} (h : mark? c = some t) :
    t = .opening ↔ c = '(' := by
  unfold mark? at h
  split at h
  case h_5 => cases h
  all_goals
    cases h
    decide

theorem count_of_isWordChar {cs : List Char} (h : ∀ c ∈ cs, isWordChar c = true) :
    cs.count '(' = 0 := by
  refine List.count_eq_zero.mpr fun hm => ?_
  exact absurd (h '(' hm) (by decide)

/-- Brackets are the same in a text and in its tokens. -/
theorem count_of_tokens {cs : List Char} {ts : List Token} (h : tokens cs = some ts) :
    ts.count .opening = cs.count '(' := by
  fun_induction tokens cs generalizing ts with
  | case1 =>
    cases h
    rfl
  | case2 cs ih => simpa using ih h
  | case3 c cs _ t ht ih =>
    obtain ⟨us, hus, rfl⟩ := Option.map_eq_some_iff.mp h
    have hc := mark?_eq_opening_iff ht
    rw [List.count_cons, List.count_cons, ih hus]
    simp [hc]
  | case4 c cs _ _ hc ih =>
    obtain ⟨us, hus, rfl⟩ := Option.map_eq_some_iff.mp h
    have hw : ∀ x ∈ c :: cs.takeWhile isWordChar, isWordChar x = true := by
      simpa [hc] using fun x hx => List.mem_takeWhile_imp hx
    have hs : c :: cs = c :: cs.takeWhile isWordChar ++ cs.dropWhile isWordChar := by simp
    rw [hs, List.count_append, count_of_isWordChar hw, ← ih hus]
    simp
  | case5 => cases h

end Infix

namespace Expr

open Infix (Token Reads ReadsAs)

theorem count_render {e : Expr} (h : e.WellFormed) :
    e.render.toList.count '(' = e.spelling.count .opening :=
  (Infix.count_of_tokens (tokens_render h)).symm

/-- The canonical text is read as its expression, and among all sequences of tokens and all texts
that are read so none has fewer brackets. -/
theorem render_fewest_brackets {e : Expr} (h : e.WellFormed) :
    ReadsAs e.render e ∧
      (∀ ts, Reads .sum ts e → e.render.toList.count '(' ≤ ts.count .opening) ∧
      ∀ s, ReadsAs s e → e.render.toList.count '(' ≤ s.toList.count '(' := by
  have hts : ∀ ts, Reads .sum ts e → e.render.toList.count '(' ≤ ts.count .opening := by
    intro ts hr
    rw [count_render h]
    exact hr.count_opening_le
  refine ⟨⟨e.spelling, tokens_render h, (reads_spelling h).2.2⟩, hts, ?_⟩
  rintro s ⟨ts, ht, hr⟩
  rw [← Infix.count_of_tokens ht]
  exact hts ts hr

/-- Two pairs are needed, and a pair around the whole is one more. -/
theorem render_fewest_brackets_enclosed :
    let e : Expr := .prod (.sum (.var "x") (.num .one)) (.prod (.var "y") (.var "z"))
    let ts : List Token := .opening :: (e.spelling ++ [.closing])
    e.WellFormed ∧ e.render = "(x + 1) * (y * z)" ∧ Reads .sum ts e ∧
      "(x + 1) * (y * z)".toList.count '(' ≤ ts.count .opening := by
  intro e ts
  have hw : e.WellFormed := by decide +kernel
  have ht : e.render = "(x + 1) * (y * z)" := by decide +kernel
  have hr : Reads .sum ts e := .product (.factor (.brackets (reads_spelling hw).2.2))
  have hm := (render_fewest_brackets hw).2.1 ts hr
  rw [ht] at hm
  exact ⟨hw, ht, hr, hm⟩

end Expr

end Symbolic
