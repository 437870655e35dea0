import Symbolic.Expr.Render
import Symbolic.Proofs.Infix
import Symbolic.Proofs.Numeral

/-!
The canonical text of an expression, read back by the infix grammar. The text is cut into the tokens
of the expression itself: an operand ends where its words end, since what follows it is a space, a
bracket or nothing. The brackets among these tokens are just enough for the tokens to be read as the
expression at the level where it stands.
-/

namespace Symbolic

namespace Infix

/-- A word that stands before the text ends there. -/
def Stops (rest : List Char) : Prop :=
  ∀ c ∈ rest.head?, isWordChar c = false

theorem mark?_eq_none_of_isWordChar {c : Char} (h : isWordChar c = true) : mark? c = none := by
  unfold mark?
  split
  case h_5 => rfl
  all_goals exact absurd h (by decide)

theorem tokens_space (cs : List Char) : tokens (' ' :: cs) = tokens cs := by
  rw [tokens]
  simp

theorem tokens_mark {c : Char} {t : Token} (h : mark? c = some t) (cs : List Char) :
    tokens (c :: cs) = (tokens cs).map (t :: ·) := by
  have hc : c ≠ ' ' := by
    rintro rfl
    simp [mark?] at h
  rw [tokens]
  simp [hc, h]

theorem tokens_word {w rest : List Char} (hw : w ≠ []) (hc : ∀ c ∈ w, isWordChar c = true)
    (hr : Stops rest) : tokens (w ++ rest) = (tokens rest).map (.word w :: ·) := by
  obtain ⟨c, cs, rfl⟩ := List.exists_cons_of_ne_nil hw
  have hd : isWordChar c = true := hc c (by simp)
  have hcs : ∀ x ∈ cs, isWordChar x = true := fun x hx => hc x (List.mem_cons_of_mem c hx)
  have hs : c ≠ ' ' := by
    rintro rfl
    exact absurd hd (by decide)
  have ht : rest.takeWhile isWordChar = [] := by
    cases rest with
    | nil => rfl
    | cons x xs => simp [hr x rfl]
  have hn : rest.dropWhile isWordChar = rest := by
    cases rest with
    | nil => rfl
    | cons x xs => simp [hr x rfl]
  rw [List.cons_append, tokens]
  simp [hs, mark?_eq_none_of_isWordChar hd, hd, List.takeWhile_append_of_pos hcs,
    List.dropWhile_append_of_pos hcs, ht, hn]

def bracket (brackets : Bool) (ts : List Token) : List Token :=
  if brackets then .opening :: (ts ++ [.closing]) else ts

/-- The text is cut into the tokens wherever a word may end after it. -/
def Spells (s : String) (ts : List Token) : Prop :=
  ∀ rest, Stops rest → tokens (s.toList ++ rest) = (tokens rest).map (ts ++ ·)

theorem Spells.bracketed {s : String} {ts : List Token} (h : Spells s ts) (b : Bool) :
    Spells (Expr.bracketed b s) (bracket b ts) := by
  intro rest hr
  cases b with
  | false => exact h rest hr
  | true =>
    have hs : Stops (')' :: rest) := by simp [Stops, isWordChar, isLetter, isDigit]
    have ht : (Expr.bracketed true s).toList ++ rest = '(' :: (s.toList ++ ')' :: rest) := by
      simp [Expr.bracketed]
    rw [ht, tokens_mark rfl, h _ hs, tokens_mark rfl]
    simp [bracket, Function.comp_def]

theorem Spells.operator {s s' mark : String} {ts ts' : List Token} {c : Char} {t : Token}
    (h : Spells s ts) (h' : Spells s' ts') (hm : mark.toList = [' ', c, ' '])
    (hc : mark? c = some t) : Spells (s ++ mark ++ s') (ts ++ t :: ts') := by
  intro rest hr
  have hs : Stops (' ' :: c :: ' ' :: (s'.toList ++ rest)) := by
    simp [Stops, isWordChar, isLetter, isDigit]
  have ht : (s ++ mark ++ s').toList ++ rest = s.toList ++ ' ' :: c :: ' ' :: (s'.toList ++ rest) := by
    simp [hm]
  rw [ht, h _ hs, tokens_space, tokens_mark hc, tokens_space, h' _ hr]
  simp [Function.comp_def]

end Infix

namespace Number

theorem isWordChar_of_mem_text {n : Number} (h : n.OnGrid) :
    ∀ c ∈ n.text, Infix.isWordChar c = true := by
  intro c hc
  rcases isDigit_or_point_of_mem_text h hc with hd | rfl
  · simp [Infix.isWordChar, hd]
  · decide

theorem text_ne_nil {n : Number} (h : n.OnGrid) : n.text ≠ [] := by
  intro ht
  have hp := parse?_text h
  rw [ht] at hp
  simp [parse?] at hp

end Number

namespace Expr

open Infix (Token Reads ReadsAs Spells bracket tokens)

def spelling : Expr → List Token
  | .num n => [.word n.text]
  | .var x => [.word x.toList]
  | .sum l r => l.spelling ++ .plus :: bracket r.isSum r.spelling
  | .prod l r => bracket l.isSum l.spelling ++ .star :: bracket (!r.isLeaf) r.spelling

theorem spells_render {e : Expr} (h : e.WellFormed) : Spells e.render e.spelling := by
  induction e with
  | num n =>
    intro rest hr
    simpa [render, Number.render, spelling] using
      Infix.tokens_word (Number.text_ne_nil h) (Number.isWordChar_of_mem_text h) hr
  | var x =>
    intro rest hr
    have hx : x.toList ≠ [] ∧ ∀ c ∈ x.toList, isLetter c = true := by
      simpa [WellFormed, isName] using h
    have hc : ∀ c ∈ x.toList, Infix.isWordChar c = true := fun c hm => by
      simp [Infix.isWordChar, hx.2 c hm]
    simpa [render, spelling] using Infix.tokens_word hx.1 hc hr
  | sum l r ihl ihr =>
    exact (ihl h.1).operator ((ihr h.2).bracketed r.isSum) rfl rfl
  | prod l r ihl ihr =>
    exact ((ihl h.1).bracketed l.isSum).operator ((ihr h.2).bracketed (!r.isLeaf)) rfl rfl

theorem tokens_render {e : Expr} (h : e.WellFormed) : tokens e.render.toList = some e.spelling := by
  have hs := spells_render h [] (by simp [Infix.Stops])
  simpa [tokens] using hs

/-- At every level the tokens are read as the expression, if brackets are put where the level needs
them: a product takes no bare sum, and a factor neither a bare sum nor a bare product. -/
theorem reads_spelling {e : Expr} (h : e.WellFormed) :
    Reads .factor (bracket (!e.isLeaf) e.spelling) e ∧
      Reads .product (bracket e.isSum e.spelling) e ∧ Reads .sum e.spelling e := by
  -- The levels go together, since an operand stands at another level than its operator.
  induction e with
  | num n =>
    have hn : Reads .factor [.word n.text] (.num n) := by
      apply Reads.number
      simp [ofNumeral, Number.parse?_text h]
    exact ⟨hn, hn.factor, hn.factor.product⟩
  | var x =>
    have hx : Reads .factor [.word x.toList] (.var x) := by
      apply Reads.name
      have hw : isName x.toList = true := h
      simp [ofName, hw]
    exact ⟨hx, hx.factor, hx.factor.product⟩
  | sum l r ihl ihr =>
    have hs : Reads .sum (l.spelling ++ .plus :: bracket r.isSum r.spelling) (.sum l r) :=
      .plus (ihl h.1).2.2 (ihr h.2).2.1
    exact ⟨.brackets hs, .factor (.brackets hs), hs⟩
  | prod l r ihl ihr =>
    have hp : Reads .product
        (bracket l.isSum l.spelling ++ .star :: bracket (!r.isLeaf) r.spelling) (.prod l r) :=
      .star (ihl h.1).2.1 (ihr h.2).1
    exact ⟨.brackets hp.product, hp, hp.product⟩

/-- The canonical text of a well-formed expression is read as that expression and as no other. -/
theorem readsAs_render_iff {e : Expr} (h : e.WellFormed) (e' : Expr) :
    ReadsAs e.render e' ↔ e' = e := by
  have ht : tokens e.render.toList = some e.spelling := tokens_render h
  have hr : Reads .sum e.spelling e := (reads_spelling h).2.2
  constructor
  · rintro ⟨ts, hts, hread⟩
    rw [ht] at hts
    obtain rfl := Option.some.inj hts
    exact hread.unique hr
  · rintro rfl
    exact ⟨e'.spelling, ht, hr⟩

theorem readsAs_bracketed_operands :
    let e : Expr := .prod (.sum (.var "x") (.num ⟨3 / 2⟩)) (.prod (.var "y") (.num ⟨20⟩))
    e.WellFormed ∧ e.render = "(x + 1.5) * (y * 20)" ∧
      ∀ e', ReadsAs "(x + 1.5) * (y * 20)" e' ↔ e' = e := by
  intro e
  have hw : e.WellFormed := by decide +kernel
  have ht : e.render = "(x + 1.5) * (y * 20)" := by decide +kernel
  refine ⟨hw, ht, ?_⟩
  intro e'
  rw [← ht]
  exact readsAs_render_iff hw e'

end Expr

end Symbolic
