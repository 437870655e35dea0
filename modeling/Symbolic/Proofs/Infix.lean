import Symbolic.Expr.Leaf

/-!
Infix texts. A text is cut into tokens, and a token sequence is read by the grammar

    sum     := product ('+' product)*
    product := factor ('*' factor)*
    factor  := number | name | '(' sum ')'

with operators applied from the left. The grammar is a relation between sequences and trees. A
machine that goes once over the tokens, with what is still open kept in its state, reaches every tree
that the grammar gives, so no sequence can be read in two ways.
-/

namespace Symbolic.Infix

inductive Token where
  | word (text : List Char)
  | plus
  | star
  | opening
  | closing
deriving DecidableEq, Repr

def isWordChar (c : Char) : Bool :=
  isLetter c || isDigit c || c = '.'

def mark? : Char → Option Token
  | '+' => some .plus
  | '*' => some .star
  | '(' => some .opening
  | ')' => some .closing
  | _ => none

/-- Marks, and the longest runs of letters, digits and points. Spaces are skipped, and any other
character is refused. -/
def tokens : List Char → Option (List Token)
  | [] => some []
  | c :: cs =>
    if c = ' ' then tokens cs
    else
      match mark? c with
      | some t => (tokens cs).map (t :: ·)
      | none =>
        if isWordChar c then
          (tokens (cs.dropWhile isWordChar)).map (.word (c :: cs.takeWhile isWordChar) :: ·)
        else none
termination_by cs => cs.length
decreasing_by
  all_goals simp
  have := (List.dropWhile_sublist isWordChar (l := cs)).length_le
  omega

inductive Level where
  | sum
  | product
  | factor

def leafText (w : List Char) : Text :=
  w.map .char

inductive Reads : Level → List Token → Expr → Prop
  | number {w : List Char} {e : Expr} : Expr.ofNumeral (leafText w) = .ok e → Reads .factor [.word w] e
  | name {w : List Char} {e : Expr} : Expr.ofName (leafText w) = .ok e → Reads .factor [.word w] e
  | brackets {ts : List Token} {e : Expr} :
      Reads .sum ts e → Reads .factor (.opening :: (ts ++ [.closing])) e
  | factor {ts : List Token} {e : Expr} : Reads .factor ts e → Reads .product ts e
  | star {ts us : List Token} {l r : Expr} :
      Reads .product ts l → Reads .factor us r → Reads .product (ts ++ .star :: us) (.prod l r)
  | product {ts : List Token} {e : Expr} : Reads .product ts e → Reads .sum ts e
  | plus {ts us : List Token} {l r : Expr} :
      Reads .sum ts l → Reads .product us r → Reads .sum (ts ++ .plus :: us) (.sum l r)

/-- The whole text is read as the tree. -/
def ReadsAs (s : String) (e : Expr) : Prop :=
  ∃ ts, tokens s.toList = some ts ∧ Reads .sum ts e

/-- What stands before an operand inside one pair of brackets: the sum before the last plus and the
product before the last star. -/
structure Frame where
  terms : Option Expr
  factors : Option Expr

def Frame.start : Frame := ⟨none, none⟩

def joined (op : Expr → Expr → Expr) : Option Expr → Expr → Expr
  | none, e => e
  | some l, e => op l e

/-- An operand must follow, or a product has been read up to here; either way with the frames of the
brackets around it. -/
inductive State where
  | wanting (frame : Frame) (outer : List Frame)
  | reading (terms : Option Expr) (product : Expr) (outer : List Frame)

def leaf? (w : List Char) : Option Expr :=
  match Expr.ofNumeral (leafText w) with
  | .ok e => some e
  | .error _ => (Expr.ofName (leafText w)).toOption

def step : State → Token → Option State
  | .wanting f outer, .word w =>
    (leaf? w).map fun e => .reading f.terms (joined .prod f.factors e) outer
  | .wanting f outer, .opening => some (.wanting .start (f :: outer))
  | .reading terms p outer, .plus => some (.wanting ⟨some (joined .sum terms p), none⟩ outer)
  | .reading terms p outer, .star => some (.wanting ⟨terms, some p⟩ outer)
  | .reading terms p (f :: outer), .closing =>
    some (.reading f.terms (joined .prod f.factors (joined .sum terms p)) outer)
  | _, _ => none

def run : State → List Token → Option State
  | s, [] => some s
  | s, t :: ts => (step s t).bind fun s' => run s' ts

def result : State → Option Expr
  | .reading terms p [] => some (joined .sum terms p)
  | _ => none

def read (ts : List Token) : Option Expr :=
  (run (.wanting .start []) ts).bind result

@[simp]
theorem chars_leafText (w : List Char) : (leafText w).chars = w := by
  simp [leafText, Text.chars, Function.comp_def]

theorem not_isDigit_of_isLetter {c : Char} (h : isLetter c = true) : isDigit c = false := by
  simp only [isLetter, Bool.or_eq_true, Bool.and_eq_true, decide_eq_true_eq] at h
  simp only [isDigit, Bool.and_eq_false_iff, decide_eq_false_iff_not]
  omega

theorem parse?_name {w : List Char} (h : isName w = true) : Number.parse? w = none := by
  cases w with
  | nil => simp [isName] at h
  | cons c cs =>
    have hc : isLetter c = true := by simp_all [isName]
    simp [Number.parse?, not_isDigit_of_isLetter hc]

theorem leaf?_of_ofNumeral {w : List Char} {e : Expr} (h : Expr.ofNumeral (leafText w) = .ok e) :
    leaf? w = some e := by
  rw [leaf?, h]

theorem leaf?_of_ofName {w : List Char} {e : Expr} (h : Expr.ofName (leafText w) = .ok e) :
    leaf? w = some e := by
  have hw : isName w = true := by
    cases hn : isName w with
    | true => rfl
    | false => simp [Expr.ofName, hn] at h
  have hn : Expr.ofNumeral (leafText w) = .error (.numeral (leafText w)) := by
    simp [Expr.ofNumeral, parse?_name hw]
  rw [leaf?, hn, h]
  rfl

/-- What the machine makes of a sequence before any other tokens, inside any brackets. Behind a
factor the product goes on, behind a product the sum goes on, and a sum leaves its last product
unjoined until a bracket closes. -/
def Reached : Level → List Token → Expr → Prop
  | .factor, ts, e => ∀ f outer rest,
      run (.wanting f outer) (ts ++ rest) =
        run (.reading f.terms (joined .prod f.factors e) outer) rest
  | .product, ts, e => ∀ terms outer rest,
      run (.wanting ⟨terms, none⟩ outer) (ts ++ rest) = run (.reading terms e outer) rest
  | .sum, ts, e => ∀ outer rest, ∃ terms p, joined .sum terms p = e ∧
      run (.wanting .start outer) (ts ++ rest) = run (.reading terms p outer) rest

theorem Reads.reached {k : Level} {ts : List Token} {e : Expr} (h : Reads k ts e) :
    Reached k ts e := by
  induction h with
  | number hw =>
    intro f outer rest
    simp [run, step, leaf?_of_ofNumeral hw]
  | name hw =>
    intro f outer rest
    simp [run, step, leaf?_of_ofName hw]
  | @brackets ts e _ ih =>
    intro f outer rest
    -- The closing bracket finds the frame that the opening one has put aside.
    obtain ⟨terms, p, rfl, hr⟩ := ih (f :: outer) (.closing :: rest)
    calc
      run (.wanting f outer) (.opening :: (ts ++ [.closing]) ++ rest)
          = run (.wanting .start (f :: outer)) (ts ++ .closing :: rest) := by simp [run, step]
      _ = run (.reading terms p (f :: outer)) (.closing :: rest) := hr
      _ = run (.reading f.terms (joined .prod f.factors (joined .sum terms p)) outer) rest := by
            simp [run, step]
  | factor _ ih =>
    intro terms outer rest
    exact ih ⟨terms, none⟩ outer rest
  | @star ts us l r _ _ ihl ihr =>
    intro terms outer rest
    calc
      run (.wanting ⟨terms, none⟩ outer) (ts ++ .star :: us ++ rest)
          = run (.reading terms l outer) (.star :: (us ++ rest)) := by
            simpa using ihl terms outer (.star :: (us ++ rest))
      _ = run (.wanting ⟨terms, some l⟩ outer) (us ++ rest) := by simp [run, step]
      _ = run (.reading terms (.prod l r) outer) rest := ihr ⟨terms, some l⟩ outer rest
  | @product ts e _ ih =>
    intro outer rest
    exact ⟨none, e, rfl, ih none outer rest⟩
  | @plus ts us l r _ _ ihl ihr =>
    intro outer rest
    obtain ⟨terms, p, rfl, hl⟩ := ihl outer (.plus :: (us ++ rest))
    refine ⟨some (joined .sum terms p), r, rfl, ?_⟩
    calc
      run (.wanting .start outer) (ts ++ .plus :: us ++ rest)
          = run (.reading terms p outer) (.plus :: (us ++ rest)) := by simpa using hl
      _ = run (.wanting ⟨some (joined .sum terms p), none⟩ outer) (us ++ rest) := by
            simp [run, step]
      _ = run (.reading (some (joined .sum terms p)) r outer) rest := ihr _ outer rest

theorem Reads.read_eq {ts : List Token} {e : Expr} (h : Reads .sum ts e) : read ts = some e := by
  obtain ⟨terms, p, rfl, hr⟩ := h.reached [] []
  rw [List.append_nil] at hr
  simp [read, hr, run, result]

/-- A sequence is read in at most one way. -/
theorem Reads.unique {ts : List Token} {e e' : Expr} (h : Reads .sum ts e)
    (h' : Reads .sum ts e') : e = e' := by
  have he := h.read_eq
  rw [h'.read_eq] at he
  exact (Option.some.inj he).symm

end Symbolic.Infix
