import Symbolic.Json.Reader
import Symbolic.Proofs.Decoding
import Symbolic.Proofs.JsonText

/-!
The grammar of JSON texts, stated apart from the reader, and its scalars: what is read as a scalar is
one, and a scalar is read back exactly, whatever follows it. Only a number needs a follower that
cannot belong to it.
-/

namespace Symbolic.Json

def Blank (cs : List Char) : Prop :=
  ∀ c ∈ cs, isSpace c = true

/-- What stands between the quotes of a string, and the pieces that it stands for. -/
inductive StringText : List Char → List Piece → Prop
  | nil : StringText [] []
  | plain {c : Char} {cs : List Char} {ps : List Piece} : c ≠ '"' → c ≠ '\\' → 0x20 ≤ c.toNat →
      StringText cs ps → StringText (c :: cs) (.char c :: ps)
  | escape {c x : Char} {cs : List Char} {ps : List Piece} : escaped? c = some x →
      StringText cs ps → StringText ('\\' :: c :: cs) (.char x :: ps)
  | code {hex cs : List Char} {ps : List Piece} : hex.length = 4 →
      (∀ c ∈ hex, Numeral.isHexDigit c = true) → StringText cs ps →
      StringText ('\\' :: 'u' :: (hex ++ cs)) (.unit (Numeral.valueIn 16 hex) :: ps)

def Digits (cs : List Char) : Prop :=
  cs ≠ [] ∧ ∀ c ∈ cs, isDigit c = true

inductive WholeText : List Char → Prop
  | zero : WholeText ['0']
  | digits {c : Char} {cs : List Char} : c ≠ '0' → Digits (c :: cs) → WholeText (c :: cs)

inductive FractionText : List Char → List Char → Prop
  | none : FractionText [] []
  | point {ds : List Char} : Digits ds → FractionText ('.' :: ds) ds

inductive ExponentText : List Char → Int → Prop
  | none : ExponentText [] 0
  | bare {c : Char} {ds : List Char} : c ∈ ['e', 'E'] → Digits ds →
      ExponentText (c :: ds) (digitsValue ds)
  | plus {c : Char} {ds : List Char} : c ∈ ['e', 'E'] → Digits ds →
      ExponentText (c :: '+' :: ds) (digitsValue ds)
  | minus {c : Char} {ds : List Char} : c ∈ ['e', 'E'] → Digits ds →
      ExponentText (c :: '-' :: ds) (-(digitsValue ds : Int))

inductive UnsignedText (negative : Bool) : List Char → Json → Prop
  | mk {whole fraction ds power : List Char} {e : Int} : WholeText whole →
      FractionText fraction ds → ExponentText power e →
      UnsignedText negative (whole ++ fraction ++ power)
        (.number (Binary64.ofDecimal negative ⟨digitsValue (whole ++ ds), e - ds.length⟩))

inductive ScalarText : List Char → Json → Prop
  | nullWord : ScalarText ['n', 'u', 'l', 'l'] .null
  | trueWord : ScalarText ['t', 'r', 'u', 'e'] (.bool true)
  | falseWord : ScalarText ['f', 'a', 'l', 's', 'e'] (.bool false)
  | string {cs : List Char} {ps : List Piece} : StringText cs ps →
      ScalarText ('"' :: (cs ++ ['"'])) (.string (String.ofList (joinPieces ps)))
  | positive {cs : List Char} {v : Json} : UnsignedText false cs v → ScalarText cs v
  | negative {cs : List Char} {v : Json} : UnsignedText true cs v → ScalarText ('-' :: cs) v

inductive Spaced (value : List Char → Json → Prop) : List Char → Json → Prop
  | mk {lead text trail : List Char} {v : Json} : Blank lead → value text v → Blank trail →
      Spaced value (lead ++ text ++ trail) v

inductive MemberText (value : List Char → Json → Prop) : List Char → String × Json → Prop
  | mk {lead key trail text : List Char} {ps : List Piece} {v : Json} : Blank lead →
      StringText key ps → Blank trail → Spaced value text v →
      MemberText value (lead ++ '"' :: (key ++ '"' :: (trail ++ ':' :: text)))
        (String.ofList (joinPieces ps), v)

inductive Listed {α : Type} (entry : List Char → α → Prop) : List Char → List α → Prop
  | last {cs : List Char} {a : α} : entry cs a → Listed entry cs [a]
  | more {cs rest : List Char} {a : α} {as : List α} : entry cs a → Listed entry rest as →
      Listed entry (cs ++ ',' :: rest) (a :: as)

/-- A scalar, or an array or object whose values are of the given kind. -/
inductive ValueText (value : List Char → Json → Prop) : List Char → Json → Prop
  | scalar {cs : List Char} {v : Json} : ScalarText cs v → ValueText value cs v
  | emptyArray {cs : List Char} : Blank cs → ValueText value ('[' :: (cs ++ [']'])) (.array [])
  | array {cs : List Char} {vs : List Json} : Listed (Spaced value) cs vs →
      ValueText value ('[' :: (cs ++ [']'])) (.array vs)
  | emptyObject {cs : List Char} : Blank cs →
      ValueText value ('\x7b' :: (cs ++ ['\x7d'])) (.object [])
  | object {cs : List Char} {ms : Members} : Listed (MemberText value) cs ms →
      ValueText value ('\x7b' :: (cs ++ ['\x7d'])) (.object ms)

/-- The text is one value, with neither space before it nor after it, nested at most so deep. -/
def Denotes : Nat → List Char → Json → Prop
  | 0 => ScalarText
  | depth + 1 => ValueText (Denotes depth)

section Space
variable {lead cs : List Char}

theorem Blank.append {trail : List Char} (h : Blank lead) (h' : Blank trail) :
    Blank (lead ++ trail) := by
  intro c hc
  exact (List.mem_append.mp hc).elim (h c) (h' c)

theorem Blank.skipSpace_append (h : Blank lead) (cs : List Char) :
    skipSpace (lead ++ cs) = skipSpace cs :=
  List.dropWhile_append_of_pos h

theorem exists_blank_skipSpace (cs : List Char) : ∃ lead, Blank lead ∧ cs = lead ++ skipSpace cs :=
  ⟨cs.takeWhile isSpace, List.all_eq_true.mp List.all_takeWhile, List.takeWhile_append_dropWhile.symm⟩

theorem isSpace_of_skipSpace {c : Char} {rest : List Char} (h : skipSpace cs = c :: rest) :
    isSpace c = false := by
  have hd := List.head?_dropWhile_not isSpace cs
  rw [← skipSpace, h] at hd
  simpa using hd

theorem skipSpace_skipSpace (cs : List Char) : skipSpace (skipSpace cs) = skipSpace cs := by
  obtain ⟨lead, hl, hc⟩ := exists_blank_skipSpace cs
  rw [← hl.skipSpace_append (skipSpace cs), ← hc]

end Space

section Strings

theorem pieces_code {hex : List Char} (hh : ∀ c ∈ hex, Numeral.isHexDigit c = true) {n : Nat}
    (hn : hex.length = n + 1) (value : Nat) (rest : List Char) (acc : List Piece) :
    pieces (.code (n + 1) value) (hex ++ rest) acc =
      pieces .plain rest (.unit (hex.foldl (fun m c => m * 16 + Numeral.hexValue c) value) :: acc) := by
  induction n generalizing hex value with
  | zero =>
    obtain ⟨c, rfl⟩ := List.length_eq_one_iff.mp hn
    simp [pieces, hh c]
  | succ n ih =>
    cases hex with
    | nil => simp at hn
    | cons c hex =>
      have hc : Numeral.isHexDigit c = true := hh c (by simp)
      have hr := ih (fun x hx => hh x (List.mem_cons_of_mem c hx)) (by simpa using hn)
      rw [List.cons_append, pieces, if_pos hc]
      simpa using hr (value * 16 + Numeral.hexValue c)

theorem exists_hex_of_pieces_code {n value : Nat} {cs rest : List Char} {acc ps : List Piece}
    (h : pieces (.code (n + 1) value) cs acc = .ok (ps, rest)) :
    ∃ hex body, cs = hex ++ body ∧ hex.length = n + 1 ∧
      ∀ c ∈ hex, Numeral.isHexDigit c = true := by
  induction n generalizing value cs with
  | zero =>
    cases cs with
    | nil => simp [pieces] at h
    | cons c cs =>
      rw [pieces] at h
      split at h
      · next hc => exact ⟨[c], cs, rfl, rfl, by simpa using hc⟩
      · simp at h
  | succ n ih =>
    cases cs with
    | nil => simp [pieces] at h
    | cons c cs =>
      rw [pieces] at h
      split at h
      · next hc =>
        obtain ⟨hex, body, rfl, hl, hh⟩ := ih (by simpa using h)
        exact ⟨c :: hex, body, rfl, by simp [hl], by simpa using ⟨hc, hh⟩⟩
      · simp at h

theorem StringText.pieces_eq {cs : List Char} {ps : List Piece} (h : StringText cs ps)
    (rest : List Char) (acc : List Piece) :
    pieces .plain (cs ++ '"' :: rest) acc = .ok (acc.reverse ++ ps, rest) := by
  induction h generalizing acc with
  | nil => simp [pieces]
  | @plain c cs ps hq hb hl _ ih =>
    rw [List.cons_append, pieces, if_neg hq, if_neg hb, if_neg (Nat.not_lt.mpr hl), ih]
    simp
  | @escape c x cs ps hx _ ih =>
    have hu : c ≠ 'u' := by
      rintro rfl
      simp [escaped?] at hx
    simp [pieces, hu, hx, ih]
  | @code hex cs ps hn hh _ ih =>
    have hc := pieces_code hh hn 0 (cs ++ '"' :: rest) acc
    simp only [List.cons_append, List.append_assoc, pieces]
    simp [hc, ih, Numeral.valueIn]

/-- Every string that is read has a derivation. The escapes take more than one character, so the
induction is on the length of the text. -/
theorem exists_stringText_of_pieces {n : Nat} {cs rest : List Char} {acc qs : List Piece}
    (hn : cs.length ≤ n) (h : pieces .plain cs acc = .ok (qs, rest)) :
    ∃ body ps, cs = body ++ '"' :: rest ∧ StringText body ps ∧ qs = acc.reverse ++ ps := by
  induction n generalizing cs acc with
  | zero =>
    obtain rfl := List.length_eq_zero_iff.mp (Nat.le_zero.mp hn)
    simp [pieces] at h
  | succ n ih =>
    cases cs with
    | nil => simp [pieces] at h
    | cons c cs =>
      have hn : cs.length ≤ n := by simpa using hn
      rw [pieces] at h
      split at h
      · next hq =>
        obtain ⟨rfl, rfl⟩ : acc.reverse = qs ∧ cs = rest := by simpa using h
        exact ⟨[], [], by simp [hq], .nil, by simp⟩
      · next hq =>
        split at h
        · next hb =>
          subst hb
          cases cs with
          | nil => simp [pieces] at h
          | cons c cs =>
            have hn : cs.length ≤ n := by simp at hn; omega
            rw [pieces] at h
            split at h
            · next hu =>
              subst hu
              obtain ⟨hex, body, rfl, hl, hh⟩ := exists_hex_of_pieces_code h
              rw [pieces_code hh hl] at h
              have hn : body.length ≤ n := by simp at hn; omega
              obtain ⟨body, ps, rfl, hb, rfl⟩ := ih hn h
              exact ⟨_, _, by simp, .code hl hh hb, by simp [Numeral.valueIn]⟩
            · split at h
              · next x hx =>
                obtain ⟨body, ps, rfl, hb, rfl⟩ := ih hn h
                exact ⟨_, _, by simp, .escape hx hb, by simp⟩
              · simp at h
        · next hb =>
          split at h
          · simp at h
          · next hl =>
            obtain ⟨body, ps, rfl, hs, rfl⟩ := ih hn h
            exact ⟨_, _, by simp, .plain hq hb (Nat.not_lt.mp hl) hs, by simp⟩

theorem StringText.stringBody_eq {cs : List Char} {ps : List Piece} (h : StringText cs ps)
    (rest : List Char) :
    stringBody (cs ++ '"' :: rest) = .ok (String.ofList (joinPieces ps), rest) := by
  rw [stringBody, h.pieces_eq]
  rfl

theorem exists_stringText_of_stringBody {cs rest : List Char} {s : String}
    (h : stringBody cs = .ok (s, rest)) :
    ∃ body ps, cs = body ++ '"' :: rest ∧ StringText body ps ∧ s = String.ofList (joinPieces ps) := by
  obtain ⟨⟨qs, rest'⟩, hp, h⟩ := bind_eq_ok.mp h
  obtain ⟨rfl, rfl⟩ : String.ofList (joinPieces qs) = s ∧ rest' = rest := by
    simpa [pure, Except.pure] using h
  obtain ⟨body, ps, rfl, hb, hq⟩ := exists_stringText_of_pieces (Nat.le_refl _) hp
  exact ⟨body, ps, rfl, hb, by simp [hq]⟩

end Strings

section Numbers

def Avoids (p : Char → Bool) (cs : List Char) : Prop :=
  ∀ c ∈ cs.head?, p c = false

def continuesNumber (c : Char) : Bool :=
  isDigit c || c = '.' || c = 'e' || c = 'E'

theorem avoids_cons {p : Char → Bool} {c : Char} {cs : List Char} :
    Avoids p (c :: cs) ↔ p c = false := by
  simp [Avoids]

theorem Avoids.mono {p q : Char → Bool} (hpq : ∀ c, p c = true → q c = true) {cs : List Char}
    (h : Avoids q cs) : Avoids p cs := by
  intro c hc
  rw [← Bool.not_eq_true]
  exact fun hp => Bool.eq_false_iff.mp (h c hc) (hpq c hp)

theorem Digits.digitRun_append {ds : List Char} (h : Digits ds) {rest : List Char}
    (hr : Avoids isDigit rest) : digitRun (ds ++ rest) = .ok (ds, rest) := by
  have ht : rest.takeWhile isDigit = [] ∧ rest.dropWhile isDigit = rest := by
    cases rest with
    | nil => simp
    | cons c rest => simp [avoids_cons.mp hr]
  rw [digitRun, List.takeWhile_append_of_pos h.2, List.dropWhile_append_of_pos h.2, ht.1, ht.2]
  simp [h.1]

theorem digitRun_eq_ok {cs ds rest : List Char} (h : digitRun cs = .ok (ds, rest)) :
    cs = ds ++ rest ∧ Digits ds := by
  simp only [digitRun] at h
  split at h
  · simp at h
  · next hn =>
    obtain ⟨rfl, rfl⟩ : cs.takeWhile isDigit = ds ∧ cs.dropWhile isDigit = rest := by simpa using h
    exact ⟨List.takeWhile_append_dropWhile.symm, by simpa using hn,
      List.all_eq_true.mp List.all_takeWhile⟩

theorem WholeText.wholePart_append {whole : List Char} (h : WholeText whole) {rest : List Char}
    (hr : Avoids isDigit rest) : wholePart (whole ++ rest) = .ok (whole, rest) := by
  cases h with
  | zero => rfl
  | @digits c cs hc hd =>
    rw [wholePart]
    · exact hd.digitRun_append hr
    · intro r he
      exact hc (List.cons.inj he).1

theorem wholePart_eq_ok {cs whole rest : List Char} (h : wholePart cs = .ok (whole, rest)) :
    cs = whole ++ rest ∧ WholeText whole := by
  unfold wholePart at h
  split at h
  · obtain ⟨rfl, rfl⟩ : ['0'] = whole ∧ _ = rest := by simpa using h
    exact ⟨rfl, .zero⟩
  · next hz =>
    obtain ⟨rfl, hd⟩ := digitRun_eq_ok h
    obtain ⟨c, whole, rfl⟩ := List.exists_cons_of_ne_nil hd.1
    refine ⟨rfl, .digits ?_ hd⟩
    rintro rfl
    exact hz _ rfl

theorem FractionText.fractionPart_append {fraction ds : List Char} (h : FractionText fraction ds)
    {rest : List Char} (hd : Avoids isDigit rest) (hp : Avoids (· = '.') rest) :
    fractionPart (fraction ++ rest) = .ok (ds, rest) := by
  cases h with
  | none =>
    rw [List.nil_append, fractionPart]
    rintro cs rfl
    simpa using hp '.' rfl
  | point h => exact h.digitRun_append hd

theorem fractionPart_eq_ok {cs ds rest : List Char} (h : fractionPart cs = .ok (ds, rest)) :
    ∃ fraction, cs = fraction ++ rest ∧ FractionText fraction ds := by
  unfold fractionPart at h
  split at h
  · obtain ⟨rfl, hd⟩ := digitRun_eq_ok h
    exact ⟨_, rfl, .point hd⟩
  · obtain ⟨rfl, rfl⟩ : [] = ds ∧ _ = rest := by simpa using h
    exact ⟨[], rfl, .none⟩

theorem asciiLower_eq_e_iff {c : Char} : Numeral.asciiLower c = 'e' ↔ c ∈ ['e', 'E'] := by
  have hu : ∀ n < 0x5B, 0x41 ≤ n → Char.ofNat (n + 0x20) = 'e' → n = 'E'.toNat := by decide
  simp only [List.mem_cons, List.not_mem_nil, or_false]
  constructor
  · intro h
    unfold Numeral.asciiLower at h
    split at h
    · next hc => exact .inr (Char.toNat_inj.mp (hu _ (Nat.lt_succ_of_le hc.2) hc.1 h))
    · exact .inl h
  · rintro (rfl | rfl)
    · decide
    · decide

theorem exponentPart_mark {c : Char} (hc : c ∈ ['e', 'E']) {cs ds rest : List Char} {negative : Bool}
    (hs : Numeral.splitSign cs = (negative, ds ++ rest)) (hd : Digits ds)
    (hr : Avoids isDigit rest) :
    exponentPart (c :: cs) =
      .ok (if negative then -(digitsValue ds : Int) else digitsValue ds, rest) := by
  rw [exponentPart, if_pos (asciiLower_eq_e_iff.mpr hc), hs]
  simp only [hd.digitRun_append hr]
  rfl

theorem splitSign_digits {ds : List Char} (h : Digits ds) (rest : List Char) :
    Numeral.splitSign (ds ++ rest) = (false, ds ++ rest) := by
  obtain ⟨c, ds, rfl⟩ := List.exists_cons_of_ne_nil h.1
  have hc : isDigit c = true := h.2 c (by simp)
  rw [List.cons_append, Numeral.splitSign]
  · rintro cs he
    obtain rfl := (List.cons.inj he).1
    simp [isDigit] at hc
  · rintro cs he
    obtain rfl := (List.cons.inj he).1
    simp [isDigit] at hc

theorem ExponentText.exponentPart_append {power : List Char} {e : Int} (h : ExponentText power e)
    {rest : List Char} (hr : Avoids continuesNumber rest) :
    exponentPart (power ++ rest) = .ok (e, rest) := by
  have hd : Avoids isDigit rest := hr.mono fun c hc => by simp [continuesNumber, hc]
  cases h with
  | none =>
    cases rest with
    | nil => rfl
    | cons c rest =>
      have hc : c ∉ ['e', 'E'] := by
        have := hr c rfl
        simp_all [continuesNumber]
      rw [List.nil_append, exponentPart, if_neg (mt asciiLower_eq_e_iff.mp hc)]
      rfl
  | bare hc h => exact exponentPart_mark hc (splitSign_digits h rest) h hd
  | @plus c ds hc h =>
    have hs : Numeral.splitSign ('+' :: (ds ++ rest)) = (false, ds ++ rest) := rfl
    exact exponentPart_mark hc hs h hd
  | @minus c ds hc h =>
    have hs : Numeral.splitSign ('-' :: (ds ++ rest)) = (true, ds ++ rest) := rfl
    exact exponentPart_mark hc hs h hd

theorem splitSign_cases (cs : List Char) :
    (∃ r, cs = '-' :: r ∧ Numeral.splitSign cs = (true, r)) ∨
      (∃ r, cs = '+' :: r ∧ Numeral.splitSign cs = (false, r)) ∨
      Numeral.splitSign cs = (false, cs) := by
  unfold Numeral.splitSign
  split
  · next r => exact .inl ⟨r, rfl, rfl⟩
  · next r => exact .inr (.inl ⟨r, rfl, rfl⟩)
  · exact .inr (.inr rfl)

theorem exists_digits_of_exponentPart {c : Char} (hc : c ∈ ['e', 'E']) {cs body rest : List Char}
    {negative : Bool} {e : Int} (hs : Numeral.splitSign cs = (negative, body))
    (h : exponentPart (c :: cs) = .ok (e, rest)) :
    ∃ ds, body = ds ++ rest ∧ Digits ds ∧
      e = if negative then -(digitsValue ds : Int) else digitsValue ds := by
  rw [exponentPart, if_pos (asciiLower_eq_e_iff.mpr hc), hs] at h
  obtain ⟨⟨ds, rest'⟩, hd, h⟩ := bind_eq_ok.mp h
  obtain ⟨he, rfl⟩ : _ = e ∧ rest' = rest := by simpa [pure, Except.pure] using h
  obtain ⟨hb, hd⟩ := digitRun_eq_ok hd
  exact ⟨ds, hb, hd, he.symm⟩

theorem exponentPart_eq_ok {cs rest : List Char} {e : Int} (h : exponentPart cs = .ok (e, rest)) :
    ∃ power, cs = power ++ rest ∧ ExponentText power e := by
  cases cs with
  | nil =>
    obtain ⟨rfl, rfl⟩ : 0 = e ∧ [] = rest := by simpa [exponentPart] using h
    exact ⟨[], rfl, .none⟩
  | cons c cs =>
    by_cases hc : c ∈ ['e', 'E']
    · rcases splitSign_cases cs with ⟨body, rfl, hs⟩ | ⟨body, rfl, hs⟩ | hs
      · obtain ⟨ds, rfl, hd, rfl⟩ := exists_digits_of_exponentPart hc hs h
        exact ⟨_, rfl, .minus hc hd⟩
      · obtain ⟨ds, rfl, hd, rfl⟩ := exists_digits_of_exponentPart hc hs h
        exact ⟨_, rfl, .plus hc hd⟩
      · obtain ⟨ds, rfl, hd, rfl⟩ := exists_digits_of_exponentPart hc hs h
        exact ⟨_, rfl, .bare hc hd⟩
    · rw [exponentPart, if_neg (mt asciiLower_eq_e_iff.mp hc)] at h
      obtain ⟨rfl, rfl⟩ : 0 = e ∧ c :: cs = rest := by simpa [pure, Except.pure] using h
      exact ⟨[], rfl, .none⟩

theorem ExponentText.avoids_append {p : Char → Bool} (hp : ∀ c ∈ ['e', 'E'], p c = false)
    {power : List Char} {e : Int} (h : ExponentText power e) {rest : List Char}
    (hr : Avoids p rest) : Avoids p (power ++ rest) := by
  cases h with
  | none => exact hr
  | bare hc _ => exact avoids_cons.mpr (hp _ hc)
  | plus hc _ => exact avoids_cons.mpr (hp _ hc)
  | minus hc _ => exact avoids_cons.mpr (hp _ hc)

theorem UnsignedText.unsignedNumber_append {negative : Bool} {cs : List Char} {v : Json}
    (h : UnsignedText negative cs v) {rest : List Char} (hr : Avoids continuesNumber rest) :
    unsignedNumber negative (cs ++ rest) = .ok (v, rest) := by
  cases h with
  | @mk whole fraction ds power e hw hf he =>
    -- Each part ends where the next begins: a point is no digit, and an `e` is neither.
    have hd : Avoids isDigit (power ++ rest) :=
      he.avoids_append (by simp [isDigit]) (hr.mono fun c hc => by simp [continuesNumber, hc])
    have hp : Avoids (· = '.') (power ++ rest) :=
      he.avoids_append (by simp) (hr.mono fun c hc => by simp_all [continuesNumber])
    have hf' : Avoids isDigit (fraction ++ (power ++ rest)) := by
      cases hf with
      | none => exact hd
      | point _ => exact avoids_cons.mpr (by decide)
    rw [unsignedNumber, List.append_assoc, List.append_assoc, hw.wholePart_append hf']
    simp only [bind, Except.bind, hf.fractionPart_append hd hp, he.exponentPart_append hr]
    rfl

theorem exists_unsignedText_of_unsignedNumber {negative : Bool} {cs rest : List Char} {v : Json}
    (h : unsignedNumber negative cs = .ok (v, rest)) :
    ∃ text, cs = text ++ rest ∧ UnsignedText negative text v := by
  obtain ⟨⟨whole, r₁⟩, h₁, h⟩ := bind_eq_ok.mp h
  obtain ⟨⟨ds, r₂⟩, h₂, h⟩ := bind_eq_ok.mp h
  obtain ⟨⟨e, r₃⟩, h₃, h⟩ := bind_eq_ok.mp h
  obtain ⟨rfl, rfl⟩ : _ = v ∧ r₃ = rest := by simpa [pure, Except.pure] using h
  obtain ⟨rfl, hw⟩ := wholePart_eq_ok h₁
  obtain ⟨fraction, rfl, hf⟩ := fractionPart_eq_ok h₂
  obtain ⟨power, rfl, hp⟩ := exponentPart_eq_ok h₃
  exact ⟨_, by simp, .mk hw hf hp⟩

end Numbers

section Scalars

theorem word_append (v : Json) (w rest : List Char) : word v w (w ++ rest) = .ok (v, rest) := by
  induction w with
  | nil => rfl
  | cons c w ih => rw [List.cons_append, word, if_pos rfl, ih]

theorem word_eq_ok {v v' : Json} {w cs rest : List Char} (h : word v w cs = .ok (v', rest)) :
    cs = w ++ rest ∧ v' = v := by
  induction w generalizing cs with
  | nil =>
    obtain ⟨rfl, rfl⟩ : v = v' ∧ cs = rest := by simpa [word] using h
    exact ⟨rfl, rfl⟩
  | cons c w ih =>
    cases cs with
    | nil => simp [word] at h
    | cons d cs =>
      rw [word] at h
      split at h
      · next hc =>
        obtain ⟨rfl, rfl⟩ := ih h
        exact ⟨by rw [hc]; rfl, rfl⟩
      · simp at h

theorem UnsignedText.head {negative : Bool} {cs : List Char} {v : Json}
    (h : UnsignedText negative cs v) : ∃ c t, cs = c :: t ∧ isDigit c = true := by
  cases h with
  | mk hw _ _ =>
    cases hw with
    | zero => exact ⟨'0', _, rfl, by decide⟩
    | digits _ hd => exact ⟨_, _, rfl, hd.2 _ (by simp)⟩

theorem UnsignedText.isNumber {negative : Bool} {cs : List Char} {v : Json}
    (h : UnsignedText negative cs v) : v.isNumber = true := by
  cases h with
  | mk => rfl

theorem ne_of_isDigit {c d : Char} (hc : isDigit c = true) (hd : isDigit d = false) : c ≠ d := by
  rintro rfl
  simp [hc] at hd

theorem ScalarText.scalar_append {cs : List Char} {v : Json} (h : ScalarText cs v)
    {rest : List Char} (hr : v.isNumber = true → Avoids continuesNumber rest) :
    scalar (cs ++ rest) = .ok (v, rest) := by
  cases h with
  | nullWord => exact word_append .null ['u', 'l', 'l'] rest
  | trueWord => exact word_append (.bool true) ['r', 'u', 'e'] rest
  | falseWord => exact word_append (.bool false) ['a', 'l', 's', 'e'] rest
  | @string cs ps h =>
    rw [List.cons_append, List.append_assoc, scalar, if_pos rfl, List.singleton_append,
      h.stringBody_eq]
    rfl
  | positive h =>
    obtain ⟨c, t, rfl, hc⟩ := h.head
    have hu := h.unsignedNumber_append (hr h.isNumber)
    have hq : c ≠ '"' := ne_of_isDigit hc (by decide)
    have hm : c ≠ '-' := ne_of_isDigit hc (by decide)
    rw [List.cons_append, scalar, if_neg hq, if_neg hm, if_pos hc]
    exact hu
  | negative h => exact h.unsignedNumber_append (hr h.isNumber)

theorem exists_scalarText_of_scalar {cs rest : List Char} {v : Json}
    (h : scalar cs = .ok (v, rest)) : ∃ text, cs = text ++ rest ∧ ScalarText text v := by
  cases cs with
  | nil => simp [scalar] at h
  | cons c cs =>
    rw [scalar] at h
    split at h
    · next hc =>
      obtain ⟨⟨s, rest'⟩, hs, h⟩ := bind_eq_ok.mp h
      obtain ⟨rfl, rfl⟩ : Json.string s = v ∧ rest' = rest := by simpa [pure, Except.pure] using h
      obtain ⟨body, ps, rfl, hb, rfl⟩ := exists_stringText_of_stringBody hs
      exact ⟨_, by simp [hc], .string hb⟩
    split at h
    · next hc =>
      obtain ⟨text, rfl, ht⟩ := exists_unsignedText_of_unsignedNumber h
      exact ⟨_, by simp [hc], .negative ht⟩
    split at h
    · obtain ⟨text, ht, hu⟩ := exists_unsignedText_of_unsignedNumber h
      exact ⟨text, ht, .positive hu⟩
    split at h
    · next hc =>
      obtain ⟨rfl, rfl⟩ := word_eq_ok h
      exact ⟨_, by rw [hc]; rfl, .nullWord⟩
    split at h
    · next hc =>
      obtain ⟨rfl, rfl⟩ := word_eq_ok h
      exact ⟨_, by rw [hc]; rfl, .trueWord⟩
    split at h
    · next hc =>
      obtain ⟨rfl, rfl⟩ := word_eq_ok h
      exact ⟨_, by rw [hc]; rfl, .falseWord⟩
    · simp at h

theorem isNumber_of_scalar {c : Char} {cs rest : List Char} {v : Json}
    (hc : c = '-' ∨ isDigit c = true) (h : scalar (c :: cs) = .ok (v, rest)) :
    v.isNumber = true := by
  have hq : c ≠ '"' := by
    rcases hc with rfl | hc
    · decide
    · exact ne_of_isDigit hc (by decide)
  rw [scalar, if_neg hq] at h
  split at h
  · obtain ⟨_, _, ht⟩ := exists_unsignedText_of_unsignedNumber h
    exact ht.isNumber
  · next hm =>
    rw [if_pos (hc.resolve_left hm)] at h
    obtain ⟨_, _, ht⟩ := exists_unsignedText_of_unsignedNumber h
    exact ht.isNumber

theorem ScalarText.isNumber_of_scalar {text rest rest' : List Char} {v v' : Json}
    (h : ScalarText text v) (hv : v.isNumber = true)
    (h' : scalar (text ++ rest) = .ok (v', rest')) : v'.isNumber = true := by
  cases h with
  | nullWord | trueWord | falseWord | string => simp [isNumber] at hv
  | positive h =>
    obtain ⟨c, t, rfl, hc⟩ := h.head
    exact Json.isNumber_of_scalar (.inr hc) h'
  | negative h => exact Json.isNumber_of_scalar (.inl rfl) h'

end Scalars

end Symbolic.Json
