import Mathlib.Tactic.ByContra
import Mathlib.Tactic.SplitIfs
import Symbolic.Text.Bytes

/-!
ASCII in byte strings. No character reaches past an ASCII byte, which is a character of its own; so
a byte string that reads as ASCII characters is the byte string of these characters.
-/

namespace Symbolic.Bytes

@[simp]
theorem chars_nil : chars [] = [] := by
  simp [chars, text, Text.chars]

theorem payload?_ascii {b : UInt8} (h : b < 0x80) : payload? b = none := by
  rw [payload?, if_neg]
  rintro ⟨hb, -⟩
  exact absurd h (UInt8.not_lt.mpr hb)

section Ascii
variable {b : UInt8} (hb : b < 0x80)
include hb

theorem continue?_append (n acc : Nat) (r rest : Bytes) :
    continue? n acc (r ++ b :: rest) =
      (continue? n acc r).map fun p => (p.1, p.2 ++ b :: rest) := by
  induction n generalizing acc r with
  | zero => rfl
  | succ n ih =>
    cases r with
    | nil => simp [continue?, payload?_ascii hb]
    | cons x r =>
      rw [List.cons_append, continue?, continue?]
      cases payload? x with
      | none => rfl
      | some y => exact ih (acc * 64 + y) r

theorem char?_append (x : UInt8) (r rest : Bytes) :
    char? (x :: (r ++ b :: rest)) =
      (char? (x :: r)).map fun p => (p.1, p.2 ++ b :: rest) := by
  simp only [char?, Option.bind_eq_bind]
  cases lead? x with
  | none => rfl
  | some p =>
    obtain ⟨n, high, least⟩ := p
    simp only [Option.bind_some, continue?_append hb]
    cases continue? n high r with
    | none => rfl
    | some q =>
      simp only [Option.map_some, Option.bind_some]
      split <;> rfl

theorem char?_ascii (rest : Bytes) : char? (b :: rest) = some (Char.ofNat b.toNat, rest) := by
  have hn : b.toNat < 0x80 := UInt8.lt_iff_toNat_lt.mp hb
  have hv : b.toNat.isValidChar := .inl (by omega)
  simp [char?, lead?, hb, continue?, hv]

theorem text_append_ascii (a rest : Bytes) :
    text (a ++ b :: rest) = text a ++ .char (Char.ofNat b.toNat) :: text rest := by
  fun_induction text a with
  | case1 =>
    rw [List.nil_append, text]
    split
    · next c rest' h =>
      obtain ⟨rfl, rfl⟩ : Char.ofNat b.toNat = c ∧ rest = rest' := by
        simpa [char?_ascii hb] using h
      rfl
    · next h => simp [char?_ascii hb] at h
  | case2 x r c rest' h ih =>
    rw [List.cons_append, text]
    split
    · next c' rest'' h' =>
      obtain ⟨rfl, rfl⟩ : c = c' ∧ rest' ++ b :: rest = rest'' := by
        simpa [char?_append hb, h] using h'
      rw [ih, List.cons_append]
    · next h' => simp [char?_append hb, h] at h'
  | case3 x r h ih =>
    rw [List.cons_append, text]
    split
    · next c' rest'' h' => simp [char?_append hb, h] at h'
    · rw [ih, List.cons_append]

theorem chars_append_ascii (a rest : Bytes) :
    chars (a ++ b :: rest) = chars a ++ Char.ofNat b.toNat :: chars rest := by
  simp [chars, text_append_ascii hb, Text.chars]

end Ascii

theorem toNat_ofNat {n : Nat} (h : n.isValidChar) : (Char.ofNat n).toNat = n := by
  rw [Char.ofNat, dif_pos h]
  rfl

theorem le_least_of_lead? {b : UInt8} {n high least : Nat} (h : lead? b = some (n, high, least))
    (hb : ¬ b < 0x80) : 0x80 ≤ least := by
  rw [lead?, if_neg hb] at h
  split_ifs at h
  all_goals
    obtain ⟨-, -, rfl⟩ : _ ∧ _ ∧ _ = least := by simpa using h
    decide

/-- An ASCII character takes an ASCII byte: longer forms are for greater code points only. -/
theorem lt_of_char? {b : UInt8} {r rest : Bytes} {c : Char} (h : char? (b :: r) = some (c, rest))
    (hc : c.toNat < 0x80) : b < 0x80 := by
  by_contra hb
  simp only [char?, Option.bind_eq_bind, Option.bind_eq_some_iff] at h
  obtain ⟨⟨n, high, least⟩, hl, ⟨v, rest'⟩, -, h⟩ := h
  have hleast := le_least_of_lead? hl hb
  split at h
  · next hv =>
    obtain ⟨rfl, -⟩ : Char.ofNat v = c ∧ rest' = rest := by simpa using h
    rw [toNat_ofNat hv.2] at hc
    exact absurd hc (Nat.not_lt.mpr (Nat.le_trans hleast hv.1))
  · cases h

theorem utf8EncodeChar_ascii {c : Char} (h : c.toNat < 0x80) :
    String.utf8EncodeChar c = [UInt8.ofNat c.toNat] :=
  if_pos (Nat.le_of_lt_succ h)

section Ascii
variable {cs : List Char} (h : ∀ c ∈ cs, c.toNat < 0x80)
include h

theorem ofString_ascii : ofString (String.ofList cs) = cs.map fun c => UInt8.ofNat c.toNat := by
  rw [ofString, String.toList_ofList]
  induction cs with
  | nil => rfl
  | cons c cs ih =>
    rw [List.flatMap_cons, utf8EncodeChar_ascii (h c (by simp)), ih fun d hd => h d (by simp [hd])]
    rfl

theorem length_ofString_ascii : (ofString (String.ofList cs)).length = cs.length := by
  rw [ofString_ascii h, List.length_map]

theorem chars_ofString_ascii : (ofString (String.ofList cs)).chars = cs := by
  rw [ofString_ascii h]
  induction cs with
  | nil => exact chars_nil
  | cons c cs ih =>
    have hc : c.toNat < 0x80 := h c (by simp)
    have hn : (UInt8.ofNat c.toNat).toNat = c.toNat :=
      UInt8.toNat_ofNat_of_lt' (Nat.lt_trans hc (by decide))
    have hb : UInt8.ofNat c.toNat < 0x80 := by
      rw [UInt8.lt_iff_toNat_lt, hn]
      exact hc
    have hs := chars_append_ascii hb [] (cs.map fun c => UInt8.ofNat c.toNat)
    rw [hn, Char.ofNat_toNat, ih fun d hd => h d (by simp [hd]), chars_nil] at hs
    exact hs

end Ascii

theorem ofString_chars {bs : Bytes} (h : ∀ c ∈ bs.chars, c.toNat < 0x80) :
    ofString (String.ofList bs.chars) = bs := by
  rw [ofString_ascii h]
  rw [chars] at h ⊢
  fun_induction text bs with
  | case1 => rfl
  | case2 b r c rest hc ih =>
    have ha : c.toNat < 0x80 := h c (by simp [Text.chars])
    have hb : b < 0x80 := lt_of_char? hc ha
    obtain ⟨rfl, rfl⟩ : Char.ofNat b.toNat = c ∧ r = rest := by
      simpa [char?_ascii hb] using hc
    have hn : (Char.ofNat b.toNat).toNat = b.toNat :=
      toNat_ofNat (.inl (Nat.lt_trans (UInt8.lt_iff_toNat_lt.mp hb) (by decide)))
    have hr := ih fun d hd => h d (List.mem_cons_of_mem _ hd)
    change UInt8.ofNat (Char.ofNat b.toNat).toNat ::
      (text r).chars.map (fun c => UInt8.ofNat c.toNat) = b :: r
    rw [hn, UInt8.ofNat_toNat, hr]
  | case3 b r hc ih =>
    have ha := h '\uFFFD' (by simp [Text.chars])
    exact absurd ha (by decide)

end Symbolic.Bytes
