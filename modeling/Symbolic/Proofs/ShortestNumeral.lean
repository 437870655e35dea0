import Symbolic.Proofs.Ascii
import Symbolic.Proofs.FullSubstitution
import Symbolic.Proofs.NumeralPattern

/-!
The text of a number among all texts that are read as it. They differ in zeros before the whole
part, zeros after the last place that is not zero, and digits past the places; the text of the number
has none of these. So it is shorter than every other, and what a text becomes after reading and
writing depends on its number alone.
-/

namespace Symbolic

open Json (Digits)

theorem digitValue_lt {c : Char} (h : isDigit c = true) : digitValue c < 10 := by
  simp only [isDigit, Bool.and_eq_true, decide_eq_true_eq] at h
  rw [digitValue]
  omega

theorem digitValue_inj {c d : Char} (hc : isDigit c = true) (hd : isDigit d = true)
    (h : digitValue c = digitValue d) : c = d := by
  simp only [isDigit, Bool.and_eq_true, decide_eq_true_eq] at hc hd
  rw [digitValue, digitValue] at h
  exact Char.toNat_inj.mp (by omega)

theorem digitsValue_inj {a b : List Char} (ha : ∀ c ∈ a, isDigit c = true)
    (hb : ∀ c ∈ b, isDigit c = true) (hl : a.length = b.length)
    (hv : digitsValue a = digitsValue b) : a = b := by
  induction a using List.reverseRecOn generalizing b with
  | nil => exact (List.eq_nil_of_length_eq_zero hl.symm).symm
  | append_singleton a c ih =>
    obtain rfl | ⟨b, d, rfl⟩ := b.eq_nil_or_concat'
    · simp at hl
    · have hc : isDigit c = true := ha c (by simp)
      have hd : isDigit d = true := hb d (by simp)
      have hcl := digitValue_lt hc
      have hdl := digitValue_lt hd
      have hs (cs : List Char) (x : Char) :
          digitsValue (cs ++ [x]) = digitsValue cs * 10 + digitValue x := by
        simp [digitsValue]
      rw [hs, hs] at hv
      have hab : a = b := by
        apply ih
        · exact fun x hx => ha x (by simp [hx])
        · exact fun x hx => hb x (by simp [hx])
        · simpa using hl
        · omega
      rw [hab, digitValue_inj hc hd (by omega)]

/-- Without the zeros in front, digits are the shortest for their value. -/
theorem decimalDigits_isSuffix {ds : List Char} (hd : Digits ds) :
    decimalDigits (digitsValue ds) <:+ ds := by
  have hp : 0 < ds.length := List.length_pos_iff.mpr hd.1
  have hl : (decimalDigits (digitsValue ds)).length ≤ ds.length :=
    (Nat.length_toDigits_le_iff (by decide) hp).mpr (digitsValue_lt hd.2)
  refine ⟨List.replicate (ds.length - (decimalDigits (digitsValue ds)).length) '0', ?_⟩
  apply digitsValue_inj _ hd.2
  · rw [List.length_append, List.length_replicate]
    omega
  · rw [digitsValue_append, digitsValue_replicate_zero, digitsValue_decimalDigits]
    omega
  · intro c hc
    obtain hz | hm := List.mem_append.mp hc
    · rw [List.eq_of_mem_replicate hz]
      rfl
    · exact isDigit_of_mem_decimalDigits hm

namespace Number

theorem trimZeros_append_zeros (cs : List Char) (k : Nat) :
    trimZeros (cs ++ List.replicate k '0') = trimZeros cs := by
  have hz : ∀ c ∈ List.replicate k '0', decide (c = '0') = true :=
    fun c hc => decide_eq_true (List.eq_of_mem_replicate hc)
  rw [trimZeros, List.reverse_append, List.reverse_replicate, List.dropWhile_append_of_pos hz,
    trimZeros]

theorem trimZeros_isPrefix (cs : List Char) : trimZeros cs <+: cs := by
  obtain ⟨k, hk⟩ := trimZeros_append_replicate cs
  exact ⟨_, hk.symm⟩

def filledPlaces (fs : List Char) : List Char :=
  fs.take places ++ List.replicate (places - (fs.take places).length) '0'

theorem length_filledPlaces (fs : List Char) : (filledPlaces fs).length = places := by
  rw [filledPlaces, List.length_append, List.length_replicate, List.length_take]
  omega

theorem ofDigits_eq_ofUnits_filledPlaces (ds fs : List Char) :
    ofDigits ds fs = ofUnits (digitsValue (ds ++ filledPlaces fs)) := by
  rw [ofDigits_eq_ofUnits, filledPlaces, ← List.append_assoc,
    digitsValue_append _ (List.replicate _ _), digitsValue_replicate_zero, List.length_replicate,
    Nat.add_zero]

section Filled
variable {fs : List Char} (hf : ∀ c ∈ fs, isDigit c = true)
include hf

theorem isDigit_of_mem_filledPlaces : ∀ c ∈ filledPlaces fs, isDigit c = true := by
  intro c hc
  obtain hm | hz := List.mem_append.mp hc
  · exact hf c (List.mem_of_mem_take hm)
  · rw [List.eq_of_mem_replicate hz]
    rfl

theorem digitsValue_filledPlaces_lt : digitsValue (filledPlaces fs) < scale := by
  have hv := digitsValue_lt (isDigit_of_mem_filledPlaces hf)
  rw [length_filledPlaces] at hv
  exact hv

theorem digitsValue_div_mod (ds : List Char) :
    digitsValue (ds ++ filledPlaces fs) / scale = digitsValue ds ∧
      digitsValue (ds ++ filledPlaces fs) % scale = digitsValue (filledPlaces fs) := by
  have hlt := digitsValue_filledPlaces_lt hf
  have hv : digitsValue (ds ++ filledPlaces fs) =
      digitsValue (filledPlaces fs) + digitsValue ds * scale := by
    rw [digitsValue_append, length_filledPlaces, Nat.add_comm]
    rfl
  constructor
  · rw [hv, Nat.add_mul_div_right _ _ (by decide), Nat.div_eq_of_lt hlt, Nat.zero_add]
  · rw [hv, Nat.add_mul_mod_self_right, Nat.mod_eq_of_lt hlt]

theorem placesDigits_digitsValue (ds : List Char) :
    placesDigits (digitsValue (ds ++ filledPlaces fs)) = filledPlaces fs := by
  apply digitsValue_inj (fun c => isDigit_of_mem_placesDigits) (isDigit_of_mem_filledPlaces hf)
  · rw [length_placesDigits, length_filledPlaces]
  · rw [digitsValue_placesDigits, (digitsValue_div_mod hf ds).2]

theorem shownPlaces_isPrefix (ds : List Char) :
    shownPlaces (digitsValue (ds ++ filledPlaces fs)) <+: fs := by
  rw [shownPlaces, placesDigits_digitsValue hf, filledPlaces, trimZeros_append_zeros]
  exact (trimZeros_isPrefix _).trans (List.take_prefix _ _)

end Filled

theorem text_ofDigits_whole (ds : List Char) :
    (ofDigits ds []).text = decimalDigits (digitsValue ds) := by
  obtain ⟨hq, hr⟩ := @digitsValue_div_mod [] (by simp) ds
  rw [ofDigits_eq_ofUnits_filledPlaces, text_ofUnits_whole (hr.trans (by decide)), hq]

theorem text_eq_or_length_lt {cs : List Char} {n : Number} (h : parse? cs = some n) :
    n.text = cs ∨ n.text.length < cs.length := by
  obtain ⟨hd, rfl⟩ | ⟨ds, fs, rfl, hd, hf, rfl⟩ := exists_digits_of_parse? h
  · have hs := decimalDigits_isSuffix hd
    rw [text_ofDigits_whole]
    exact hs.length_le.eq_or_lt.imp_left hs.eq_of_length
  · have hs := decimalDigits_isSuffix hd
    have hp := shownPlaces_isPrefix hf.2 ds
    have hsl := hs.length_le
    have hpl := hp.length_le
    have hq := (digitsValue_div_mod hf.2 ds).1
    rw [ofDigits_eq_ofUnits_filledPlaces]
    by_cases hz : digitsValue (ds ++ filledPlaces fs) % scale = 0
    · right
      rw [text_ofUnits_whole hz, hq, List.length_append, List.length_cons]
      omega
    · rw [text_ofUnits_places hz, hq]
      simp only [List.length_append, List.length_cons]
      by_cases hw : (decimalDigits (digitsValue ds)).length = ds.length
      · by_cases hl : (shownPlaces (digitsValue (ds ++ filledPlaces fs))).length = fs.length
        · left
          rw [hs.eq_of_length hw, hp.eq_of_length hl]
        · omega
      · omega

end Number

/-- Byte strings that are numerals, with the value that all their digits give. -/
def NumeralBytes (bs : Bytes) (r : Rat) : Prop :=
  ∃ s : String, bs = Bytes.ofString s ∧ NumeralText s.toList r

theorem lt_of_isDigit_or_point {c : Char} (h : isDigit c = true ∨ c = '.') : c.toNat < 0x80 := by
  obtain hd | rfl := h
  · simp only [isDigit, Bool.and_eq_true, decide_eq_true_eq] at hd
    omega
  · decide

theorem NumeralText.ascii {cs : List Char} {r : Rat} (h : NumeralText cs r) :
    ∀ c ∈ cs, c.toNat < 0x80 := by
  intro c hc
  apply lt_of_isDigit_or_point
  cases h with
  | whole hd => exact .inl (hd.2 c hc)
  | point hd hf =>
    obtain hm | hm := List.mem_append.mp hc
    · exact .inl (hd.2 c hm)
    · obtain rfl | hm := List.mem_cons.mp hm
      · exact .inr rfl
      · exact .inl (hf.2 c hm)

theorem numeralBytes_iff {bs : Bytes} {r : Rat} : NumeralBytes bs r ↔ NumeralText bs.chars r := by
  constructor
  · rintro ⟨s, rfl, h⟩
    have hc := Bytes.chars_ofString_ascii h.ascii
    rw [String.ofList_toList] at hc
    rw [hc]
    exact h
  · intro h
    exact ⟨String.ofList bs.chars, (Bytes.ofString_chars h.ascii).symm, by simpa using h⟩

namespace Number

section Render
variable {n : Number} (h : n.OnGrid)
include h

theorem ascii_text : ∀ c ∈ n.text, c.toNat < 0x80 :=
  fun _ hc => lt_of_isDigit_or_point (isDigit_or_point_of_mem_text h hc)

theorem chars_ofString_render : (Bytes.ofString n.render).chars = n.text :=
  Bytes.chars_ofString_ascii (ascii_text h)

theorem length_ofString_render : (Bytes.ofString n.render).length = n.text.length :=
  Bytes.length_ofString_ascii (ascii_text h)

end Render

theorem render_inj {m n : Number} (hm : m.OnGrid) (hn : n.OnGrid) (h : m.render = n.render) :
    m = n := by
  have hp := parse?_text hm
  rw [← chars_ofString_render hm, h, chars_ofString_render hn, parse?_text hn] at hp
  exact (Option.some.inj hp).symm

end Number

namespace Expr

theorem ofNumeral_eq_ok_iff_parse? {bs : Bytes} {e : Expr} :
    ofNumeral bs.text = .ok e ↔ ∃ n, Number.parse? bs.chars = some n ∧ e = .num n := by
  rw [ofNumeral, ← Bytes.chars]
  cases Number.parse? bs.chars with
  | none => simp
  | some n => simp [eq_comm]

theorem ofNumeral_eq_error {bs : Bytes} (h : Number.parse? bs.chars = none) :
    ofNumeral bs.text = .error (.numeral bs.text) := by
  rw [ofNumeral, ← Bytes.chars, h]

theorem ofNumeral_eq_ok_iff_numeralBytes {bs : Bytes} {e : Expr} :
    ofNumeral bs.text = .ok e ↔
      ∃ r, NumeralBytes bs r ∧ e = .num ⟨⌊10 ^ 4 * r⌋₊ / 10 ^ 4⟩ := by
  simp only [ofNumeral_eq_ok_iff_parse?, Number.parse?_eq_some_iff, numeralBytes_iff,
    Number.ofUnits_eq, Number.cast_scale]
  constructor
  · rintro ⟨n, ⟨r, h, rfl⟩, rfl⟩
    exact ⟨r, h, rfl⟩
  · rintro ⟨r, h, rfl⟩
    exact ⟨_, ⟨r, h, rfl⟩, rfl⟩

theorem ofNumeral_eq_error_of_not_numeralBytes {bs : Bytes} (h : ¬ ∃ r, NumeralBytes bs r) :
    ofNumeral bs.text = .error (.numeral bs.text) := by
  apply ofNumeral_eq_error
  apply Number.parse?_eq_none
  rintro ⟨r, hr⟩
  exact h ⟨r, numeralBytes_iff.mpr hr⟩

theorem ofNumeral_toOption (bs : Bytes) :
    (ofNumeral bs.text).toOption =
      (Number.kept? bs.chars).map fun t => .num ⟨numeralValue t⟩ := by
  have hp := Number.parse?_eq_kept? bs.chars
  cases hn : Number.parse? bs.chars with
  | none =>
    rw [hn, eq_comm, Option.map_eq_none_iff] at hp
    rw [ofNumeral_eq_error hn, hp]
    rfl
  | some n =>
    rw [hn, eq_comm, Option.map_eq_some_iff] at hp
    obtain ⟨t, ht, rfl⟩ := hp
    rw [ofNumeral_eq_ok_iff_parse?.mpr ⟨_, hn, rfl⟩, ht]
    rfl

theorem ofNumeral_render {n : Number} (h : n.OnGrid) :
    ofNumeral (Bytes.ofString n.render).text = .ok (.num n) := by
  rw [ofNumeral_eq_ok_iff_parse?, Number.chars_ofString_render h]
  exact ⟨n, Number.parse?_text h, rfl⟩

theorem eq_render_or_length_lt {n : Number} (h : n.OnGrid) {bs : Bytes}
    (hb : ofNumeral bs.text = .ok (.num n)) :
    bs = Bytes.ofString n.render ∨ (Bytes.ofString n.render).length < bs.length := by
  obtain ⟨r, hr, -⟩ := ofNumeral_eq_ok_iff_numeralBytes.mp hb
  obtain ⟨m, hm, he⟩ := ofNumeral_eq_ok_iff_parse?.mp hb
  obtain rfl : n = m := Expr.num.inj he
  -- A numeral has a byte for every character.
  have ha : ∀ c ∈ bs.chars, c.toNat < 0x80 := (numeralBytes_iff.mp hr).ascii
  have hs : Bytes.ofString (String.ofList bs.chars) = bs := Bytes.ofString_chars ha
  have hl : bs.chars.length = bs.length := by
    rw [← Bytes.length_ofString_ascii ha, hs]
  obtain ht | ht := Number.text_eq_or_length_lt hm
  · left
    rw [← hs, ← ht, Number.render]
  · right
    rw [Number.length_ofString_render h, ← hl]
    exact ht

/-- A byte string is read as a number exactly if it is a numeral, and then as its value cut off
after the fourth place, which is the value of what counts in it; any other is refused as a literal.
The text of a number on the grid is read as the number, and every other text that is so is longer. So
the text that a numeral becomes depends on its number only, and is read as that again. -/
theorem ofNumeral_canonical :
    (∀ bs : Bytes,
      (∀ e, ofNumeral bs.text = .ok e ↔
        ∃ r, NumeralBytes bs r ∧ e = .num ⟨⌊10 ^ 4 * r⌋₊ / 10 ^ 4⟩) ∧
      ((¬ ∃ r, NumeralBytes bs r) → ofNumeral bs.text = .error (.numeral bs.text) ∧
        (LeafError.numeral bs.text).message = "invalid numeric literal: " ++ bs.text.quote) ∧
      (ofNumeral bs.text).toOption =
        (Number.kept? bs.chars).map fun t => .num ⟨numeralValue t⟩) ∧
    (∀ n : Number, n.OnGrid → ofNumeral (Bytes.ofString n.render).text = .ok (.num n) ∧
      ∀ bs : Bytes, ofNumeral bs.text = .ok (.num n) →
        bs = Bytes.ofString n.render ∨ (Bytes.ofString n.render).length < bs.length) ∧
    ∀ (bs bs' : Bytes) (m n : Number), ofNumeral bs.text = .ok (.num m) →
      ofNumeral bs'.text = .ok (.num n) →
        (m.render = n.render ↔ m.toRat = n.toRat) ∧
          ofNumeral (Bytes.ofString m.render).text = .ok (.num m) := by
  refine ⟨?_, ?_, ?_⟩
  · intro bs
    refine ⟨fun e => ofNumeral_eq_ok_iff_numeralBytes, ?_, ofNumeral_toOption bs⟩
    exact fun h => ⟨ofNumeral_eq_error_of_not_numeralBytes h, rfl⟩
  · intro n h
    exact ⟨ofNumeral_render h, fun bs => eq_render_or_length_lt h⟩
  · intro bs bs' m n hm hn
    have hmg : m.OnGrid := wellFormed_of_ofNumeral hm
    have hng : n.OnGrid := wellFormed_of_ofNumeral hn
    refine ⟨⟨?_, ?_⟩, ofNumeral_render hmg⟩
    · intro h
      rw [Number.render_inj hmg hng h]
    · exact congrArg fun q => (Number.mk q).render

/-- Seven and some digits, with zeros in front and digits past the places: 7.1234 is its number, and
is shorter. A bare point at the end is refused. -/
theorem ofNumeral_canonical_padded :
    let bs := Bytes.ofString "007.123456"
    let n : Number := ⟨71234 / 10 ^ 4⟩
    NumeralBytes bs (7 + 123456 / 10 ^ 6) ∧ ofNumeral bs.text = .ok (.num n) ∧ n.OnGrid ∧
      n.render = "7.1234" ∧ (Bytes.ofString "7.1234").length < bs.length ∧
      ofNumeral (Bytes.ofString "7.1234").text = .ok (.num n) ∧
      (¬ ∃ r, NumeralBytes (Bytes.ofString "7.") r) ∧
      ofNumeral (Bytes.ofString "7.").text = .error (.numeral (Bytes.ofString "7.").text) := by
  intro bs n
  obtain ⟨hread, hshort, hagain⟩ := ofNumeral_canonical
  have hv : NumeralBytes bs (7 + 123456 / 10 ^ 6) := by
    have hd : Digits ['0', '0', '7'] := ⟨by simp, by simp [isDigit]⟩
    have hf : Digits ['1', '2', '3', '4', '5', '6'] := ⟨by simp, by simp [isDigit]⟩
    exact ⟨_, rfl, .point hd hf⟩
  have hn : ofNumeral bs.text = .ok (.num n) := by
    rw [(hread bs).1]
    refine ⟨_, hv, ?_⟩
    have hu : ⌊(10 : Rat) ^ 4 * (7 + 123456 / 10 ^ 6)⌋₊ = 71234 := by
      rw [Nat.floor_eq_iff (by positivity)]
      norm_num
    rw [hu]
    rfl
  have hg : n.OnGrid := by decide +kernel
  have ht : n.render = "7.1234" := by decide +kernel
  have hl := (hshort n hg).2 bs hn
  have ha := (hagain bs bs n n hn hn).2
  rw [ht] at hl ha
  have hx : ¬ ∃ r, NumeralBytes (Bytes.ofString "7.") r := by
    rintro ⟨r, hr⟩
    have hp : Number.parse? (Bytes.ofString "7.").chars = none := by decide +kernel
    have hs := Number.parse?_eq_some_iff.mpr ⟨r, numeralBytes_iff.mp hr, rfl⟩
    rw [hp] at hs
    cases hs
  exact ⟨hv, hn, hg, ht, hl.resolve_left (by decide), ha, hx, ((hread _).2.1 hx).1⟩

end Expr

end Symbolic
