import Symbolic.Proofs.Language

/-!
The shortest decimal of a binary64 value written out, with all its digits around the point and no
exponent. Without its sign the text is a numeral, and it denotes exactly the decimal it was written
for. So a value that becomes a number is cut off where its text is.
-/

namespace Symbolic

open Json (Digits)

def numeralValue (cs : List Char) : Rat :=
  let fraction := (cs.dropWhile isDigit).tail
  digitsValue (cs.takeWhile isDigit) + digitsValue fraction / 10 ^ fraction.length

def decimalValue : List Char → Rat
  | '-' :: cs => -numeralValue cs
  | cs => numeralValue cs

theorem NumeralText.numeralValue_eq {cs : List Char} {r : Rat} (h : NumeralText cs r) :
    numeralValue cs = r := by
  cases h with
  | whole hd =>
    have ht : cs.takeWhile isDigit = cs := List.takeWhile_eq_self_iff.mpr hd.2
    have hr : cs.dropWhile isDigit = [] := List.dropWhile_eq_nil_iff.mpr hd.2
    simp [numeralValue, ht, hr, digitsValue]
  | point hd hf =>
    simp [numeralValue, takeWhile_isDigit_point hd.2, dropWhile_isDigit_point hd.2]

theorem NumeralText.head {cs : List Char} {r : Rat} (h : NumeralText cs r) :
    ∃ c rest, cs = c :: rest ∧ isDigit c = true := by
  have hd : ∀ {ds : List Char}, Digits ds → ∃ c rest, ds = c :: rest ∧ isDigit c = true := by
    intro ds hd
    obtain ⟨c, rest, rfl⟩ := List.exists_cons_of_ne_nil hd.1
    exact ⟨c, rest, rfl, hd.2 c (by simp)⟩
  cases h with
  | whole hds => exact hd hds
  | point hds hfs =>
    obtain ⟨c, rest, rfl, hc⟩ := hd hds
    exact ⟨c, _, rfl, hc⟩

theorem NumeralText.decimalValue_eq {cs : List Char} {r : Rat} (h : NumeralText cs r) :
    decimalValue cs = r := by
  obtain ⟨c, rest, rfl, hc⟩ := h.head
  have hm : c ≠ '-' := Json.ne_of_isDigit hc (by decide)
  rw [← h.numeralValue_eq, decimalValue]
  simpa using hm

theorem digits_decimalDigits (n : Nat) : Digits (decimalDigits n) :=
  ⟨Nat.toDigits_ne_nil, fun _ => isDigit_of_mem_decimalDigits⟩

namespace Decimal

theorem numeralText_filled (c n : Nat) {filled : List Char}
    (h : filled = List.replicate (n + 2 - (decimalDigits c).length) '0' ++ decimalDigits c) :
    NumeralText (filled.take (filled.length - (n + 1)) ++ '.' :: filled.drop (filled.length - (n + 1)))
      ((c : Rat) / 10 ^ (n + 1)) := by
  have hl : n + 2 ≤ filled.length := by
    rw [h, List.length_append, List.length_replicate]
    omega
  have hd : ∀ d ∈ filled, isDigit d = true := by
    intro d hm
    rw [h] at hm
    obtain hz | hd := List.mem_append.mp hm
    · rw [List.eq_of_mem_replicate hz]
      rfl
    · exact isDigit_of_mem_decimalDigits hd
  obtain ⟨whole, hw⟩ : ∃ whole, whole = filled.take (filled.length - (n + 1)) := ⟨_, rfl⟩
  obtain ⟨fraction, hf⟩ : ∃ fraction, fraction = filled.drop (filled.length - (n + 1)) := ⟨_, rfl⟩
  have hwl : whole.length = filled.length - (n + 1) := by
    rw [hw, List.length_take]
    omega
  have hfl : fraction.length = n + 1 := by
    rw [hf, List.length_drop]
    omega
  have hwd : Digits whole := by
    refine ⟨List.ne_nil_of_length_pos (by omega), fun d hm => hd d ?_⟩
    exact List.mem_of_mem_take (hw ▸ hm)
  have hfd : Digits fraction := by
    refine ⟨List.ne_nil_of_length_pos (by omega), fun d hm => hd d ?_⟩
    exact List.mem_of_mem_drop (hf ▸ hm)
  -- The zeros in front change nothing, and the point divides by a power of ten.
  have hv : digitsValue whole * 10 ^ (n + 1) + digitsValue fraction = c := by
    rw [← hfl, ← digitsValue_append, hw, hf, List.take_append_drop, h, digitsValue_append,
      digitsValue_replicate_zero, digitsValue_decimalDigits]
    omega
  have hq : (c : Rat) / 10 ^ (n + 1) =
      digitsValue whole + digitsValue fraction / 10 ^ fraction.length := by
    rw [← hv, hfl]
    push_cast
    field_simp
  rw [← hw, ← hf, hq]
  exact .point hwd hfd

theorem numeralText_positional (d : Decimal) :
    NumeralText d.positional (mkRat d.numerator d.denominator) := by
  obtain ⟨c, e⟩ := d
  cases e with
  | ofNat n =>
    have hq : mkRat (numerator ⟨c, .ofNat n⟩) (denominator ⟨c, .ofNat n⟩) =
        (digitsValue (decimalDigits (c * Nat.pow 10 n)) : Nat) := by
      rw [digitsValue_decimalDigits, Rat.mkRat_eq_div]
      simp [numerator, denominator]
    rw [hq]
    exact .whole (digits_decimalDigits _)
  | negSucc n =>
    have hq : mkRat (numerator ⟨c, .negSucc n⟩) (denominator ⟨c, .negSucc n⟩) =
        (c : Rat) / 10 ^ (n + 1) := by
      rw [Rat.mkRat_eq_div]
      simp [numerator, denominator, Int.neg_negSucc]
    rw [hq]
    exact numeralText_filled c n rfl

end Decimal

namespace Binary64

/-- The shortest decimal of a finite value, written out after its sign. -/
def plainText (x : Binary64) : List Char :=
  Number.signed x.negative x.shortest.positional

theorem decimalValue_plainText {x : Binary64} (h : 0 ≤ x.toRat) :
    decimalValue x.plainText = mkRat x.shortest.numerator x.shortest.denominator := by
  have ht := x.shortest.numeralText_positional
  cases hn : x.negative with
  | false =>
    rw [plainText, hn]
    exact ht.decimalValue_eq
  | true =>
    -- Only the negative zero is left, which is no less than zero.
    have hz : x.isZero = true := by simpa [hn] using (zero_le_toRat_iff x).mp h
    have hs : x.shortest = ⟨0, 0⟩ := by rw [shortest, if_pos hz]
    rw [plainText, hn, hs]
    decide +kernel

end Binary64

/-- A value that is finite and not negative becomes the number of its text, cut off. -/
theorem Number.ofBinary64?_eq_floor {x : Binary64} (hf : x.isFinite = true) (hp : 0 ≤ x.toRat) :
    Number.ofBinary64? x = some (.ofUnits ⌊Number.scale * decimalValue x.plainText⌋₊) := by
  have ho := (Expr.ofBinary64_eq_ok_iff (x := x)).mpr ⟨⟨hf, hp⟩, rfl⟩
  rw [Expr.ofBinary64] at ho
  split at ho
  · next n hn =>
    rw [hn, Binary64.decimalValue_plainText hp]
    simpa using ho
  · simp at ho

end Symbolic
