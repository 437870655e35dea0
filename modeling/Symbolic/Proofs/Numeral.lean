import Mathlib.Data.List.TakeWhile
import Symbolic.Proofs.Grid

/-!
The text of a number on the grid, read back. Rounding to the last place finds the units of such a
number unchanged, so the text has exactly its digits, and the zeros that are trimmed are the ones
that reading a short fraction fills in again.
-/

namespace Symbolic

theorem digitsValue_eq_ofDigitChars (cs : List Char) :
    digitsValue cs = Nat.ofDigitChars 10 cs 0 := by
  simp only [digitsValue, Nat.ofDigitChars_eq_foldl, digitValue, Nat.mul_comm]
  rfl

theorem digitsValue_append (a b : List Char) :
    digitsValue (a ++ b) = digitsValue a * 10 ^ b.length + digitsValue b := by
  simp only [digitsValue_eq_ofDigitChars, Nat.ofDigitChars_append]
  rw [Nat.ofDigitChars_eq_ofDigitChars_zero, Nat.mul_comm]

theorem digitsValue_replicate_zero (k : Nat) : digitsValue (List.replicate k '0') = 0 := by
  rw [digitsValue_eq_ofDigitChars, Nat.ofDigitChars_replicate_zero, Nat.mul_zero]

theorem digitsValue_decimalDigits (n : Nat) : digitsValue (decimalDigits n) = n := by
  rw [digitsValue_eq_ofDigitChars, decimalDigits, Nat.ofDigitChars_ten_toDigits]

theorem isDigit_of_mem_decimalDigits {n : Nat} {c : Char} (h : c ∈ decimalDigits n) :
    isDigit c = true := by
  have hd := Nat.isDigit_of_mem_toDigits (by decide) (by decide) h
  simpa [isDigit] using Char.isDigit_iff_toNat.mp hd

section Point
variable {whole fraction : List Char}

theorem takeWhile_isDigit_point (h : ∀ c ∈ whole, isDigit c = true) :
    (whole ++ '.' :: fraction).takeWhile isDigit = whole := by
  rw [List.takeWhile_append_of_pos h, List.takeWhile_cons_of_neg (by decide), List.append_nil]

theorem dropWhile_isDigit_point (h : ∀ c ∈ whole, isDigit c = true) :
    (whole ++ '.' :: fraction).dropWhile isDigit = '.' :: fraction := by
  rw [List.dropWhile_append_of_pos h, List.dropWhile_cons_of_neg (by decide)]

end Point

namespace Number

def placesDigits (u : Nat) : List Char :=
  let digits := decimalDigits (u % scale)
  List.replicate (places - digits.length) '0' ++ digits

theorem length_placesDigits (u : Nat) : (placesDigits u).length = places := by
  have hl : (decimalDigits (u % scale)).length ≤ places := by
    apply (Nat.length_toDigits_le_iff (by decide) (by decide)).mpr
    exact Nat.mod_lt u (by decide)
  simp only [placesDigits, List.length_append, List.length_replicate]
  omega

theorem digitsValue_placesDigits (u : Nat) : digitsValue (placesDigits u) = u % scale := by
  rw [placesDigits, digitsValue_append, digitsValue_replicate_zero, digitsValue_decimalDigits]
  omega

theorem isDigit_of_mem_placesDigits {u : Nat} {c : Char} (h : c ∈ placesDigits u) :
    isDigit c = true := by
  rcases List.mem_append.mp h with hz | hd
  · rw [List.eq_of_mem_replicate hz]
    rfl
  · exact isDigit_of_mem_decimalDigits hd

theorem digitsValue_whole_places (u : Nat) :
    digitsValue (decimalDigits (u / scale) ++ placesDigits u) = u := by
  rw [digitsValue_append, digitsValue_decimalDigits, digitsValue_placesDigits, length_placesDigits]
  exact Nat.div_add_mod' u scale

theorem trimZeros_append_replicate (cs : List Char) :
    ∃ k, cs = trimZeros cs ++ List.replicate k '0' := by
  refine ⟨(cs.reverse.takeWhile (· = '0')).length, ?_⟩
  have hz : cs.reverse.takeWhile (· = '0') =
      List.replicate (cs.reverse.takeWhile (· = '0')).length '0' := by
    apply List.eq_replicate_of_mem
    intro c hc
    simpa using List.mem_takeWhile_imp hc
  have hr := congrArg List.reverse (List.takeWhile_append_dropWhile (p := (· = '0')) (l := cs.reverse))
  rw [List.reverse_append, List.reverse_reverse] at hr
  rw [hz, List.reverse_replicate] at hr
  exact hr.symm

/-- Zeros are trimmed no further than the point. -/
theorem trimZeros_append_point (a f : List Char) :
    trimZeros (a ++ '.' :: f) = a ++ '.' :: trimZeros f := by
  rw [trimZeros, List.reverse_append, List.reverse_cons, List.append_assoc, List.dropWhile_append]
  by_cases h : (f.reverse.dropWhile (· = '0')).isEmpty
  · have hf : f.reverse.dropWhile (· = '0') = [] := List.isEmpty_iff.mp h
    simp [trimZeros, hf]
  · simp [trimZeros, h]

theorem num_ofUnits (u : Nat) :
    (ofUnits u).toRat.num.natAbs * scale = u * (ofUnits u).toRat.den := by
  have hn : 0 ≤ (ofUnits u).toRat.num := Rat.num_nonneg.mpr (onGrid_ofUnits u).1
  have hq : ((ofUnits u).toRat.num : Rat) / (ofUnits u).toRat.den = (u : Rat) / 10000 := by
    rw [Rat.num_div_den, toRat_ofUnits]
  have hd : ((ofUnits u).toRat.den : Rat) ≠ 0 := by simp
  rw [div_eq_div_iff hd (by norm_num)] at hq
  zify
  rw [abs_of_nonneg hn, scale]
  exact_mod_cast hq

theorem roundedUnits_ofUnits (u : Nat) : roundedUnits (ofUnits u).toRat = u := by
  have hd : 0 < (ofUnits u).toRat.den := (ofUnits u).toRat.den_pos
  rw [roundedUnits, num_ofUnits]
  apply Nat.div_eq_of_lt_le
  · nlinarith
  · nlinarith

theorem isInteger_ofUnits (u : Nat) : (ofUnits u).isInteger = true ↔ u % scale = 0 := by
  have hu := num_ofUnits u
  constructor
  · intro h
    have hd : (ofUnits u).toRat.den = 1 := by simpa [isInteger, Rat.isInt] using h
    rw [hd, Nat.mul_one] at hu
    rw [← hu]
    exact Nat.mul_mod_left _ _
  · intro h
    obtain ⟨k, rfl⟩ := Nat.dvd_of_mod_eq_zero h
    have hk : (ofUnits (scale * k)).toRat = (k : Rat) := by
      rw [toRat_ofUnits, scale]
      push_cast
      ring
    rw [isInteger, hk]
    rfl

theorem text_ofUnits_whole {u : Nat} (h : u % scale = 0) :
    (ofUnits u).text = decimalDigits (u / scale) := by
  have hi : (ofUnits u).isInteger = true := (isInteger_ofUnits u).mpr h
  have hd : (ofUnits u).toRat.den = 1 := by simpa [isInteger, Rat.isInt] using hi
  have hn : ¬ (ofUnits u).toRat.num < 0 := not_lt.mpr (Rat.num_nonneg.mpr (onGrid_ofUnits u).1)
  have hu : (ofUnits u).toRat.num.natAbs = u / scale := by
    have hm := num_ofUnits u
    rw [hd, Nat.mul_one] at hm
    exact (Nat.div_eq_of_eq_mul_left (by decide) hm.symm).symm
  rw [text, if_pos hi, hu]
  simp [signed, hn]

def shownPlaces (u : Nat) : List Char :=
  trimZeros (placesDigits u)

theorem placesDigits_eq_shownPlaces (u : Nat) :
    placesDigits u = shownPlaces u ++ List.replicate (places - (shownPlaces u).length) '0' := by
  obtain ⟨k, hk⟩ := trimZeros_append_replicate (placesDigits u)
  have hl := congrArg List.length hk
  rw [length_placesDigits, List.length_append, List.length_replicate] at hl
  have he : places - (shownPlaces u).length = k := by
    rw [hl, shownPlaces]
    omega
  rw [he]
  exact hk

theorem length_shownPlaces_le (u : Nat) : (shownPlaces u).length ≤ places := by
  have hl := congrArg List.length (placesDigits_eq_shownPlaces u)
  rw [length_placesDigits, List.length_append] at hl
  omega

theorem isDigit_of_mem_shownPlaces {u : Nat} {c : Char} (h : c ∈ shownPlaces u) :
    isDigit c = true := by
  apply isDigit_of_mem_placesDigits (u := u)
  rw [placesDigits_eq_shownPlaces]
  exact List.mem_append_left _ h

theorem shownPlaces_ne_nil {u : Nat} (h : u % scale ≠ 0) : shownPlaces u ≠ [] := by
  intro hs
  apply h
  rw [← digitsValue_placesDigits, placesDigits_eq_shownPlaces, hs, List.nil_append,
    digitsValue_replicate_zero]

theorem text_ofUnits_places {u : Nat} (h : u % scale ≠ 0) :
    (ofUnits u).text = decimalDigits (u / scale) ++ '.' :: shownPlaces u := by
  have hi : ¬ (ofUnits u).isInteger = true := fun hi => h ((isInteger_ofUnits u).mp hi)
  have hn : ¬ (ofUnits u).toRat.num < 0 := not_lt.mpr (Rat.num_nonneg.mpr (onGrid_ofUnits u).1)
  have hp : placesText (ofUnits u).toRat = decimalDigits (u / scale) ++ '.' :: placesDigits u := by
    simp [placesText, roundedUnits_ofUnits, signed, hn, placesDigits]
  have hl : (decimalDigits (u / scale) ++ '.' :: shownPlaces u).getLast? ≠ some '.' := by
    rw [List.getLast?_append, List.getLast?_cons, List.getLast?_eq_some_getLast (shownPlaces_ne_nil h)]
    intro hd
    have hm : '.' ∈ shownPlaces u := by
      have := List.getLast_mem (shownPlaces_ne_nil h)
      simp_all
    exact absurd (isDigit_of_mem_shownPlaces hm) (by decide)
  rw [text, if_neg hi, hp, trimZeros_append_point, trimPoint]
  exact if_neg hl

theorem parse?_whole {whole : List Char} (hw : whole ≠ []) (hd : ∀ c ∈ whole, isDigit c = true) :
    parse? whole = some (ofDigits whole []) := by
  have ht : whole.takeWhile isDigit = whole := List.takeWhile_eq_self_iff.mpr hd
  have hr : whole.dropWhile isDigit = [] := List.dropWhile_eq_nil_iff.mpr hd
  simp [parse?, ht, hr, hw]

theorem parse?_point {whole fraction : List Char} (hw : whole ≠ []) (hf : fraction ≠ [])
    (hwd : ∀ c ∈ whole, isDigit c = true) (hfd : ∀ c ∈ fraction, isDigit c = true) :
    parse? (whole ++ '.' :: fraction) = some (ofDigits whole fraction) := by
  simp [parse?, takeWhile_isDigit_point hwd, dropWhile_isDigit_point hwd, hw, hf,
    List.all_eq_true.mpr hfd]

/-- A number on the grid is read back from its text. -/
theorem parse?_text {n : Number} (h : n.OnGrid) : parse? n.text = some n := by
  obtain ⟨u, rfl⟩ := h.exists_units
  have hw : decimalDigits (u / scale) ≠ [] := Nat.toDigits_ne_nil
  have hv := digitsValue_whole_places u
  by_cases hz : u % scale = 0
  · rw [text_ofUnits_whole hz, parse?_whole hw fun c hc => isDigit_of_mem_decimalDigits hc,
      ofDigits_eq_ofUnits]
    have hu : u / scale * 10 ^ places = u := Nat.div_mul_cancel (Nat.dvd_of_mod_eq_zero hz)
    rw [List.take_nil, List.append_nil, digitsValue_decimalDigits, List.length_nil, Nat.sub_zero, hu]
  · -- The trimmed zeros come back as the power of ten that fills up a short fraction.
    rw [text_ofUnits_places hz, parse?_point hw (shownPlaces_ne_nil hz)
      (fun c hc => isDigit_of_mem_decimalDigits hc) (fun c hc => isDigit_of_mem_shownPlaces hc),
      ofDigits_eq_ofUnits, List.take_of_length_le (length_shownPlaces_le u)]
    rw [placesDigits_eq_shownPlaces, ← List.append_assoc, digitsValue_append,
      digitsValue_replicate_zero, List.length_replicate, Nat.add_zero] at hv
    rw [hv]

theorem isDigit_or_point_of_mem_text {n : Number} (h : n.OnGrid) {c : Char} (hc : c ∈ n.text) :
    isDigit c = true ∨ c = '.' := by
  obtain ⟨u, rfl⟩ := h.exists_units
  by_cases hz : u % scale = 0
  · rw [text_ofUnits_whole hz] at hc
    exact Or.inl (isDigit_of_mem_decimalDigits hc)
  · rw [text_ofUnits_places hz] at hc
    rcases List.mem_append.mp hc with hw | hf
    · exact Or.inl (isDigit_of_mem_decimalDigits hw)
    · rcases List.mem_cons.mp hf with hp | hs
      · exact Or.inr hp
      · exact Or.inl (isDigit_of_mem_shownPlaces hs)

end Number

end Symbolic
