import Symbolic.Proofs.ShortestNumeral

/-!
Cutting off digits and truncating values. The number of a numeral is made by dropping digits of its
text, the number of a binary64 value by truncating the rational that its text denotes. The two agree
on every numeral, so a number is the same whether it comes as a text, as a JSON number or as the
value of a binding.
-/

namespace Symbolic

section Numeral
variable {cs : List Char} {r : Rat} (h : NumeralText cs r)
include h

theorem NumeralText.nonneg : 0 ≤ r := by
  cases h with
  | whole hd => positivity
  | point hd hf => positivity

theorem NumeralText.parse?_eq : Number.parse? cs = some (.ofRat r) := by
  rw [Number.ofRat_eq_ofUnits h.nonneg]
  exact Number.parse?_eq_some_iff.mpr ⟨r, h, rfl⟩

theorem NumeralText.exists_kept? :
    ∃ t, Number.kept? cs = some t ∧ numeralValue t = Number.truncate r := by
  have hk := Number.parse?_eq_kept? cs
  rw [h.parse?_eq] at hk
  obtain ⟨t, ht, hv⟩ := Option.map_eq_some_iff.mp hk.symm
  exact ⟨t, ht, Number.mk.inj hv⟩

end Numeral

namespace Binary64

/-- The text of a value that is not negative; the sign of a zero does not count. -/
def numeral (x : Binary64) : List Char :=
  if x.plainText = ['-', '0'] then ['0'] else x.plainText

theorem numeralText_numeral {x : Binary64} (h : 0 ≤ x.toRat) :
    NumeralText x.numeral (mkRat x.shortest.numerator x.shortest.denominator) := by
  have ht := x.shortest.numeralText_positional
  cases hn : x.negative with
  | false =>
    have hp : x.plainText = x.shortest.positional := by
      rw [plainText, hn]
      rfl
    have hm : x.shortest.positional ≠ ['-', '0'] := by
      intro he
      obtain ⟨c, rest, hc, hd⟩ := ht.head
      rw [he] at hc
      cases hc
      exact absurd hd (by decide)
    rw [numeral, hp, if_neg hm]
    exact ht
  | true =>
    have hz : x.isZero = true := by simpa [hn] using (zero_le_toRat_iff x).mp h
    have hs : x.shortest = ⟨0, 0⟩ := by rw [shortest, if_pos hz]
    have hp : x.plainText = ['-', '0'] := by
      rw [plainText, hn, hs]
      rfl
    rw [numeral, if_pos hp]
    rw [hs] at ht ⊢
    exact ht

end Binary64

theorem Number.ofBinary64?_eq_ofRat {x : Binary64} (hf : x.isFinite = true) (hp : 0 ≤ x.toRat) :
    Number.ofBinary64? x =
      some (.ofRat (mkRat x.shortest.numerator x.shortest.denominator)) := by
  have hc : (x.isFinite && (x.isZero || !x.negative)) = true := by
    simpa [hf] using (Binary64.zero_le_toRat_iff x).mp hp
  rw [ofBinary64?, if_pos hc, ofDecimal]

namespace Expr

open Json (Members)

theorem decode_of_numeral {m : Members} {s : String} {r : Rat}
    (ht : m.get? "type" = some (.string "number")) (hv : m.get? "value" = some (.string s))
    (h : NumeralText s.toList r) : decode m = .ok (.num (.ofRat r)) := by
  rw [Number.ofRat_eq_ofUnits h.nonneg]
  exact decode_eq_ok_iff_describes.mpr (.numeral ht hv h)

theorem decode_of_binary64 {m : Members} {x : Binary64} {n : Number}
    (ht : m.get? "type" = some (.string "number")) (hv : m.get? "value" = some (.number x))
    (h : Number.ofBinary64? x = some n) : decode m = .ok (.num n) := by
  have hn : decodeNumber m = .ok (.num n) := by simp [decodeNumber, hv, ofBinary64, h]
  exact decode_eq_ok_iff.mpr (.inl ⟨form_eq_ok_iff.mpr ht, hn⟩)

theorem simplify_var_of_binary64 {env : Bindings} {name : String} {x : Binary64} {n : Number}
    (hv : env.get? name = some x) (h : Number.ofBinary64? x = some n) :
    (var name).simplify env = .num n := by
  simp [simplify, Bindings.number?, hv, h]

/-- A numeral is read as the truncation of its exact value, which is also the value of what its
pattern keeps. So a finite value that is not negative gives the same number as the value of a leaf,
written out as the text of a leaf, and as the binding of a name. -/
theorem numeral_eq_truncate :
    (∀ (bs : Bytes) (r : Rat), NumeralBytes bs r →
      ofNumeral bs.text = .ok (.num (.ofRat r)) ∧
        ∃ t, Number.kept? bs.chars = some t ∧ numeralValue t = Number.truncate r) ∧
    ∀ x : Binary64, x.isFinite = true → 0 ≤ x.toRat →
      ∃ r, NumeralText x.numeral r ∧
        ∀ (m m' : Members) (env : Bindings) (name : String),
          m.get? "type" = some (.string "number") → m.get? "value" = some (.number x) →
          m'.get? "type" = some (.string "number") →
          m'.get? "value" = some (.string (String.ofList x.numeral)) →
          env.get? name = some x →
          decode m = .ok (.num (.ofRat r)) ∧ decode m' = .ok (.num (.ofRat r)) ∧
            (var name).simplify env = .num (.ofRat r) := by
  constructor
  · intro bs r h
    have ht := numeralBytes_iff.mp h
    exact ⟨ofNumeral_eq_ok_iff_parse?.mpr ⟨_, ht.parse?_eq, rfl⟩, ht.exists_kept?⟩
  · intro x hf hp
    have ht := Binary64.numeralText_numeral hp
    have hn := Number.ofBinary64?_eq_ofRat hf hp
    refine ⟨_, ht, ?_⟩
    intro m m' env name hm hx hm' ht' hb
    refine ⟨decode_of_binary64 hm hx hn, ?_, simplify_var_of_binary64 hb hn⟩
    exact decode_of_numeral hm' ht' (by simpa using ht)

theorem numeral_eq_truncate_below_two :
    let x : Binary64 := ⟨0x3FFFFFF583A53B8E⟩
    let m : Members := [("type", .string "number"), ("value", .number x)]
    let m' : Members := [("type", .string "number"), ("value", .string "1.99999")]
    let e : Expr := .num ⟨19999 / 10 ^ 4⟩
    x.isFinite = true ∧ 0 ≤ x.toRat ∧ x.numeral = "1.99999".toList ∧
      ofNumeral (Bytes.ofString "1.99999").text = .ok e ∧
      decode m = .ok e ∧ decode m' = .ok e ∧ (var "x").simplify ⟨[("x", x)]⟩ = e := by
  intro x m m' e
  have hf : x.isFinite = true := by decide +kernel
  have hp : 0 ≤ x.toRat := by decide +kernel
  have hx : x.numeral = "1.99999".toList := by decide +kernel
  obtain ⟨r, hr, hall⟩ := numeral_eq_truncate.2 x hf hp
  rw [hx] at hr hall
  have hv : .num (.ofRat r) = e := by
    rw [← hr.numeralValue_eq]
    decide +kernel
  have hb := (numeral_eq_truncate.1 (Bytes.ofString "1.99999") r ⟨_, rfl, hr⟩).1
  have ha := hall m m' ⟨[("x", x)]⟩ "x" rfl rfl rfl rfl rfl
  rw [hv] at hb ha
  exact ⟨hf, hp, hx, hb, ha⟩

end Expr

end Symbolic
