import Symbolic.Proofs.Language

/-!
The checks that an object can fail by itself, whatever its operands hold: its `type`, what a leaf of
that type must have, and that the operands of an operator are objects. Each is said on what stands
under its key, and fails in one way at most. Only a leaf that was refused leaves a cause behind.
-/

namespace Symbolic

open Json (Members)

inductive TypeFails : Option Json → DecodeError → Prop
  | missing : TypeFails none .missingType
  | notText {v : Json} : (∀ s, v = .string s → s = "") → TypeFails (some v) .badType
  | unknown {s : String} : s ∉ ["", "number", "variable", "sum", "product"] →
      TypeFails (some (.string s)) (.unknownType s)

inductive ValueFails : Option Json → DecodeError → Prop
  | missing : ValueFails none .missingValue
  | null : ValueFails (some .null) .missingValue
  | other {v : Json} : v ≠ .null → (∀ s, v ≠ .string s) → (∀ x, v ≠ .number x) →
      ValueFails (some v) .badValue
  | numeral {s : String} : (∀ r, ¬ NumeralText s.toList r) →
      ValueFails (some (.string s)) (.leaf (.numeral (Text.ofString s)))
  | float {x : Binary64} : ¬ (x.isFinite = true ∧ 0 ≤ x.toRat) →
      ValueFails (some (.number x)) (.leaf (.value x))

inductive NameFails : Option Json → DecodeError → Prop
  | missing : NameFails none .missingName
  | other {v : Json} : (∀ s, v ≠ .string s) → NameFails (some v) .badName
  | letters {s : String} : ¬ Letters s.toList →
      NameFails (some (.string s)) (.leaf (.name (Text.ofString s)))

inductive OperandFails (op : Operator) (side : Side) : Option Json → DecodeError → Prop
  | missing : OperandFails op side none (.missingOperand op side)
  | notObject {v : Json} : (∀ inner, v ≠ .object inner) →
      OperandFails op side (some v) (.badOperand op side)

/-- The object fails a check by itself, and what is said of it. -/
inductive Fails (m : Members) : DecodeError → Prop
  | type {d : DecodeError} : TypeFails (m.get? "type") d → Fails m d
  | value {d : DecodeError} : m.get? "type" = some (.string "number") →
      ValueFails (m.get? "value") d → Fails m d
  | name {d : DecodeError} : m.get? "type" = some (.string "variable") →
      NameFails (m.get? "name") d → Fails m d
  | operand {op : Operator} {side : Side} {d : DecodeError} :
      m.get? "type" = some (.string op.label) → OperandFails op side (m.get? side.label) d →
      Fails m d

inductive Cause where
  | literal
  | identifier
deriving DecidableEq

def LeafError.cause : LeafError → Cause
  | .numeral _ | .value _ => .literal
  | .name _ => .identifier

/-- What an error can be traced back to. -/
def DecodeError.cause? (d : DecodeError) : Option Cause :=
  d.leaf?.map LeafError.cause

def RefusedValue (m : Members) : Prop :=
  m.get? "type" = some (.string "number") ∧
    ((∃ s, m.get? "value" = some (.string s) ∧ ∀ r, ¬ NumeralText s.toList r) ∨
      ∃ x, m.get? "value" = some (.number x) ∧ ¬ (x.isFinite = true ∧ 0 ≤ x.toRat))

def RefusedName (m : Members) : Prop :=
  m.get? "type" = some (.string "variable") ∧
    ∃ s, m.get? "name" = some (.string s) ∧ ¬ Letters s.toList

theorem mapError_eq_error_iff {ε ε' α : Type} {x : Except ε α} {f : ε → ε'} {d : ε'} :
    x.mapError f = .error d ↔ ∃ c, x = .error c ∧ f c = d := by
  cases x <;> simp [Except.mapError]

theorem error_eq_error_iff {α : Type} {P : DecodeError → Prop} {d d' : DecodeError} (h : P d)
    (hu : ∀ c, P c → c = d) : (.error d : Except DecodeError α) = .error d' ↔ P d' := by
  constructor
  · rintro ⟨⟩
    exact h
  · intro hd
    rw [hu d' hd]

namespace Expr

section Checks
variable {m : Members} {d : DecodeError}

theorem form_eq_error_iff : form m = .error d ↔ TypeFails (m.get? "type") d := by
  rw [form]
  cases m.get? "type" with
  | none => exact error_eq_error_iff .missing (by rintro _ ⟨⟩; rfl)
  | some v =>
    cases v with
    | string s =>
      constructor
      · intro h
        dsimp only at h
        split_ifs at h with he hn hv hs hp
        · cases h
          exact .notText (by simp [he])
        · cases h
          exact .unknown (by simp [he, hn, hv, hs, hp])
      · intro h
        cases h with
        | notText hs => simp [hs s rfl]
        | unknown hs =>
          simp only [List.mem_cons, List.not_mem_nil, not_or] at hs
          simp [hs]
    | null | bool | number | array | object =>
      exact error_eq_error_iff (.notText (by simp)) (by rintro _ ⟨⟩; rfl)

theorem ofNumeral_eq_error_iff {s : String} {c : LeafError} :
    ofNumeral (Text.ofString s) = .error c ↔
      (∀ r, ¬ NumeralText s.toList r) ∧ .numeral (Text.ofString s) = c := by
  rw [ofNumeral, Text.chars_ofString]
  cases hp : Number.parse? s.toList with
  | some n =>
    obtain ⟨r, hr, -⟩ := Number.parse?_eq_some_iff.mp hp
    simp only [reduceCtorEq, false_iff, not_and]
    intro hn
    exact absurd hr (hn r)
  | none =>
    have hn (r : Rat) : ¬ NumeralText s.toList r := by
      intro hr
      rw [Number.parse?_eq_some_iff.mpr ⟨r, hr, rfl⟩] at hp
      cases hp
    simp [hn]

theorem ofBinary64_eq_error_iff {x : Binary64} {c : LeafError} :
    ofBinary64 x = .error c ↔ ¬ (x.isFinite = true ∧ 0 ≤ x.toRat) ∧ .value x = c := by
  rw [ofBinary64, ← Number.isSome_ofBinary64?_iff]
  cases Number.ofBinary64? x <;> simp

theorem ofName_eq_error_iff {s : String} {c : LeafError} :
    ofName (Text.ofString s) = .error c ↔
      ¬ Letters s.toList ∧ .name (Text.ofString s) = c := by
  rw [ofName, Text.chars_ofString, ← isName_iff_letters]
  cases isName s.toList <;> simp

theorem decodeNumber_eq_error_iff :
    decodeNumber m = .error d ↔ ValueFails (m.get? "value") d := by
  rw [decodeNumber]
  cases m.get? "value" with
  | none => exact error_eq_error_iff .missing (by rintro _ ⟨⟩; rfl)
  | some v =>
    cases v with
    | null =>
      constructor
      · rintro ⟨⟩
        exact .null
      · intro h
        cases h with
        | null => rfl
        | other hn _ _ => exact absurd rfl hn
    | string s =>
      dsimp only
      rw [mapError_eq_error_iff]
      simp only [ofNumeral_eq_error_iff]
      constructor
      · rintro ⟨c, ⟨hn, rfl⟩, rfl⟩
        exact .numeral hn
      · intro h
        cases h with
        | numeral hn => exact ⟨_, ⟨hn, rfl⟩, rfl⟩
        | other _ hs _ => exact absurd rfl (hs s)
    | number x =>
      dsimp only
      rw [mapError_eq_error_iff]
      simp only [ofBinary64_eq_error_iff]
      constructor
      · rintro ⟨c, ⟨hn, rfl⟩, rfl⟩
        exact .float hn
      · intro h
        cases h with
        | float hn => exact ⟨_, ⟨hn, rfl⟩, rfl⟩
        | other _ _ hx => exact absurd rfl (hx x)
    | bool | array | object =>
      exact error_eq_error_iff (.other (by simp) (by simp) (by simp)) (by rintro _ ⟨⟩; rfl)

theorem decodeName_eq_error_iff : decodeName m = .error d ↔ NameFails (m.get? "name") d := by
  rw [decodeName]
  cases m.get? "name" with
  | none => exact error_eq_error_iff .missing (by rintro _ ⟨⟩; rfl)
  | some v =>
    cases v with
    | string s =>
      dsimp only
      rw [mapError_eq_error_iff]
      simp only [ofName_eq_error_iff]
      constructor
      · rintro ⟨c, ⟨hn, rfl⟩, rfl⟩
        exact .letters hn
      · intro h
        cases h with
        | letters hn => exact ⟨_, ⟨hn, rfl⟩, rfl⟩
        | other hs => exact absurd rfl (hs s)
    | null | bool | number | array | object =>
      exact error_eq_error_iff (.other (by simp)) (by rintro _ ⟨⟩; rfl)

theorem fails_iff : Fails m d ↔
    form m = .error d ∨ (form m = .ok .number ∧ decodeNumber m = .error d) ∨
      (form m = .ok .named ∧ decodeName m = .error d) ∨
      ∃ op side, form m = .ok (.operator op) ∧ OperandFails op side (m.get? side.label) d := by
  simp only [form_eq_error_iff, form_eq_ok_iff, decodeNumber_eq_error_iff, decodeName_eq_error_iff,
    Form.label]
  constructor
  · intro h
    cases h with
    | type h => exact .inl h
    | value ht h => exact .inr (.inl ⟨ht, h⟩)
    | name ht h => exact .inr (.inr (.inl ⟨ht, h⟩))
    | @operand op side d ht h => exact .inr (.inr (.inr ⟨op, side, ht, h⟩))
  · rintro (h | ⟨ht, h⟩ | ⟨ht, h⟩ | ⟨op, side, ht, h⟩)
    · exact .type h
    · exact .value ht h
    · exact .name ht h
    · exact .operand ht h

end Checks

end Expr

section Causes
variable {m : Members} {d : DecodeError}

theorem RefusedValue.form_eq (h : RefusedValue m) : Expr.form m = .ok .number :=
  Expr.form_eq_ok_iff.mpr h.1

theorem RefusedName.form_eq (h : RefusedName m) : Expr.form m = .ok .named :=
  Expr.form_eq_ok_iff.mpr h.1

theorem RefusedValue.not_refusedName (h : RefusedValue m) : ¬ RefusedName m := by
  intro hn
  cases h.form_eq.symm.trans hn.form_eq

theorem ValueFails.cause?_eq {v : Option Json} (h : ValueFails v d) :
    (d.cause? = some .literal ∧
      ((∃ s, v = some (.string s) ∧ ∀ r, ¬ NumeralText s.toList r) ∨
        ∃ x, v = some (.number x) ∧ ¬ (x.isFinite = true ∧ 0 ≤ x.toRat))) ∨
    (d.cause? = none ∧ (∀ s, v ≠ some (.string s)) ∧ ∀ x, v ≠ some (.number x)) := by
  cases h with
  | missing => exact .inr ⟨rfl, nofun, nofun⟩
  | null => exact .inr ⟨rfl, nofun, nofun⟩
  | other _ hs hx => exact .inr ⟨rfl, by simpa using hs, by simpa using hx⟩
  | numeral hn => exact .inl ⟨rfl, .inl ⟨_, rfl, hn⟩⟩
  | float hn => exact .inl ⟨rfl, .inr ⟨_, rfl, hn⟩⟩

theorem NameFails.cause?_eq {v : Option Json} (h : NameFails v d) :
    (d.cause? = some .identifier ∧ ∃ s, v = some (.string s) ∧ ¬ Letters s.toList) ∨
    (d.cause? = none ∧ ∀ s, v ≠ some (.string s)) := by
  cases h with
  | missing => exact .inr ⟨rfl, nofun⟩
  | other hs => exact .inr ⟨rfl, by simpa using hs⟩
  | letters hn => exact .inl ⟨rfl, _, rfl, hn⟩

theorem TypeFails.cause?_eq {v : Option Json} (h : TypeFails v d) : d.cause? = none := by
  cases h <;> rfl

theorem OperandFails.cause?_eq {op : Operator} {side : Side} {v : Option Json}
    (h : OperandFails op side v d) : d.cause? = none := by
  cases h <;> rfl

/-- A cause is kept exactly for a leaf that was refused. -/
theorem Fails.cause_cases (h : Fails m d) :
    (RefusedValue m ∧ d.cause? = some .literal) ∨ (RefusedName m ∧ d.cause? = some .identifier) ∨
      (¬ RefusedValue m ∧ ¬ RefusedName m ∧ d.cause? = none) := by
  cases h with
  | type h =>
    have hf := Expr.form_eq_error_iff.mpr h
    have hv : ¬ RefusedValue m := mt RefusedValue.form_eq (by simp [hf])
    have hn : ¬ RefusedName m := mt RefusedName.form_eq (by simp [hf])
    exact .inr (.inr ⟨hv, hn, h.cause?_eq⟩)
  | value ht h =>
    have hf : Expr.form m = .ok .number := Expr.form_eq_ok_iff.mpr ht
    have hn : ¬ RefusedName m := mt RefusedName.form_eq (by simp [hf])
    obtain ⟨hc, hv⟩ | ⟨hc, hs, hx⟩ := h.cause?_eq
    · exact .inl ⟨⟨ht, hv⟩, hc⟩
    · refine .inr (.inr ⟨?_, hn, hc⟩)
      rintro ⟨-, ⟨s, hv, -⟩ | ⟨x, hv, -⟩⟩
      · exact hs s hv
      · exact hx x hv
  | name ht h =>
    have hf : Expr.form m = .ok .named := Expr.form_eq_ok_iff.mpr ht
    have hv : ¬ RefusedValue m := mt RefusedValue.form_eq (by simp [hf])
    obtain ⟨hc, hn⟩ | ⟨hc, hs⟩ := h.cause?_eq
    · exact .inr (.inl ⟨⟨ht, hn⟩, hc⟩)
    · refine .inr (.inr ⟨hv, ?_, hc⟩)
      rintro ⟨-, s, hn, -⟩
      exact hs s hn
  | @operand op _ _ ht h =>
    have hf : Expr.form m = .ok (.operator op) := Expr.form_eq_ok_iff.mpr ht
    have hv : ¬ RefusedValue m := mt RefusedValue.form_eq (by simp [hf])
    have hn : ¬ RefusedName m := mt RefusedName.form_eq (by simp [hf])
    exact .inr (.inr ⟨hv, hn, h.cause?_eq⟩)

theorem Fails.cause?_eq_literal_iff (h : Fails m d) :
    d.cause? = some .literal ↔ RefusedValue m := by
  obtain ⟨hr, hc⟩ | ⟨hr, hc⟩ | ⟨hv, -, hc⟩ := h.cause_cases
  · simp [hc, hr]
  · have hv : ¬ RefusedValue m := fun hv => hv.not_refusedName hr
    simp [hc, hv]
  · simp [hc, hv]

theorem Fails.cause?_eq_identifier_iff (h : Fails m d) :
    d.cause? = some .identifier ↔ RefusedName m := by
  obtain ⟨hr, hc⟩ | ⟨hr, hc⟩ | ⟨-, hn, hc⟩ := h.cause_cases
  · simp [hc, hr.not_refusedName]
  · simp [hc, hr]
  · simp [hc, hn]

end Causes

end Symbolic
