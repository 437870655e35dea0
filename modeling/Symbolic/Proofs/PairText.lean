import Mathlib.Tactic.SplitIfs
import Symbolic.Bindings

/-!
What a pair `name=value` says, told from its text. A pair that is read has an equals sign with a name
before the first one, and its value is a numeral once white space is dropped; any other pair is refused
with a fault that shows it.
-/

namespace Symbolic.Bindings

section Parts
variable {pair name value : String}

/-- The parts before and after the first equals sign. -/
def Splits (pair name value : String) : Prop :=
  pair = name ++ "=" ++ value ∧ '=' ∉ name.toList

instance : Decidable (Splits pair name value) :=
  inferInstanceAs (Decidable (_ ∧ _))

theorem splits_iff_toList :
    Splits pair name value ↔
      pair.toList = name.toList ++ '=' :: value.toList ∧ '=' ∉ name.toList := by
  have hl : (name ++ "=" ++ value).toList = name.toList ++ '=' :: value.toList := by
    simp [String.toList_append]
  rw [Splits, ← hl, String.toList_inj]

theorem splits_of_cut? (h : cut? pair = some (name, value)) : Splits pair name value := by
  rw [cut?] at h
  split at h
  · cases h
  · next c rest hd =>
    have hc := List.head?_dropWhile_not (fun c : Char => decide (c ≠ '=')) pair.toList
    have ht := @List.takeWhile_append_dropWhile _ (fun c : Char => decide (c ≠ '=')) pair.toList
    rw [hd] at hc ht
    obtain rfl : c = '=' := by simpa using hc
    cases h
    rw [splits_iff_toList, String.toList_ofList, String.toList_ofList]
    refine ⟨ht.symm, ?_⟩
    intro hm
    have hn := List.all_eq_true.mp (List.all_takeWhile) _ hm
    simp at hn

theorem Splits.cut?_eq (h : Splits pair name value) : cut? pair = some (name, value) := by
  obtain ⟨hp, hn⟩ := splits_iff_toList.mp h
  have hall : ∀ c ∈ name.toList, decide (c ≠ '=') = true := by
    intro c hc
    refine decide_eq_true ?_
    intro he
    exact hn (he ▸ hc)
  rw [cut?, hp, List.dropWhile_append_of_pos hall, List.takeWhile_append_of_pos hall]
  simp

theorem Splits.unique {name' value' : String} (h : Splits pair name value)
    (h' : Splits pair name' value') : name = name' ∧ value = value' := by
  have he := h.cut?_eq.symm.trans h'.cut?_eq
  simpa using he

end Parts

section Pairs
variable {pair x : String} {v : Binary64} {d : PairError}

/-- The name part, without white space around it, is this name. -/
def Names (pair x : String) : Prop :=
  ∃ name value, Splits pair name value ∧ trimBlank name = x

theorem names_iff_cut? : Names pair x ↔ ∃ parts ∈ cut? pair, trimBlank parts.1 = x := by
  constructor
  · rintro ⟨name, value, hs, hx⟩
    exact ⟨(name, value), hs.cut?_eq, hx⟩
  · rintro ⟨⟨name, value⟩, hc, hx⟩
    exact ⟨name, value, splits_of_cut? hc, hx⟩

instance : Decidable (Names pair x) :=
  decidable_of_iff _ names_iff_cut?.symm

/-- The name part without white space is this name, and the value part is a numeral for this value. -/
def Gives (pair x : String) (v : Binary64) : Prop :=
  ∃ name value, Splits pair name value ∧ trimBlank name = x ∧
    Binary64.parse (trimBlank value).toList = .ok v

/-- Why a pair is refused: it has no name part, or its value part is no numeral. -/
inductive Refused (pair : String) : PairError → Prop
  | shape : (∀ name value, Splits pair name value → name = "") → Refused pair (.shape pair)
  | value {name value : String} {cause : NumeralError} : Splits pair name value → name ≠ "" →
      Binary64.parse (trimBlank value).toList = .error cause →
      Refused pair (.value pair (trimBlank value) cause)

theorem ofPair_eq_ok_iff :
    ofPair pair = .ok (x, v) ↔ ∃ name value, Splits pair name value ∧ name ≠ "" ∧
      trimBlank name = x ∧ Binary64.parse (trimBlank value).toList = .ok v := by
  constructor
  · intro h
    rw [ofPair] at h
    split at h
    · cases h
    · next name value hc =>
      split_ifs at h with hn
      split at h
      · next u hv =>
        cases h
        exact ⟨name, value, splits_of_cut? hc, hn, rfl, hv⟩
      · cases h
  · rintro ⟨name, value, hs, hn, rfl, hv⟩
    simp only [ofPair, hs.cut?_eq, if_neg hn, hv]

theorem ofPair_eq_error_iff : ofPair pair = .error d ↔ Refused pair d := by
  constructor
  · intro h
    rw [ofPair] at h
    split at h
    · next hc =>
      cases h
      refine .shape ?_
      intro name value hs
      cases hc.symm.trans hs.cut?_eq
    · next name value hc =>
      have hs := splits_of_cut? hc
      split_ifs at h with hn
      · cases h
        refine .shape ?_
        intro name' value' hs'
        rw [← (hs.unique hs').1, hn]
      · split at h
        · cases h
        · next cause hv =>
          cases h
          exact .value hs hn hv
  · intro h
    cases h with
    | shape hn =>
      rw [ofPair]
      split
      · rfl
      · next name value hc => rw [if_pos (hn name value (splits_of_cut? hc))]
    | value hs hn hv => simp only [ofPair, hs.cut?_eq, if_neg hn, hv]

section Read
variable {name : String} (h : ofPair pair = .ok (name, v))
include h

theorem names_iff_of_ofPair : Names pair x ↔ x = name := by
  obtain ⟨n, value, hs, -, rfl, -⟩ := ofPair_eq_ok_iff.mp h
  constructor
  · rintro ⟨n', value', hs', rfl⟩
    rw [(hs.unique hs').1]
  · intro hx
    exact ⟨n, value, hs, hx.symm⟩

theorem gives_iff_of_ofPair {u : Binary64} : Gives pair x u ↔ x = name ∧ u = v := by
  obtain ⟨n, value, hs, -, rfl, hv⟩ := ofPair_eq_ok_iff.mp h
  constructor
  · rintro ⟨n', value', hs', rfl, hu⟩
    obtain ⟨rfl, rfl⟩ := hs.unique hs'
    exact ⟨rfl, Except.ok.inj (hu.symm.trans hv)⟩
  · rintro ⟨rfl, rfl⟩
    exact ⟨n, value, hs, rfl, hv⟩

end Read

end Pairs

end Symbolic.Bindings
