import Mathlib.Data.List.TakeWhile
import Symbolic.Proofs.PairText
import Symbolic.Proofs.Substitution

/-!
Which lists of pairs are read. Every pair must have a name part and a numeral, but the name part is
tested before the white space around it is dropped: white space alone passes for a name, and what it
binds is the empty one.
-/

namespace Symbolic

theorem trimBlank_eq_empty_iff {s : String} : trimBlank s = "" ↔ ∀ c ∈ s.toList, isBlank c = true := by
  have he : trimBlank s = "" ↔ ((s.toList.dropWhile isBlank).reverse.dropWhile isBlank).reverse = [] := by
    rw [trimBlank, ← String.toList_inj, String.toList_ofList, String.toList_empty]
  rw [he, List.reverse_eq_nil_iff, List.dropWhile_eq_nil_iff]
  constructor
  · intro h
    cases hd : s.toList.dropWhile isBlank with
    | nil => exact List.dropWhile_eq_nil_iff.mp hd
    | cons c rest =>
      -- What is left starts with a character that is not blank, yet all of it is.
      have hc := List.head?_dropWhile_not isBlank s.toList
      rw [hd] at hc h
      simp only [List.head?_cons] at hc
      exact absurd (h c (by simp)) (by simpa using hc)
  · intro h
    rw [List.dropWhile_eq_nil_iff.mpr h]
    simp

namespace Bindings

section Pairs
variable {pair : String} {pairs : List String} {x : String}

/-- The pair has an equals sign, the text before the first one passes as a name, and the text after it
is a numeral once the white space around it is dropped. -/
def Spelled (Name : String → Prop) (pair : String) : Prop :=
  ∃ name value v, Splits pair name value ∧ Name name ∧
    Binary64.parse (trimBlank value).toList = .ok v

theorem spelled_iff_ofPair : Spelled (· ≠ "") pair ↔ ∃ r, ofPair pair = .ok r := by
  constructor
  · rintro ⟨name, value, v, hs, hn, hv⟩
    exact ⟨(trimBlank name, v), ofPair_eq_ok_iff.mpr ⟨name, value, hs, hn, rfl, hv⟩⟩
  · rintro ⟨⟨name, v⟩, h⟩
    obtain ⟨name, value, hs, hn, -, hv⟩ := ofPair_eq_ok_iff.mp h
    exact ⟨name, value, v, hs, hn, hv⟩

theorem exists_insertPairs_iff (env : Bindings) :
    (∃ env', env.insertPairs pairs = .ok env') ↔ ∀ pair ∈ pairs, Spelled (· ≠ "") pair := by
  induction pairs generalizing env with
  | nil => simp [insertPairs]
  | cons pair pairs ih =>
    rw [List.forall_mem_cons, spelled_iff_ofPair]
    constructor
    · rintro ⟨env', h⟩
      rw [insertPairs, bind_eq_ok] at h
      obtain ⟨r, hr, h⟩ := h
      exact ⟨⟨r, hr⟩, (ih (env.insert r.1 r.2)).mp ⟨env', h⟩⟩
    · rintro ⟨⟨r, hr⟩, h⟩
      obtain ⟨env', he⟩ := (ih (env.insert r.1 r.2)).mpr h
      exact ⟨env', bind_eq_ok.mpr ⟨r, hr, he⟩⟩

theorem isSome_get?_insertPairs {env env' : Bindings} (h : env.insertPairs pairs = .ok env') :
    (env'.get? x).isSome = true ↔ (∃ pair ∈ pairs, Names pair x) ∨ (env.get? x).isSome = true := by
  induction pairs generalizing env with
  | nil =>
    cases h
    simp
  | cons pair pairs ih =>
    rw [insertPairs, bind_eq_ok] at h
    obtain ⟨⟨name, v⟩, hp, h⟩ := h
    rw [ih h, get?_insert, List.exists_mem_cons_iff, names_iff_of_ofPair hp]
    by_cases hx : x = name
    · simp [hx]
    · simp [hx]

/-- A name part that is still a name without white space around it is one that does not give the empty
name. -/
theorem spelled_trimBlank_iff :
    Spelled (fun name => trimBlank name ≠ "") pair ↔ Spelled (· ≠ "") pair ∧ ¬ Names pair "" := by
  constructor
  · rintro ⟨name, value, v, hs, hn, hv⟩
    refine ⟨⟨name, value, v, hs, ?_, hv⟩, ?_⟩
    · rintro rfl
      exact hn (by decide)
    · rintro ⟨name', value', hs', ht⟩
      rw [(hs'.unique hs).1] at ht
      exact hn ht
  · rintro ⟨⟨name, value, v, hs, -, hv⟩, hn⟩
    exact ⟨name, value, v, hs, fun ht => hn ⟨name, value, hs, ht⟩, hv⟩

theorem names_empty_iff :
    Names pair "" ↔ ∃ name value, Splits pair name value ∧ ∀ c ∈ name.toList, isBlank c = true := by
  simp only [Names, trimBlank_eq_empty_iff]

end Pairs

/-- A list of pairs is read exactly if every pair has an equals sign, something before the first one,
and after it a numeral with white space around it. The empty name is then bound exactly if the name
part of some pair is white space and nothing else, so the lists that are read without binding it are
those in which every name part is a name also when the white space around it is dropped. -/
theorem ofPairs_ok_iff_spelled (pairs : List String) :
    ((∃ env, ofPairs pairs = .ok env) ↔ ∀ pair ∈ pairs, Spelled (· ≠ "") pair) ∧
      (∀ env, ofPairs pairs = .ok env → ((env.get? "").isSome = true ↔
        ∃ pair ∈ pairs, ∃ name value, Splits pair name value ∧
          ∀ c ∈ name.toList, isBlank c = true)) ∧
      ((∃ env, ofPairs pairs = .ok env ∧ env.get? "" = none) ↔
        ∀ pair ∈ pairs, Spelled (fun name => trimBlank name ≠ "") pair) := by
  have hread : (∃ env, ofPairs pairs = .ok env) ↔ ∀ pair ∈ pairs, Spelled (· ≠ "") pair :=
    exists_insertPairs_iff empty
  have hbound (env) (h : ofPairs pairs = .ok env) :
      (env.get? "").isSome = true ↔ ∃ pair ∈ pairs, Names pair "" := by
    rw [isSome_get?_insertPairs h]
    exact or_iff_left (by decide)
  refine ⟨hread, ?_, ?_⟩
  · intro env h
    simp only [hbound env h, names_empty_iff]
  · constructor
    · rintro ⟨env, h, hn⟩ pair hm
      refine spelled_trimBlank_iff.mpr ⟨hread.mp ⟨env, h⟩ pair hm, fun hx => ?_⟩
      have hb := (hbound env h).mpr ⟨pair, hm, hx⟩
      rw [hn] at hb
      cases hb
    · intro h
      obtain ⟨env, he⟩ := hread.mpr fun pair hm => (spelled_trimBlank_iff.mp (h pair hm)).1
      refine ⟨env, he, ?_⟩
      rw [← Option.not_isSome_iff_eq_none, hbound env he]
      rintro ⟨pair, hm, hx⟩
      exact (spelled_trimBlank_iff.mp (h pair hm)).2 hx

theorem ofPairs_ok_iff_spelled_blank :
    ∃ env, ofPairs ["x=2", "\u00a0 = 0x1p-1"] = .ok env ∧ (env.get? "").isSome = true := by
  have hx : Spelled (· ≠ "") "x=2" :=
    ⟨"x", "2", ⟨0x4000000000000000⟩, by decide, by decide, by decide +kernel⟩
  have hs : Splits "\u00a0 = 0x1p-1" "\u00a0 " " 0x1p-1" := by decide
  have hb : Spelled (· ≠ "") "\u00a0 = 0x1p-1" :=
    ⟨_, _, ⟨0x3FE0000000000000⟩, hs, by decide, by decide +kernel⟩
  obtain ⟨hread, hbound, -⟩ := ofPairs_ok_iff_spelled ["x=2", "\u00a0 = 0x1p-1"]
  obtain ⟨env, he⟩ := hread.mpr (by simp [hx, hb])
  exact ⟨env, he, (hbound env he).mpr ⟨_, by simp, _, _, hs, by simp [isBlank]⟩⟩

/-- Not every list that is read has a name in every pair: a name part of one space is taken. -/
theorem not_forall_ofPairs_named :
    ¬ ∀ pairs : List String, (∃ env, ofPairs pairs = .ok env) ↔
      ∀ pair ∈ pairs, Spelled (fun name => trimBlank name ≠ "") pair := by
  intro h
  have hr : ∃ env, ofPairs [" =1"] = .ok env := by
    have hp : ofPair " =1" = .ok ("", ⟨0x3FF0000000000000⟩) := by decide +kernel
    rw [ofPairs, insertPairs, hp]
    exact ⟨_, rfl⟩
  obtain ⟨-, hn⟩ := spelled_trimBlank_iff.mp ((h _).mp hr " =1" (by simp))
  exact hn (by decide)

end Bindings

end Symbolic
