import Symbolic.Json.Printer
import Symbolic.Json.Reader

/-!
Compact JSON text, read back. A string of plain characters is read whole. An object is read member
by member, so it is read back if every value is, and refused as soon as one value is.
-/

namespace Symbolic.Json

/-- The characters that are escaped inside a string, besides those below a space. -/
def escapes : List Char := ['"', '\\', '<', '>', '&', '\u2028', '\u2029']

def isPlain (c : Char) : Bool :=
  0x20 ≤ c.toNat && !escapes.contains c

def Plain (s : String) : Prop :=
  s.toList.all isPlain = true

instance (s : String) : Decidable (Plain s) :=
  inferInstanceAs (Decidable (s.toList.all isPlain = true))

theorem Plain.isPlain_of_mem {s : String} (h : Plain s) : ∀ c ∈ s.toList, isPlain c = true :=
  List.all_eq_true.mp h

theorem isPlain_iff {c : Char} :
    isPlain c = true ↔ 0x20 ≤ c.toNat ∧ c ≠ '"' ∧ c ≠ '\\' ∧ c ≠ '<' ∧ c ≠ '>' ∧ c ≠ '&' ∧
      c ≠ '\u2028' ∧ c ≠ '\u2029' := by
  simp [isPlain, escapes]

theorem isPlain_of_class {p : Char → Bool} (hp : escapes.any p = false) {c : Char}
    (hl : 0x20 ≤ c.toNat) (hc : p c = true) : isPlain c = true := by
  have hn : c ∉ escapes := fun hm => List.any_eq_false.mp hp c hm hc
  simp [isPlain, hl, hn]

theorem escapeChar_of_isPlain {c : Char} (h : isPlain c = true) : escapeChar c = c.toString := by
  obtain ⟨hl, hq, hb, hlt, hgt, ha, hs, hp⟩ := isPlain_iff.mp h
  unfold escapeChar
  split
  case h_8 => simp [hlt, hgt, ha, hs, hp, Nat.not_lt.mpr hl]
  case h_1 => exact absurd rfl hq
  case h_2 => exact absurd rfl hb
  all_goals exact absurd hl (by decide)

theorem toList_stringText {s : String} (h : Plain s) :
    (stringText s).toList = '"' :: (s.toList ++ ['"']) := by
  have hm : s.toList.map escapeChar = s.toList.map Char.toString :=
    List.map_congr_left fun c hc => escapeChar_of_isPlain (h.isPlain_of_mem c hc)
  simp [stringText, hm, String.toList_join, List.flatMap_map]

theorem pieces_plain {cs : List Char} (h : ∀ c ∈ cs, isPlain c = true) (rest : List Char)
    (acc : List Piece) :
    pieces .plain (cs ++ '"' :: rest) acc = .ok (acc.reverse ++ cs.map .char, rest) := by
  induction cs generalizing acc with
  | nil => simp [pieces]
  | cons c cs ih =>
    obtain ⟨hl, hq, hb, -⟩ := isPlain_iff.mp (h c (by simp))
    have ht := ih (fun x hx => h x (List.mem_cons_of_mem c hx)) (.char c :: acc)
    rw [List.cons_append, pieces, if_neg hq, if_neg hb, if_neg (Nat.not_lt.mpr hl), ht]
    simp

theorem joinPieces_char (cs : List Char) : joinPieces (cs.map .char) = cs := by
  induction cs with
  | nil => rfl
  | cons c cs ih => rw [List.map_cons, joinPieces, ih]

theorem stringBody_plain {s : String} (h : Plain s) (rest : List Char) :
    stringBody (s.toList ++ '"' :: rest) = .ok (s, rest) := by
  rw [stringBody, pieces_plain h.isPlain_of_mem]
  simp [bind, Except.bind, pure, Except.pure, joinPieces_char]

theorem skipSpace_cons {c : Char} (h : isSpace c = false) (cs : List Char) :
    skipSpace (c :: cs) = c :: cs := by
  simp [skipSpace, h]

/-- The reader takes exactly the text of the value, or refuses it whatever follows. -/
def ReadsBack (item : ValueReader) (v : Json) (fits : Bool) : Prop :=
  ∀ rest, item (v.compact.toList ++ rest) = if fits then .ok (v, rest) else .error .malformed

theorem readsBack_string {s : String} (h : Plain s) (bound depth : Nat) :
    ReadsBack (valueWithin bound depth) (.string s) true := by
  intro rest
  have hs : isSpace '"' = false := by decide
  have ht : (compact (.string s)).toList ++ rest = '"' :: (s.toList ++ '"' :: rest) := by
    simp [compact, toList_stringText h]
  have hr : scalar ('"' :: (s.toList ++ '"' :: rest)) = .ok (.string s, rest) := by
    rw [scalar, if_pos rfl, stringBody_plain h]
    rfl
  rw [ht]
  cases depth with
  | zero => simp [valueWithin, skipSpace_cons hs, hr]
  | succ depth => simp [valueWithin, skipSpace_cons hs, hr]

theorem memberKey_plain {k : String} (h : Plain k) (rest : List Char) :
    memberKey ((stringText k).toList ++ ':' :: rest) = .ok (k, rest) := by
  have hq : isSpace '"' = false := by decide
  have hc : isSpace ':' = false := by decide
  have ht : (stringText k).toList ++ ':' :: rest = '"' :: (k.toList ++ '"' :: ':' :: rest) := by
    simp [toList_stringText h]
  rw [ht, memberKey, skipSpace_cons hq]
  simp [stringBody_plain h, bind, Except.bind, skipSpace_cons hc, pure, Except.pure]

section Members
variable {item : ValueReader} {k : String} {v : Json} {fits : Bool}

theorem members_comma (hk : Plain k) (hv : ReadsBack item v fits) (bound : Nat) (rest : List Char)
    (acc : Members) :
    members item (bound + 1) ((stringText k ++ ":" ++ v.compact).toList ++ ',' :: rest) acc =
      if fits then members item bound rest ((k, v) :: acc) else .error .malformed := by
  have hs : isSpace ',' = false := by decide
  have ht : (stringText k ++ ":" ++ v.compact).toList ++ ',' :: rest =
      (stringText k).toList ++ ':' :: (v.compact.toList ++ ',' :: rest) := by simp
  rw [ht, members, memberKey_plain hk]
  cases fits with
  | false => simp [bind, Except.bind, hv _]
  | true => simp [bind, Except.bind, hv _, skipSpace_cons hs]

theorem members_brace (hk : Plain k) (hv : ReadsBack item v fits) (bound : Nat) (rest : List Char)
    (acc : Members) :
    members item (bound + 1) ((stringText k ++ ":" ++ v.compact).toList ++ '\x7d' :: rest) acc =
      if fits then .ok (.object ((k, v) :: acc).reverse, rest) else .error .malformed := by
  have hs : isSpace '\x7d' = false := by decide
  have ht : (stringText k ++ ":" ++ v.compact).toList ++ '\x7d' :: rest =
      (stringText k).toList ++ ':' :: (v.compact.toList ++ '\x7d' :: rest) := by simp
  rw [ht, members, memberKey_plain hk]
  cases fits with
  | false => simp [bind, Except.bind, hv _]
  | true => simp [bind, Except.bind, hv _, skipSpace_cons hs, pure, Except.pure]

end Members

/-- The members of an object up to its closing brace. The values are read in turn, and the first one
that is refused ends the reading. -/
theorem members_compact {item : ValueReader} {fits : Json → Bool} {ms : Members} (hne : ms ≠ [])
    (hk : ∀ kv ∈ ms, Plain kv.1) (hv : ∀ kv ∈ ms, ReadsBack item kv.2 (fits kv.2)) {bound : Nat}
    (hb : ms.length ≤ bound) (rest : List Char) (acc : Members) :
    members item bound ((String.intercalate "," (compactMembers ms)).toList ++ '\x7d' :: rest) acc =
      if ms.all fun kv => fits kv.2 then .ok (.object (acc.reverse ++ ms), rest)
      else .error .malformed := by
  induction ms generalizing bound acc with
  | nil => exact absurd rfl hne
  | cons kv ms ih =>
    obtain ⟨k, v⟩ := kv
    have hkey : Plain k := hk (k, v) (by simp)
    have hval : ReadsBack item v (fits v) := hv (k, v) (by simp)
    cases bound with
    | zero => simp at hb
    | succ bound =>
      cases ms with
      | nil =>
        rw [compactMembers, compactMembers, String.intercalate_singleton, members_brace hkey hval]
        simp
      | cons kv' ms =>
        have ht : (String.intercalate "," (compactMembers ((k, v) :: kv' :: ms))).toList
            ++ '\x7d' :: rest = (stringText k ++ ":" ++ v.compact).toList ++ ',' ::
              ((String.intercalate "," (compactMembers (kv' :: ms))).toList ++ '\x7d' :: rest) := by
          simp [compactMembers]
        have hl : (kv' :: ms).length ≤ bound := by simpa using hb
        have hi := ih (by simp) (fun x hx => hk x (List.mem_cons_of_mem _ hx))
          (fun x hx => hv x (List.mem_cons_of_mem _ hx)) hl ((k, v) :: acc)
        have ha : (((k, v) :: kv' :: ms).all fun kv => fits kv.2) =
            (fits v && (kv' :: ms).all fun kv => fits kv.2) := rfl
        rw [ht, members_comma hkey hval, hi, ha]
        cases fits v with
        | false => rfl
        | true =>
          rw [Bool.true_and]
          simp

theorem compactMembers_head {ms : Members} (hne : ms ≠ []) (rest : List Char) :
    ∃ t, (String.intercalate "," (compactMembers ms)).toList ++ rest = '"' :: t := by
  obtain ⟨⟨k, v⟩, ms, rfl⟩ := List.exists_cons_of_ne_nil hne
  cases ms with
  | nil => simp [compactMembers, stringText]
  | cons kv ms =>
    obtain ⟨k', v'⟩ := kv
    simp [compactMembers, stringText]

theorem toList_compact_object (ms : Members) (rest : List Char) :
    (compact (.object ms)).toList ++ rest =
      '\x7b' :: ((String.intercalate "," (compactMembers ms)).toList ++ '\x7d' :: rest) := by
  simp [compact]

theorem readsBack_object {bound depth : Nat} {fits : Json → Bool} {ms : Members} (hne : ms ≠ [])
    (hb : ms.length ≤ bound) (hk : ∀ kv ∈ ms, Plain kv.1)
    (hv : ∀ kv ∈ ms, ReadsBack (valueWithin bound depth) kv.2 (fits kv.2)) :
    ReadsBack (valueWithin bound (depth + 1)) (.object ms) (ms.all fun kv => fits kv.2) := by
  intro rest
  obtain ⟨t, ht⟩ := compactMembers_head hne ('\x7d' :: rest)
  have hm := members_compact hne hk hv hb rest []
  rw [ht] at hm
  rw [toList_compact_object, ht, valueWithin, skipSpace_cons (by decide)]
  simp only [objectBody, skipSpace_cons (show isSpace '"' = false by decide)]
  exact hm

theorem not_readsBack_object (bound : Nat) (ms : Members) :
    ReadsBack (valueWithin bound 0) (.object ms) false := by
  intro rest
  rw [toList_compact_object, valueWithin, skipSpace_cons (by decide)]
  rfl

mutual

/-- How many arrays and objects lie around the innermost value. -/
def nesting : Json → Nat
  | .array items => itemsNesting items + 1
  | .object members => membersNesting members + 1
  | _ => 0

def itemsNesting : List Json → Nat
  | [] => 0
  | v :: rest => max v.nesting (itemsNesting rest)

def membersNesting : List (String × Json) → Nat
  | [] => 0
  | (_, v) :: rest => max v.nesting (membersNesting rest)

end

theorem all_nesting_le (depth : Nat) (ms : Members) :
    (ms.all fun kv => kv.2.nesting ≤ depth) = decide (membersNesting ms ≤ depth) := by
  induction ms with
  | nil => simp [membersNesting]
  | cons kv ms ih =>
    obtain ⟨k, v⟩ := kv
    calc
      (((k, v) :: ms).all fun kv => kv.2.nesting ≤ depth)
          = (decide (v.nesting ≤ depth) && decide (membersNesting ms ≤ depth)) := by
            rw [List.all_cons, ih]
      _ = decide (membersNesting ((k, v) :: ms) ≤ depth) := by
            rw [membersNesting, ← Bool.decide_and]
            exact decide_eq_decide.mpr Nat.max_le.symm

/-- Strings of plain characters, and objects of such values with at most so many members. -/
inductive Legible (bound : Nat) : Json → Prop
  | string {s : String} : Plain s → Legible bound (.string s)
  | object {ms : Members} : ms ≠ [] → ms.length ≤ bound →
      (∀ kv ∈ ms, Plain kv.1) → (∀ kv ∈ ms, Legible bound kv.2) → Legible bound (.object ms)

theorem Legible.readsBack {bound : Nat} {v : Json} (h : Legible bound v) (depth : Nat) :
    ReadsBack (valueWithin bound depth) v (v.nesting ≤ depth) := by
  induction h generalizing depth with
  | string hs => simpa [nesting] using readsBack_string hs bound depth
  | @object ms hne hb hk _ ih =>
    cases depth with
    | zero => simpa [nesting] using not_readsBack_object bound ms
    | succ depth =>
      have ho := @readsBack_object bound depth (fun v => v.nesting ≤ depth) ms hne hb hk
        fun kv hkv => ih kv hkv depth
      rw [all_nesting_le] at ho
      simpa [nesting] using ho

end Symbolic.Json
