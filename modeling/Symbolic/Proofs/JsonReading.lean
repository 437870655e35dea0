import Symbolic.Proofs.JsonGrammar

/-!
The reader against the grammar. Whatever it takes is a value of the grammar after some space; and a
value of the grammar, with space before it, is taken exactly, so a text starts with one value at
most. Both are carried through arrays and objects from the reader of the values inside.
-/

namespace Symbolic.Json

/-- What the reader takes is a value of the grammar, after space. -/
def Sound (item : ValueReader) (value : List Char → Json → Prop) : Prop :=
  ∀ cs rest v, item cs = .ok (v, rest) →
    ∃ lead text, cs = lead ++ text ++ rest ∧ Blank lead ∧ value text v

/-- The reader takes every value of the grammar of at most so many characters, after any space. -/
def Complete (size : Nat) (item : ValueReader) (value : List Char → Json → Prop) : Prop :=
  ∀ lead text rest v, Blank lead → value text v → text.length ≤ size →
    (v.isNumber = true → Avoids continuesNumber rest) →
    item (lead ++ text ++ rest) = .ok (v, rest)

section Entries
variable {value : List Char → Json → Prop} {item : ValueReader} {cs rest : List Char}

theorem Spaced.blank_append {lead text : List Char} {v : Json} (hl : Blank lead)
    (h : Spaced value text v) : Spaced value (lead ++ text) v := by
  cases h with
  | @mk lead' text trail v hl' ht htr =>
    rw [← List.append_assoc, ← List.append_assoc]
    exact .mk (hl.append hl') ht htr

theorem MemberText.blank_append {lead text : List Char} {kv : String × Json} (hl : Blank lead)
    (h : MemberText value text kv) : MemberText value (lead ++ text) kv := by
  cases h with
  | @mk lead' key trail text ps v hl' hk htr hv =>
    rw [← List.append_assoc]
    exact .mk (hl.append hl') hk htr hv

theorem Listed.blank_append {α : Type} {entry : List Char → α → Prop}
    (he : ∀ lead cs a, Blank lead → entry cs a → entry (lead ++ cs) a) {lead : List Char}
    {as : List α} (hl : Blank lead) (h : Listed entry cs as) : Listed entry (lead ++ cs) as := by
  cases h with
  | last ha => exact .last (he _ _ _ hl ha)
  | more ha hr =>
    rw [← List.append_assoc]
    exact .more (he _ _ _ hl ha) hr

theorem Listed.length_le {α : Type} {entry : List Char → α → Prop}
    (he : ∀ cs a, entry cs a → cs ≠ []) {as : List α} (h : Listed entry cs as) :
    as.length ≤ cs.length := by
  induction h with
  | last ha =>
    exact List.length_pos_iff.mpr (he _ _ ha)
  | more ha _ ih =>
    simp only [List.length_cons, List.length_append]
    omega

theorem memberKey_eq_ok {k : String} (h : memberKey cs = .ok (k, rest)) :
    ∃ lead key trail ps, cs = lead ++ '"' :: (key ++ '"' :: (trail ++ ':' :: rest)) ∧ Blank lead ∧
      StringText key ps ∧ Blank trail ∧ k = String.ofList (joinPieces ps) := by
  obtain ⟨lead, hl, hc⟩ := exists_blank_skipSpace cs
  rw [memberKey] at h
  split at h
  · next r hr =>
    rw [bind_eq_ok] at h
    obtain ⟨⟨s, r'⟩, hs, h⟩ := h
    obtain ⟨key, ps, rfl, hk, rfl⟩ := exists_stringText_of_stringBody hs
    obtain ⟨trail, ht, hc'⟩ := exists_blank_skipSpace r'
    simp only at h
    split at h
    · next r'' hr'' =>
      obtain ⟨rfl, rfl⟩ : _ = k ∧ r'' = rest := by simpa [pure, Except.pure] using h
      rw [hr''] at hc'
      rw [hr, hc'] at hc
      exact ⟨lead, key, trail, ps, hc, hl, hk, ht, rfl⟩
    · simp at h
  · simp at h

theorem memberKey_append {lead key trail : List Char} {ps : List Piece} (hl : Blank lead)
    (hk : StringText key ps) (ht : Blank trail) (rest : List Char) :
    memberKey (lead ++ '"' :: (key ++ '"' :: (trail ++ ':' :: rest))) =
      .ok (String.ofList (joinPieces ps), rest) := by
  have hq : isSpace '"' = false := by decide
  have hc : isSpace ':' = false := by decide
  rw [memberKey, hl.skipSpace_append, skipSpace_cons hq]
  simp only [hk.stringBody_eq, bind, Except.bind, ht.skipSpace_append, skipSpace_cons hc]
  rfl

theorem Sound.items (hs : Sound item value) {bound : Nat} {acc : List Json} {w : Json}
    (h : items item bound cs acc = .ok (w, rest)) :
    ∃ body vs, cs = body ++ ']' :: rest ∧ Listed (Spaced value) body vs ∧
      w = .array (acc.reverse ++ vs) := by
  induction bound generalizing cs acc with
  | zero => simp [Json.items] at h
  | succ bound ih =>
    rw [Json.items, bind_eq_ok] at h
    obtain ⟨⟨v, r⟩, hv, h⟩ := h
    obtain ⟨lead, text, rfl, hl, ht⟩ := hs _ _ _ hv
    obtain ⟨trail, htr, hr⟩ := exists_blank_skipSpace r
    simp only at h
    split at h
    · next r' hr' =>
      obtain ⟨body, vs, rfl, hb, rfl⟩ := ih h
      rw [hr, hr']
      exact ⟨_, _, by simp, .more (.mk hl ht htr) hb, by simp⟩
    · next r' hr' =>
      obtain ⟨rfl, rfl⟩ : _ = w ∧ r' = rest := by simpa [pure, Except.pure] using h
      rw [hr, hr']
      exact ⟨_, _, by simp, .last (.mk hl ht htr), by simp⟩
    · simp at h

theorem Sound.members (hs : Sound item value) {bound : Nat} {acc : Members} {w : Json}
    (h : members item bound cs acc = .ok (w, rest)) :
    ∃ body ms, cs = body ++ '\x7d' :: rest ∧ Listed (MemberText value) body ms ∧
      w = .object (acc.reverse ++ ms) := by
  induction bound generalizing cs acc with
  | zero => simp [Json.members] at h
  | succ bound ih =>
    simp only [Json.members, bind_eq_ok] at h
    obtain ⟨⟨k, r₀⟩, hk, ⟨v, r⟩, hv, h⟩ := h
    obtain ⟨lead', key, trail', ps, rfl, hl', hps, htr', rfl⟩ := memberKey_eq_ok hk
    obtain ⟨lead, text, rfl, hl, ht⟩ := hs _ _ _ hv
    obtain ⟨trail, htr, hr⟩ := exists_blank_skipSpace r
    have hm := MemberText.mk hl' hps htr' (Spaced.mk hl ht htr)
    simp only at h
    split at h
    · next r' hr' =>
      obtain ⟨body, ms, rfl, hb, rfl⟩ := ih h
      rw [hr, hr']
      exact ⟨_, _, by simp, .more hm hb, by simp⟩
    · next r' hr' =>
      obtain ⟨rfl, rfl⟩ : _ = w ∧ r' = rest := by simpa [pure, Except.pure] using h
      rw [hr, hr']
      exact ⟨_, _, by simp, .last hm, by simp⟩
    · simp at h

theorem Sound.arrayBody (hs : Sound item value) {bound : Nat} {w : Json}
    (h : arrayBody item bound cs = .ok (w, rest)) :
    ∃ body, cs = body ++ ']' :: rest ∧ ValueText value ('[' :: (body ++ [']'])) w := by
  obtain ⟨lead, hl, hc⟩ := exists_blank_skipSpace cs
  rw [Json.arrayBody] at h
  split at h
  · next r hr =>
    obtain ⟨rfl, rfl⟩ : Json.array [] = w ∧ r = rest := by simpa using h
    exact ⟨lead, hc.trans (by rw [hr]), .emptyArray hl⟩
  · obtain ⟨body, vs, hb, hv, rfl⟩ := hs.items h
    have hv := hv.blank_append (fun _ _ _ => Spaced.blank_append) hl
    exact ⟨lead ++ body, hc.trans (by rw [hb, List.append_assoc]), .array hv⟩

theorem Sound.objectBody (hs : Sound item value) {bound : Nat} {w : Json}
    (h : objectBody item bound cs = .ok (w, rest)) :
    ∃ body, cs = body ++ '\x7d' :: rest ∧ ValueText value ('\x7b' :: (body ++ ['\x7d'])) w := by
  obtain ⟨lead, hl, hc⟩ := exists_blank_skipSpace cs
  rw [Json.objectBody] at h
  split at h
  · next r hr =>
    obtain ⟨rfl, rfl⟩ : Json.object [] = w ∧ r = rest := by simpa using h
    exact ⟨lead, hc.trans (by rw [hr]), .emptyObject hl⟩
  · obtain ⟨body, ms, hb, hm, rfl⟩ := hs.members h
    have hm := hm.blank_append (fun _ _ _ => MemberText.blank_append) hl
    exact ⟨lead ++ body, hc.trans (by rw [hb, List.append_assoc]), .object hm⟩

end Entries

theorem sound_valueWithin (bound depth : Nat) : Sound (valueWithin bound depth) (Denotes depth) := by
  induction depth with
  | zero =>
    intro cs rest v h
    obtain ⟨lead, hl, hc⟩ := exists_blank_skipSpace cs
    obtain ⟨text, ht, hs⟩ := exists_scalarText_of_scalar h
    exact ⟨lead, text, hc.trans (by rw [ht, List.append_assoc]), hl, hs⟩
  | succ depth ih =>
    intro cs rest v h
    obtain ⟨lead, hl, hc⟩ := exists_blank_skipSpace cs
    rw [valueWithin] at h
    split at h
    · next r hr =>
      obtain ⟨body, rfl, hb⟩ := ih.arrayBody h
      exact ⟨lead, _, hc.trans (by rw [hr]; simp), hl, hb⟩
    · next r hr =>
      obtain ⟨body, rfl, hb⟩ := ih.objectBody h
      exact ⟨lead, _, hc.trans (by rw [hr]; simp), hl, hb⟩
    · obtain ⟨text, ht, hs⟩ := exists_scalarText_of_scalar h
      exact ⟨lead, text, hc.trans (by rw [ht, List.append_assoc]), hl, .scalar hs⟩

def isClosing (c : Char) : Bool :=
  c = ']' || c = '\x7d'

/-- Every entry starts, after space, with a character that closes nothing. -/
def Starts {α : Type} (entry : List Char → α → Prop) : Prop :=
  ∀ cs a rest, entry cs a → ∃ c t, skipSpace (cs ++ rest) = c :: t ∧ isClosing c = false

section Entries
variable {value : List Char → Json → Prop} {item : ValueReader} {size bound : Nat}

theorem Starts.ne_nil {α : Type} {entry : List Char → α → Prop} (hs : Starts entry) {cs : List Char}
    {a : α} (h : entry cs a) : cs ≠ [] := by
  rintro rfl
  obtain ⟨c, t, hc, -⟩ := hs [] a [] h
  simp [skipSpace] at hc

theorem Starts.spaced (hs : Starts value) : Starts (Spaced value) := by
  intro cs v rest h
  cases h with
  | @mk lead text trail v hl hv _ =>
    rw [List.append_assoc, List.append_assoc, hl.skipSpace_append]
    exact hs text v (trail ++ rest) hv

theorem starts_memberText : Starts (MemberText value) := by
  intro cs kv rest h
  cases h with
  | mk hl _ _ _ =>
    rw [List.append_assoc, hl.skipSpace_append]
    exact ⟨'"', _, skipSpace_cons (by decide) _, by decide⟩

theorem Starts.listed {α : Type} {entry : List Char → α → Prop} (hs : Starts entry) :
    Starts (Listed entry) := by
  intro cs as rest h
  cases h with
  | last ha => exact hs _ _ _ ha
  | more ha _ =>
    rw [List.append_assoc]
    exact hs _ _ _ ha

theorem continuesNumber_of_isSpace {c : Char} (h : isSpace c = true) : continuesNumber c = false := by
  simp only [isSpace, Bool.or_eq_true, decide_eq_true_eq] at h
  rcases h with ((rfl | rfl) | rfl) | rfl <;> decide

theorem Blank.avoids_append {trail : List Char} (ht : Blank trail) {c : Char}
    (hc : continuesNumber c = false) (rest : List Char) :
    Avoids continuesNumber (trail ++ c :: rest) := by
  cases trail with
  | nil => exact avoids_cons.mpr hc
  | cons d trail => exact avoids_cons.mpr (continuesNumber_of_isSpace (ht d (by simp)))

theorem Complete.spaced (hc : Complete size item value) {cs : List Char} {v : Json}
    (h : Spaced value cs v) (hs : cs.length ≤ size) {c : Char} (hm : continuesNumber c = false)
    (rest : List Char) : ∃ trail, Blank trail ∧ item (cs ++ c :: rest) = .ok (v, trail ++ c :: rest) := by
  cases h with
  | @mk lead text trail v hl hv ht =>
    have hl' : text.length ≤ size := by
      simp only [List.length_append] at hs
      omega
    refine ⟨trail, ht, ?_⟩
    rw [List.append_assoc]
    exact hc lead text _ v hl hv hl' fun _ => ht.avoids_append hm rest

theorem Complete.items (hc : Complete size item value) {body : List Char} {vs : List Json}
    (h : Listed (Spaced value) body vs) (hs : body.length ≤ size) (hb : vs.length ≤ bound)
    (rest : List Char) (acc : List Json) :
    items item bound (body ++ ']' :: rest) acc = .ok (.array (acc.reverse ++ vs), rest) := by
  induction h generalizing bound acc with
  | @last cs v hv =>
    obtain ⟨bound, rfl⟩ := Nat.exists_eq_add_of_le' hb
    obtain ⟨trail, ht, hi⟩ := hc.spaced hv hs (by decide : continuesNumber ']' = false) rest
    rw [List.length_singleton, Json.items, hi]
    simp [bind, Except.bind, ht.skipSpace_append, skipSpace_cons (show isSpace ']' = false by decide),
      pure, Except.pure]
  | @more cs rest' v vs hv _ ih =>
    obtain ⟨bound, rfl⟩ := Nat.exists_eq_add_of_le' hb
    simp only [List.length_append, List.length_cons] at hs
    obtain ⟨trail, ht, hi⟩ := hc.spaced hv (by omega) (by decide : continuesNumber ',' = false)
      (rest' ++ ']' :: rest)
    have hr := ih (by omega : rest'.length ≤ size) (by omega : vs.length ≤ bound + vs.length) (v :: acc)
    rw [List.append_assoc, List.cons_append, List.length_cons, ← Nat.add_assoc, Json.items, hi]
    simp [bind, Except.bind, ht.skipSpace_append, skipSpace_cons (show isSpace ',' = false by decide),
      hr]

theorem Complete.members (hc : Complete size item value) {body : List Char} {ms : Members}
    (h : Listed (MemberText value) body ms) (hs : body.length ≤ size) (hb : ms.length ≤ bound)
    (rest : List Char) (acc : Members) :
    members item bound (body ++ '\x7d' :: rest) acc = .ok (.object (acc.reverse ++ ms), rest) := by
  induction h generalizing bound acc with
  | @last cs kv hv =>
    obtain ⟨bound, rfl⟩ := Nat.exists_eq_add_of_le' hb
    cases hv with
    | @mk lead key trail' text ps v hl hk ht' hv =>
      simp only [List.length_append, List.length_cons] at hs
      obtain ⟨trail, ht, hi⟩ := hc.spaced hv (by omega)
        (by decide : continuesNumber '\x7d' = false) rest
      have hm := memberKey_append hl hk ht' (text ++ '\x7d' :: rest)
      simp [Json.members, bind, Except.bind, hm, hi, ht.skipSpace_append,
        skipSpace_cons (show isSpace '\x7d' = false by decide), pure, Except.pure]
  | @more cs rest' kv ms hv _ ih =>
    obtain ⟨bound, rfl⟩ := Nat.exists_eq_add_of_le' hb
    cases hv with
    | @mk lead key trail' text ps v hl hk ht' hv =>
      simp only [List.length_append, List.length_cons] at hs
      obtain ⟨trail, ht, hi⟩ := hc.spaced hv (by omega) (by decide : continuesNumber ',' = false)
        (rest' ++ '\x7d' :: rest)
      have hm := memberKey_append hl hk ht' (text ++ ',' :: (rest' ++ '\x7d' :: rest))
      have hr := ih (by omega : rest'.length ≤ size) (by omega : ms.length ≤ bound + ms.length)
        ((String.ofList (joinPieces ps), v) :: acc)
      rw [List.length_cons, ← Nat.add_assoc]
      simp [Json.members, bind, Except.bind, hm, hi, ht.skipSpace_append,
        skipSpace_cons (show isSpace ',' = false by decide), hr]

theorem items_skipSpace (hi : ∀ cs, item (skipSpace cs) = item cs) (hb : 0 < bound)
    (cs : List Char) (acc : List Json) :
    items item bound (skipSpace cs) acc = items item bound cs acc := by
  obtain ⟨bound, rfl⟩ := Nat.exists_eq_add_of_le' hb
  rw [items, items, hi]

theorem members_skipSpace (hb : 0 < bound) (cs : List Char) (acc : Members) :
    members item bound (skipSpace cs) acc = members item bound cs acc := by
  obtain ⟨bound, rfl⟩ := Nat.exists_eq_add_of_le' hb
  have hk : memberKey (skipSpace cs) = memberKey cs := by
    rw [memberKey, memberKey, skipSpace_skipSpace]
  rw [members, members, hk]

theorem Complete.arrayBody (hc : Complete size item value)
    (hi : ∀ cs, item (skipSpace cs) = item cs) (hv : Starts value) {body : List Char}
    {vs : List Json} (h : Listed (Spaced value) body vs) (hs : body.length ≤ size)
    (hb : size ≤ bound) (rest : List Char) :
    arrayBody item bound (body ++ ']' :: rest) = .ok (.array vs, rest) := by
  have hn : vs.length ≤ bound := by
    have := h.length_le fun _ _ => hv.spaced.ne_nil
    omega
  have h0 : 0 < bound := by
    have := List.length_pos_iff.mpr (hv.spaced.listed.ne_nil h)
    omega
  obtain ⟨c, t, hct, hcl⟩ := hv.spaced.listed body vs (']' :: rest) h
  rw [Json.arrayBody]
  split
  · next r hr =>
    obtain rfl : c = ']' := (List.cons.inj (hct.symm.trans hr)).1
    simp [isClosing] at hcl
  · rw [items_skipSpace hi h0, hc.items h hs hn]
    rfl

theorem Complete.objectBody (hc : Complete size item value) {body : List Char} {ms : Members}
    (h : Listed (MemberText value) body ms) (hs : body.length ≤ size) (hb : size ≤ bound)
    (rest : List Char) :
    objectBody item bound (body ++ '\x7d' :: rest) = .ok (.object ms, rest) := by
  have hn : ms.length ≤ bound := by
    have := h.length_le fun _ _ => starts_memberText.ne_nil
    omega
  have h0 : 0 < bound := by
    have := List.length_pos_iff.mpr (starts_memberText.listed.ne_nil h)
    omega
  obtain ⟨c, t, hct, hcl⟩ := starts_memberText.listed body ms ('\x7d' :: rest) h
  rw [Json.objectBody]
  split
  · next r hr =>
    obtain rfl : c = '\x7d' := (List.cons.inj (hct.symm.trans hr)).1
    simp [isClosing] at hcl
  · rw [members_skipSpace h0, hc.members h hs hn]
    rfl

end Entries

theorem ScalarText.head {cs : List Char} {v : Json} (h : ScalarText cs v) :
    ∃ c t, cs = c :: t ∧ isSpace c = false ∧ isClosing c = false ∧ c ≠ '[' ∧ c ≠ '\x7b' := by
  cases h with
  | nullWord => exact ⟨_, _, rfl, by decide⟩
  | trueWord => exact ⟨_, _, rfl, by decide⟩
  | falseWord => exact ⟨_, _, rfl, by decide⟩
  | string _ => exact ⟨_, _, rfl, by decide⟩
  | positive h =>
    obtain ⟨c, t, rfl, hc⟩ := h.head
    have hn {d : Char} (hd : isDigit d = false) : c ≠ d := ne_of_isDigit hc hd
    refine ⟨c, t, rfl, ?_, ?_, hn (by decide), hn (by decide)⟩
    · simp [isSpace, hn (show isDigit ' ' = false by decide), hn (show isDigit '\t' = false by decide),
        hn (show isDigit '\n' = false by decide), hn (show isDigit '\r' = false by decide)]
    · simp [isClosing, hn (show isDigit ']' = false by decide),
        hn (show isDigit '\x7d' = false by decide)]
  | negative _ => exact ⟨_, _, rfl, by decide⟩

theorem Denotes.head {depth : Nat} {cs : List Char} {v : Json} (h : Denotes depth cs v) :
    ∃ c t, cs = c :: t ∧ isSpace c = false ∧ isClosing c = false := by
  have hs {cs : List Char} {v : Json} (h : ScalarText cs v) :
      ∃ c t, cs = c :: t ∧ isSpace c = false ∧ isClosing c = false := by
    obtain ⟨c, t, hc, hsp, hcl, -⟩ := h.head
    exact ⟨c, t, hc, hsp, hcl⟩
  cases depth with
  | zero => exact hs h
  | succ depth =>
    cases h with
    | scalar h => exact hs h
    | emptyArray _ => exact ⟨_, _, rfl, by decide⟩
    | array _ => exact ⟨_, _, rfl, by decide⟩
    | emptyObject _ => exact ⟨_, _, rfl, by decide⟩
    | object _ => exact ⟨_, _, rfl, by decide⟩

theorem starts_denotes (depth : Nat) : Starts (Denotes depth) := by
  intro cs v rest h
  obtain ⟨c, t, rfl, hs, hc⟩ := h.head
  exact ⟨c, t ++ rest, skipSpace_cons hs _, hc⟩

theorem valueWithin_skipSpace (bound depth : Nat) (cs : List Char) :
    valueWithin bound depth (skipSpace cs) = valueWithin bound depth cs := by
  cases depth with
  | zero => rw [valueWithin, valueWithin, skipSpace_skipSpace]
  | succ depth => rw [valueWithin, valueWithin, skipSpace_skipSpace]

theorem valueWithin_of_head {bound depth : Nat} {lead : List Char} (hl : Blank lead) {c : Char}
    (hs : isSpace c = false) (ha : c ≠ '[') (ho : c ≠ '\x7b') (cs : List Char) :
    valueWithin bound depth (lead ++ c :: cs) = scalar (c :: cs) := by
  have hsk : skipSpace (lead ++ c :: cs) = c :: cs := by
    rw [hl.skipSpace_append, skipSpace_cons hs]
  cases depth with
  | zero => rw [valueWithin, hsk]
  | succ depth =>
    rw [valueWithin, hsk]
    split
    · next r hr => exact absurd (List.cons.inj hr).1 ha
    · next r hr => exact absurd (List.cons.inj hr).1 ho
    · rfl

theorem ScalarText.valueWithin_eq {text : List Char} {v : Json} (h : ScalarText text v)
    {bound depth : Nat} {lead : List Char} (hl : Blank lead) (rest : List Char) :
    valueWithin bound depth (lead ++ text ++ rest) = scalar (text ++ rest) := by
  obtain ⟨c, t, rfl, hs, -, ha, ho⟩ := h.head
  rw [List.append_assoc]
  exact valueWithin_of_head hl hs ha ho (t ++ rest)

theorem valueWithin_scalar {bound depth : Nat} {lead text rest : List Char} {v : Json}
    (hl : Blank lead) (h : ScalarText text v)
    (hr : v.isNumber = true → Avoids continuesNumber rest) :
    valueWithin bound depth (lead ++ text ++ rest) = .ok (v, rest) := by
  rw [h.valueWithin_eq hl, h.scalar_append hr]

theorem valueWithin_array {bound depth : Nat} {lead : List Char} (hl : Blank lead)
    (cs : List Char) :
    valueWithin bound (depth + 1) (lead ++ '[' :: cs) =
      arrayBody (valueWithin bound depth) bound cs := by
  rw [valueWithin, hl.skipSpace_append, skipSpace_cons (by decide)]
  rfl

theorem valueWithin_object {bound depth : Nat} {lead : List Char} (hl : Blank lead)
    (cs : List Char) :
    valueWithin bound (depth + 1) (lead ++ '\x7b' :: cs) =
      objectBody (valueWithin bound depth) bound cs := by
  rw [valueWithin, hl.skipSpace_append, skipSpace_cons (by decide)]
  rfl

theorem enclosed_append (lead cs rest : List Char) (a b : Char) :
    lead ++ a :: (cs ++ [b]) ++ rest = lead ++ a :: (cs ++ b :: rest) := by
  simp

theorem complete_valueWithin {size bound : Nat} (hb : size ≤ bound) (depth : Nat) :
    Complete size (valueWithin bound depth) (Denotes depth) := by
  induction depth with
  | zero => exact fun lead text rest v hl h _ hr => valueWithin_scalar hl h hr
  | succ depth ih =>
    intro lead text rest v hl h hs hr
    cases h with
    | scalar h => exact valueWithin_scalar hl h hr
    | emptyArray hc =>
      rw [enclosed_append, valueWithin_array hl, arrayBody, hc.skipSpace_append,
        skipSpace_cons (by decide)]
      rfl
    | array h =>
      simp only [List.length_cons, List.length_append] at hs
      rw [enclosed_append, valueWithin_array hl, ih.arrayBody (valueWithin_skipSpace bound depth)
        (starts_denotes depth) h (by omega) hb]
    | emptyObject hc =>
      rw [enclosed_append, valueWithin_object hl, objectBody, hc.skipSpace_append,
        skipSpace_cons (by decide)]
      rfl
    | object h =>
      simp only [List.length_cons, List.length_append] at hs
      rw [enclosed_append, valueWithin_object hl, ih.objectBody h (by omega) hb]

theorem exists_denotes_of_value {depth : Nat} {cs rest : List Char} {v : Json}
    (h : value depth cs = .ok (v, rest)) :
    ∃ lead text, cs = lead ++ text ++ rest ∧ Blank lead ∧ Denotes depth text v :=
  sound_valueWithin cs.length depth cs rest v h

theorem Denotes.value_eq {depth : Nat} {text : List Char} {v : Json} (h : Denotes depth text v)
    {lead : List Char} (hl : Blank lead) (rest : List Char)
    (hr : v.isNumber = true → Avoids continuesNumber rest) :
    value depth (lead ++ text ++ rest) = .ok (v, rest) := by
  have hb : text.length ≤ (lead ++ text ++ rest).length := by
    simp only [List.length_append]
    omega
  exact complete_valueWithin hb depth lead text rest v hl h (Nat.le_refl _) hr

section Depth

theorem Spaced.mono {p q : List Char → Json → Prop} (hpq : ∀ cs v, p cs v → q cs v) {cs : List Char}
    {v : Json} (h : Spaced p cs v) : Spaced q cs v := by
  cases h with
  | mk hl hv ht => exact .mk hl (hpq _ _ hv) ht

theorem MemberText.mono {p q : List Char → Json → Prop} (hpq : ∀ cs v, p cs v → q cs v)
    {cs : List Char} {kv : String × Json} (h : MemberText p cs kv) : MemberText q cs kv := by
  cases h with
  | mk hl hk ht hv => exact .mk hl hk ht (hv.mono hpq)

theorem Listed.mono {α : Type} {p q : List Char → α → Prop} (hpq : ∀ cs a, p cs a → q cs a)
    {cs : List Char} {as : List α} (h : Listed p cs as) : Listed q cs as := by
  induction h with
  | last ha => exact .last (hpq _ _ ha)
  | more ha _ ih => exact .more (hpq _ _ ha) ih

theorem ValueText.mono {p q : List Char → Json → Prop} (hpq : ∀ cs v, p cs v → q cs v)
    {cs : List Char} {v : Json} (h : ValueText p cs v) : ValueText q cs v := by
  cases h with
  | scalar h => exact .scalar h
  | emptyArray h => exact .emptyArray h
  | array h => exact .array (h.mono fun _ _ => Spaced.mono hpq)
  | emptyObject h => exact .emptyObject h
  | object h => exact .object (h.mono fun _ _ => MemberText.mono hpq)

theorem Denotes.succ {depth : Nat} {cs : List Char} {v : Json} (h : Denotes depth cs v) :
    Denotes (depth + 1) cs v := by
  induction depth generalizing cs v with
  | zero => exact .scalar h
  | succ depth ih => exact ValueText.mono (fun _ _ => ih) h

theorem Denotes.mono {depth depth' : Nat} (hd : depth ≤ depth') {cs : List Char} {v : Json}
    (h : Denotes depth cs v) : Denotes depth' cs v := by
  induction hd with
  | refl => exact h
  | step _ ih => exact ih.succ

end Depth

section Unique

theorem Denotes.scalarText_of_isNumber {depth : Nat} {text : List Char} {v : Json}
    (h : Denotes depth text v) (hv : v.isNumber = true) : ScalarText text v := by
  cases depth with
  | zero => exact h
  | succ depth =>
    cases h with
    | scalar h => exact h
    | emptyArray | array | emptyObject | object => simp [isNumber] at hv

/-- A text starts with one value at most, however deep the values may be nested. Only a number can
be read further than to its end, and then it is a number again. -/
theorem Denotes.value_unique {depth depth' : Nat} {lead text rest rest' : List Char} {v v' : Json}
    (h : Denotes depth text v) (hl : Blank lead)
    (h' : value depth' (lead ++ text ++ rest) = .ok (v', rest')) (hv' : v'.isNumber = false) :
    v = v' ∧ rest = rest' := by
  cases hv : v.isNumber with
  | true =>
    have hs := h.scalarText_of_isNumber hv
    rw [value, hs.valueWithin_eq hl] at h'
    simp [hs.isNumber_of_scalar hv h'] at hv'
  | false =>
    obtain ⟨lead', text', he, hl', ht'⟩ := exists_denotes_of_value h'
    have hr := (h.mono (Nat.le_max_left depth depth')).value_eq hl rest (by simp [hv])
    have hr' := (ht'.mono (Nat.le_max_right depth depth')).value_eq hl' rest' (by simp [hv'])
    rw [he, hr'] at hr
    exact ⟨(Prod.mk.inj (Except.ok.inj hr)).1.symm, (Prod.mk.inj (Except.ok.inj hr)).2.symm⟩

end Unique

end Symbolic.Json
