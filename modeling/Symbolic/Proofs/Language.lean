import Mathlib.Algebra.Order.Floor.Semifield
import Mathlib.Logic.Relation
import Symbolic.Proofs.Decoding
import Symbolic.Proofs.JsonGrammar
import Symbolic.Proofs.Numeral
import Symbolic.Proofs.Substitution

/-!
The objects that denote expressions, apart from how they are decoded: the texts of the leaves by
their grammar, the trees by induction. Decoding finds the tree of every such object and of no other.
Keys that a node has besides those of its type are never looked at.
-/

namespace Symbolic

open Json (Digits)

/-- Texts of numbers, with the value that all their digits give. -/
inductive NumeralText : List Char → Rat → Prop
  | whole {ds : List Char} : Digits ds → NumeralText ds (digitsValue ds)
  | point {ds fs : List Char} : Digits ds → Digits fs →
      NumeralText (ds ++ '.' :: fs) (digitsValue ds + digitsValue fs / 10 ^ fs.length)

/-- Texts of names: one or more of the letters from `a` to `z`, in lower or upper case. -/
def Letters (cs : List Char) : Prop :=
  cs ≠ [] ∧ ∀ c ∈ cs, ('a' ≤ c ∧ c ≤ 'z') ∨ ('A' ≤ c ∧ c ≤ 'Z')

theorem isName_iff_letters (cs : List Char) : isName cs = true ↔ Letters cs := by
  have hc (c : Char) : isLetter c = true ↔ ('a' ≤ c ∧ c ≤ 'z') ∨ ('A' ≤ c ∧ c ≤ 'Z') := by
    simp only [isLetter, Bool.or_eq_true, Bool.and_eq_true, decide_eq_true_eq, Char.le_def,
      UInt32.le_iff_toNat_le, Char.toNat]
    exact or_comm
  simp [isName, Letters, hc]

theorem digitsValue_lt {cs : List Char} (h : ∀ c ∈ cs, isDigit c = true) :
    digitsValue cs < 10 ^ cs.length := by
  induction cs using List.reverseRecOn with
  | nil => decide
  | append_singleton cs c ih =>
    have hv := ih fun d hd => h d (List.mem_append_left _ hd)
    have hc : digitsValue [c] < 10 := by
      have hd := h c (by simp)
      simp only [isDigit, Bool.and_eq_true, decide_eq_true_eq] at hd
      simp only [digitsValue, digitValue, List.foldl_cons, List.foldl_nil]
      omega
    rw [digitsValue_append, List.length_append, List.length_singleton, pow_succ]
    omega

namespace Number

theorem ofDigits_eq_floor (whole : List Char) {fraction : List Char}
    (h : ∀ c ∈ fraction, isDigit c = true) :
    ofDigits whole fraction = ofUnits
      ⌊(scale : Rat) * (digitsValue whole + digitsValue fraction / 10 ^ fraction.length)⌋₊ := by
  obtain ⟨kept, hk⟩ : ∃ kept, kept = fraction.take places := ⟨_, rfl⟩
  obtain ⟨dropped, hd⟩ : ∃ dropped, dropped = fraction.drop places := ⟨_, rfl⟩
  have hf : fraction = kept ++ dropped := by rw [hk, hd, List.take_append_drop]
  have hkl : kept.length ≤ places := by rw [hk]; exact List.length_take_le _ _
  have hx : digitsValue dropped < 10 ^ dropped.length := by
    apply digitsValue_lt
    intro c hc
    exact h c (hf ▸ List.mem_append_right _ hc)
  -- Either nothing is dropped, or the kept digits fill all the places.
  have hlt : digitsValue dropped * 10 ^ (places - kept.length) < 10 ^ dropped.length := by
    rcases Nat.lt_or_ge fraction.length places with hl | hl
    · have hn : dropped = [] := by rw [hd]; exact List.drop_of_length_le hl.le
      rw [hn]
      simp [digitsValue]
    · have hn : kept.length = places := by rw [hk, List.length_take]; omega
      rw [hn, Nat.sub_self, pow_zero, Nat.mul_one]
      exact hx
  have hs : scale = 10 ^ (places - kept.length) * 10 ^ kept.length := by
    rw [← pow_add, Nat.sub_add_cancel hkl]
    rfl
  have hq : (scale : Rat) * (digitsValue whole + digitsValue fraction / 10 ^ fraction.length) =
      ((digitsValue (whole ++ kept) * 10 ^ (places - kept.length) * 10 ^ dropped.length
        + digitsValue dropped * 10 ^ (places - kept.length) : Nat) : Rat)
        / (10 ^ dropped.length : Nat) := by
    rw [hf, hs, digitsValue_append, digitsValue_append, List.length_append]
    push_cast
    field_simp
    ring
  rw [ofDigits_eq_ofUnits, ← hk, hq, Nat.floor_div_eq_div, Nat.add_comm,
    Nat.add_mul_div_right _ _ (by positivity), Nat.div_eq_of_lt hlt, Nat.zero_add]

theorem digits_takeWhile {cs : List Char} (h : cs.takeWhile isDigit ≠ []) :
    Digits (cs.takeWhile isDigit) :=
  ⟨h, fun _ hc => List.mem_takeWhile_imp hc⟩

theorem exists_digits_of_parse? {cs : List Char} {n : Number} (h : parse? cs = some n) :
    (Digits cs ∧ n = ofDigits cs []) ∨
      ∃ ds fs, cs = ds ++ '.' :: fs ∧ Digits ds ∧ Digits fs ∧ n = ofDigits ds fs := by
  have hcs : cs = cs.takeWhile isDigit ++ cs.dropWhile isDigit :=
    List.takeWhile_append_dropWhile.symm
  simp only [parse?] at h
  split at h
  · next hd =>
    have hw : cs.takeWhile isDigit = cs := by simpa [hd] using hcs.symm
    split at h
    · simp at h
    · next hne =>
      have hds := digits_takeWhile (by simpa using hne)
      rw [hw] at hds h
      exact .inl ⟨hds, by simpa using h.symm⟩
  · next c fs hd =>
    rw [hd] at hcs
    split at h
    · next hp =>
      obtain ⟨rfl, hw, hf, hfd⟩ := hp
      refine .inr ⟨_, fs, hcs, digits_takeWhile hw, ⟨hf, List.all_eq_true.mp hfd⟩, ?_⟩
      simpa using h.symm
    · simp at h

theorem parse?_eq_some_iff {cs : List Char} {n : Number} :
    parse? cs = some n ↔ ∃ r, NumeralText cs r ∧ n = ofUnits ⌊scale * r⌋₊ := by
  have hwhole (ds : List Char) : ofDigits ds [] = ofUnits ⌊(scale : Rat) * digitsValue ds⌋₊ := by
    simpa [digitsValue] using @ofDigits_eq_floor ds [] (by simp)
  constructor
  · intro h
    rcases exists_digits_of_parse? h with ⟨hd, hn⟩ | ⟨ds, fs, rfl, hd, hf, hn⟩
    · exact ⟨_, .whole hd, by rw [hn, hwhole]⟩
    · exact ⟨_, .point hd hf, by rw [hn, ofDigits_eq_floor ds hf.2]⟩
  · rintro ⟨r, ht, rfl⟩
    cases ht with
    | whole hd => rw [parse?_whole hd.1 hd.2, hwhole]
    | @point ds fs hd hf => rw [parse?_point hd.1 hf.1 hd.2 hf.2, ofDigits_eq_floor ds hf.2]

end Number

open Json (Members)

/-- Objects with the expressions that they denote. A number is cut off after its last place; the
digits of a float are those of its shortest decimal. -/
inductive Describes : Members → Expr → Prop
  | numeral {m : Members} {s : String} {r : Rat} : m.get? "type" = some (.string "number") →
      m.get? "value" = some (.string s) → NumeralText s.toList r →
      Describes m (.num (.ofUnits ⌊Number.scale * r⌋₊))
  | float {m : Members} {x : Binary64} : m.get? "type" = some (.string "number") →
      m.get? "value" = some (.number x) → x.isFinite = true → 0 ≤ x.toRat →
      Describes m (.num (.ofUnits
        ⌊Number.scale * mkRat x.shortest.numerator x.shortest.denominator⌋₊))
  | named {m : Members} {s : String} : m.get? "type" = some (.string "variable") →
      m.get? "name" = some (.string s) → Letters s.toList → Describes m (.var s)
  | operator {op : Operator} {m ml mr : Members} {l r : Expr} :
      m.get? "type" = some (.string op.label) →
      m.get? "left" = some (.object ml) → m.get? "right" = some (.object mr) →
      Describes ml l → Describes mr r → Describes m (op.apply l r)

namespace Expr

def Form.label : Form → String
  | .number => "number"
  | .named => "variable"
  | .operator op => op.label

theorem form_eq_ok_iff {m : Members} {f : Form} :
    form m = .ok f ↔ m.get? "type" = some (.string f.label) := by
  constructor
  · intro h
    unfold form at h
    split at h
    · simp at h
    · next label hg =>
      rw [hg]
      split_ifs at h with _ hn hv hs hp
      all_goals
        cases h
        simpa [Form.label, Operator.label]
    · simp at h
  · intro h
    cases f with
    | number => simp [form, h, Form.label]
    | named => simp [form, h, Form.label]
    | operator op => cases op <;> simp [form, h, Form.label, Operator.label]

theorem ofNumeral_eq_ok_iff {s : String} {e : Expr} :
    ofNumeral (Text.ofString s) = .ok e ↔
      ∃ r, NumeralText s.toList r ∧ e = .num (.ofUnits ⌊Number.scale * r⌋₊) := by
  rw [ofNumeral, Text.chars_ofString]
  constructor
  · intro h
    split at h
    · next n hn =>
      obtain ⟨r, ht, rfl⟩ := Number.parse?_eq_some_iff.mp hn
      exact ⟨r, ht, by simpa using h.symm⟩
    · simp at h
  · rintro ⟨r, ht, rfl⟩
    rw [Number.parse?_eq_some_iff.mpr ⟨r, ht, rfl⟩]

theorem ofBinary64_eq_ok_iff {x : Binary64} {e : Expr} :
    ofBinary64 x = .ok e ↔ (x.isFinite = true ∧ 0 ≤ x.toRat) ∧ e = .num (.ofUnits
      ⌊Number.scale * mkRat x.shortest.numerator x.shortest.denominator⌋₊) := by
  have hn : (0 : Rat) ≤ mkRat x.shortest.numerator x.shortest.denominator := by
    rw [Rat.mkRat_eq_div]
    positivity
  rw [← Number.ofRat_eq_ofUnits hn, ← Number.isSome_ofBinary64?_iff, ofBinary64, Number.ofBinary64?]
  split_ifs
  · simp [Number.ofDecimal, eq_comm]
  · simp

theorem ofName_eq_ok_iff {s : String} {e : Expr} :
    ofName (Text.ofString s) = .ok e ↔ Letters s.toList ∧ e = .var s := by
  rw [← isName_iff_letters, ofName, Text.chars_ofString, String.ofList_toList]
  split_ifs with h
  · simp [h, eq_comm]
  · simp [h]

theorem decodeNumber_eq_ok_iff {m : Members} {e : Expr} :
    decodeNumber m = .ok e ↔
      (∃ s r, m.get? "value" = some (.string s) ∧ NumeralText s.toList r ∧
        e = .num (.ofUnits ⌊Number.scale * r⌋₊)) ∨
      ∃ x, m.get? "value" = some (.number x) ∧ (x.isFinite = true ∧ 0 ≤ x.toRat) ∧
        e = .num (.ofUnits
          ⌊Number.scale * mkRat x.shortest.numerator x.shortest.denominator⌋₊) := by
  unfold decodeNumber
  split
  · next h => simp [h]
  · next h => simp [h]
  · next s h => simp [h, ofNumeral_eq_ok_iff]
  · next x h => simp [h, ofBinary64_eq_ok_iff]
  · next v _ hns hnn h =>
    simp only [reduceCtorEq, h, false_iff, not_or, not_exists, not_and]
    constructor
    · intro s r hv
      exact absurd hv (by simpa using hns s)
    · intro x hv
      exact absurd hv (by simpa using hnn x)

theorem decodeName_eq_ok_iff {m : Members} {e : Expr} :
    decodeName m = .ok e ↔
      ∃ s, m.get? "name" = some (.string s) ∧ Letters s.toList ∧ e = .var s := by
  unfold decodeName
  split
  · next h => simp [h]
  · next s h => simp [h, ofName_eq_ok_iff]
  · next v hn h =>
    simp only [reduceCtorEq, h, false_iff, not_exists, not_and]
    exact fun s hv => absurd hv (by simpa using hn s)

theorem decode_eq_ok_iff_describes {m : Members} {e : Expr} :
    decode m = .ok e ↔ Describes m e := by
  rw [decode_eq_ok_iff]
  simp only [form_eq_ok_iff, decodeNumber_eq_ok_iff, decodeName_eq_ok_iff]
  constructor
  · rintro (⟨ht, ⟨s, r, hv, hn, rfl⟩ | ⟨x, hv, ⟨hf, hp⟩, rfl⟩⟩ | ⟨ht, s, hv, hl, rfl⟩ |
      ⟨op, l, r, ml, mr, ht, hml, hl, hmr, hr, rfl⟩)
    · exact .numeral ht hv hn
    · exact .float ht hv hf hp
    · exact .named ht hv hl
    · have := sizeOf_get?_lt hml
      have := sizeOf_get?_lt hmr
      exact .operator ht hml hmr (decode_eq_ok_iff_describes.mp hl)
        (decode_eq_ok_iff_describes.mp hr)
  · intro h
    cases h with
    | numeral ht hv hn => exact .inl ⟨ht, .inl ⟨_, _, hv, hn, rfl⟩⟩
    | float ht hv hf hp => exact .inl ⟨ht, .inr ⟨_, hv, ⟨hf, hp⟩, rfl⟩⟩
    | named ht hv hl => exact .inr (.inl ⟨ht, _, hv, hl, rfl⟩)
    | @operator op m ml mr l r ht hml hmr hl hr =>
      have := sizeOf_get?_lt hml
      have := sizeOf_get?_lt hmr
      exact .inr (.inr ⟨op, l, r, ml, mr, ht, hml, decode_eq_ok_iff_describes.mpr hl, hmr,
        decode_eq_ok_iff_describes.mpr hr, rfl⟩)
termination_by sizeOf m

/-- The keys that a node of the given `type` has a use for. -/
def keysOf : Option Json → List String
  | some (.string "number") => ["type", "value"]
  | some (.string "variable") => ["type", "name"]
  | some (.string "sum") => ["type", "left", "right"]
  | some (.string "product") => ["type", "left", "right"]
  | _ => ["type"]

/-- One change to a document that leaves alone, at every node, the keys the node has a use for. At
the changed node itself any other keys are added, removed or altered, whatever they hold. -/
inductive Edit : Members → Members → Prop
  | here {m m' : Members} : (∀ k ∈ keysOf (m.get? "type"), m'.get? k = m.get? k) → Edit m m'
  | inside {m m' inner inner' : Members} (side : Side) : m.get? side.label = some (.object inner) →
      m'.get? side.label = some (.object inner') → Edit inner inner' →
      (∀ k ≠ side.label, m'.get? k = m.get? k) → Edit m m'

def decodeOperand (op : Operator) (side : Side) : Option Json → Except DecodeError Expr
  | none => .error (.missingOperand op side)
  | some (.object inner) => (decode inner).mapError (.within op side)
  | some _ => .error (.badOperand op side)

theorem operand_decode (op : Operator) (side : Side) (m : Members) :
    operand op side m (fun inner _ => decode inner) =
      decodeOperand op side (m.get? side.label) := by
  unfold operand
  split
  · next h => simp only [h, decodeOperand]
  · next inner h => simp only [h, decodeOperand]
  · next v hn h =>
    cases v with
    | object inner => exact absurd rfl (hn inner)
    | _ => simp only [h, decodeOperand]

theorem form_congr {m m' : Members} (h : m'.get? "type" = m.get? "type") : form m' = form m := by
  simp only [form, h]

theorem decode_congr {m m' : Members} (ht : m'.get? "type" = m.get? "type")
    (hn : form m = .ok .number → m'.get? "value" = m.get? "value")
    (hv : form m = .ok .named → m'.get? "name" = m.get? "name")
    (ho : ∀ op side, form m = .ok (.operator op) →
      decodeOperand op side (m'.get? side.label) = decodeOperand op side (m.get? side.label)) :
    decode m' = decode m := by
  rw [decode, decode, form_congr ht]
  simp only [operand_decode]
  cases hf : form m with
  | error d => rfl
  | ok f =>
    cases f with
    | number => simp only [bind, Except.bind, decodeNumber, hn hf]
    | named => simp only [bind, Except.bind, decodeName, hv hf]
    | operator op => simp only [bind, Except.bind, ho op _ hf]

def Form.keys : Form → List String
  | .number => ["type", "value"]
  | .named => ["type", "name"]
  | .operator _ => ["type", "left", "right"]

theorem keysOf_of_form {m : Members} {f : Form} (h : form m = .ok f) :
    keysOf (m.get? "type") = f.keys := by
  rw [form_eq_ok_iff.mp h]
  cases f with
  | number => rfl
  | named => rfl
  | operator op => cases op <;> rfl

theorem type_mem_keysOf (v : Option Json) : "type" ∈ keysOf v := by
  unfold keysOf
  split <;> simp

theorem Edit.decode_eq {m m' : Members} (h : Edit m m') : decode m' = decode m := by
  induction h with
  | @here m m' h =>
    apply decode_congr (h _ (type_mem_keysOf _))
    · intro hf
      exact h _ (by simp [keysOf_of_form hf, Form.keys])
    · intro hf
      exact h _ (by simp [keysOf_of_form hf, Form.keys])
    · intro op side hf
      rw [h side.label (by cases side <;> simp [keysOf_of_form hf, Form.keys, Side.label])]
  | @inside m m' inner inner' side hi hi' _ hk ih =>
    have hne (key : String) (h : key ∉ ["left", "right"]) : m'.get? key = m.get? key := by
      apply hk
      rintro rfl
      cases side <;> simp [Side.label] at h
    apply decode_congr (hne "type" (by decide))
    · intro _
      exact hne "value" (by decide)
    · intro _
      exact hne "name" (by decide)
    · intro op side' _
      by_cases hs : side' = side
      · subst hs
        rw [hi, hi', decodeOperand, decodeOperand, ih]
      · rw [hk side'.label (by cases side <;> cases side' <;> simp_all [Side.label])]

theorem get?_put (m : Members) (key : String) (v : Json) (k : String) :
    (m ++ [(key, v)]).get? k = if key = k then some v else m.get? k := by
  induction m with
  | nil => simp [Members.get?]
  | cons kv m ih =>
    obtain ⟨k', v'⟩ := kv
    rw [List.cons_append, Members.get?, ih, Members.get?]
    split_ifs <;> rfl

theorem get?_erase (m : Members) {key k : String} (h : k ≠ key) :
    Members.get? k (m.filter (·.1 ≠ key)) = m.get? k := by
  induction m with
  | nil => rfl
  | cons kv m ih =>
    obtain ⟨k', v⟩ := kv
    by_cases hk : k' = key
    · have hne : ¬ k' = k := fun he => h (he.symm.trans hk)
      rw [List.filter_cons_of_neg (by simp [hk]), ih, Members.get?]
      cases Members.get? k m with
      | none => simp [hne]
      | some w => rfl
    · rw [List.filter_cons_of_pos (by simp [hk]), Members.get?, ih, Members.get?]

theorem Edit.put {m : Members} {key : String} (h : key ∉ keysOf (m.get? "type")) (v : Json) :
    Edit m (m ++ [(key, v)]) := by
  apply Edit.here
  intro k hk
  rw [get?_put, if_neg]
  rintro rfl
  exact h hk

theorem Edit.erase {m : Members} {key : String} (h : key ∉ keysOf (m.get? "type")) :
    Edit m (m.filter (·.1 ≠ key)) := by
  apply Edit.here
  intro k hk
  apply get?_erase
  rintro rfl
  exact h hk

theorem Edit.operand {m inner inner' : Members} {side : Side}
    (h : m.get? side.label = some (.object inner)) (hi : Edit inner inner') :
    Edit m (m ++ [(side.label, .object inner')]) := by
  refine .inside side h ?_ hi ?_
  · rw [get?_put, if_pos rfl]
  · intro k hk
    rw [get?_put, if_neg (Ne.symm hk)]

/-- An object decodes exactly if it denotes an expression, and then to that expression. What becomes
of it, an expression or an error, stays the same however often keys that a node has no use for are
put, overwritten or erased anywhere in it. -/
theorem decode_language (m : Members) :
    (∀ e, decode m = .ok e ↔ Describes m e) ∧
      (∀ m', Relation.ReflTransGen Edit m m' → decode m' = decode m) ∧
      (∀ key ∉ keysOf (m.get? "type"),
        (∀ v, Edit m (m ++ [(key, v)])) ∧ Edit m (m.filter (·.1 ≠ key))) ∧
      ∀ (side : Side) (inner inner' : Members), m.get? side.label = some (.object inner) →
        Edit inner inner' → Edit m (m ++ [(side.label, .object inner')]) := by
  refine ⟨fun e => decode_eq_ok_iff_describes, ?_, ?_, ?_⟩
  · intro m' h
    induction h with
    | refl => rfl
    | tail _ he ih => rw [he.decode_eq, ih]
  · intro key h
    exact ⟨Edit.put h, Edit.erase h⟩
  · intro side inner inner' h hi
    exact Edit.operand h hi

theorem decode_language_annotated_sum :
    decode ([("type", .string "sum"),
        ("left", .object [("type", .string "number"), ("value", .string "01.00009")]),
        ("right", .object [("type", .string "variable"), ("name", .string "x")])] ++
      [("left", .object ([("type", .string "number"), ("value", .string "01.00009")] ++
        [("name", .array [])]))]) = .ok (.sum (.num .one) (.var "x")) := by
  have hd := (decode_language [("type", .string "sum"),
    ("left", .object [("type", .string "number"), ("value", .string "01.00009")]),
    ("right", .object [("type", .string "variable"), ("name", .string "x")])])
  rw [hd.2.1]
  · rw [hd.1]
    have hv : NumeralText "01.00009".toList (1 + 9 / 10 ^ 5) := by
      have hw : Digits ['0', '1'] := ⟨by simp, by simp [isDigit]⟩
      have hf : Digits ['0', '0', '0', '0', '9'] := ⟨by simp, by simp [isDigit]⟩
      exact NumeralText.point hw hf
    have hu : ⌊(Number.scale : Rat) * (1 + 9 / 10 ^ 5)⌋₊ = Number.scale := by
      rw [Nat.floor_eq_iff (by positivity)]
      norm_num [Number.scale]
    have hl : Describes [("type", .string "number"), ("value", .string "01.00009")]
        (.num (.ofUnits Number.scale)) := hu ▸ .numeral rfl rfl hv
    have hr : Describes [("type", .string "variable"), ("name", .string "x")] (.var "x") :=
      .named rfl rfl ⟨by simp, by simp⟩
    exact @Describes.operator .sum _ _ _ _ _ rfl rfl rfl hl hr
  · apply Relation.ReflTransGen.single
    apply hd.2.2.2 .left _ _ rfl
    exact Edit.put (by decide) _

end Expr

end Symbolic
