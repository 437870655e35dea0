/-!
Letters and white space; byte strings and their reading as UTF-8. A byte that starts no well-formed
character is kept as a stray byte, so that nothing of the input is lost: `text` reads every byte
exactly once.
-/

namespace Symbolic

def isLetter (c : Char) : Bool :=
  (0x41 ≤ c.toNat && c.toNat ≤ 0x5A) || (0x61 ≤ c.toNat && c.toNat ≤ 0x7A)

/-- The code points with the property White_Space. -/
def isBlank (c : Char) : Bool :=
  ('\t' ≤ c && c ≤ '\r') || c = ' ' || c = '\u0085' || c = '\u00a0' || c = '\u1680'
    || ('\u2000' ≤ c && c ≤ '\u200a') || c = '\u2028' || c = '\u2029' || c = '\u202f'
    || c = '\u205f' || c = '\u3000'

def trimBlank (s : String) : String :=
  String.ofList ((s.toList.dropWhile isBlank).reverse.dropWhile isBlank).reverse

abbrev Bytes := List UInt8

/-- What stands at one place of a text: a character, or a byte that belongs to none. -/
inductive Glyph where
  | char (c : Char)
  | stray (b : UInt8)
deriving DecidableEq, Repr

abbrev Text := List Glyph

namespace Text

def ofString (s : String) : Text :=
  s.toList.map .char

/-- The characters of a text, with U+FFFD for every stray byte. -/
def chars (t : Text) : List Char :=
  t.map fun
    | .char c => c
    | .stray _ => '\uFFFD'

@[simp]
theorem chars_ofString (s : String) : (ofString s).chars = s.toList := by
  simp [ofString, chars, Function.comp_def]

end Text

namespace Bytes

def ofString (s : String) : Bytes :=
  s.toList.flatMap String.utf8EncodeChar

def payload? (b : UInt8) : Option Nat :=
  if 0x80 ≤ b ∧ b < 0xC0 then some (b.toNat - 0x80) else none

def continue? : Nat → Nat → Bytes → Option (Nat × Bytes)
  | 0, acc, r => some (acc, r)
  | _ + 1, _, [] => none
  | n + 1, acc, b :: r =>
    match payload? b with
    | some x => continue? n (acc * 64 + x) r
    | none => none

/-- How many bytes follow a leading byte, the bits it carries itself, and the least code point that
needs this many bytes. -/
def lead? (b : UInt8) : Option (Nat × Nat × Nat) :=
  if b < 0x80 then some (0, b.toNat, 0)
  else if b < 0xC0 then none
  else if b < 0xE0 then some (1, b.toNat - 0xC0, 0x80)
  else if b < 0xF0 then some (2, b.toNat - 0xE0, 0x800)
  else if b < 0xF8 then some (3, b.toNat - 0xF0, 0x10000)
  else none

/-- The well-formed character at the head: no overlong form, no surrogate, nothing past U+10FFFF. -/
def char? : Bytes → Option (Char × Bytes)
  | [] => none
  | b :: r => do
    let (n, high, least) ← lead? b
    let (v, rest) ← continue? n high r
    if least ≤ v ∧ v.isValidChar then some (Char.ofNat v, rest) else none

theorem length_of_continue? {n acc v : Nat} {r rest : Bytes} (h : continue? n acc r = some (v, rest)) :
    rest.length ≤ r.length := by
  induction n generalizing acc r with
  | zero => simp_all [continue?]
  | succ n ih =>
    cases r with
    | nil => simp [continue?] at h
    | cons b r =>
      cases hb : payload? b with
      | none => simp [continue?, hb] at h
      | some x =>
        rw [continue?, hb] at h
        exact Nat.le_succ_of_le (ih h)

theorem length_of_char? {b : UInt8} {r rest : Bytes} {c : Char} (h : char? (b :: r) = some (c, rest)) :
    rest.length ≤ r.length := by
  simp only [char?, Option.bind_eq_bind, Option.bind_eq_some_iff] at h
  obtain ⟨_, _, ⟨v, rest'⟩, hc, h⟩ := h
  split at h
  · obtain ⟨_, rfl⟩ : _ ∧ rest' = rest := by simpa using h
    exact length_of_continue? hc
  · simp at h

def text : Bytes → Text
  | [] => []
  | b :: r =>
    match _h : char? (b :: r) with
    | some (c, rest) => .char c :: text rest
    | none => .stray b :: text r
termination_by bs => bs.length
decreasing_by
  · have := length_of_char? ‹_›
    simp; omega
  · simp

def chars (bs : Bytes) : List Char :=
  bs.text.chars

end Bytes

end Symbolic
