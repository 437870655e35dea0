import Mathlib.Algebra.Group.Nat.Defs
import Mathlib.Data.List.Sort
import Mathlib.Tactic.SplitIfs
import Symbolic.Proofs.FreeNames
import Symbolic.Text.Bytes

/-!
The order in which names are listed. They are compared by code points, and that is to compare their
bytes in UTF-8: of two characters the smaller one has the smaller byte at the first place where their
bytes differ, and there is such a place. A walk lists names so that they increase in this order.
-/

namespace Symbolic

namespace Bytes

section Encoding

/-- How many bytes follow the leading byte of a character, and what marks that byte. -/
def form (v : Nat) : Nat × Nat :=
  if v ≤ 127 then (0, 0) else if v ≤ 2047 then (1, 192) else if v ≤ 65535 then (2, 224) else (3, 240)

def lead (v : Nat) : Nat :=
  v / 64 ^ (form v).1 + (form v).2

def continuation (v : Nat) : Nat → Bytes
  | 0 => []
  | k + 1 => UInt8.ofNat (v / 64 ^ k % 64 + 128) :: continuation v k

theorem val_toNat_lt (c : Char) : c.val.toNat < 0x110000 := by
  have h := c.valid
  simp only [UInt32.isValidChar, Nat.isValidChar] at h
  omega

theorem utf8EncodeChar_eq_lead_cons (c : Char) :
    String.utf8EncodeChar c =
      UInt8.ofNat (lead c.val.toNat) :: continuation c.val.toNat (form c.val.toNat).1 := by
  have hc := val_toNat_lt c
  simp only [String.utf8EncodeChar]
  generalize c.val.toNat = v at *
  rw [lead, form]
  split_ifs
  · simp [continuation]
  · simp [continuation, Nat.mod_eq_of_lt (show v / 64 < 32 by omega)]
  · simp [continuation, Nat.mod_eq_of_lt (show v / 4096 < 16 by omega)]
  · simp [continuation, Nat.mod_eq_of_lt (show v / 262144 < 8 by omega)]

variable {m n : Nat}

theorem ofNat_lt_ofNat (h : m < n) (hn : n < 256) : UInt8.ofNat m < UInt8.ofNat n := by
  have hm : m < 256 := by omega
  simpa [UInt8.lt_iff_toNat_lt, Nat.mod_eq_of_lt, hm, hn] using h

theorem lead_lt (h : n < 0x110000) : lead n < 256 := by
  simp only [lead, form]
  split_ifs
  all_goals
    dsimp only
    omega

theorem lead_lt_or_eq (h : m < n) :
    lead m < lead n ∨ lead m = lead n ∧ form m = form n ∧
      m / 64 ^ (form n).1 = n / 64 ^ (form n).1 := by
  simp only [lead, form]
  split_ifs
  all_goals
    simp only [Prod.mk.injEq, true_and]
    omega

/-- If the bits that come before are the same, the bytes that follow decide. -/
theorem continuation_append_lt {k : Nat} (hq : m / 64 ^ k = n / 64 ^ k) (h : m < n) (r s : Bytes) :
    continuation m k ++ r < continuation n k ++ s := by
  induction k with
  | zero =>
    rw [Nat.pow_zero, Nat.div_one, Nat.div_one] at hq
    omega
  | succ k ih =>
    have hle : m / 64 ^ k ≤ n / 64 ^ k := Nat.div_le_div_right (Nat.le_of_lt h)
    rw [Nat.pow_succ, ← Nat.div_div_eq_div_mul, ← Nat.div_div_eq_div_mul] at hq
    rw [continuation, continuation, List.cons_append, List.cons_append, List.cons_lt_cons_iff]
    by_cases he : m / 64 ^ k = n / 64 ^ k
    · exact .inr ⟨by rw [he], ih he⟩
    · exact .inl (ofNat_lt_ofNat (by omega) (by omega))

theorem utf8EncodeChar_append_lt {a b : Char} (h : a.toNat < b.toNat) (r s : Bytes) :
    String.utf8EncodeChar a ++ r < String.utf8EncodeChar b ++ s := by
  have hv : a.val.toNat < b.val.toNat := h
  rw [utf8EncodeChar_eq_lead_cons, utf8EncodeChar_eq_lead_cons, List.cons_append, List.cons_append,
    List.cons_lt_cons_iff]
  obtain hl | ⟨hl, hf, hq⟩ := lead_lt_or_eq hv
  · exact .inl (ofNat_lt_ofNat hl (lead_lt (val_toNat_lt b)))
  · rw [hl, hf]
    exact .inr ⟨rfl, continuation_append_lt hq hv r s⟩

end Encoding

theorem flatMap_lt_of_nameBefore {cs ds : List Char} (h : nameBefore cs ds = true) :
    cs.flatMap String.utf8EncodeChar < ds.flatMap String.utf8EncodeChar := by
  fun_induction nameBefore cs ds with
  | case1 => cases h
  | case2 d ds =>
    obtain ⟨b, bs, hb⟩ := List.exists_cons_of_ne_nil (@String.utf8EncodeChar_ne_nil d)
    rw [List.flatMap_cons, hb]
    exact List.nil_lt_cons _ _
  | case3 c cs d ds ih =>
    rw [List.flatMap_cons, List.flatMap_cons]
    rw [Bool.or_eq_true, Bool.and_eq_true, decide_eq_true_eq, decide_eq_true_eq] at h
    obtain hlt | ⟨rfl, hr⟩ := h
    · exact utf8EncodeChar_append_lt hlt _ _
    · exact List.append_left_lt (ih hr)

theorem ofString_lt_of_nameBefore {x y : String} (h : nameBefore x.toList y.toList = true) :
    ofString x < ofString y :=
  flatMap_lt_of_nameBefore h

end Bytes

theorem nameBefore_or_nameBefore {cs ds : List Char} (h : cs ≠ ds) :
    nameBefore cs ds = true ∨ nameBefore ds cs = true := by
  induction cs generalizing ds with
  | nil =>
    cases ds with
    | nil => exact absurd rfl h
    | cons d ds => exact .inl rfl
  | cons c cs ih =>
    cases ds with
    | nil => exact .inr rfl
    | cons d ds =>
      simp only [nameBefore, Bool.or_eq_true, Bool.and_eq_true, decide_eq_true_eq]
      by_cases hcd : c = d
      · subst hcd
        have hne : cs ≠ ds := fun he => h (by rw [he])
        exact (ih hne).imp (fun hr => .inr ⟨rfl, hr⟩) fun hr => .inr ⟨rfl, hr⟩
      · have hn : c.toNat ≠ d.toNat := fun he => hcd (Char.toNat_inj.mp he)
        exact (Nat.lt_or_gt_of_ne hn).imp .inl .inl

/-- Each name is before all that follow, in the order of their bytes. -/
def Increasing (names : List String) : Prop :=
  names.Pairwise fun x y => Bytes.ofString x < Bytes.ofString y

namespace Increasing
variable {names others : List String}

theorem insertName (h : Increasing names) (x : String) : Increasing (insertName x names) := by
  induction names with
  | nil => exact List.pairwise_singleton _ x
  | cons y names ih =>
    obtain ⟨hy, ht⟩ := List.pairwise_cons.mp h
    rw [Symbolic.insertName]
    split_ifs with hxy hlt
    · exact h
    · have hx := Bytes.ofString_lt_of_nameBefore hlt
      refine List.pairwise_cons.mpr ⟨?_, h⟩
      intro z hz
      obtain rfl | hz := List.mem_cons.mp hz
      · exact hx
      · exact List.lt_trans hx (hy z hz)
    · have hne : x.toList ≠ y.toList := fun he => hxy (String.toList_injective he)
      have hx := Bytes.ofString_lt_of_nameBefore ((nameBefore_or_nameBefore hne).resolve_left hlt)
      refine List.pairwise_cons.mpr ⟨?_, ih ht⟩
      intro z hz
      obtain rfl | hz := mem_insertName.mp hz
      · exact hx
      · exact hy z hz

theorem foldl_insertName (h : Increasing names) (xs : List String) :
    Increasing (xs.foldl (fun names x => Symbolic.insertName x names) names) := by
  induction xs generalizing names with
  | nil => exact h
  | cons x xs ih => exact ih (h.insertName x)

instance : Std.Irrefl fun x y : String => Bytes.ofString x < Bytes.ofString y :=
  ⟨fun _ => List.lt_irrefl _⟩

instance : Std.Antisymm fun x y : String => Bytes.ofString x < Bytes.ofString y :=
  ⟨fun _ _ h h' => absurd (List.lt_trans h h') (List.lt_irrefl _)⟩

theorem sublist_of_subset (h : Increasing names) (h' : Increasing others) (hs : names ⊆ others) :
    names.Sublist others :=
  List.sublist_of_subperm_of_pairwise (List.subperm_of_subset h.nodup hs) h h'

end Increasing

theorem Expr.increasing_freeNames (e : Expr) : Increasing e.freeNames :=
  Increasing.foldl_insertName List.Pairwise.nil _

end Symbolic
