import Mathlib.Data.Rat.Floor
import Mathlib.Tactic.FieldSimp
import Mathlib.Tactic.Ring
import Symbolic.Number

/-!
The grid of the numbers: the multiples of one unit of the last place that are not negative.
Truncation of a rational that is not negative is the floor of its units, whether or not the rational
is whole.
-/

namespace Symbolic.Number

def ofUnits (u : Nat) : Number :=
  ⟨mkRat u scale⟩

theorem toRat_ofUnits (u : Nat) : (ofUnits u).toRat = (u : Rat) / 10000 := by
  simp [ofUnits, scale, Rat.mkRat_eq_div]

theorem onGrid_ofUnits (u : Nat) : (ofUnits u).OnGrid := by
  have hu : (scale : Rat) * (ofUnits u).toRat = (u : Rat) := by
    rw [toRat_ofUnits, scale]
    push_cast
    ring
  refine ⟨?_, ?_⟩
  · rw [toRat_ofUnits]
    positivity
  · rw [hu]
    rfl

theorem OnGrid.exists_units {n : Number} (h : n.OnGrid) : ∃ u, n = ofUnits u := by
  obtain ⟨hn, hi⟩ := h
  have hq : (scale : Rat) * n.toRat = ((scale * n.toRat).num : Rat) := Rat.eq_num_of_isInt hi
  have hz : 0 ≤ ((scale : Rat) * n.toRat).num := by
    rw [Rat.num_nonneg, scale]
    positivity
  obtain ⟨u, hu⟩ := Int.eq_ofNat_of_zero_le hz
  refine ⟨u, ?_⟩
  have hr : n.toRat = (ofUnits u).toRat := by
    rw [hu, scale] at hq
    rw [toRat_ofUnits]
    push_cast at hq
    linarith
  cases n
  simpa [ofUnits] using hr

theorem truncate_eq_mkRat (r : Rat) : truncate r = mkRat ((r.num * scale).tdiv r.den) scale := by
  by_cases h : r.isInt
  · have hd : r.den = 1 := by simpa [Rat.isInt] using h
    have hr : r = (r.num : Rat) := Rat.eq_num_of_isInt h
    rw [truncate, if_pos h, hd, Nat.cast_one, Int.tdiv_one, Rat.mkRat_eq_div, scale]
    push_cast
    rw [mul_div_cancel_right₀ _ (by norm_num)]
    exact hr
  · rw [truncate, if_neg h]

theorem ofRat_eq_ofUnits {r : Rat} (h : 0 ≤ r) : ofRat r = ofUnits ⌊scale * r⌋₊ := by
  have hq : (scale : Rat) * r = ((r.num * scale : Int) : Rat) / r.den := by
    conv_lhs => rw [← Rat.num_div_den r]
    push_cast
    ring
  have hn : 0 ≤ r.num * (scale : Int) := mul_nonneg (Rat.num_nonneg.mpr h) (by simp)
  have hf : ((⌊(scale : Rat) * r⌋₊ : Nat) : Int) = (r.num * scale).tdiv r.den := by
    rw [Int.natCast_floor_eq_floor (mul_nonneg (by simp) h), hq, Rat.floor_intCast_div_natCast,
      Int.tdiv_eq_ediv_of_nonneg hn]
  rw [ofRat, ofUnits, truncate_eq_mkRat, hf]

theorem onGrid_ofRat {r : Rat} (h : 0 ≤ r) : (ofRat r).OnGrid := by
  rw [ofRat_eq_ofUnits h]
  exact onGrid_ofUnits _

theorem onGrid_zero : zero.OnGrid := by
  decide +kernel

theorem onGrid_one : one.OnGrid := by
  decide +kernel

theorem OnGrid.add {a b : Number} (ha : a.OnGrid) (hb : b.OnGrid) : (a.add b).OnGrid :=
  onGrid_ofRat (add_nonneg ha.1 hb.1)

theorem OnGrid.mul {a b : Number} (ha : a.OnGrid) (hb : b.OnGrid) : (a.mul b).OnGrid :=
  onGrid_ofRat (mul_nonneg ha.1 hb.1)

theorem onGrid_ofDecimal (d : Decimal) : (ofDecimal d).OnGrid := by
  apply onGrid_ofRat
  rw [Rat.mkRat_eq_div]
  positivity

theorem onGrid_of_ofBinary64? {x : Binary64} {n : Number} (h : ofBinary64? x = some n) :
    n.OnGrid := by
  unfold ofBinary64? at h
  split at h
  · obtain rfl : ofDecimal x.shortest = n := by simpa using h
    exact onGrid_ofDecimal _
  · simp at h

/-- Dropping digits of a text leaves whole units: fewer digits than there are places are filled up
by a power of ten. -/
theorem ofDigits_eq_ofUnits (whole fraction : List Char) :
    ofDigits whole fraction =
      ofUnits (digitsValue (whole ++ fraction.take places)
        * 10 ^ (places - (fraction.take places).length)) := by
  have hl : (fraction.take places).length ≤ places := by simp
  have hs : scale = 10 ^ (places - (fraction.take places).length)
      * 10 ^ (fraction.take places).length := by
    rw [← pow_add, Nat.sub_add_cancel hl]
    rfl
  simp only [ofDigits, ofUnits, Rat.mkRat_eq_div, hs]
  push_cast
  rw [mul_comm, mul_div_mul_left _ _ (by positivity)]
  simp

theorem onGrid_of_parse? {cs : List Char} {n : Number} (h : parse? cs = some n) : n.OnGrid := by
  have hd : ∀ whole fraction, (ofDigits whole fraction).OnGrid := by
    intro whole fraction
    rw [ofDigits_eq_ofUnits]
    exact onGrid_ofUnits _
  simp only [parse?] at h
  split at h
  · split at h
    · simp at h
    · obtain rfl : ofDigits _ _ = n := by simpa using h
      exact hd _ _
  · split at h
    · obtain rfl : ofDigits _ _ = n := by simpa using h
      exact hd _ _
    · simp at h

end Symbolic.Number
