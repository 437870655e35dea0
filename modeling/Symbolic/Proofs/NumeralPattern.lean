import Symbolic.Proofs.Positional

/-!
Numerals by a pattern: zeros, then the part that counts, which is one or more digits and after them
possibly a point with one to four digits, then more digits up to the end. The parts compete for the
same digits. Each takes as many as it can, the earlier ones first, and gives some back only if the
rest cannot be matched otherwise. So no digit before the point is ever dropped, none past the fourth
after it is kept, and the number of a numeral is the value of the part that counts.
-/

namespace Symbolic

/-- Patterns over characters. What is repeated is always a class of characters. -/
inductive Pattern where
  | one (p : Char → Bool)
  | many (p : Char → Bool)
  | maybe (a : Pattern)
  | seq (a b : Pattern)

namespace Pattern

inductive Matches : Pattern → List Char → Prop
  | one {p : Char → Bool} {c : Char} : p c = true → Matches (.one p) [c]
  | many {p : Char → Bool} {cs : List Char} : (∀ c ∈ cs, p c = true) → Matches (.many p) cs
  | none {a : Pattern} : Matches (.maybe a) []
  | some {a : Pattern} {cs : List Char} : Matches a cs → Matches (.maybe a) cs
  | seq {a b : Pattern} {cs ds : List Char} : Matches a cs → Matches b ds →
      Matches (.seq a b) (cs ++ ds)

section Matches
variable {p : Char → Bool} {a b : Pattern} {cs : List Char}

theorem matches_one_iff : (one p).Matches cs ↔ ∃ c, cs = [c] ∧ p c = true := by
  constructor
  · rintro ⟨h⟩
    exact ⟨_, rfl, h⟩
  · rintro ⟨c, rfl, h⟩
    exact .one h

theorem matches_many_iff : (many p).Matches cs ↔ ∀ c ∈ cs, p c = true := by
  constructor
  · rintro ⟨h⟩
    assumption
  · exact .many

theorem matches_maybe_iff : (maybe a).Matches cs ↔ cs = [] ∨ a.Matches cs := by
  constructor
  · intro h
    cases h with
    | none => exact .inl rfl
    | some h => exact .inr h
  · rintro (rfl | h)
    · exact .none
    · exact .some h

theorem matches_seq_iff :
    (seq a b).Matches cs ↔ ∃ t u, cs = t ++ u ∧ a.Matches t ∧ b.Matches u := by
  constructor
  · rintro ⟨⟩
    exact ⟨_, _, rfl, ‹_›, ‹_›⟩
  · rintro ⟨t, u, rfl, ha, hb⟩
    exact .seq ha hb

end Matches

def runs (p : Char → Bool) : List Char → List (List Char × List Char)
  | [] => [([], [])]
  | c :: cs =>
    (if p c then (runs p cs).map fun w => (c :: w.1, w.2) else []) ++ [([], c :: cs)]

/-- The ways to match the beginning of a text, in the order in which they are tried: what is taken,
and what follows it. -/
def ways : Pattern → List Char → List (List Char × List Char)
  | .one _, [] => []
  | .one p, c :: cs => if p c then [([c], cs)] else []
  | .many p, cs => runs p cs
  | .maybe a, cs => a.ways cs ++ [([], cs)]
  | .seq a b, cs =>
    (a.ways cs).flatMap fun w => (b.ways w.2).map fun w' => (w.1 ++ w'.1, w'.2)

theorem mem_runs {p : Char → Bool} {cs t r : List Char} :
    (t, r) ∈ runs p cs ↔ cs = t ++ r ∧ ∀ c ∈ t, p c = true := by
  induction cs generalizing t with
  | nil =>
    simp only [runs, List.mem_singleton, Prod.mk.injEq]
    constructor
    · rintro ⟨rfl, rfl⟩
      simp
    · rintro ⟨h, -⟩
      simpa using h.symm
  | cons c cs ih =>
    rw [runs, List.mem_append, List.mem_singleton]
    constructor
    · rintro (h | h)
      · by_cases hc : p c = true
        · rw [if_pos hc, List.mem_map] at h
          obtain ⟨⟨t', r'⟩, hm, he⟩ := h
          obtain ⟨rfl, rfl⟩ := Prod.mk.inj he
          obtain ⟨rfl, ht⟩ := ih.mp hm
          exact ⟨rfl, by simpa [hc] using ht⟩
        · simp [hc] at h
      · obtain ⟨rfl, rfl⟩ := Prod.mk.inj h
        simp
    · rintro ⟨h, ht⟩
      cases t with
      | nil => exact .inr (by rw [h]; rfl)
      | cons d t =>
        obtain ⟨rfl, rfl⟩ := List.cons.inj h
        refine .inl ?_
        rw [if_pos (ht c (by simp)), List.mem_map]
        exact ⟨(t, r), ih.mpr ⟨rfl, fun d hd => ht d (by simp [hd])⟩, rfl⟩

theorem mem_ways {a : Pattern} {cs t r : List Char} :
    (t, r) ∈ a.ways cs ↔ cs = t ++ r ∧ a.Matches t := by
  induction a generalizing cs t r with
  | one p =>
    rw [matches_one_iff]
    cases cs with
    | nil =>
      simp only [ways, List.not_mem_nil, false_iff]
      rintro ⟨h, c, rfl, -⟩
      cases h
    | cons c cs =>
      constructor
      · intro h
        by_cases hc : p c = true
        · obtain ⟨rfl, rfl⟩ : t = [c] ∧ r = cs := by simpa [ways, hc] using h
          exact ⟨rfl, c, rfl, hc⟩
        · simp [ways, hc] at h
      · rintro ⟨h, d, rfl, hd⟩
        obtain ⟨rfl, rfl⟩ := List.cons.inj h
        simp [ways, hd]
  | many p => rw [ways, mem_runs, matches_many_iff]
  | maybe a ih =>
    rw [ways, List.mem_append, List.mem_singleton, ih, matches_maybe_iff, Prod.mk.injEq]
    constructor
    · rintro (⟨h, hm⟩ | ⟨rfl, rfl⟩)
      · exact ⟨h, .inr hm⟩
      · exact ⟨rfl, .inl rfl⟩
    · rintro ⟨h, rfl | hm⟩
      · exact .inr ⟨rfl, h.symm⟩
      · exact .inl ⟨h, hm⟩
  | seq a b iha ihb =>
    simp only [ways, List.mem_flatMap, List.mem_map, Prod.exists, Prod.mk.injEq, iha, ihb,
      matches_seq_iff]
    constructor
    · rintro ⟨t, r, ⟨rfl, ha⟩, u, s, ⟨rfl, hb⟩, rfl, rfl⟩
      exact ⟨by rw [List.append_assoc], t, u, rfl, ha, hb⟩
    · rintro ⟨rfl, t, u, rfl, ha, hb⟩
      exact ⟨t, u ++ r, ⟨by rw [List.append_assoc], ha⟩, u, r, ⟨rfl, hb⟩, rfl, rfl⟩

def Prefers (a : Pattern) (cs t r : List Char) : Prop :=
  (a.ways cs).head? = some (t, r)

theorem Prefers.seq {a b : Pattern} {cs t r u s : List Char} (ha : a.Prefers cs t r)
    (hb : b.Prefers r u s) : (Pattern.seq a b).Prefers cs (t ++ u) s := by
  obtain ⟨ws, hws⟩ := List.head?_eq_some_iff.mp ha
  obtain ⟨ws', hws'⟩ := List.head?_eq_some_iff.mp hb
  simp [Prefers, ways, hws, hws']

theorem Prefers.maybe {a : Pattern} {cs t r : List Char} (h : a.Prefers cs t r) :
    (Pattern.maybe a).Prefers cs t r := by
  obtain ⟨ws, hws⟩ := List.head?_eq_some_iff.mp h
  simp [Prefers, ways, hws]

theorem prefers_one {p : Char → Bool} {c : Char} (h : p c = true) (cs : List Char) :
    (one p).Prefers (c :: cs) [c] cs := by
  simp [Prefers, ways, h]

theorem prefers_many {p : Char → Bool} {t r : List Char} (ht : ∀ c ∈ t, p c = true)
    (hr : ∀ c ∈ r.head?, p c = false) : (many p).Prefers (t ++ r) t r := by
  induction t with
  | nil =>
    cases r with
    | nil => rfl
    | cons c r => simp [Prefers, ways, runs, hr c rfl]
  | cons c t ih =>
    obtain ⟨ws, hws⟩ := List.head?_eq_some_iff.mp (ih fun d hd => ht d (by simp [hd]))
    rw [ways] at hws
    simp [Prefers, ways, runs, ht c (by simp), hws]

theorem prefers_maybe_of_ways_eq_nil {a : Pattern} {cs : List Char} (h : a.ways cs = []) :
    (maybe a).Prefers cs [] cs := by
  simp [Prefers, ways, h]

/-- What the first of two patterns takes if they match the whole text one after the other, in the
first way it tries that leaves a match of the second. -/
def leading? (group after : Pattern) (cs : List Char) : Option (List Char) :=
  (group.ways cs).findSome? fun w =>
    if (after.ways w.2).any fun w' => w'.2.isEmpty then some w.1 else none

/-- What the middle one of three patterns takes if they match the whole text one after the other, in
the first way the one before it tries that lets the other two match. -/
def captured? (before group after : Pattern) (cs : List Char) : Option (List Char) :=
  (before.ways cs).findSome? fun w => leading? group after w.2

theorem any_isEmpty_iff {a : Pattern} {cs : List Char} :
    ((a.ways cs).any fun w => w.2.isEmpty) = true ↔ a.Matches cs := by
  simp only [List.any_eq_true, List.isEmpty_iff, Prod.exists, mem_ways]
  constructor
  · rintro ⟨t, r, ⟨rfl, h⟩, rfl⟩
    rwa [List.append_nil]
  · intro h
    exact ⟨cs, [], ⟨(List.append_nil cs).symm, h⟩, rfl⟩

section Captured
variable {before group after : Pattern} {cs t : List Char}

theorem Prefers.leading?_eq {r : List Char} (h : group.Prefers cs t r) (ha : after.Matches r) :
    leading? group after cs = some t := by
  obtain ⟨ws, hws⟩ := List.head?_eq_some_iff.mp h
  rw [leading?, hws, List.findSome?_cons, if_pos (any_isEmpty_iff.mpr ha)]

theorem matches_of_leading? (h : leading? group after cs = some t) :
    ∃ r, cs = t ++ r ∧ group.Matches t ∧ after.Matches r := by
  obtain ⟨⟨t', r⟩, hm, hw⟩ := List.exists_of_findSome?_eq_some h
  split at hw
  · next ha =>
    obtain rfl : t' = t := Option.some.inj hw
    obtain ⟨hcs, hg⟩ := mem_ways.mp hm
    exact ⟨r, hcs, hg, any_isEmpty_iff.mp ha⟩
  · cases hw

theorem matches_of_captured? (h : captured? before group after cs = some t) :
    ∃ s r, cs = s ++ (t ++ r) ∧ before.Matches s ∧ group.Matches t ∧ after.Matches r := by
  obtain ⟨⟨s, r'⟩, hm, hl⟩ := List.exists_of_findSome?_eq_some h
  obtain ⟨rfl, hb⟩ := mem_ways.mp hm
  obtain ⟨r, rfl, hg, ha⟩ := matches_of_leading? hl
  exact ⟨s, r, rfl, hb, hg, ha⟩

/-- A character is given back only if nothing can be matched without it. -/
theorem captured?_many_cons {p : Char → Bool} {c : Char} (hc : p c = true) :
    captured? (many p) group after (c :: cs) =
      (captured? (many p) group after cs).or (leading? group after (c :: cs)) := by
  simp only [captured?, ways, runs, if_pos hc, List.findSome?_append, List.findSome?_map,
    List.findSome?_singleton]
  rfl

theorem captured?_many_of_head? {p : Char → Bool} (h : ∀ c ∈ cs.head?, p c = false) :
    captured? (many p) group after cs = leading? group after cs := by
  cases cs with
  | nil => simp [captured?, ways, runs]
  | cons c cs => simp [captured?, ways, runs, h c rfl]

end Captured

end Pattern

open Json (Digits)

namespace Number

def wholePattern : Pattern :=
  .seq (.one isDigit) (.many isDigit)

def digitsPattern : Nat → Pattern
  | 0 => .one isDigit
  | n + 1 => .seq (.one isDigit) (.maybe (digitsPattern n))

def keptPattern : Pattern :=
  .seq wholePattern (.maybe (.seq (.one (· = '.')) (digitsPattern 3)))

/-- What counts in a whole text, after the zeros that it may begin with and before the digits that
it may end with. -/
def kept? (cs : List Char) : Option (List Char) :=
  Pattern.captured? (.many (· = '0')) keptPattern (.many isDigit) cs

open Pattern

theorem matches_wholePattern_iff {cs : List Char} : wholePattern.Matches cs ↔ Digits cs := by
  simp only [wholePattern, matches_seq_iff, matches_one_iff, matches_many_iff]
  constructor
  · rintro ⟨t, ds, rfl, ⟨c, rfl, hc⟩, hd⟩
    exact ⟨by simp, by simpa [hc] using hd⟩
  · rintro ⟨hne, hd⟩
    obtain ⟨c, ds, rfl⟩ := List.exists_cons_of_ne_nil hne
    exact ⟨[c], ds, rfl, ⟨c, rfl, hd c (by simp)⟩, fun d hm => hd d (by simp [hm])⟩

theorem digits_of_matches {n : Nat} {cs : List Char} (h : (digitsPattern n).Matches cs) :
    Digits cs := by
  induction n generalizing cs with
  | zero =>
    obtain ⟨c, rfl, hc⟩ := matches_one_iff.mp h
    exact ⟨by simp, by simpa using hc⟩
  | succ n ih =>
    obtain ⟨t, u, rfl, ht, hu⟩ := matches_seq_iff.mp h
    obtain ⟨c, rfl, hc⟩ := matches_one_iff.mp ht
    obtain rfl | hm := matches_maybe_iff.mp hu
    · exact ⟨by simp, by simpa using hc⟩
    · exact ⟨by simp, by simpa [hc] using (ih hm).2⟩

theorem digits_append {a b c : List Char} (ha : ∀ d ∈ a, isDigit d = true) (hb : Digits b)
    (hc : ∀ d ∈ c, isDigit d = true) : Digits (a ++ (b ++ c)) := by
  refine ⟨by simp [hb.1], fun d hd => ?_⟩
  rw [List.mem_append, List.mem_append] at hd
  exact hd.elim (ha d) fun h => h.elim (hb.2 d) (hc d)

theorem exists_numeralText_of_kept? {cs t : List Char} (h : kept? cs = some t) :
    ∃ r, NumeralText cs r := by
  obtain ⟨s, r, rfl, hs, ht, hr⟩ := matches_of_captured? h
  obtain ⟨ds, f, rfl, hd, hf⟩ := matches_seq_iff.mp ht
  have hsd : ∀ c ∈ s, isDigit c = true := by
    intro c hc
    rw [of_decide_eq_true (matches_many_iff.mp hs c hc)]
    rfl
  have hdd : Digits ds := matches_wholePattern_iff.mp hd
  have hrd : ∀ c ∈ r, isDigit c = true := matches_many_iff.mp hr
  obtain rfl | hp := matches_maybe_iff.mp hf
  · rw [List.append_nil]
    exact ⟨_, .whole (digits_append hsd hdd hrd)⟩
  · obtain ⟨q, fs, rfl, hq, hfs⟩ := matches_seq_iff.mp hp
    obtain ⟨c, rfl, hc⟩ := matches_one_iff.mp hq
    obtain rfl := of_decide_eq_true hc
    have hw : Digits (s ++ ds) := by simpa using digits_append (c := []) hsd hdd (by simp)
    have hfr : Digits (fs ++ r) := by
      simpa using digits_append (a := []) (by simp) (digits_of_matches hfs) hrd
    have he : s ++ (ds ++ (['.'] ++ fs) ++ r) = (s ++ ds) ++ '.' :: (fs ++ r) := by simp
    rw [he]
    exact ⟨_, .point hw hfr⟩

theorem prefers_wholePattern {ds r : List Char} (hd : Digits ds)
    (hr : ∀ c ∈ r.head?, isDigit c = false) : wholePattern.Prefers (ds ++ r) ds r := by
  obtain ⟨c, ds, rfl⟩ := List.exists_cons_of_ne_nil hd.1
  exact (prefers_one (hd.2 c (by simp)) (ds ++ r)).seq
    (prefers_many (fun d hm => hd.2 d (by simp [hm])) hr)

theorem prefers_digitsPattern (n : Nat) {fs : List Char} (hf : Digits fs) :
    (digitsPattern n).Prefers fs (fs.take (n + 1)) (fs.drop (n + 1)) := by
  induction n generalizing fs with
  | zero =>
    obtain ⟨c, cs, rfl⟩ := List.exists_cons_of_ne_nil hf.1
    exact prefers_one (hf.2 c (by simp)) cs
  | succ n ih =>
    obtain ⟨c, cs, rfl⟩ := List.exists_cons_of_ne_nil hf.1
    refine (prefers_one (hf.2 c (by simp)) cs).seq ?_
    by_cases hcs : cs = []
    · subst hcs
      apply prefers_maybe_of_ways_eq_nil
      cases n <;> rfl
    · exact (ih ⟨hcs, fun d hm => hf.2 d (by simp [hm])⟩).maybe

/-- Zeros in front do not count, except for one that would otherwise leave no digit. -/
theorem exists_kept?_eq {ds : List Char} (hd : Digits ds) (tail shown : List Char)
    (hz : ∀ c ∈ tail.head?, c ≠ '0')
    (hn : leading? keptPattern (.many isDigit) tail = none)
    (hl : ∀ ds, Digits ds →
      leading? keptPattern (.many isDigit) (ds ++ tail) = some (ds ++ shown)) :
    ∃ ds', Digits ds' ∧ digitsValue ds' = digitsValue ds ∧
      kept? (ds ++ tail) = some (ds' ++ shown) := by
  obtain ⟨hne, hd⟩ := hd
  induction ds with
  | nil => exact absurd rfl hne
  | cons c ds ih =>
    have hds : ∀ d ∈ ds, isDigit d = true := fun d hm => hd d (by simp [hm])
    by_cases hc : c = '0'
    · subst hc
      have hk : kept? ('0' :: ds ++ tail) = (kept? (ds ++ tail)).or
          (leading? keptPattern (.many isDigit) ('0' :: ds ++ tail)) :=
        captured?_many_cons (by simp)
      by_cases he : ds = []
      · subst he
        have ht : kept? tail = none := by
          rw [← hn]
          exact captured?_many_of_head? (by simpa using hz)
        refine ⟨['0'], ⟨by simp, by simpa using hd⟩, rfl, ?_⟩
        rw [hk, List.nil_append, ht, Option.none_or]
        exact hl ['0'] ⟨by simp, by simpa using hd⟩
      · obtain ⟨ds', hds', hv, hs⟩ := ih he hds
        exact ⟨ds', hds', hv, by rw [hk, hs, Option.some_or]⟩
    · refine ⟨c :: ds, ⟨hne, hd⟩, rfl, ?_⟩
      rw [← hl (c :: ds) ⟨hne, hd⟩]
      exact captured?_many_of_head? (by simpa using hc)

theorem leading?_whole {ds : List Char} (hd : Digits ds) :
    leading? keptPattern (.many isDigit) ds = some ds := by
  have hp : keptPattern.Prefers (ds ++ []) (ds ++ []) [] :=
    (prefers_wholePattern hd (by simp)).seq (prefers_maybe_of_ways_eq_nil rfl)
  rw [List.append_nil] at hp
  exact hp.leading?_eq (.many (by simp))

theorem leading?_point {ds fs : List Char} (hd : Digits ds) (hf : Digits fs) :
    leading? keptPattern (.many isDigit) (ds ++ '.' :: fs) = some (ds ++ '.' :: fs.take 4) := by
  have hp : keptPattern.Prefers (ds ++ '.' :: fs) (ds ++ '.' :: fs.take 4) (fs.drop 4) :=
    (prefers_wholePattern hd (by simp [isDigit])).seq
      ((prefers_one (by simp) fs).seq (prefers_digitsPattern 3 hf)).maybe
  exact hp.leading?_eq (.many fun c hc => hf.2 c (List.mem_of_mem_drop hc))

theorem ofDigits_eq_add (whole fraction : List Char) :
    ofDigits whole fraction = ⟨digitsValue whole +
      digitsValue (fraction.take places) / 10 ^ (fraction.take places).length⟩ := by
  rw [ofDigits, digitsValue_append, mk.injEq, Rat.mkRat_eq_div, Nat.pow_eq]
  push_cast
  rw [add_div, mul_div_cancel_right₀ _ (by positivity)]

theorem digits_take {fs : List Char} (hf : Digits fs) (n : Nat) : Digits (fs.take (n + 1)) := by
  obtain ⟨c, cs, rfl⟩ := List.exists_cons_of_ne_nil hf.1
  exact ⟨by simp, fun d hm => hf.2 d (List.mem_of_mem_take hm)⟩

theorem parse?_eq_none {cs : List Char} (h : ¬ ∃ r, NumeralText cs r) : parse? cs = none := by
  refine Option.eq_none_iff_forall_ne_some.mpr fun n hn => h ?_
  obtain ⟨r, ht, -⟩ := parse?_eq_some_iff.mp hn
  exact ⟨r, ht⟩

theorem parse?_eq_kept? (cs : List Char) :
    parse? cs = (kept? cs).map fun t => ⟨numeralValue t⟩ := by
  by_cases h : ∃ r, NumeralText cs r
  · obtain ⟨r, ht⟩ := h
    cases ht with
    | whole hd =>
      obtain ⟨ds, hds, hv, hk⟩ := exists_kept?_eq hd [] [] (by simp) rfl fun ds hds => by
        rw [List.append_nil, leading?_whole hds]
      rw [List.append_nil, List.append_nil] at hk
      rw [hk, Option.map_some, (NumeralText.whole hds).numeralValue_eq, hv,
        parse?_whole hd.1 hd.2, ofDigits_eq_add]
      simp [digitsValue]
    | @point ds fs hd hf =>
      obtain ⟨ds', hds, hv, hk⟩ := exists_kept?_eq hd ('.' :: fs) ('.' :: fs.take 4) (by simp) rfl
        fun ds hds => leading?_point hds hf
      rw [hk, Option.map_some, (NumeralText.point hds (digits_take hf 3)).numeralValue_eq, hv,
        parse?_point hd.1 hf.1 hd.2 hf.2, ofDigits_eq_add]
      rfl
  · have hk : kept? cs = none :=
      Option.eq_none_iff_forall_ne_some.mpr fun t ht => h (exists_numeralText_of_kept? ht)
    rw [parse?_eq_none h, hk, Option.map_none]

-- The zeros take all they can and give one back; the places take four digits and leave the rest.
example : kept? ['0', '0', '0'] = some ['0'] := by decide
example : kept? ['0', '1', '.', '2', '3', '4', '5', '6'] = some ['1', '.', '2', '3', '4', '5'] := by
  decide

end Number

end Symbolic
