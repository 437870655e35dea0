import Symbolic.Proofs.AbsentNodes

/-!
Comparing trees that may lack nodes. The two trees are gone through together in pre-order as long as
they have the same nodes, and the first tree leads: the comparison stops with a fault where a node of
the first tree is absent and all nodes before it have been the same, and nowhere else. Nodes that the
second tree lacks are differences like any other.
-/

namespace Symbolic.Sketch

section Order

/-- Pre-order: a path comes before those that go on from it, and what is on the left of an operator
before what is on its right. -/
def Precedes : List Side → List Side → Prop :=
  List.Lex fun s t => s = .left ∧ t = .right

variable {P : List Side → Prop} {p : List Side}

theorem forall_precedes_left :
    (∀ q, Precedes q (.left :: p) → P q) ↔ P [] ∧ ∀ q, Precedes q p → P (.left :: q) := by
  constructor
  · intro h
    exact ⟨h [] .nil, fun q hq => h _ (.cons hq)⟩
  · rintro ⟨hroot, hleft⟩ q hq
    cases hq with
    | nil => exact hroot
    | cons hq => exact hleft _ hq
    | rel hs => cases hs.2

theorem forall_precedes_right :
    (∀ q, Precedes q (.right :: p) → P q) ↔
      P [] ∧ (∀ q, P (.left :: q)) ∧ ∀ q, Precedes q p → P (.right :: q) := by
  constructor
  · intro h
    exact ⟨h [] .nil, fun q => h _ (.rel ⟨rfl, rfl⟩), fun q hq => h _ (.cons hq)⟩
  · rintro ⟨hroot, hleft, hright⟩ q hq
    cases hq with
    | nil => exact hroot
    | cons hq => exact hright _ hq
    | rel hs =>
      obtain ⟨rfl, -⟩ := hs
      exact hleft _

end Order

section Nodes

inductive Label where
  | absent
  | num (value : Number)
  | var (name : String)
  | operator (op : Operator)
deriving DecidableEq, Repr

def label : Sketch → Label
  | .absent => .absent
  | .num n => .num n
  | .var x => .var x
  | .sum _ _ => .operator .sum
  | .prod _ _ => .operator .prod

variable {op : Operator} {l r l' r' a b : Sketch} {p : List Side}

theorem label_combine (op : Operator) (l r : Sketch) : (combine op l r).label = .operator op := by
  cases op <;> rfl

theorem exists_eq_combine (h : b.label = .operator op) : ∃ l r, b = combine op l r := by
  cases b with
  | absent | num _ | var _ => cases h
  | sum l r =>
    cases h
    exact ⟨l, r, rfl⟩
  | prod l r =>
    cases h
    exact ⟨l, r, rfl⟩

theorem combine_inj : combine op l r = combine op l' r' ↔ l = l' ∧ r = r' := by
  cases op <;> simp [combine]

theorem part?_combine (side : Side) (p : List Side) :
    (combine op l r).part? (side :: p) = (match side with | .left => l | .right => r).part? p := by
  rw [part?, operand?_combine]
  rfl

/-- Where the first tree has a node, the second has the same one. -/
def SameAt (a b : Sketch) (p : List Side) : Prop :=
  ∀ x, a.part? p = some x → (b.part? p).map label = some x.label

theorem sameAt_self (a : Sketch) (p : List Side) : SameAt a a p := by
  intro x hx
  rw [hx]
  rfl

theorem sameAt_nil : SameAt a b [] ↔ b.label = a.label := by
  simp [SameAt, part?]

theorem sameAt_left : SameAt (combine op l r) (combine op l' r') (.left :: p) ↔ SameAt l l' p := by
  simp only [SameAt, part?_combine]

theorem sameAt_right : SameAt (combine op l r) (combine op l' r') (.right :: p) ↔ SameAt r r' p := by
  simp only [SameAt, part?_combine]

theorem eq_of_sameAt (h : ∀ p, SameAt a b p) : a = b := by
  have hl := sameAt_nil.mp (h [])
  induction a using combineInduction generalizing b with
  | absent | num n | var x =>
    cases b with
    | absent | num | var | sum | prod => simp_all [label]
  | combine op l r ihl ihr =>
    rw [label_combine] at hl
    obtain ⟨l', r', rfl⟩ := exists_eq_combine hl
    have hleft (p) : SameAt l l' p := sameAt_left.mp (h (.left :: p))
    have hright (p) : SameAt r r' p := sameAt_right.mp (h (.right :: p))
    rw [ihl hleft (sameAt_nil.mp (hleft [])), ihr hright (sameAt_nil.mp (hright []))]

end Nodes

section Faults
variable {op : Operator} {l r l' r' a b : Sketch}

/-- A node of the first tree is absent, and at all nodes of it before that one the second tree has the
same node. -/
def Falters (a b : Sketch) : Prop :=
  ∃ p, a.part? p = some .absent ∧ ∀ q, Precedes q p → SameAt a b q

theorem Falters.hasAbsent (h : Falters a b) : a.HasAbsent := by
  obtain ⟨p, hp, -⟩ := h
  exact ⟨p, hp⟩

theorem falters_absent (b : Sketch) : Falters .absent b := by
  refine ⟨[], rfl, ?_⟩
  intro q hq
  exact absurd hq List.not_lex_nil

theorem Falters.label_eq (h : Falters (combine op l r) b) : b.label = .operator op := by
  obtain ⟨p, hp, hq⟩ := h
  cases p with
  | nil => cases op <;> cases hp
  | cons side p =>
    rw [← label_combine op l r]
    exact sameAt_nil.mp (hq [] .nil)

/-- The left operands come first: the right ones matter only if the left ones are the same. -/
theorem falters_combine :
    Falters (combine op l r) (combine op l' r') ↔ Falters l l' ∨ (l = l' ∧ Falters r r') := by
  have hroot : SameAt (combine op l r) (combine op l' r') [] := by
    rw [sameAt_nil, label_combine, label_combine]
  constructor
  · rintro ⟨p, hp, hq⟩
    match p with
    | [] => cases op <;> cases hp
    | .left :: p =>
      rw [part?_combine] at hp
      obtain ⟨-, hleft⟩ := forall_precedes_left.mp hq
      exact .inl ⟨p, hp, fun q h => sameAt_left.mp (hleft q h)⟩
    | .right :: p =>
      rw [part?_combine] at hp
      obtain ⟨-, hleft, hright⟩ := forall_precedes_right.mp hq
      have he : l = l' := eq_of_sameAt fun q => sameAt_left.mp (hleft q)
      exact .inr ⟨he, p, hp, fun q h => sameAt_right.mp (hright q h)⟩
  · rintro (⟨p, hp, hq⟩ | ⟨rfl, p, hp, hq⟩)
    · refine ⟨.left :: p, by rw [part?_combine, hp], forall_precedes_left.mpr ⟨hroot, ?_⟩⟩
      intro q h
      exact sameAt_left.mpr (hq q h)
    · refine ⟨.right :: p, by rw [part?_combine, hp], forall_precedes_right.mpr ⟨hroot, ?_, ?_⟩⟩
      · intro q
        exact sameAt_left.mpr (sameAt_self l q)
      · intro q h
        exact sameAt_right.mpr (hq q h)

end Faults

section Comparison
variable {op : Operator} {l r l' r' a b : Sketch}

theorem equal_combine :
    (combine op l r).equal (combine op l' r') =
      do if ← l.equal l' then r.equal r' else return false := by
  cases op <;> rfl

theorem equal_of_label_ne (h : b.label ≠ .operator op) : (combine op l r).equal b = .ok false := by
  cases op with
  | sum =>
    cases b with
    | absent | num | var | prod => rfl
    | sum => exact absurd rfl h
  | prod =>
    cases b with
    | absent | num | var | sum => rfl
    | prod => exact absurd rfl h

/-- The comparison stops with a fault if it falters, and otherwise says whether the two are the same. -/
structure Compared (a b : Sketch) : Prop where
  fault : Falters a b → a.equal b = .error .unhandled
  answer : ¬ Falters a b → a.equal b = .ok (decide (a = b))

theorem Compared.combine (op : Operator) (hl : Compared l l') (hr : Compared r r') :
    Compared (combine op l r) (combine op l' r') := by
  constructor
  · intro h
    rw [equal_combine]
    by_cases hf : Falters l l'
    · rw [hl.fault hf]
      rfl
    · obtain ⟨he, hf'⟩ := (falters_combine.mp h).resolve_left hf
      rw [hl.answer hf, decide_eq_true he]
      exact hr.fault hf'
  · intro h
    obtain ⟨hf, hf'⟩ := not_or.mp fun h' => h (falters_combine.mpr h')
    rw [equal_combine, hl.answer hf]
    by_cases he : l = l'
    · rw [decide_eq_true he, decide_eq_decide.mpr (combine_inj.trans (and_iff_right he))]
      exact hr.answer fun h' => hf' ⟨he, h'⟩
    · rw [decide_eq_false he, decide_eq_false fun h' => he (combine_inj.mp h').1]
      rfl

theorem compared (a b : Sketch) : Compared a b := by
  induction a using combineInduction generalizing b with
  | absent => exact ⟨fun _ => rfl, fun h => absurd (falters_absent b) h⟩
  | num n =>
    refine ⟨fun h => absurd h.hasAbsent (not_hasAbsent_ofExpr (.num n)), fun _ => ?_⟩
    rw [equal, decide_eq_decide.mpr eq_comm]
  | var x =>
    refine ⟨fun h => absurd h.hasAbsent (not_hasAbsent_ofExpr (.var x)), fun _ => ?_⟩
    rw [equal, decide_eq_decide.mpr eq_comm]
  | combine op l r ihl ihr =>
    by_cases hb : b.label = .operator op
    · obtain ⟨l', r', rfl⟩ := exists_eq_combine hb
      exact (ihl l').combine op (ihr r')
    · have hne : Sketch.combine op l r ≠ b := by
        rintro rfl
        exact hb (label_combine op l r)
      refine ⟨fun h => absurd h.label_eq hb, fun _ => ?_⟩
      rw [equal_of_label_ne hb, decide_eq_false hne]

theorem equal_of_not_hasAbsent (h : ¬ a.HasAbsent) (b : Sketch) :
    a.equal b = .ok (decide (a = b)) :=
  (compared a b).answer fun hf => h hf.hasAbsent

theorem equal_eq_true_iff (h : ¬ a.HasAbsent) : a.equal b = .ok true ↔ a = b := by
  rw [equal_of_not_hasAbsent h, Except.ok.injEq, decide_eq_true_eq]

/-- Comparing two trees fails, as an unhandled case, exactly if a node of the first is absent and at all
nodes of it before that one, in pre-order, the second has the same node; otherwise it finds the two
equal exactly if they are the same tree. So a first tree without absent nodes is always compared,
whatever nodes the second lacks, and on the trees without absent nodes the comparison is reflexive,
symmetric and transitive. -/
theorem equal_in_lockstep :
    (∀ a b : Sketch,
      ((∃ d, a.equal b = .error d ∧ d.message? = some "unhandled case: <nil>") ↔ Falters a b) ∧
      (¬ Falters a b → ∃ same, a.equal b = .ok same ∧ (same = true ↔ a = b))) ∧
    (∀ a b : Sketch, ¬ a.HasAbsent → ∃ same, a.equal b = .ok same) ∧
    (∀ a : Sketch, ¬ a.HasAbsent → a.equal a = .ok true) ∧
    (∀ a b : Sketch, ¬ a.HasAbsent → ¬ b.HasAbsent → a.equal b = b.equal a) ∧
    ∀ a b c : Sketch, ¬ a.HasAbsent → ¬ b.HasAbsent → ¬ c.HasAbsent →
      a.equal b = .ok true → b.equal c = .ok true → a.equal c = .ok true := by
  refine ⟨fun a b => ⟨⟨?_, ?_⟩, ?_⟩, ?_, ?_, ?_, ?_⟩
  · rintro ⟨d, hd, -⟩
    by_contra hn
    cases hd.symm.trans ((compared a b).answer hn)
  · intro h
    exact ⟨.unhandled, (compared a b).fault h, rfl⟩
  · intro h
    exact ⟨_, (compared a b).answer h, decide_eq_true_iff⟩
  · intro a b ha
    exact ⟨_, equal_of_not_hasAbsent ha b⟩
  · intro a ha
    exact (equal_eq_true_iff ha).mpr rfl
  · intro a b ha hb
    rw [equal_of_not_hasAbsent ha, equal_of_not_hasAbsent hb, decide_eq_decide.mpr eq_comm]
  · intro a b c ha hb _ hab hbc
    rw [(equal_eq_true_iff ha).mp hab]
    exact hbc

/-- The first operands are the same and the second is absent: to compare from this side fails, but to
compare from the other side finds a difference. -/
theorem equal_in_lockstep_one_sided :
    let a : Sketch := .sum (.var "x") .absent
    let b : Sketch := .sum (.var "x") (.var "y")
    (∃ d, a.equal b = .error d ∧ d.message? = some "unhandled case: <nil>") ∧
      ¬ b.HasAbsent ∧ b.equal a = .ok false ∧ b.equal b = .ok true := by
  intro a b
  have hb : ¬ b.HasAbsent := not_hasAbsent_ofExpr (.sum (.var "x") (.var "y"))
  have hf : Falters (combine .sum (.var "x") .absent) (combine .sum (.var "x") (.var "y")) :=
    falters_combine.mpr (.inr ⟨rfl, falters_absent (.var "y")⟩)
  obtain ⟨hall, -, hrefl, -⟩ := equal_in_lockstep
  obtain ⟨same, hs, hsame⟩ := (hall b a).2 fun h => hb h.hasAbsent
  refine ⟨(hall a b).1.mpr hf, hb, ?_, hrefl b hb⟩
  cases same with
  | false => exact hs
  | true => exact absurd (hsame.mp rfl) (by simp [a, b])

end Comparison

end Symbolic.Sketch
