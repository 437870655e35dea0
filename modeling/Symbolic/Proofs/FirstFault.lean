import Symbolic.Proofs.Checks
import Symbolic.Proofs.Positions

/-!
Which fault of a document is reported. A document may fail many checks at once, in objects at many
positions. The checks are made in pre-order, with an operand looked for one step below its operator,
so a missing right operand is noticed after all that is wrong on the left. Decoding reports the
first check that fails, behind the path to the object that fails it.
-/

namespace Symbolic

open Json (Members)

/-- The object at a position of a document; each step passes an operator of its kind. -/
inductive Reaches : Members → Position → Members → Prop
  | here {m : Members} : Reaches m [] m
  | down {m inner node : Members} {t : Turn} {p : Position} :
      m.get? "type" = some (.string t.op.label) → m.get? t.side.label = some (.object inner) →
      Reaches inner p node → Reaches m (t :: p) node

namespace DecodeError

/-- Where the check of an object at a position is made: an operand is looked for below its operator,
all else at the object itself. -/
def place (p : Position) : DecodeError → Position
  | .missingOperand op side | .badOperand op side => p ++ [⟨op, side⟩]
  | _ => p

def under (p : Position) (d : DecodeError) : DecodeError :=
  p.foldr (fun t inner => .within t.op t.side inner) d

theorem place_cons (t : Turn) (p : Position) (d : DecodeError) :
    d.place (t :: p) = t :: d.place p := by
  cases d <;> rfl

theorem message_under (p : Position) (d : DecodeError) :
    (d.under p).message =
      String.join (p.map fun t => t.op.label ++ ": " ++ t.side.label ++ ": ") ++ d.message := by
  induction p with
  | nil => simp [under]
  | cons t p ih =>
    have hm : (d.under (t :: p)).message =
        t.op.label ++ ": " ++ t.side.label ++ ": " ++ (d.under p).message := rfl
    rw [hm, ih, List.map_cons, String.join_cons]
    simp only [String.append_assoc]

theorem cause?_under (p : Position) (d : DecodeError) : (d.under p).cause? = d.cause? := by
  induction p with
  | nil => rfl
  | cons t p ih => exact ih

end DecodeError

/-- Faults of some part of a document: at which position, and what is said there. -/
abbrev Faults := Position → DecodeError → Prop

/-- An object that the document leads to fails a check. -/
def faultsOf (m : Members) : Faults :=
  fun p d => ∃ node, Reaches m p node ∧ Fails node d

/-- The check of the fault is made before those of all others. -/
def IsFirst (F : Faults) (p : Position) (d : DecodeError) : Prop :=
  F p d ∧ ∀ q d', F q d' → (q = p ∧ d' = d) ∨ (d.place p).Before (d'.place q)

/-- The outcome tells whether there is a fault, and which one is the first. -/
def Reports {α : Type} (F : Faults) : Except DecodeError α → Prop
  | .ok _ => ∀ p d, ¬ F p d
  | .error e => ∃ p d, IsFirst F p d ∧ e = d.under p

namespace Reports
variable {α β : Type} {F G : Faults} {x : Except DecodeError α}

theorem congr (h : ∀ p d, F p d ↔ G p d) (hx : Reports F x) : Reports G x := by
  have hFG : F = G := funext fun p => funext fun d => propext (h p d)
  rw [← hFG]
  exact hx

theorem map (hx : Reports F x) (f : α → β) : Reports F (do return f (← x)) := by
  cases x with
  | ok a => exact hx
  | error e => exact hx

theorem bind {f : α → Except DecodeError β} (hx : Reports F x) (hf : ∀ a, Reports G (f a))
    (hFG : ∀ p d q d', F p d → G q d' → (d.place p).Before (d'.place q)) :
    Reports (fun p d => F p d ∨ G p d) (x >>= f) := by
  cases x with
  | ok a =>
    change Reports _ (f a)
    have hG := hf a
    cases hfa : f a with
    | ok b =>
      rw [hfa] at hG
      rintro p d (h | h)
      · exact hx p d h
      · exact hG p d h
    | error e =>
      rw [hfa] at hG
      obtain ⟨p, d, ⟨hp, hfirst⟩, rfl⟩ := hG
      refine ⟨p, d, ⟨.inr hp, ?_⟩, rfl⟩
      rintro q d' (h | h)
      · exact absurd h (hx q d')
      · exact hfirst q d' h
  | error e =>
    obtain ⟨p, d, ⟨hp, hfirst⟩, rfl⟩ := hx
    refine ⟨p, d, ⟨.inl hp, ?_⟩, rfl⟩
    rintro q d' (h | h)
    · exact hfirst q d' h
    · exact .inr (hFG p d q d' hp h)

theorem single {P : DecodeError → Prop} (h : ∀ d, x = .error d ↔ P d) :
    Reports (fun p d => p = [] ∧ P d) x := by
  cases x with
  | ok a =>
    rintro p d ⟨-, hd⟩
    cases (h d).mpr hd
  | error e =>
    refine ⟨[], e, ⟨⟨rfl, (h e).mp rfl⟩, ?_⟩, rfl⟩
    rintro q d ⟨rfl, hd⟩
    cases (h d).mpr hd
    exact .inl ⟨rfl, rfl⟩

end Reports

inductive OperandFaults (op : Operator) (side : Side) : Option Json → Faults
  | here {v : Option Json} {d : DecodeError} : OperandFails op side v d →
      OperandFaults op side v [] d
  | inside {inner : Members} {p : Position} {d : DecodeError} : faultsOf inner p d →
      OperandFaults op side (some (.object inner)) (⟨op, side⟩ :: p) d

section Operands
variable {op : Operator} {side : Side}

theorem not_operandFails_object {inner : Members} {d : DecodeError} :
    ¬ OperandFails op side (some (.object inner)) d := by
  intro h
  cases h with
  | notObject hn => exact hn inner rfl

theorem OperandFaults.place_eq {v : Option Json} {p : Position} {d : DecodeError}
    (h : OperandFaults op side v p d) : ∃ rest, d.place p = ⟨op, side⟩ :: rest := by
  cases h with
  | here hf =>
    cases hf with
    | missing => exact ⟨[], rfl⟩
    | notObject _ => exact ⟨[], rfl⟩
  | inside _ => exact ⟨_, DecodeError.place_cons _ _ _⟩

theorem decodeOperand_eq_error_iff {v : Option Json} (hv : ∀ inner, v ≠ some (.object inner))
    {d : DecodeError} :
    Expr.decodeOperand op side v = .error d ↔ OperandFails op side v d := by
  cases v with
  | none => exact error_eq_error_iff .missing (by rintro _ ⟨⟩; rfl)
  | some v =>
    cases v with
    | object inner => exact absurd rfl (hv inner)
    | null | bool | number | string | array =>
      exact error_eq_error_iff (.notObject (by simp)) (by rintro _ ⟨⟩; rfl)

theorem reports_decodeOperand {v : Option Json}
    (h : ∀ inner, v = some (.object inner) → Reports (faultsOf inner) (Expr.decode inner)) :
    Reports (OperandFaults op side v) (Expr.decodeOperand op side v) := by
  by_cases hv : ∃ inner, v = some (.object inner)
  · obtain ⟨inner, rfl⟩ := hv
    have hi := h inner rfl
    rw [Expr.decodeOperand]
    cases hd : Expr.decode inner with
    | ok e =>
      rw [hd] at hi
      intro p d hf
      cases hf with
      | here hf => exact not_operandFails_object hf
      | inside hf => exact hi _ _ hf
    | error e =>
      rw [hd] at hi
      obtain ⟨p, d, ⟨hp, hfirst⟩, rfl⟩ := hi
      refine ⟨⟨op, side⟩ :: p, d, ⟨.inside hp, ?_⟩, rfl⟩
      intro q d' hf
      cases hf with
      | here hf => exact absurd hf not_operandFails_object
      | inside hf =>
        obtain ⟨rfl, rfl⟩ | hb := hfirst _ _ hf
        · exact .inl ⟨rfl, rfl⟩
        · rw [DecodeError.place_cons, DecodeError.place_cons]
          exact .inr (.within hb)
  · have hn : ∀ inner, v ≠ some (.object inner) := not_exists.mp hv
    refine (Reports.single fun d => decodeOperand_eq_error_iff hn).congr ?_
    intro p d
    constructor
    · rintro ⟨rfl, hf⟩
      exact .here hf
    · intro hf
      cases hf with
      | here hf => exact ⟨rfl, hf⟩
      | inside _ => exact absurd rfl (hn _)

end Operands

section Documents
variable {m : Members}

theorem faultsOf_operator {op : Operator} (hf : Expr.form m = .ok (.operator op)) {p : Position}
    {d : DecodeError} :
    faultsOf m p d ↔ OperandFaults op .left (m.get? "left") p d ∨
      OperandFaults op .right (m.get? "right") p d := by
  have ht : m.get? "type" = some (.string op.label) := Expr.form_eq_ok_iff.mp hf
  have hside : faultsOf m p d ↔ ∃ side : Side, OperandFaults op side (m.get? side.label) p d := by
    constructor
    · rintro ⟨node, hr, hfail⟩
      cases hr with
      | here =>
        rw [Expr.fails_iff, hf] at hfail
        obtain ⟨side, hs⟩ : ∃ side : Side, OperandFails op side (m.get? side.label) d := by
          simpa using hfail
        exact ⟨side, .here hs⟩
      | @down _ inner _ t p ht' hi hr =>
        obtain ⟨op', side⟩ := t
        have hf' : Expr.form m = .ok (.operator op') := Expr.form_eq_ok_iff.mpr ht'
        obtain rfl : op = op' := by simpa [hf] using hf'
        have hv : m.get? side.label = some (.object inner) := hi
        refine ⟨side, ?_⟩
        rw [hv]
        exact .inside ⟨node, hr, hfail⟩
    · rintro ⟨side, h⟩
      generalize hv : m.get? side.label = v at h
      cases h with
      | here hs => exact ⟨m, .here, .operand ht (hv ▸ hs)⟩
      | inside h =>
        obtain ⟨node, hr, hfail⟩ := h
        exact ⟨node, .down ht hv hr, hfail⟩
  rw [hside]
  constructor
  · rintro ⟨side, h⟩
    cases side with
    | left => exact .inl h
    | right => exact .inr h
  · rintro (h | h)
    · exact ⟨.left, h⟩
    · exact ⟨.right, h⟩

theorem faultsOf_leaf (hf : ∀ op, Expr.form m ≠ .ok (.operator op)) {p : Position}
    {d : DecodeError} : faultsOf m p d ↔ p = [] ∧ Fails m d := by
  constructor
  · rintro ⟨node, hr, hfail⟩
    cases hr with
    | here => exact ⟨rfl, hfail⟩
    | down ht _ _ => exact absurd (Expr.form_eq_ok_iff.mpr ht) (hf _)
  · rintro ⟨rfl, hfail⟩
    exact ⟨m, .here, hfail⟩

theorem decode_operator {op : Operator} (hf : Expr.form m = .ok (.operator op)) :
    Expr.decode m = (do
      let l ← Expr.decodeOperand op .left (m.get? "left")
      let r ← Expr.decodeOperand op .right (m.get? "right")
      return op.apply l r) := by
  rw [Expr.decode, hf]
  simp only [Expr.operand_decode]
  rfl

theorem decode_eq_error_iff_fails (hf : ∀ op, Expr.form m ≠ .ok (.operator op)) {d : DecodeError} :
    Expr.decode m = .error d ↔ Fails m d := by
  rw [Expr.decode, Expr.fails_iff]
  cases hm : Expr.form m with
  | error e => simp [bind, Except.bind]
  | ok f =>
    cases f with
    | number => simp [bind, Except.bind]
    | named => simp [bind, Except.bind]
    | operator op => exact absurd hm (hf op)

end Documents

/-- Decoding finds a document without faults right, and of the faults of any other it reports the
first. -/
theorem reports_decode (m : Members) : Reports (faultsOf m) (Expr.decode m) := by
  by_cases ho : ∃ op, Expr.form m = .ok (.operator op)
  · obtain ⟨op, hf⟩ := ho
    have hside (side : Side) : Reports (OperandFaults op side (m.get? side.label))
        (Expr.decodeOperand op side (m.get? side.label)) := by
      apply reports_decodeOperand
      intro inner hi
      have := Expr.sizeOf_get?_lt hi
      exact reports_decode inner
    rw [decode_operator hf]
    refine (Reports.bind (hside .left) (fun l => (hside .right).map (op.apply l)) ?_).congr
      fun p d => (faultsOf_operator hf).symm
    intro p d q d' hl hr
    obtain ⟨rest, hp⟩ := hl.place_eq
    obtain ⟨rest', hq⟩ := hr.place_eq
    rw [hp, hq]
    exact .beside
  · have hn : ∀ op, Expr.form m ≠ .ok (.operator op) := not_exists.mp ho
    exact (Reports.single fun d => decode_eq_error_iff_fails hn).congr
      fun p d => (faultsOf_leaf hn).symm
termination_by sizeOf m

/-- An object that does not decode has a fault whose check is made before those of all others. The
error is what is said of that object, behind the operator and the side of each step that leads to
it. The error is traced back to a literal exactly if the object is a number whose value is refused,
and to an identifier exactly if it is a variable whose name is. -/
theorem decode_reports_first_fault {m : Members} {e : DecodeError}
    (h : Expr.decode m = .error e) :
    ∃ (p : Position) (node : Members) (d : DecodeError),
      Reaches m p node ∧ Fails node d ∧ IsFirst (faultsOf m) p d ∧
        e.message = String.join (p.map fun t => t.op.label ++ ": " ++ t.side.label ++ ": ") ++
          d.message ∧
        (e.cause? = some .literal ↔ RefusedValue node) ∧
        (e.cause? = some .identifier ↔ RefusedName node) := by
  have hr := reports_decode m
  rw [h] at hr
  obtain ⟨p, d, hfirst, rfl⟩ := hr
  obtain ⟨node, hn, hd⟩ := hfirst.1
  refine ⟨p, node, d, hn, hd, hfirst, d.message_under p, ?_, ?_⟩
  · rw [d.cause?_under p]
    exact hd.cause?_eq_literal_iff
  · rw [d.cause?_under p]
    exact hd.cause?_eq_identifier_iff

/-- A name with a digit, below a product whose right operand is missing and beside an object of an
unknown type: the name is reported. -/
theorem decode_reports_first_fault_name :
    let doc : Members := [("type", .string "sum"),
      ("left", .object [("type", .string "product"),
        ("left", .object [("type", .string "variable"), ("name", .string "x1")])]),
      ("right", .object [("type", .string "power")])]
    let e := DecodeError.within .sum .left
      (.within .prod .left (.leaf (.name (Text.ofString "x1"))))
    Expr.decode doc = .error e ∧
      e.message = "sum: left: product: left: invalid identifier: \"x1\"" ∧
      faultsOf doc [⟨.sum, .left⟩] (.missingOperand .prod .right) ∧
      faultsOf doc [⟨.sum, .right⟩] (.unknownType "power") ∧
      ∃ p node d, Reaches doc p node ∧ IsFirst (faultsOf doc) p d ∧
        (e.cause? = some .identifier ↔ RefusedName node) := by
  intro doc e
  have hd : Expr.decode doc = .error e := by decide +kernel
  have hm : e.message = "sum: left: product: left: invalid identifier: \"x1\"" := by decide +kernel
  have hl : faultsOf doc [⟨.sum, .left⟩] (.missingOperand .prod .right) :=
    ⟨_, .down rfl rfl .here, @Fails.operand _ .prod .right _ rfl .missing⟩
  have hr : faultsOf doc [⟨.sum, .right⟩] (.unknownType "power") :=
    ⟨_, .down rfl rfl .here, .type (.unknown (by decide))⟩
  obtain ⟨p, node, d, hp, -, hf, -, -, hc⟩ := decode_reports_first_fault hd
  exact ⟨hd, hm, hl, hr, p, node, d, hp, hf, hc⟩

end Symbolic
