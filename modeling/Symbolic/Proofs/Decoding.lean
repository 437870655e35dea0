import Symbolic.Expr.Codec

/-!
When an object denotes an expression. Decoding an operator succeeds exactly if both operands are
objects that decode; a leaf is left to its text or value.
-/

namespace Symbolic

section Except
variable {ε ε' α β : Type}

@[simp]
theorem mapError_ok (f : ε → ε') (a : α) : (Except.ok a).mapError f = .ok a := rfl

@[simp]
theorem mapError_eq_ok {x : Except ε α} {f : ε → ε'} {a : α} :
    x.mapError f = .ok a ↔ x = .ok a := by
  cases x with
  | error d => exact ⟨nofun, nofun⟩
  | ok b => simp only [mapError_ok, Except.ok.injEq]

theorem map_mapError (g : α → β) (f : ε → ε') (x : Except ε α) :
    (x.mapError f).map g = (x.map g).mapError f := by
  cases x <;> rfl

theorem map_eq_ok {x : Except ε α} {g : α → β} {b : β} :
    x.map g = .ok b ↔ ∃ a, x = .ok a ∧ g a = b := by
  cases x <;> simp [Except.map]

theorem eq_ok_of_mem_toOption {x : Except ε α} {a : α} (h : a ∈ x.toOption) : x = .ok a := by
  cases x with
  | error e => simp [Except.toOption] at h
  | ok b => simpa [Except.toOption] using h

theorem bind_eq_ok {x : Except ε α} {f : α → Except ε β} {b : β} :
    (x >>= f) = .ok b ↔ ∃ a, x = .ok a ∧ f a = .ok b := by
  cases x <;> simp [bind, Except.bind]

theorem bind_pure_eq_ok {x : Except ε α} {f : α → β} {b : β} :
    (do return f (← x)) = .ok b ↔ ∃ a, x = .ok a ∧ b = f a := by
  rw [bind_eq_ok]
  simp only [pure, Except.pure, Except.ok.injEq, eq_comm]

theorem bind_bind_pure_eq_ok {γ : Type} {x : Except ε α} {y : Except ε β} {f : α → β → γ} {c : γ} :
    (do let a ← x; let b ← y; return f a b) = .ok c ↔
      ∃ a b, x = .ok a ∧ y = .ok b ∧ c = f a b := by
  rw [bind_eq_ok]
  simp only [bind_pure_eq_ok, ← exists_and_left]

theorem exists_bind_pure_iff {x : Except ε α} {f : α → β} :
    (∃ b, (do return f (← x)) = .ok b) ↔ ∃ a, x = .ok a := by
  simp only [bind_pure_eq_ok]
  constructor
  · rintro ⟨b, a, ha, -⟩
    exact ⟨a, ha⟩
  · rintro ⟨a, ha⟩
    exact ⟨f a, a, ha, rfl⟩

theorem exists_bind_bind_pure_iff {γ : Type} {x : Except ε α} {y : Except ε β} {f : α → β → γ} :
    (∃ c, (do let a ← x; let b ← y; return f a b) = .ok c) ↔
      (∃ a, x = .ok a) ∧ ∃ b, y = .ok b := by
  simp only [bind_bind_pure_eq_ok]
  constructor
  · rintro ⟨c, a, b, ha, hb, -⟩
    exact ⟨⟨a, ha⟩, b, hb⟩
  · rintro ⟨⟨a, ha⟩, b, hb⟩
    exact ⟨f a b, a, b, ha, hb, rfl⟩

end Except

namespace Expr

open Json (Members)

theorem operand_eq_ok_iff {op : Operator} {side : Side} {m : Members} {e : Expr}
    {f : (inner : Members) → m.get? side.label = some (.object inner) → Except DecodeError Expr} :
    operand op side m f = .ok e ↔ ∃ inner h, f inner h = .ok e := by
  unfold operand
  split
  · next hg => simp [hg]
  · next inner hg =>
    rw [mapError_eq_ok]
    constructor
    · intro h
      exact ⟨inner, hg, h⟩
    · rintro ⟨inner', hg', h⟩
      obtain rfl : inner = inner' := by simpa [hg] using hg'
      exact h
  · next v hn hg =>
    simp only [reduceCtorEq, false_iff, not_exists]
    intro inner hi
    exact absurd (by simpa [hg] using hi) (hn inner)

theorem decode_eq_ok_iff {m : Members} {e : Expr} :
    decode m = .ok e ↔
      (form m = .ok .number ∧ decodeNumber m = .ok e) ∨
      (form m = .ok .named ∧ decodeName m = .ok e) ∨
      ∃ op l r ml mr, form m = .ok (.operator op) ∧
        m.get? "left" = some (.object ml) ∧ decode ml = .ok l ∧
        m.get? "right" = some (.object mr) ∧ decode mr = .ok r ∧ op.apply l r = e := by
  rw [decode, bind_eq_ok]
  cases hf : form m with
  | error d => simp
  | ok k =>
    cases k with
    | number => simp
    | named => simp
    | operator op =>
      simp only [Except.ok.injEq, exists_eq_left', bind_eq_ok, operand_eq_ok_iff]
      constructor
      · rintro ⟨l, ⟨ml, hml, hl⟩, r, ⟨mr, hmr, hr⟩, he⟩
        exact .inr (.inr ⟨op, l, r, ml, mr, rfl, hml, hl, hmr, hr, by simpa [pure, Except.pure] using he⟩)
      · rintro (⟨h, -⟩ | ⟨h, -⟩ | ⟨op', l, r, ml, mr, h, hml, hl, hmr, hr, rfl⟩)
        · simp at h
        · simp at h
        · obtain rfl : op = op' := by simpa using h
          exact ⟨l, ⟨ml, hml, hl⟩, r, ⟨mr, hmr, hr⟩, rfl⟩

end Expr

end Symbolic
