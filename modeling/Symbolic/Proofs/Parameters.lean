import Symbolic.Proofs.Language
import Symbolic.Tool.Call

/-!
When the parameters of a call are right: an expression is an object that denotes one, a name is a
string of letters, and bindings are left out or are an object of numbers. Of a key that comes more
than once the last value counts, for parameters and bindings alike. The order in which the members of
bindings are come upon matters only for which of the wrong ones is named, and any of them may be.
-/

namespace Symbolic

open Json (Members)

namespace Json

theorem get?_cons (k : String) (v : Json) (rest : Members) (key : String) :
    Members.get? key ((k, v) :: rest) =
      (rest.get? key).or (if k = key then some v else none) := by
  rw [Members.get?]
  cases rest.get? key with
  | none => rfl
  | some w => rfl

theorem get?_append_singleton (ms : Members) (k : String) (v : Json) (key : String) :
    Members.get? key (ms ++ [(k, v)]) = if k = key then some v else ms.get? key := by
  induction ms with
  | nil => rfl
  | cons kv ms ih =>
    obtain ⟨k', v'⟩ := kv
    rw [List.cons_append, get?_cons, ih, get?_cons]
    split <;> rfl

theorem any_effective (ms : Members) (k : String) :
    (Members.effective ms).any (·.1 = k) = (ms.get? k).isSome := by
  induction ms generalizing k with
  | nil => rfl
  | cons kv rest ih =>
    obtain ⟨k', v⟩ := kv
    rw [Members.effective, get?_cons, Option.isSome_or]
    simp only [ih]
    split
    · next hs =>
      rw [ih]
      by_cases hk : k' = k
      · subst hk
        simp [hs]
      · simp [hk]
    · rw [List.any_cons, ih, Bool.or_comm]
      by_cases hk : k' = k
      · simp [hk]
      · simp [hk]

theorem mem_effective_iff {ms : Members} {k : String} {v : Json} :
    (k, v) ∈ Members.effective ms ↔ ms.get? k = some v := by
  induction ms with
  | nil => simp [Members.effective, Members.get?]
  | cons kv rest ih =>
    obtain ⟨k', v'⟩ := kv
    rw [Members.effective, get?_cons]
    simp only [any_effective]
    split
    · -- The key comes again, and its later member is the one that counts.
      next hs =>
      rw [ih]
      by_cases hk : k' = k
      · subst hk
        rw [Option.or_of_isSome hs]
      · simp [hk]
    · next hs =>
      have hn : Members.get? k' rest = none := by simpa using hs
      rw [List.mem_cons, ih]
      by_cases hk : k' = k
      · subst hk
        simp [hn, eq_comm]
      · simp [hk, Ne.symm hk]

theorem nodup_effective (ms : Members) : ((Members.effective ms).map Prod.fst).Nodup := by
  induction ms with
  | nil => exact List.nodup_nil
  | cons kv rest ih =>
    obtain ⟨k, v⟩ := kv
    rw [Members.effective]
    split
    · exact ih
    · next hs =>
      refine List.nodup_cons.mpr ⟨?_, ih⟩
      intro hk
      obtain ⟨kv, hm, hk⟩ := List.mem_map.mp hk
      exact hs (List.any_eq_true.mpr ⟨kv, hm, decide_eq_true hk⟩)

end Json

namespace Tool

section Members
variable {key : String} {ms : Members} {env : Bindings} {o : MemberOrder}

/-- Members are read if all their values are numbers, and else one that is none is named. -/
theorem bindingsOf_cases (key : String) (ms : Members) :
    ((∃ env, bindingsOf key ms = .ok env) ∧ ∀ kv ∈ ms, ∃ b, kv.2 = .number b) ∨
      ∃ kv ∈ ms, bindingsOf key ms = .error (.notNumber key kv.1) ∧ ∀ b, kv.2 ≠ .number b := by
  induction ms with
  | nil => exact .inl ⟨⟨_, rfl⟩, by simp⟩
  | cons kv rest ih =>
    obtain ⟨x, v⟩ := kv
    cases v with
    | number b =>
      obtain ⟨⟨env, he⟩, hn⟩ | ⟨kv, hm, he, hn⟩ := ih
      · exact .inl ⟨⟨_, bind_pure_eq_ok.mpr ⟨env, he, rfl⟩⟩,
          List.forall_mem_cons.mpr ⟨⟨b, rfl⟩, hn⟩⟩
      · refine .inr ⟨kv, List.mem_cons_of_mem _ hm, ?_, hn⟩
        rw [bindingsOf, he]
        rfl
    | null | bool | string | array | object => exact .inr ⟨_, List.mem_cons_self, rfl, nofun⟩

theorem get?_of_bindingsOf (h : bindingsOf key ms = .ok env) (hn : (ms.map Prod.fst).Nodup)
    {x : String} {b : Binary64} : env.get? x = some b ↔ (x, .number b) ∈ ms := by
  induction ms generalizing env with
  | nil =>
    cases h
    simp [Bindings.get?, Bindings.empty]
  | cons kv rest ih =>
    obtain ⟨k, v⟩ := kv
    cases v with
    | number b' =>
      obtain ⟨env', he, rfl⟩ := bind_pure_eq_ok.mp h
      obtain ⟨hk, hr⟩ := List.nodup_cons.mp hn
      rw [Bindings.get?_insert, List.mem_cons]
      by_cases hx : x = k
      · subst hx
        have hm : (x, Json.number b) ∉ rest := fun hm =>
          hk (List.mem_map.mpr ⟨_, hm, rfl⟩)
        simp [hm, eq_comm]
      · simp [hx, ih he hr]
    | null | bool | string | array | object => cases h

theorem mem_arrange_effective {k : String} {v : Json} :
    (k, v) ∈ o.arrange (Members.effective ms) ↔ ms.get? k = some v :=
  (o.perm _).mem_iff.trans Json.mem_effective_iff

/-- Every value that counts is a number. -/
def Numeric (ms : Members) : Prop :=
  ∀ x v, ms.get? x = some v → ∃ b, v = .number b

theorem exists_bindingsOf (o : MemberOrder) (key : String) (h : Numeric ms) :
    ∃ env, bindingsOf key (o.arrange (Members.effective ms)) = .ok env ∧
      ∀ x, (env.get? x).map .number = ms.get? x := by
  obtain ⟨⟨env, he⟩, -⟩ | ⟨⟨x, v⟩, hm, -, hn⟩ :=
    bindingsOf_cases key (o.arrange (Members.effective ms))
  · have hd : ((o.arrange (Members.effective ms)).map Prod.fst).Nodup :=
      ((o.perm _).map Prod.fst).nodup_iff.mpr (Json.nodup_effective ms)
    have hg (x : String) (b : Binary64) : env.get? x = some b ↔ ms.get? x = some (.number b) :=
      (get?_of_bindingsOf he hd).trans mem_arrange_effective
    refine ⟨env, he, fun x => ?_⟩
    cases hv : ms.get? x with
    | none =>
      have hb : env.get? x = none := by
        refine Option.eq_none_iff_forall_ne_some.mpr fun b hb => ?_
        rw [(hg x b).mp hb] at hv
        cases hv
      rw [hb]
      rfl
    | some v =>
      obtain ⟨b, rfl⟩ := h x v hv
      rw [(hg x b).mpr hv]
      rfl
  · obtain ⟨b, rfl⟩ := h x v (mem_arrange_effective.mp hm)
    exact absurd rfl (hn b)

theorem exists_bindingsOf_iff :
    (∃ env, bindingsOf key (o.arrange (Members.effective ms)) = .ok env) ↔ Numeric ms := by
  constructor
  · rintro ⟨env, he⟩ x v hv
    obtain ⟨-, hn⟩ | ⟨kv, -, hd, -⟩ := bindingsOf_cases key (o.arrange (Members.effective ms))
    · exact hn (x, v) (mem_arrange_effective.mpr hv)
    · rw [he] at hd
      cases hd
  · intro h
    obtain ⟨env, he, -⟩ := exists_bindingsOf o key h
    exact ⟨env, he⟩

/-- The members of a key come before all others. -/
def leading (x : String) : MemberOrder where
  arrange ms := ms.filter (·.1 = x) ++ ms.filter fun kv => !decide (kv.1 = x)
  perm ms := List.filter_append_perm _ ms

/-- A member may be named exactly if its value counts and is no number. -/
theorem exists_order_names_iff {x : String} :
    (∃ o : MemberOrder,
        bindingsOf key (o.arrange (Members.effective ms)) = .error (.notNumber key x)) ↔
      ∃ v, ms.get? x = some v ∧ ∀ b, v ≠ .number b := by
  constructor
  · rintro ⟨o, ho⟩
    obtain ⟨⟨env, he⟩, -⟩ | ⟨⟨y, v⟩, hm, he, hn⟩ :=
      bindingsOf_cases key (o.arrange (Members.effective ms))
    · cases ho.symm.trans he
    · cases ho.symm.trans he
      exact ⟨v, mem_arrange_effective.mp hm, hn⟩
  · rintro ⟨v, hv, hn⟩
    have hm : (x, v) ∈ (Members.effective ms).filter (·.1 = x) := by
      simpa using Json.mem_effective_iff.mpr hv
    obtain ⟨⟨y, w⟩, rest, hr⟩ := List.exists_cons_of_ne_nil (List.ne_nil_of_mem hm)
    obtain ⟨hy, rfl⟩ : (y, w) ∈ Members.effective ms ∧ y = x := by
      have hf : (y, w) ∈ (Members.effective ms).filter (·.1 = x) := hr ▸ List.mem_cons_self
      simpa using hf
    obtain rfl : w = v := Option.some.inj ((Json.mem_effective_iff.mp hy).symm.trans hv)
    refine ⟨leading y, ?_⟩
    simp only [leading, hr, List.cons_append]
    cases w with
    | number b => exact absurd rfl (hn b)
    | null | bool | string | array | object => rfl

end Members

section Params
variable {params : Members} {key : String} {o o' : MemberOrder}

theorem exprParam_eq_ok_iff {e : Expr} :
    exprParam params key = .ok e ↔
      ∃ m, params.get? key = some (.object m) ∧ Expr.decode m = .ok e := by
  rw [exprParam, treeParam]
  cases params.get? key with
  | none => simp
  | some v =>
    cases v with
    | object m => simp
    | null | bool | number | string | array => simp

theorem exists_exprParam_iff :
    (∃ e, exprParam params key = .ok e) ↔
      ∃ m e, params.get? key = some (.object m) ∧ Expr.decode m = .ok e := by
  simp only [exprParam_eq_ok_iff]
  exact exists_comm

theorem exists_nameParam_iff :
    (∃ x, nameParam params key = .ok x) ↔
      ∃ s, params.get? key = some (.string s) ∧ Letters s.toList := by
  rw [nameParam, stringParam]
  cases params.get? key with
  | none => simp [bind, Except.bind]
  | some v =>
    cases v with
    | string s =>
      simp only [← isName_iff_letters]
      cases hn : isName s.toList <;> simp [bind, Except.bind, pure, Except.pure, hn]
    | null | bool | number | array | object => simp [bind, Except.bind]

theorem exists_envParam_iff :
    (∃ env, envParam o params key = .ok env) ↔
      params.get? key = none ∨ params.get? key = some .null ∨
        ∃ m, params.get? key = some (.object m) ∧ Numeric m := by
  rw [envParam]
  cases params.get? key with
  | none => simp
  | some v =>
    cases v with
    | null => simp
    | object m => simp [exists_bindingsOf_iff]
    | bool | number | string | array => simp

/-- Bindings that are read in one order are read in every order, with the same values. -/
theorem envParam_congr {env : Bindings} (h : envParam o params key = .ok env) (o' : MemberOrder) :
    ∃ env', envParam o' params key = .ok env' ∧ ∀ x, env'.number? x = env.number? x := by
  rw [envParam] at h ⊢
  cases hp : params.get? key with
  | none => exact ⟨env, by simpa [hp] using h, fun _ => rfl⟩
  | some v =>
    rw [hp] at h
    cases v with
    | null => exact ⟨env, h, fun _ => rfl⟩
    | object m =>
      have hm : Numeric m := exists_bindingsOf_iff.mp ⟨env, h⟩
      obtain ⟨env₁, h₁, hx₁⟩ := exists_bindingsOf o key hm
      obtain ⟨env₂, h₂, hx₂⟩ := exists_bindingsOf o' key hm
      obtain rfl : env = env₁ := Except.ok.inj (h.symm.trans h₁)
      refine ⟨env₂, h₂, fun x => ?_⟩
      have hx := Option.map_injective (fun _ _ => Json.number.inj) ((hx₂ x).trans (hx₁ x).symm)
      rw [Bindings.number?, Bindings.number?, hx]
    | bool | number | string | array => cases h

end Params

end Tool

end Symbolic
