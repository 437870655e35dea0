import Symbolic.Proofs.PairText
import Symbolic.Proofs.Substitution
import Symbolic.Standard

/-!
Which binding of a name counts. Among pairs it is the last one that names it, and a pair counts more
than the file; to read a list of pairs after another one is to let its bindings replace those of the
first. A fault in the file is reported before any fault in a pair, and of the pairs that are refused
the first one is reported, whatever follows it.
-/

namespace Symbolic

namespace Bindings

section Override

theorem override_cons (env : Bindings) (k : String) (v : Binary64)
    (entries : List (String × Binary64)) :
    env.override ⟨(k, v) :: entries⟩ = (env.override ⟨entries⟩).insert k v := rfl

theorem get?_override (env other : Bindings) (x : String) :
    (env.override other).get? x = (other.get? x).or (env.get? x) := by
  obtain ⟨entries⟩ := other
  induction entries with
  | nil => rfl
  | cons kv entries ih =>
    obtain ⟨k, v⟩ := kv
    rw [override_cons, get?_insert, ih]
    by_cases hx : x = k
    · simp [get?, hx]
    · have hb : (x == k) = false := beq_eq_false_iff_ne.mpr hx
      simp only [get?, if_neg hx, List.lookup_cons, hb]

/-- What an override says about a name does not matter for the other names. -/
theorem filter_override (env : Bindings) (entries : List (String × Binary64)) (name : String) :
    (env.override ⟨entries.filter (·.1 ≠ name)⟩).entries.filter (·.1 ≠ name) =
      (env.override ⟨entries⟩).entries.filter (·.1 ≠ name) := by
  induction entries with
  | nil => rfl
  | cons kv entries ih =>
    obtain ⟨k, v⟩ := kv
    by_cases hk : k = name
    · rw [List.filter_cons_of_neg (by simp [hk]), ih, override_cons, insert,
        List.filter_cons_of_neg (by simp [hk]), hk, List.filter_filter]
      simp only [Bool.and_self]
    · rw [List.filter_cons_of_pos (by simp [hk]), override_cons, override_cons, insert, insert,
        List.filter_cons_of_pos (by simp [hk]), List.filter_cons_of_pos (by simp [hk]),
        List.filter_comm, ih, List.filter_comm]

theorem override_insert (env other : Bindings) (name : String) (v : Binary64) :
    env.override (other.insert name v) = (env.override other).insert name v := by
  rw [insert, override_cons, insert, filter_override]
  rfl

end Override

section Runs

theorem insertPairs_append (env : Bindings) (pairs others : List String) :
    env.insertPairs (pairs ++ others) = env.insertPairs pairs >>= fun mid => mid.insertPairs others := by
  induction pairs generalizing env with
  | nil => rfl
  | cons pair pairs ih =>
    rw [List.cons_append, insertPairs, insertPairs]
    cases ofPair pair with
    | error d => rfl
    | ok r => exact ih (env.insert r.1 r.2)

theorem insertPairs_append_singleton {env env' : Bindings} {pairs : List String} {pair : String} :
    env.insertPairs (pairs ++ [pair]) = .ok env' ↔
      ∃ mid name v, env.insertPairs pairs = .ok mid ∧ ofPair pair = .ok (name, v) ∧
        env' = mid.insert name v := by
  rw [insertPairs_append, bind_eq_ok]
  constructor
  · rintro ⟨mid, hm, h⟩
    rw [insertPairs, bind_eq_ok] at h
    obtain ⟨⟨name, v⟩, hp, h⟩ := h
    exact ⟨mid, name, v, hm, hp, (Except.ok.inj h).symm⟩
  · rintro ⟨mid, name, v, hm, hp, rfl⟩
    refine ⟨mid, hm, ?_⟩
    rw [insertPairs, hp]
    rfl

theorem insertPairs_override (env other : Bindings) (pairs : List String) :
    (env.override other).insertPairs pairs = (other.insertPairs pairs).map env.override := by
  induction pairs generalizing other with
  | nil => rfl
  | cons pair pairs ih =>
    rw [insertPairs, insertPairs]
    cases ofPair pair with
    | error d => rfl
    | ok r =>
      have hi := ih (other.insert r.1 r.2)
      rw [override_insert] at hi
      exact hi

theorem insertPairs_of_ofPairs {pairs : List String} {other : Bindings}
    (h : ofPairs pairs = .ok other) (env : Bindings) :
    env.insertPairs pairs = .ok (env.override other) := by
  have ho : env.insertPairs pairs = (ofPairs pairs).map env.override :=
    insertPairs_override env empty pairs
  rw [ho, h]
  rfl

theorem ofPairs_append {P Q : List String} {A B : Bindings} (hP : ofPairs P = .ok A)
    (hQ : ofPairs Q = .ok B) : ofPairs (P ++ Q) = .ok (A.override B) := by
  rw [ofPairs] at hP
  rw [ofPairs, insertPairs_append, hP]
  exact insertPairs_of_ofPairs hQ A

end Runs

section Last
variable {x : String} {v : Binary64}

/-- The last of the pairs that name `x` gives it the value `v`. -/
def LastGives (pairs : List String) (x : String) (v : Binary64) : Prop :=
  ∃ before pair after, pairs = before ++ pair :: after ∧ Gives pair x v ∧
    ∀ later ∈ after, ¬ Names later x

theorem lastGives_append_singleton {pairs : List String} {pair : String} :
    LastGives (pairs ++ [pair]) x v ↔ Gives pair x v ∨ ¬ Names pair x ∧ LastGives pairs x v := by
  constructor
  · rintro ⟨before, q, after, he, hg, ha⟩
    rcases List.eq_nil_or_concat' after with rfl | ⟨after, r, rfl⟩
    · obtain ⟨-, hq⟩ := List.append_inj' he rfl
      cases hq
      exact .inl hg
    · rw [← List.cons_append, ← List.append_assoc] at he
      obtain ⟨rfl, hr⟩ := List.append_inj' he rfl
      cases hr
      refine .inr ⟨ha pair (by simp), before, q, after, rfl, hg, ?_⟩
      intro later hl
      exact ha later (by simp [hl])
  · rintro (hg | ⟨hn, before, q, after, rfl, hg, ha⟩)
    · exact ⟨pairs, pair, [], rfl, hg, by simp⟩
    · refine ⟨before, q, after ++ [pair], by simp, hg, ?_⟩
      intro later hl
      rcases List.mem_append.mp hl with hl | hl
      · exact ha later hl
      · rw [List.mem_singleton.mp hl]
        exact hn

/-- After pairs have been read, a name has the value of the last pair that names it, or else the value
that it had before. -/
theorem get?_insertPairs {env env' : Bindings} {pairs : List String}
    (h : env.insertPairs pairs = .ok env') :
    env'.get? x = some v ↔
      LastGives pairs x v ∨ (∀ pair ∈ pairs, ¬ Names pair x) ∧ env.get? x = some v := by
  induction pairs using List.reverseRecOn generalizing env' with
  | nil =>
    cases h
    simp [LastGives]
  | append_singleton pairs pair ih =>
    obtain ⟨mid, name, u, hm, hp, rfl⟩ := insertPairs_append_singleton.mp h
    have hn := @names_iff_of_ofPair _ x _ _ hp
    have hg := @gives_iff_of_ofPair _ x _ _ hp v
    rw [get?_insert, lastGives_append_singleton, hn, hg]
    by_cases hx : x = name
    · -- The last pair names `x`, so that nothing before it counts.
      subst hx
      have hlast : ¬ ∀ p ∈ pairs ++ [pair], ¬ Names p x := by
        intro hall
        exact hall pair (by simp) (hn.mpr rfl)
      rw [if_pos rfl]
      simp only [hlast, true_and, not_true_eq_false, false_and, or_false, Option.some.injEq]
      exact eq_comm
    · have hall : (∀ p ∈ pairs ++ [pair], ¬ Names p x) ↔ ∀ p ∈ pairs, ¬ Names p x := by
        simp [or_imp, forall_and, hn, hx]
      rw [if_neg hx, ih hm, hall]
      simp only [hx, false_and, not_false_eq_true, true_and, false_or]

end Last

section Refused
variable {good : List String} {bad : String} {d : PairError}

theorem exists_ofPair_of_not_refused {pair : String} (h : ∀ d, ¬ Refused pair d) :
    ∃ r, ofPair pair = .ok r := by
  cases hp : ofPair pair with
  | error d => exact absurd (ofPair_eq_error_iff.mp hp) (h d)
  | ok r => exact ⟨r, rfl⟩

theorem insertPairs_of_refused (hg : ∀ pair ∈ good, ∀ d, ¬ Refused pair d) (hb : Refused bad d)
    (env : Bindings) (rest : List String) : env.insertPairs (good ++ bad :: rest) = .error d := by
  induction good generalizing env with
  | nil =>
    rw [List.nil_append, insertPairs, ofPair_eq_error_iff.mpr hb]
    rfl
  | cons pair good ih =>
    obtain ⟨hp, hg⟩ := List.forall_mem_cons.mp hg
    obtain ⟨r, hr⟩ := exists_ofPair_of_not_refused hp
    rw [List.cons_append, insertPairs, hr]
    exact ih hg (env.insert r.1 r.2)

theorem exists_first_refused {pairs : List String} (h : ∃ pair ∈ pairs, ∃ d, Refused pair d) :
    ∃ good bad rest d, pairs = good ++ bad :: rest ∧
      (∀ pair ∈ good, ∀ d, ¬ Refused pair d) ∧ Refused bad d := by
  induction pairs with
  | nil => simp at h
  | cons pair pairs ih =>
    by_cases hp : ∃ d, Refused pair d
    · obtain ⟨d, hd⟩ := hp
      exact ⟨[], pair, pairs, d, rfl, by simp, hd⟩
    · obtain ⟨q, hq, d, hd⟩ := h
      have hne : q ≠ pair := by
        intro he
        exact hp ⟨d, he ▸ hd⟩
      have hq' : q ∈ pairs := (List.mem_cons.mp hq).resolve_left hne
      obtain ⟨good, bad, rest, d', rfl, hg, hb⟩ := ih ⟨q, hq', d, hd⟩
      refine ⟨pair :: good, bad, rest, d', rfl, ?_, hb⟩
      rw [List.forall_mem_cons]
      exact ⟨not_exists.mp hp, hg⟩

end Refused

end Bindings

namespace World

/-- The bindings that the content of the named file decodes to; without a file there are none. -/
inductive FileGives (w : World) (o : Options) : Bindings → Prop
  | noFile : o.envFile = "" → FileGives w o .empty
  | decoded {content : Bytes} {F : Bindings} : o.envFile ≠ "" →
      w.files o.envFile = .ok content → w.decodeBindings content = .ok F → FileGives w o F

/-- Why the named file gives no bindings. -/
inductive FileFails (w : World) (o : Options) : BindingsError → Prop
  | unreadable {e : FileError} : o.envFile ≠ "" → w.files o.envFile = .error e →
      FileFails w o (.unreadable e)
  | malformed {content : Bytes} {cause : String} : o.envFile ≠ "" →
      w.files o.envFile = .ok content → w.decodeBindings content = .error cause →
      FileFails w o (.malformed o.envFile cause)

variable {w : World} {o : Options} {F : Bindings}

theorem FileGives.readBindings_eq (h : FileGives w o F) :
    w.readBindings o = do return F.override (← (Bindings.ofPairs o.env).mapError .pair) := by
  cases h with
  | noFile hf =>
    rw [readBindings, if_pos hf]
    rfl
  | decoded hf hc hd =>
    rw [readBindings, if_neg hf, Bindings.load, hc]
    simp only [hd]
    rfl

theorem FileFails.readBindings_eq {d : BindingsError} (h : FileFails w o d) :
    w.readBindings o = .error (.bindings d) := by
  cases h with
  | unreadable hf hc =>
    rw [readBindings, if_neg hf, Bindings.load, hc]
    rfl
  | malformed hf hc hd =>
    rw [readBindings, if_neg hf, Bindings.load, hc]
    simp only [hd]
    rfl

/-- With a file that can be read and decoded and pairs that are all accepted, a name is bound to the
value of the last pair that names it, else to that of the file, and else not at all; so the pairs of
one list after another bind as those of the second list over those of the first. If some pair is
refused, the first one that is refused is reported, whatever follows it, and a file that is refused is
reported before any pair. -/
theorem readBindings_precedence (w : World) (o : Options) :
    (∀ F B, FileGives w o F → Bindings.ofPairs o.env = .ok B →
      ∃ env, w.readBindings o = .ok env ∧ ∀ x v, env.get? x = some v ↔
        Bindings.LastGives o.env x v ∨
          (∀ pair ∈ o.env, ¬ Bindings.Names pair x) ∧ F.get? x = some v) ∧
    (∀ P Q A B, Bindings.ofPairs P = .ok A → Bindings.ofPairs Q = .ok B →
      Bindings.ofPairs (P ++ Q) = .ok (A.override B) ∧
        ∀ x, (A.override B).get? x = (B.get? x).or (A.get? x)) ∧
    (∀ P, (∃ pair ∈ P, ∃ d, Bindings.Refused pair d) →
      ∃ good bad rest d, P = good ++ bad :: rest ∧
        (∀ pair ∈ good, ∀ d, ¬ Bindings.Refused pair d) ∧ Bindings.Refused bad d ∧
        ∀ rest', Bindings.ofPairs (good ++ bad :: rest') = .error d) ∧
    (∀ F d, FileGives w o F → Bindings.ofPairs o.env = .error d →
      w.readBindings o = .error (.pair d)) ∧
    ∀ d, FileFails w o d → w.readBindings o = .error (.bindings d) := by
  refine ⟨?_, ?_, ?_, ?_, ?_⟩
  · intro F B hF hB
    refine ⟨F.override B, ?_, ?_⟩
    · rw [hF.readBindings_eq, hB]
      rfl
    · intro x v
      exact Bindings.get?_insertPairs (Bindings.insertPairs_of_ofPairs hB F)
  · intro P Q A B hP hQ
    exact ⟨Bindings.ofPairs_append hP hQ, Bindings.get?_override A B⟩
  · intro P hP
    obtain ⟨good, bad, rest, d, he, hg, hb⟩ := Bindings.exists_first_refused hP
    exact ⟨good, bad, rest, d, he, hg, hb, Bindings.insertPairs_of_refused hg hb .empty⟩
  · intro F d hF hd
    rw [hF.readBindings_eq, hd]
    rfl
  · intro d hd
    exact hd.readBindings_eq

/-- A name that is bound three times and one that only the file binds; then a pair without a name, and
after it no file. -/
theorem readBindings_precedence_repeated :
    let content := Bytes.ofString "x: 1\nz: 2\n"
    let w : World := {
      toLibraries := .standard
      files := fun path => if path = "env.yaml" then .ok content else .error (.missing path)
      input := .ok []
      environ := fun _ => "" }
    let o : Options := { envFile := "env.yaml", env := ["x=3", "y = 0x1p-1", " x=.5"] }
    let refused := { o with env := ["x=3", "=2", "y=z"] }
    (∃ env, w.readBindings o = .ok env ∧ env.get? "x" = some ⟨0x3FE0000000000000⟩ ∧
        env.get? "z" = some ⟨0x4000000000000000⟩) ∧
      w.readBindings refused = .error (.pair (.shape "=2")) ∧
      w.readBindings { refused with envFile := "none" } =
        .error (.bindings (.unreadable (.missing "none"))) := by
  intro content w o refused
  obtain ⟨F, hF, hz⟩ : ∃ F ∈ (w.decodeBindings content).toOption,
      F.get? "z" = some ⟨0x4000000000000000⟩ := by decide +kernel
  have hd : w.decodeBindings content = .ok F := eq_ok_of_mem_toOption hF
  refine ⟨?_, ?_, ?_⟩
  · obtain ⟨B, hB⟩ : ∃ B, B ∈ (Bindings.ofPairs o.env).toOption :=
      Option.isSome_iff_exists.mp (by decide +kernel)
    obtain ⟨env, he, hx⟩ :=
      (readBindings_precedence w o).1 F B (.decoded (by decide) rfl hd) (eq_ok_of_mem_toOption hB)
    have hg : Bindings.Gives " x=.5" "x" ⟨0x3FE0000000000000⟩ :=
      ⟨" x", ".5", by decide, by decide, by decide +kernel⟩
    refine ⟨env, he, (hx _ _).mpr (.inl ⟨["x=3", "y = 0x1p-1"], " x=.5", [], rfl, hg, by simp⟩), ?_⟩
    exact (hx _ _).mpr (.inr ⟨by decide +kernel, hz⟩)
  · have hx : Bindings.ofPair "x=3" = .ok ("x", ⟨0x4008000000000000⟩) := by decide +kernel
    have hn : Bindings.ofPair "=2" = .error (.shape "=2") := by decide +kernel
    have hr : Bindings.ofPairs refused.env = .error (.shape "=2") := by
      simp only [refused, Bindings.ofPairs, Bindings.insertPairs, hx, hn, bind, Except.bind]
    exact (readBindings_precedence w refused).2.2.2.1 F _ (.decoded (by decide) rfl hd) hr
  · exact (readBindings_precedence w _).2.2.2.2 _ (.unreadable (by decide) rfl)

end World

end Symbolic
