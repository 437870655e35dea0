import Symbolic.Proofs.CommandLines
import Symbolic.Proofs.JsonReading
import Symbolic.Proofs.Responses

/-!
Command lines and calls of tools on the same expressions. A command reads its expression from a text
and its bindings from flags and files, while a call is given both as decoded JSON; the commands check
their parts in another order than the tools. They agree nevertheless: a command succeeds exactly if
the call is answered without an error, and prints what the call is answered with.
-/

namespace Symbolic

open Json (Members)

namespace Json

/-- In every object of the value the keys increase. -/
inductive Sorted : Json → Prop
  | null : Sorted .null
  | bool (b : Bool) : Sorted (.bool b)
  | number (x : Binary64) : Sorted (.number x)
  | string (s : String) : Sorted (.string s)
  | array {items : List Json} : (∀ v ∈ items, v.Sorted) → Sorted (.array items)
  | object {ms : Members} : (ms.map (·.1.toList)).Pairwise (nameBefore · ·) →
      (∀ kv ∈ ms, kv.2.Sorted) → Sorted (.object ms)

theorem Denotes.brace_mem {depth : Nat} {text : List Char} {ms : Members}
    (h : Denotes depth text (.object ms)) : '\x7b' ∈ text := by
  have hs {cs : List Char} (h : ScalarText cs (.object ms)) : '\x7b' ∈ cs := by
    cases h with
    | positive h => cases h
    | negative h => cases h
  cases depth with
  | zero => exact hs h
  | succ depth =>
    cases h with
    | scalar h => exact hs h
    | emptyObject _ => exact List.mem_cons_self
    | object _ => exact List.mem_cons_self

theorem brace_mem_of_parse {cs : List Char} {ms : Members} (h : parse cs = .ok (.object ms)) :
    '\x7b' ∈ cs := by
  obtain ⟨⟨v, rest⟩, hv, hr⟩ := bind_eq_ok.mp h
  obtain ⟨lead, text, rfl, -, ht⟩ := exists_denotes_of_value hv
  dsimp only at hr
  split at hr
  · obtain rfl : v = .object ms := Except.ok.inj hr
    simp [ht.brace_mem]
  · cases hr

end Json

theorem Expr.sorted_toJson (e : Expr) : e.toJson.Sorted := by
  induction e with
  | num n => exact .object (by simp [nameBefore]) (by simp [Json.Sorted.string])
  | var x => exact .object (by simp [nameBefore]) (by simp [Json.Sorted.string])
  | sum l r hl hr => exact .object (by simp [nameBefore]) (by simp [Json.Sorted.string, hl, hr])
  | prod l r hl hr => exact .object (by simp [nameBefore]) (by simp [Json.Sorted.string, hl, hr])

namespace Bindings

/-- Bindings that are written as an object, one member for each name. -/
def Writes (env : Bindings) (ms : Members) : Prop :=
  ∀ x, ms.get? x = (env.get? x).map .number

/-- Whatever the bindings, there is an object that writes them. -/
theorem writes_reverse (env : Bindings) :
    env.Writes (env.entries.reverse.map fun kv => (kv.1, .number kv.2)) := by
  obtain ⟨entries⟩ := env
  intro x
  induction entries with
  | nil => rfl
  | cons kv entries ih =>
    obtain ⟨k, b⟩ := kv
    rw [List.reverse_cons, List.map_append, List.map_singleton, Json.get?_append_singleton, ih]
    by_cases hk : k = x
    · simp [get?, hk]
    · have hb : (x == k) = false := beq_eq_false_iff_ne.mpr (Ne.symm hk)
      simp only [get?, if_neg hk, List.lookup_cons, hb]

theorem Writes.exists_envParam {env : Bindings} {ms params : Members} {key : String}
    (h : env.Writes ms) (hp : params.get? key = some (.object ms)) (o : Tool.MemberOrder) :
    ∃ env', Tool.envParam o params key = .ok env' ∧ ∀ x, env'.number? x = env.number? x := by
  have hn : Tool.Numeric ms := by
    intro x v hv
    rw [h x] at hv
    obtain ⟨b, -, rfl⟩ := Option.map_eq_some_iff.mp hv
    exact ⟨b, rfl⟩
  obtain ⟨env', he, hx⟩ := Tool.exists_bindingsOf o key hn
  refine ⟨env', ?_, fun x => ?_⟩
  · rw [Tool.envParam, hp]
    exact he
  · have hg := (hx x).trans (h x)
    rw [number?, number?, Option.map_injective (fun _ _ => Json.number.inj) hg]

end Bindings

/-- The bytes hold an object, which is the parameter of this key. -/
def Bytes.IsParam (s : Bytes) (params : Members) (key : String) : Prop :=
  ∃ m, Json.parse s.chars = .ok (.object m) ∧ Json.membersFinite m = true ∧
    params.get? key = some (.object m)

namespace World

variable {w : World} {params : Members} {key : String} {s : Bytes} {e : Expr}

theorem isBlankText_of_parse {m : Members} (h : Json.parse s.chars = .ok (.object m)) :
    isBlankText s.text = false := by
  have hm := Json.brace_mem_of_parse h
  obtain ⟨g, hg, hc⟩ := List.mem_map.mp hm
  refine List.all_eq_false.mpr ⟨g, hg, ?_⟩
  cases g with
  | char c =>
    obtain rfl : c = '\x7b' := hc
    decide
  | stray b => simp

/-- A text is refused for what makes its object a wrong parameter, and for nothing else. -/
theorem parseExpr_eq_ok_iff (h : s.IsParam params key) {source : String} :
    parseExpr source s = .ok e ↔ Tool.exprParam params key = .ok e := by
  obtain ⟨m, hm, hf, hp⟩ := h
  rw [parseExpr, isBlankText_of_parse hm, Expr.parse, hm, Tool.exprParam_eq_ok_iff, hp]
  simp [hf]

theorem fileExpr_eq_ok_iff {path : String} (hs : w.files path = .ok s)
    (h : s.IsParam params key) : w.fileExpr path = .ok e ↔ Tool.exprParam params key = .ok e := by
  rw [fileExpr, hs]
  exact parseExpr_eq_ok_iff h

/-- The arguments name the place of these bytes: a file, or the standard input. -/
inductive Supplies (w : World) : List String → Bytes → Prop
  | input {s : Bytes} : w.input = .ok s → w.Supplies [] s
  | dash {s : Bytes} : w.input = .ok s → w.Supplies ["-"] s
  | file {path : String} {s : Bytes} : path ≠ "-" → w.files path = .ok s → w.Supplies [path] s

theorem Supplies.length_le {args : List String} (h : w.Supplies args s) : args.length ≤ 1 := by
  cases h <;> simp

theorem readExpr_eq_ok_iff {args : List String} (hs : w.Supplies args s) (h : s.IsParam params key) :
    w.readExpr args = .ok e ↔ Tool.exprParam params key = .ok e := by
  cases hs with
  | input hi =>
    rw [readExpr, inputExpr, hi]
    · exact parseExpr_eq_ok_iff h
    · simp
  | dash hi =>
    rw [readExpr, if_pos rfl, inputExpr, hi]
    exact parseExpr_eq_ok_iff h
  | file hn hf =>
    rw [readExpr, if_neg hn]
    exact fileExpr_eq_ok_iff hf h

end World

namespace Invocation

/-- A command and a call that ask for the same of the same expressions. -/
inductive Matches (w : World) : Invocation → Tool → Members → Prop
  | render {o : Options} {args : List String} {s : Bytes} {params : Members} :
      w.Supplies args s → s.IsParam params "expr" → Matches w ⟨.render, o, args⟩ .render params
  | diff {o : Options} {args : List String} {s : Bytes} {params : Members} :
      w.Supplies args s → s.IsParam params "expr" → o.times = 1 →
      params.get? "var" = some (.string o.name) → Matches w ⟨.diff, o, args⟩ .diff params
  | simplify {o : Options} {args : List String} {s : Bytes} {params : Members} {env : Bindings}
      {ms : Members} :
      w.Supplies args s → s.IsParam params "expr" → w.readBindings o = .ok env → env.Writes ms →
      params.get? "env" = some (.object ms) → Matches w ⟨.simplify, o, args⟩ .simplify params
  | hash {o : Options} {args : List String} {s : Bytes} {params : Members} :
      w.Supplies args s → s.IsParam params "expr" → Matches w ⟨.hash, o, args⟩ .hash params
  | vars {o : Options} {args : List String} {s : Bytes} {params : Members} :
      w.Supplies args s → s.IsParam params "expr" → Matches w ⟨.vars, o, args⟩ .freeVariables params
  | equal {o : Options} {p q : String} {s t : Bytes} {params : Members} :
      w.files p = .ok s → s.IsParam params "a" → w.files q = .ok t → t.IsParam params "b" →
      Matches w ⟨.equal, o, [p, q]⟩ .equal params

/-- What a command prints of a response: the names in its value, a line each; or its value as JSON
with the keys in order, if that is asked for; or its text. -/
def Prints (r : Tool.Response) (json : Bool) (out : String) : Command → Prop
  | .vars => ∃ names : List String, r.result = some (.array (names.map .string)) ∧
      out.toList = names.flatMap fun x => x.toList ++ ['\n']
  | .render | .diff | .simplify =>
    if json then ∃ v, r.result = some v ∧ v.Sorted ∧ out = v.compact ++ "\n"
    else out = r.string ++ "\n"
  | _ => out = r.string ++ "\n"

theorem prints_respond {c : Command} (hc : c = .render ∨ c = .diff ∨ c = .simplify) (o : Options)
    (e : Expr) : Prints (Tool.respond e) o.json (exprText o e) c := by
  have hp : if o.json then ∃ v, (Tool.respond e).result = some v ∧ v.Sorted ∧
      exprText o e = v.compact ++ "\n" else exprText o e = (Tool.respond e).string ++ "\n" := by
    rw [exprText]
    cases o.json with
    | false => rfl
    | true => exact ⟨_, rfl, e.sorted_toJson, rfl⟩
  obtain rfl | rfl | rfl := hc <;> exact hp

theorem toList_linesOf (names : List String) :
    (linesOf names).toList = names.flatMap fun x => x.toList ++ ['\n'] := by
  simp [linesOf, List.flatMap_map]

variable {w : World} {i : Invocation} {t : Tool} {params : Members} {m : Tool.MemberOrder}

theorem Matches.checkArguments (h : i.Matches w t params) :
    i.command.checkArguments i.arguments = .ok () := by
  cases h with
  | render hs _ | diff hs _ _ _ | simplify hs _ _ _ _ | hash hs _ | vars hs _ =>
    exact if_pos hs.length_le
  | equal _ _ _ _ => rfl

theorem nameParam_eq_ok_iff {key x v : String} (h : params.get? key = some (.string x)) :
    Tool.nameParam params key = .ok v ↔ v = x ∧ ∃ e, Expr.ofName (Text.ofString x) = .ok e := by
  rw [Expr.ofName, Text.chars_ofString, Tool.nameParam, Tool.stringParam, h]
  cases hn : isName x.toList <;> simp [bind, Except.bind, pure, Except.pure, hn, eq_comm]

theorem Matches.exists_response (h : i.Matches w t params) {s : Settings} {out : Outcome}
    (hr : perform w s i.options i.arguments i.command = .ok out) :
    ∃ r text, t.run m params = .ok r ∧ out = .output text ∧
      Prints r i.options.json text i.command := by
  cases h with
  | @render o _ _ _ hs hp =>
    obtain ⟨e, he, rfl⟩ := bind_pure_eq_ok.mp hr
    have he' := (World.readExpr_eq_ok_iff hs hp).mp he
    exact ⟨_, _, bind_pure_eq_ok.mpr ⟨e, he', rfl⟩, rfl, prints_respond (.inl rfl) o e⟩
  | @diff o args b params hs hp ht hv =>
    -- The command looks at the name first, the tool at the expression; both need both.
    obtain ⟨x, e, hx, he, rfl⟩ := bind_bind_pure_eq_ok.mp hr
    have he' := (World.readExpr_eq_ok_iff hs hp).mp he
    have hx' := (nameParam_eq_ok_iff hv).mpr ⟨rfl, x, mapError_eq_ok.mp hx⟩
    rw [ht]
    exact ⟨_, _, bind_bind_pure_eq_ok.mpr ⟨e, o.name, he', hx', rfl⟩, rfl,
      prints_respond (.inr (.inl rfl)) o (e.diff o.name)⟩
  | @simplify o args b params env ms hs hp henv hw hv =>
    obtain ⟨env', e, henv', he, rfl⟩ := bind_bind_pure_eq_ok.mp hr
    obtain rfl : env = env' := Except.ok.inj (henv.symm.trans henv')
    have he' := (World.readExpr_eq_ok_iff hs hp).mp he
    -- The bindings may be listed in another order, so only what they give to a name is the same.
    obtain ⟨env', hg, hn⟩ := hw.exists_envParam hv m
    rw [← Expr.simplify_congr hn]
    exact ⟨_, _, bind_bind_pure_eq_ok.mpr ⟨e, env', he', hg, rfl⟩, rfl,
      prints_respond (.inr (.inr rfl)) o (e.simplify env')⟩
  | hash hs hp =>
    obtain ⟨e, he, rfl⟩ := bind_pure_eq_ok.mp hr
    have he' := (World.readExpr_eq_ok_iff hs hp).mp he
    exact ⟨_, _, bind_pure_eq_ok.mpr ⟨e, he', rfl⟩, rfl, rfl⟩
  | vars hs hp =>
    obtain ⟨e, he, rfl⟩ := bind_pure_eq_ok.mp hr
    have he' := (World.readExpr_eq_ok_iff hs hp).mp he
    exact ⟨_, _, bind_pure_eq_ok.mpr ⟨e, he', rfl⟩, rfl, _, rfl, toList_linesOf e.freeNames⟩
  | equal hs hp hs' hp' =>
    obtain ⟨a, b, ha, hb, rfl⟩ := bind_bind_pure_eq_ok.mp hr
    have ha' := (World.fileExpr_eq_ok_iff hs hp).mp ha
    have hb' := (World.fileExpr_eq_ok_iff hs' hp').mp hb
    exact ⟨_, _, bind_bind_pure_eq_ok.mpr ⟨a, b, ha', hb', rfl⟩, rfl, rfl⟩

theorem Matches.exists_output (h : i.Matches w t params) {r : Tool.Response}
    (hr : t.run m params = .ok r) (s : Settings) :
    ∃ out, perform w s i.options i.arguments i.command = .ok out := by
  cases h with
  | render hs hp | hash hs hp | vars hs hp =>
    obtain ⟨e, he, -⟩ := bind_pure_eq_ok.mp hr
    have he' := (World.readExpr_eq_ok_iff hs hp).mpr he
    exact ⟨_, bind_pure_eq_ok.mpr ⟨e, he', rfl⟩⟩
  | diff hs hp ht hv =>
    obtain ⟨e, v, he, hv', -⟩ := bind_bind_pure_eq_ok.mp hr
    have he' := (World.readExpr_eq_ok_iff hs hp).mpr he
    obtain ⟨-, x, hx⟩ := (nameParam_eq_ok_iff hv).mp hv'
    exact ⟨_, bind_bind_pure_eq_ok.mpr ⟨x, e, mapError_eq_ok.mpr hx, he', rfl⟩⟩
  | simplify hs hp henv _ _ =>
    obtain ⟨e, _, he, -, -⟩ := bind_bind_pure_eq_ok.mp hr
    have he' := (World.readExpr_eq_ok_iff hs hp).mpr he
    exact ⟨_, bind_bind_pure_eq_ok.mpr ⟨_, e, henv, he', rfl⟩⟩
  | equal hs hp hs' hp' =>
    obtain ⟨a, b, ha, hb, -⟩ := bind_bind_pure_eq_ok.mp hr
    have ha' := (World.fileExpr_eq_ok_iff hs hp).mpr ha
    have hb' := (World.fileExpr_eq_ok_iff hs' hp').mpr hb
    exact ⟨_, bind_bind_pure_eq_ok.mpr ⟨a, b, ha', hb', rfl⟩⟩

theorem Matches.explains_eq (h : i.Matches w t params) : i.command.explains = false := by
  cases h <;> rfl

end Invocation

open Invocation (Matches Prints)

section Lines
variable {w : World} {c : Command} {o : Options} {words args : List String} {s : Settings} {t : Tool}
  {params : Members}

/-- Once the settings are loaded, nothing but the command itself can fail. -/
theorem runWords_eq (hl : w.toLibraries.Reliable) (hw : Spells c.flags words {} o args)
    (hs : Settings.load w.decodeSettings w.files w.environ o.config = .ok s)
    (h : Matches w ⟨c, o, args⟩ t params) :
    runWords w (c.label :: words) = Invocation.perform w s o args c := by
  obtain ⟨v, -, hv⟩ := Settings.exists_level_of_load hs hl.logging
  have ha : c.checkArguments args = .ok () := h.checkArguments
  have hr := hl.readsWords c words o args h.explains_eq hw
  simp only [runWords, Invocation.run, hr, ha, hs, hv, mapError_ok, bind, Except.bind]

/-- With settings that can be loaded, a command and a call that ask for the same of the same
expressions agree: the command, spelled out in words, succeeds exactly if the call reports no error,
and then it prints the answer. -/
theorem runWords_agrees (hl : w.toLibraries.Reliable) (hw : Spells c.flags words {} o args)
    (hs : Settings.load w.decodeSettings w.files w.environ o.config = .ok s)
    (h : Matches w ⟨c, o, args⟩ t params) (m : Tool.MemberOrder) :
    ((∃ out, runWords w (c.label :: words) = .ok out) ↔
      (Tool.call m ⟨t.name, params⟩).error = "") ∧
    ∀ out, runWords w (c.label :: words) = .ok out →
      ∃ text, out = .output text ∧ Prints (Tool.call m ⟨t.name, params⟩) o.json text c := by
  rw [runWords_eq hl hw hs h, Tool.error_call_eq_empty_iff]
  refine ⟨⟨?_, ?_⟩, ?_⟩
  · rintro ⟨out, hout⟩
    obtain ⟨r, text, hr, -⟩ := h.exists_response hout
    exact ⟨r, hr⟩
  · rintro ⟨r, hr⟩
    exact h.exists_output hr s
  · intro out hout
    obtain ⟨r, text, hr, ho, hp⟩ := h.exists_response hout
    rw [Tool.call_of_run hr]
    exact ⟨text, ho, hp⟩

end Lines

/-- The tree `x * 3` in a file and on the standard input, as six commands see it. -/
theorem runWords_agrees_tripled :
    let e : Expr := .prod (.var "x") (.num ⟨3⟩)
    let content := Bytes.ofString e.toJson.compact
    let w : World := {
      toLibraries := .standard
      files := fun path => if path = "e.json" then .ok content else .error (.missing path)
      input := .ok content
      environ := fun _ => "" }
    runWords w ["render", "e.json"] = .ok (.output "x * 3\n") ∧
      runWords w ["diff", "--var", "y", "--verbose"] = .ok (.output "x * 0 + 3 * 0\n") ∧
      runWords w ["simplify", "--env=x = .5", "-", "--json"] =
        .ok (.output "\x7b\"type\":\"number\",\"value\":\"1.5\"\x7d\n") ∧
      runWords w ["hash"] = .ok (.output "4ea85224eeabd295\n") ∧
      runWords w ["vars", "e.json"] = .ok (.output "x\n") ∧
      runWords w ["equal", "e.json", "e.json"] = .ok (.output "true\n") := by
  intro e content w
  have hparam {params : Members} {key : String} (hk : params.get? key = some e.toJson) :
      content.IsParam params key := by
    have hc : content.chars = e.toJson.compact.toList := by decide +kernel
    refine ⟨e.toMembers, ?_, by decide +kernel, by rw [hk, Expr.toJson_eq_object]⟩
    rw [hc, Expr.json_parse_compact (by decide +kernel), if_pos (by decide +kernel),
      Expr.toJson_eq_object]
  have agrees {c : Command} {o : Options} {words args : List String} {t : Tool} {params : Members}
      {expected : String} (hw : Spells c.flags words {} o args) (ho : o.config = "")
      (hm : Matches w ⟨c, o, args⟩ t params) (he : (Tool.call .written ⟨t.name, params⟩).error = "")
      (hp : ∀ text, Prints (Tool.call .written ⟨t.name, params⟩) o.json text c → text = expected) :
      runWords w (c.label :: words) = .ok (.output expected) := by
    have hs : Settings.load w.decodeSettings w.files w.environ o.config = .ok .default := by
      rw [ho]
      rfl
    obtain ⟨hiff, hout⟩ := runWords_agrees Libraries.reliable_standard hw hs hm .written
    obtain ⟨out, hr⟩ := hiff.mpr he
    obtain ⟨text, rfl, ht⟩ := hout out hr
    rw [hr, hp text ht]
  have hfile : w.Supplies ["e.json"] content := .file (by decide) rfl
  have harg {known : List Flag} : Spells known ["e.json"] {} {} ["e.json"] :=
    .argument (.inl (by decide)) .done
  refine ⟨?_, ?_, ?_, ?_, ?_, ?_⟩
  · have hm : Matches w ⟨.render, {}, ["e.json"]⟩ .render [("expr", e.toJson)] :=
      .render hfile (hparam rfl)
    refine agrees harg rfl hm (by decide +kernel) fun text ht => ?_
    exact ht.trans (by decide +kernel)
  · have hw : Spells (Command.flags .diff) ["--var", "y", "--verbose"] {}
        { name := "y", verbose := true } [] :=
      .next (by decide) .name rfl (.switch (by decide) .verbose rfl .done)
    have hm : Matches w ⟨.diff, { name := "y", verbose := true }, []⟩ .diff
        [("expr", e.toJson), ("var", .string "y")] := .diff (.input rfl) (hparam rfl) rfl rfl
    refine agrees hw rfl hm (by decide +kernel) fun text ht => ?_
    exact ht.trans (by decide +kernel)
  · have hw : Spells (Command.flags .simplify) ["--env=x = .5", "-", "--json"] {}
        { json := true, env := ["x = .5"] } ["-"] :=
      .joined (by decide) .env rfl
        (.argument (.inr rfl) (.switch (by decide) .json rfl .done))
    obtain ⟨env, henv, hx⟩ : ∃ env ∈ (w.readBindings { json := true, env := ["x = .5"] }).toOption,
        env.entries = [("x", ⟨0x3FE0000000000000⟩)] := by decide +kernel
    have hwrites : env.Writes [("x", .number ⟨0x3FE0000000000000⟩)] := by
      have hr := env.writes_reverse
      rwa [hx] at hr
    have hm : Matches w ⟨.simplify, { json := true, env := ["x = .5"] }, ["-"]⟩ .simplify
        [("expr", e.toJson), ("env", .object [("x", .number ⟨0x3FE0000000000000⟩)])] :=
      .simplify (.dash rfl) (hparam rfl) (eq_ok_of_mem_toOption henv) hwrites rfl
    refine agrees hw rfl hm (by decide +kernel) ?_
    rintro text ⟨v, hv, -, rfl⟩
    have hc := congrArg (Option.map Json.compact) hv
    have hx : ((Tool.call .written ⟨"simplify", [("expr", e.toJson),
        ("env", .object [("x", .number ⟨0x3FE0000000000000⟩)])]⟩).result.map Json.compact) =
        some "\x7b\"type\":\"number\",\"value\":\"1.5\"\x7d" := by decide +kernel
    rw [Option.some.inj (hc.symm.trans hx)]
    rfl
  · have hm : Matches w ⟨.hash, {}, []⟩ .hash [("expr", e.toJson)] := .hash (.input rfl) (hparam rfl)
    refine agrees .done rfl hm (by decide +kernel) fun text ht => ?_
    exact ht.trans (by decide +kernel)
  · have hm : Matches w ⟨.vars, {}, ["e.json"]⟩ .freeVariables [("expr", e.toJson)] :=
      .vars hfile (hparam rfl)
    have hr : Tool.call .written ⟨"free_variables", [("expr", e.toJson)]⟩ =
        { result := some (.array (e.freeNames.map .string)), string := Tool.namesText e.freeNames } :=
      Tool.call_of_run (t := .freeVariables)
        (bind_pure_eq_ok.mpr ⟨e, Tool.exprParam_toJson (by decide +kernel) rfl, rfl⟩)
    refine agrees harg rfl hm (by decide +kernel) ?_
    rintro text ⟨names, hn, ht⟩
    have hx : e.freeNames.map Json.string = names.map .string :=
      Json.array.inj (Option.some.inj ((congrArg Tool.Response.result hr).symm.trans hn))
    have hnames : e.freeNames = names :=
      List.map_injective_iff.mpr (fun _ _ => Json.string.inj) hx
    rw [← hnames] at ht
    exact String.toList_inj.mp (ht.trans (by decide +kernel))
  · have hw : Spells (Command.flags .equal) ["e.json", "e.json"] {} {} ["e.json", "e.json"] :=
      .argument (.inl (by decide)) harg
    have hm : Matches w ⟨.equal, {}, ["e.json", "e.json"]⟩ .equal
        [("a", e.toJson), ("b", e.toJson)] := .equal rfl (hparam rfl) rfl (hparam rfl)
    refine agrees hw rfl hm (by decide +kernel) fun text ht => ?_
    exact ht.trans (by decide +kernel)

end Symbolic
