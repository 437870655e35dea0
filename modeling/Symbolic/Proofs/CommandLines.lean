import Symbolic.Proofs.Layering

/-!
Words that spell a command line: the name of a command, and then flags of the command and arguments
in any order. A switch stands alone; a flag that takes a text has it after an equals sign or in the
next word. The library that reads words is expected to know command lines that are spelled so, and the
one that the program is run with does.
-/

namespace Symbolic

namespace Flag

inductive TurnsOn (o : Options) : Flag → Options → Prop
  | verbose : TurnsOn o .verbose { o with verbose := true }
  | json : TurnsOn o .json { o with json := true }

inductive Stores (o : Options) (text : String) : Flag → Options → Prop
  | config : Stores o text .config { o with config := text }
  | name : Stores o text .name { o with name := text }
  | env : Stores o text .env { o with env := o.env ++ [text] }
  | envFile : Stores o text .envFile { o with envFile := text }
  | address : Stores o text .address { o with address := text }

end Flag

/-- The words, read from these options on, give those options and arguments in the end. -/
inductive Spells (known : List Flag) : List String → Options → Options → List String → Prop
  | done {o : Options} : Spells known [] o o []
  | switch {f : Flag} {word : String} {words args : List String} {o o' o'' : Options} :
      f ∈ known → f.TurnsOn o o' → word = "--" ++ f.label → Spells known words o' o'' args →
      Spells known (word :: words) o o'' args
  | joined {f : Flag} {text word : String} {words args : List String} {o o' o'' : Options} :
      f ∈ known → f.Stores o text o' → word = "--" ++ f.label ++ "=" ++ text →
      Spells known words o' o'' args → Spells known (word :: words) o o'' args
  | next {f : Flag} {text word : String} {words args : List String} {o o' o'' : Options} :
      f ∈ known → f.Stores o text o' → word = "--" ++ f.label → Spells known words o' o'' args →
      Spells known (word :: text :: words) o o'' args
  | argument {word : String} {words args : List String} {o o' : Options} :
      word.toList.head? ≠ some '-' ∨ word = "-" → Spells known words o o' args →
      Spells known (word :: words) o o' (word :: args)

/-- What the program relies on: command lines that are spelled out are read as such, and the loggers
of its settings can be had. -/
structure Libraries.Reliable (l : Libraries) : Prop where
  readsWords : ∀ (c : Command) words o args, c.explains = false → Spells c.flags words {} o args →
    l.readWords (c.label :: words) = .ok (some ⟨c, o, args⟩)
  logging : l.logging.Reliable

section Reading
variable {known : List Flag} {f : Flag} {o o' o'' : Options} {text word : String}
  {words args : List String}

theorem Flag.label_inj {f g : Flag} (h : f.label = g.label) : f = g := by
  cases f <;> cases g <;> first | rfl | exact absurd h (by decide)

theorem find?_label (h : f ∈ known) : known.find? (·.label = f.label) = some f := by
  induction known with
  | nil => cases h
  | cons g known ih =>
    by_cases hg : g.label = f.label
    · rw [List.find?_cons_of_pos (by simpa using hg), Flag.label_inj hg]
    · rw [List.find?_cons_of_neg (by simpa using hg)]
      exact ih ((List.mem_cons.mp h).resolve_left fun he => hg (he ▸ rfl))

theorem Flag.TurnsOn.set_eq (h : f.TurnsOn o o') : f.set o "true" = .ok o' ∧ f.isSwitch = true := by
  cases h with
  | verbose | json => exact ⟨rfl, rfl⟩

theorem Flag.Stores.set_eq (h : f.Stores o text o') : f.set o text = .ok o' ∧ f.isSwitch = false := by
  cases h with
  | config | name | env | envFile | address => exact ⟨rfl, rfl⟩

namespace Options

theorem splitEquals_label (f : Flag) : splitEquals f.label.toList = (f.label.toList, none) := by
  cases f <;> decide

theorem splitEquals_joined (f : Flag) (cs : List Char) :
    splitEquals (f.label.toList ++ '=' :: cs) = (f.label.toList, some cs) := by
  cases f <;> simp [splitEquals, Flag.label]

theorem label_ne_nil (f : Flag) : f.label.toList ≠ [] := by
  cases f <;> decide

theorem head?_label (f : Flag) (cs : List Char) :
    ((f.label.toList ++ cs).head? = some '-' || (f.label.toList ++ cs).head? = some '=') = false := by
  cases f <;> simp [Flag.label]

theorem readLong_switch (hf : f ∈ known) (h : f.TurnsOn o o') :
    readLong known o f.label.toList = .ok (o', none) := by
  have hh := head?_label f []
  rw [List.append_nil] at hh
  rw [readLong, splitEquals_label]
  simp only [hh, String.ofList_toList, find?_label hf, h.set_eq]
  rfl

theorem readLong_joined (hf : f ∈ known) (h : f.Stores o text o') :
    readLong known o (f.label.toList ++ '=' :: text.toList) = .ok (o', none) := by
  rw [readLong, splitEquals_joined]
  simp only [head?_label, String.ofList_toList, find?_label hf, h.set_eq]
  rfl

theorem readLong_next (hf : f ∈ known) (h : f.Stores o text o') :
    readLong known o f.label.toList = .ok (o, some (f, .noValue f.label)) := by
  have hh := head?_label f []
  rw [List.append_nil] at hh
  rw [readLong, splitEquals_label]
  simp only [hh, String.ofList_toList, find?_label hf, h.set_eq]
  rfl

theorem readWords_long {cs : List Char} (hw : word.toList = '-' :: '-' :: cs) (hc : cs ≠ []) :
    readWords known o none (word :: words) =
      readLong known o cs >>= fun r => readWords known r.1 r.2 words := by
  obtain ⟨c, cs, rfl⟩ := List.exists_cons_of_ne_nil hc
  rw [readWords, hw]
  rfl

theorem readWords_argument (hw : word.toList.head? ≠ some '-' ∨ word = "-") :
    readWords known o none (word :: words) =
      readWords known o none words >>= fun r => .ok (r.1, word :: r.2) := by
  rcases hw with hw | rfl
  · rw [readWords]
    split
    · simp_all
    · simp_all
    · simp_all
    · rfl
  · rfl

theorem readWords_of_spells (h : Spells known words o o' args) :
    readWords known o none words = .ok (o', args) := by
  induction h with
  | done => rfl
  | @switch f word _ _ _ _ _ hf ho hw _ ih =>
    have hl : word.toList = '-' :: '-' :: f.label.toList := by simp [hw]
    rw [readWords_long hl (label_ne_nil f), readLong_switch hf ho]
    exact ih
  | @joined f text word _ _ _ _ _ hf ho hw _ ih =>
    have hl : word.toList = '-' :: '-' :: (f.label.toList ++ '=' :: text.toList) := by simp [hw]
    rw [readWords_long hl (by simp), readLong_joined hf ho]
    exact ih
  | @next f text word words _ o o' _ hf ho hw _ ih =>
    have hl : word.toList = '-' :: '-' :: f.label.toList := by simp [hw]
    have hs : readWords known o (some (f, .noValue f.label)) (text :: words) =
        readWords known o' none words := by
      rw [readWords, ho.set_eq.1]
      rfl
    rw [readWords_long hl (label_ne_nil f), readLong_next hf ho]
    exact hs.trans ih
  | argument hw _ ih =>
    rw [readWords_argument hw, ih]
    rfl

end Options

theorem Spells.help_eq (h : Spells known words o o' args) : o'.help = o.help := by
  induction h with
  | done => rfl
  | switch _ ho _ _ ih =>
    rw [ih]
    cases ho <;> rfl
  | joined _ ho _ _ ih | next _ ho _ _ ih =>
    rw [ih]
    cases ho <;> rfl
  | argument _ _ ih => exact ih

end Reading

namespace Command

theorem find?_label_cons (c : Command) (words : List String) :
    find? (c.label :: words) = some (c.label, words) := by
  cases words with
  | nil => cases c <;> rfl
  | cons word words => cases c <;> rfl

theorem ofLabel?_label (c : Command) : ofLabel? c.label = some c := by
  cases c <;> rfl

end Command

theorem Libraries.reliable_standard : Libraries.standard.Reliable := by
  refine ⟨?_, Logging.reliable_standard⟩
  intro c words o args hc h
  have hr : Options.read c.flags words = .ok (o, args) := Options.readWords_of_spells h
  have hh : o.help = false := h.help_eq
  simp only [standard, Invocation.ofWords, Command.find?_label_cons, Command.ofLabel?_label, hr, hh, hc,
    mapError_ok, bind, Except.bind]
  rfl

end Symbolic
