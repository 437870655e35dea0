import Mathlib.Tactic.SplitIfs
import Symbolic.Proofs.Decoding
import Symbolic.Standard

/-!
Settings field by field. Each field has the value that the environment overrides it with, or else the
one that the file assigns, or else its default; what the file assigns to a field that is overridden
does not matter. The settings are checked only once all layers are in place, and the levels that pass
the check are names that a logger knows.

What a file assigns is whatever a decoder makes of it, and loggers are built by a library that knows
the levels of the settings by their names.
-/

namespace Symbolic.Settings

section Fields

inductive Field where
  | address
  | maxBodyBytes
  | readHeaderTimeout
  | readTimeout
  | writeTimeout
  | idleTimeout
  | shutdownTimeout
  | level
  | format
  | batchConcurrency
  | maxBatchSize
deriving DecidableEq, Repr

abbrev Field.Value : Field → Type
  | .address | .level | .format => String
  | .maxBodyBytes | .batchConcurrency | .maxBatchSize => Int
  | .readHeaderTimeout | .readTimeout | .writeTimeout | .idleTimeout | .shutdownTimeout => Duration

def get (s : Settings) : (f : Field) → f.Value
  | .address => s.address
  | .maxBodyBytes => s.maxBodyBytes
  | .readHeaderTimeout => s.readHeaderTimeout
  | .readTimeout => s.readTimeout
  | .writeTimeout => s.writeTimeout
  | .idleTimeout => s.idleTimeout
  | .shutdownTimeout => s.shutdownTimeout
  | .level => s.level
  | .format => s.format
  | .batchConcurrency => s.batchConcurrency
  | .maxBatchSize => s.maxBatchSize

def ofFields (value : (f : Field) → f.Value) : Settings where
  address := value .address
  maxBodyBytes := value .maxBodyBytes
  readHeaderTimeout := value .readHeaderTimeout
  readTimeout := value .readTimeout
  writeTimeout := value .writeTimeout
  idleTimeout := value .idleTimeout
  shutdownTimeout := value .shutdownTimeout
  level := value .level
  format := value .format
  batchConcurrency := value .batchConcurrency
  maxBatchSize := value .maxBatchSize

/-- The value under the section and the key of a field, if one is assigned. -/
def Assignment.get? (a : Assignment) : (f : Field) → Option f.Value
  | .address => a.text "server" "addr"
  | .maxBodyBytes => a.integer "server" "max_body_bytes"
  | .readHeaderTimeout => a.duration "server" "read_header_timeout"
  | .readTimeout => a.duration "server" "read_timeout"
  | .writeTimeout => a.duration "server" "write_timeout"
  | .idleTimeout => a.duration "server" "idle_timeout"
  | .shutdownTimeout => a.duration "server" "shutdown_timeout"
  | .level => a.text "logging" "level"
  | .format => a.text "logging" "format"
  | .batchConcurrency => a.integer "tool" "batch_concurrency"
  | .maxBatchSize => a.integer "tool" "max_batch_size"

theorem get_ofFields (value : (f : Field) → f.Value) (f : Field) : (ofFields value).get f = value f := by
  cases f <;> rfl

theorem ext_get {s t : Settings} (h : ∀ f, s.get f = t.get f) : s = t :=
  congrArg ofFields (funext h)

end Fields

section Layers

def nonEmpty? (text : String) : Option String :=
  if text = "" then none else some text

def Field.override? (environ : Environment) : (f : Field) → Option f.Value
  | .address => nonEmpty? (environ "EXPRESSIVO_ADDR")
  | .level => nonEmpty? (environ "EXPRESSIVO_LOG_LEVEL")
  | .format => nonEmpty? (environ "EXPRESSIVO_LOG_FORMAT")
  | _ => none

def layeredValue (environ : Environment) (a : Assignment) (f : Field) : f.Value :=
  ((f.override? environ).or (a.get? f)).getD (default.get f)

theorem override_getD (value current : String) :
    override value current = (nonEmpty? value).getD current := by
  rw [override, nonEmpty?]
  split
  · rfl
  · rfl

theorem get_assigned (s : Settings) (a : Assignment) (f : Field) :
    (s.assigned a).get f = (a.get? f).getD (s.get f) := by
  cases f <;> rfl

theorem get_withEnvironment (s : Settings) (environ : Environment) (f : Field) :
    (s.withEnvironment environ).get f = (f.override? environ).getD (s.get f) := by
  cases f with
  | address | level | format => exact override_getD _ _
  | maxBodyBytes | readHeaderTimeout | readTimeout | writeTimeout | idleTimeout | shutdownTimeout
  | batchConcurrency | maxBatchSize => rfl

def layered (environ : Environment) (a : Assignment) : Settings :=
  ofFields (layeredValue environ a)

theorem withEnvironment_assigned (environ : Environment) (a : Assignment) :
    (default.assigned a).withEnvironment environ = layered environ a := by
  apply ext_get
  intro f
  rw [layered, get_ofFields, get_withEnvironment, get_assigned, layeredValue]
  cases f.override? environ <;> rfl

theorem eq_layered_iff {environ : Environment} {a : Assignment} {s : Settings} :
    s = layered environ a ↔ ∀ f, s.get f = layeredValue environ a f := by
  constructor
  · rintro rfl f
    exact get_ofFields _ f
  · intro h
    apply ext_get
    intro f
    rw [h, layered, get_ofFields]

theorem layered_congr {environ : Environment} {a b : Assignment}
    (h : ∀ f : Field, f.override? environ = none → a.get? f = b.get? f) :
    layered environ a = layered environ b := by
  have hv (f : Field) : layeredValue environ a f = layeredValue environ b f := by
    rw [layeredValue, layeredValue]
    cases ho : f.override? environ with
    | none => rw [h f ho]
    | some value => rfl
  exact congrArg ofFields (funext hv)

end Layers

section Loading

variable {decode : Bytes → Except String Assignment} {files : Files} {environ : Environment}
  {path : String}

/-- What the file at a path assigns: nothing if there is no path or no file, else what its content
decodes to. -/
inductive FileAssigns (decode : Bytes → Except String Assignment) (files : Files) (path : String) :
    Assignment → Prop
  | noPath : path = "" → FileAssigns decode files path .empty
  | missing {name : String} : path ≠ "" → files path = .error (.missing name) →
      FileAssigns decode files path .empty
  | decoded {content : Bytes} {a : Assignment} : path ≠ "" → files path = .ok content →
      decode content = .ok a → FileAssigns decode files path a

theorem readAssignment_eq_ok_iff {a : Assignment} :
    readAssignment decode files path = .ok a ↔ FileAssigns decode files path a := by
  constructor
  · intro h
    rw [readAssignment] at h
    split_ifs at h with hp
    · cases h
      exact .noPath hp
    · split at h
      · next hf =>
        cases h
        exact .missing hp hf
      · cases h
      · next content hf => exact .decoded hp hf (mapError_eq_ok.mp h)
  · intro h
    cases h with
    | noPath hp => rw [readAssignment, if_pos hp]
    | missing hp hf => rw [readAssignment, if_neg hp, hf]
    | decoded hp hf ha =>
      rw [readAssignment, if_neg hp, hf]
      exact mapError_eq_ok.mpr ha

/-- All fields have values that the service can work with. -/
structure Usable (s : Settings) : Prop where
  address : s.address ≠ ""
  maxBodyBytes : 0 < s.maxBodyBytes
  level : s.level ∈ ["debug", "info", "warn", "error"]
  format : s.format ∈ ["json", "console"]
  batchConcurrency : 0 ≤ s.batchConcurrency
  maxBatchSize : 0 < s.maxBatchSize

theorem fault?_eq_none_iff {s : Settings} : s.fault? = none ↔ s.Usable := by
  constructor
  · intro h
    rw [fault?] at h
    split_ifs at h with ha hb hl hf hc hm
    exact ⟨ha, Int.not_le.mp hb, hl, hf, Int.not_lt.mp hc, Int.not_le.mp hm⟩
  · rintro ⟨ha, hb, hl, hf, hc, hm⟩
    rw [fault?, if_neg ha, if_neg (Int.not_le.mpr hb), if_neg (not_not_intro hl),
      if_neg (not_not_intro hf), if_neg (Int.not_lt.mpr hc), if_neg (Int.not_le.mpr hm)]

theorem checked_eq_ok_iff {s t : Settings} : s.checked = .ok t ↔ s = t ∧ s.Usable := by
  rw [checked, ← fault?_eq_none_iff]
  split
  · next h => simp [h]
  · next h => simp [h]

theorem load_eq_ok_iff {s : Settings} :
    load decode files environ path = .ok s ↔
      ∃ a, FileAssigns decode files path a ∧ s = layered environ a ∧ s.Usable := by
  rw [load, bind_eq_ok]
  simp only [readAssignment_eq_ok_iff, checked_eq_ok_iff, withEnvironment_assigned]
  constructor
  · rintro ⟨a, ha, rfl, hu⟩
    exact ⟨a, ha, rfl, hu⟩
  · rintro ⟨a, ha, rfl, hu⟩
    exact ⟨a, ha, rfl, hu⟩

end Loading

end Symbolic.Settings

namespace Symbolic

/-- The library knows the four levels of the settings by their names, and it builds a logger of
either configuration in stock, whatever its level. -/
structure Logging.Reliable (l : Logging) : Prop where
  parses : ∀ v ∈ [Level.debug, .info, .warn, .error], l.parseLevel v.name = .ok v
  builds : ∀ stock level, l.build ⟨stock, level⟩ = .ok ()

theorem Logging.reliable_standard : Logging.standard.Reliable := by
  constructor
  · intro v _
    cases v <;> rfl
  · intro stock level
    rfl

theorem Logging.Reliable.new_eq_ok {l : Logging} (h : l.Reliable) {v : Level}
    (hv : v ∈ [Level.debug, .info, .warn, .error]) (format : String) (verbose : Bool) :
    l.new v.name format verbose =
      .ok ⟨if format = "console" then .development else .production, if verbose then .debug else v⟩ := by
  simp only [new, h.parses v hv, h.builds, mapError_ok, bind, Except.bind, pure, Except.pure]

namespace Settings

theorem Usable.exists_level {s : Settings} (h : s.Usable) :
    ∃ v ∈ [Level.debug, .info, .warn, .error], v.name = s.level := by
  have hl := h.level
  simp only [List.mem_cons, List.not_mem_nil, or_false] at hl
  obtain hl | hl | hl | hl := hl
  · exact ⟨.debug, by simp, hl.symm⟩
  · exact ⟨.info, by simp, hl.symm⟩
  · exact ⟨.warn, by simp, hl.symm⟩
  · exact ⟨.error, by simp, hl.symm⟩

section Logger
variable {decode : Bytes → Except String Assignment} {files : Files} {environ : Environment}
  {path : String} {s : Settings} {l : Logging}

theorem exists_level_of_load (h : load decode files environ path = .ok s) (hl : l.Reliable) :
    ∃ v : Level, v.name = s.level ∧ ∀ verbose, l.new s.level s.format verbose =
      .ok ⟨if s.format = "console" then .development else .production,
        if verbose then .debug else v⟩ := by
  obtain ⟨-, -, -, hu⟩ := load_eq_ok_iff.mp h
  obtain ⟨v, hv, hn⟩ := hu.exists_level
  refine ⟨v, hn, fun verbose => ?_⟩
  rw [← hn]
  exact hl.new_eq_ok hv s.format verbose

end Logger

/-- Settings are loaded exactly if there is no path, no file at it or a file whose content can be
decoded, and what the layers give together is usable. Each field of the settings then has its
override, or else the value that the file assigns, or else the default. Whatever the file assigns to
fields with an override, even if it is unusable, has no effect. A logger can be had at the level and
in the format that were loaded, verbose or not. -/
theorem load_layers (decode : Bytes → Except String Assignment) (files : Files)
    (environ : Environment) (path : String) :
    ((∃ s, load decode files environ path = .ok s) ↔
      ∃ a, FileAssigns decode files path a ∧ (layered environ a).Usable) ∧
    (∀ s, load decode files environ path = .ok s → ∃ a, FileAssigns decode files path a ∧
      ∀ f, s.get f = ((f.override? environ).or (a.get? f)).getD (default.get f)) ∧
    (∀ a b, FileAssigns decode files path a →
      (∀ f : Field, f.override? environ = none → a.get? f = b.get? f) →
      (layered environ b).Usable → load decode files environ path = .ok (layered environ b)) ∧
    ∀ l : Logging, l.Reliable → ∀ s, load decode files environ path = .ok s →
      ∃ v : Level, v.name = s.level ∧ ∀ verbose, l.new s.level s.format verbose =
        .ok ⟨if s.format = "console" then .development else .production,
          if verbose then .debug else v⟩ := by
  refine ⟨⟨?_, ?_⟩, ?_, ?_, ?_⟩
  · rintro ⟨s, h⟩
    obtain ⟨a, ha, rfl, hu⟩ := load_eq_ok_iff.mp h
    exact ⟨a, ha, hu⟩
  · rintro ⟨a, ha, hu⟩
    exact ⟨_, load_eq_ok_iff.mpr ⟨a, ha, rfl, hu⟩⟩
  · intro s h
    obtain ⟨a, ha, hs, -⟩ := load_eq_ok_iff.mp h
    exact ⟨a, ha, eq_layered_iff.mp hs⟩
  · intro a b ha hb hu
    exact load_eq_ok_iff.mpr ⟨a, ha, (layered_congr hb).symm, hu⟩
  · intro l hl s h
    exact exists_level_of_load h hl

theorem decodeSettings_of_patch {content : Bytes} {p : Patch}
    (h : (Yaml.parse content).bind Patch.ofNode? = some p) :
    Yaml.decodeSettings content = .ok p.toAssignment := by
  rw [Yaml.decodeSettings, h]
  rfl

/-- The file names a level that there is not, which the environment replaces. -/
theorem load_layers_repaired :
    let content := Bytes.ofString "logging:\n  level: chatty\n"
    let environ : Environment := fun name => if name = "EXPRESSIVO_LOG_LEVEL" then "warn" else ""
    let files : Files := fun _ => .ok content
    (load Yaml.decodeSettings files (fun _ => "") "settings.yaml").toOption = none ∧
      load Yaml.decodeSettings files environ "settings.yaml" =
        .ok { default with level := "warn" } ∧
      ∀ verbose, Logging.standard.new "warn" "json" verbose =
        .ok ⟨.production, if verbose then .debug else .warn⟩ := by
  intro content environ files
  have hd : (Yaml.parse content).bind Patch.ofNode? = some { level := some "chatty" } := by
    decide +kernel
  have hp : FileAssigns Yaml.decodeSettings files "settings.yaml"
      (Patch.toAssignment { level := some "chatty" }) :=
    .decoded (by decide) rfl (decodeSettings_of_patch hd)
  obtain ⟨-, -, hr, hl⟩ := load_layers Yaml.decodeSettings files environ "settings.yaml"
  have ho (f : Field) (hf : f.override? environ = none) :
      (Patch.toAssignment { level := some "chatty" }).get? f = Assignment.empty.get? f := by
    cases f with
    | level => cases hf
    | address | maxBodyBytes | readHeaderTimeout | readTimeout | writeTimeout | idleTimeout
    | shutdownTimeout | format | batchConcurrency | maxBatchSize => rfl
  have hu : (layered environ .empty).Usable := fault?_eq_none_iff.mp (by decide +kernel)
  have hs := hr _ .empty hp ho hu
  obtain ⟨v, hv, hn⟩ := hl _ Logging.reliable_standard _ hs
  obtain rfl : v = .warn := by
    cases v <;> first | rfl | exact absurd hv (by decide)
  exact ⟨by decide +kernel, hs, hn⟩

end Settings

end Symbolic
