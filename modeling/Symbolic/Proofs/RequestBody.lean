import Symbolic.Proofs.Calls
import Symbolic.Proofs.JsonReading

/-!
Which bodies are taken by the places that call tools. A body is taken exactly if what may be read of
it starts with one value that says what to call, and after space either ends there, with nothing
left unread, or goes on with a bracket or brace that closes, whatever follows that. All other bodies
are refused before any tool is called.
-/

namespace Symbolic.Service

open Json (Blank Denotes Spaced isClosing isSpace nestingLimit skipSpace)

/-- The text starts with one value, with space around it, and goes on with the tail. -/
def StartsWith (cs : List Char) (v : Json) (tail : List Char) : Prop :=
  ∃ text, cs = text ++ tail ∧ Spaced (Denotes nestingLimit) text v

/-- The text goes on with a bracket or brace that closes. -/
def Closes (tail : List Char) : Prop :=
  ∃ c ∈ tail.head?, isClosing c = true

theorem StartsWith.value_eq {cs tail : List Char} {v : Json} (h : StartsWith cs v tail)
    (hn : v.isNumber = false) :
    ∃ trail, Blank trail ∧ Json.value nestingLimit cs = .ok (v, trail ++ tail) := by
  obtain ⟨_, rfl, hs⟩ := h
  cases hs with
  | @mk lead text trail _ hl hx ht =>
    refine ⟨trail, ht, ?_⟩
    rw [List.append_assoc]
    exact hx.value_eq hl (trail ++ tail) (by simp [hn])

theorem startsWith_of_value {cs trail tail : List Char} {v : Json}
    (h : Json.value nestingLimit cs = .ok (v, trail ++ tail)) (ht : Blank trail) :
    StartsWith cs v tail := by
  obtain ⟨lead, text, hc, hl, hx⟩ := Json.exists_denotes_of_value h
  rw [← List.append_assoc] at hc
  exact ⟨_, hc, .mk hl hx ht⟩

theorem blank_of_value {depth depth' : Nat} {cs rest : List Char} {v v' : Json}
    (h : Spaced (Denotes depth) cs v) (h' : Json.value depth' cs = .ok (v', rest))
    (hn : v'.isNumber = false) : Blank rest := by
  cases h with
  | mk hl hx ht =>
    obtain ⟨-, rfl⟩ := hx.value_unique hl h' hn
    exact ht

theorem isSpace_of_isClosing {c : Char} (h : isClosing c = true) : isSpace c = false := by
  simp only [isClosing, Bool.or_eq_true, decide_eq_true_eq] at h
  rcases h with rfl | rfl
  · decide
  · decide

theorem hasTrailing_append {trail : List Char} (ht : Blank trail) {c : Char}
    (hc : isSpace c = false) (more : Bool) (rest : List Char) :
    hasTrailing more (trail ++ c :: rest) = !isClosing c := by
  rw [hasTrailing, ht.skipSpace_append, Json.skipSpace_cons hc]
  simp [isClosing]

theorem hasTrailing_of_blank {trail : List Char} (ht : Blank trail) (more : Bool) :
    hasTrailing more trail = more := by
  have hs := ht.skipSpace_append []
  rw [List.append_nil] at hs
  rw [hasTrailing, hs]
  rfl

/-- What may follow the value: space up to the end, with nothing left unread, or a mark that closes. -/
theorem hasTrailing_eq_false_iff {more : Bool} {rest : List Char} :
    hasTrailing more rest = false ↔
      ∃ trail tail, rest = trail ++ tail ∧ Blank trail ∧
        (tail = [] ∧ more = false ∨ Closes tail) := by
  constructor
  · intro h
    obtain ⟨trail, ht, hr⟩ := Json.exists_blank_skipSpace rest
    refine ⟨trail, skipSpace rest, hr, ht, ?_⟩
    cases hs : skipSpace rest with
    | nil =>
      rw [hr, hs, List.append_nil, hasTrailing_of_blank ht] at h
      exact .inl ⟨rfl, h⟩
    | cons c tail =>
      have hc : isSpace c = false := Json.isSpace_of_skipSpace hs
      rw [hr, hs, hasTrailing_append ht hc] at h
      exact .inr ⟨c, rfl, by simpa using h⟩
  · rintro ⟨trail, tail, rfl, ht, ⟨rfl, rfl⟩ | ⟨c, hc, hcl⟩⟩
    · rw [List.append_nil, hasTrailing_of_blank ht]
    · obtain ⟨tail, rfl⟩ := List.head?_eq_some_iff.mp hc
      rw [hasTrailing_append ht (isSpace_of_isClosing hcl), hcl]
      rfl

section Reading
variable {α : Type} {decode : Json → Except BodyError α} {limit : Int} {content : Bytes} {a : α}

theorem exists_value_of_readBody (h : readBody decode limit content = .ok a) :
    ∃ v rest, Json.value nestingLimit (window limit content) = .ok (v, rest) ∧
      decode v = .ok a ∧ hasTrailing (exceeds limit content) rest = false := by
  obtain ⟨⟨v, rest⟩, hv, h⟩ := bind_eq_ok.mp h
  obtain ⟨a', ha, h⟩ := bind_eq_ok.mp h
  refine ⟨v, rest, ?_, ?_, ?_⟩
  · rw [readValue] at hv
    split at hv
    · next v' rest' hr =>
      split at hv
      · simp at hv
      · rw [hr, Except.ok.inj hv]
    · simp at hv
    · simp at hv
  · split at h
    · simp at h
    · rw [ha]
      exact h
  · split at h
    · simp at h
    · next ht => simpa using ht

theorem readBody_eq_ok {v : Json} {rest : List Char}
    (hv : Json.value nestingLimit (window limit content) = .ok (v, rest))
    (hn : v.isNumber = false) (ha : decode v = .ok a)
    (ht : hasTrailing (exceeds limit content) rest = false) :
    readBody decode limit content = .ok a := by
  have hr : readValue limit content = .ok (v, rest) := by
    rw [readValue, hv]
    simp [hn]
  simp [readBody, bind, Except.bind, hr, ha, ht, pure, Except.pure]

/-- A number alone asks for nothing, so that it need not be known how far it goes. -/
theorem readBody_eq_ok_iff (hd : ∀ v a, decode v = .ok a → v.isNumber = false) :
    readBody decode limit content = .ok a ↔
      ∃ v tail, StartsWith (window limit content) v tail ∧
        (tail = [] ∧ exceeds limit content = false ∨ Closes tail) ∧ decode v = .ok a := by
  constructor
  · intro h
    obtain ⟨v, rest, hv, ha, ht⟩ := exists_value_of_readBody h
    obtain ⟨trail, tail, rfl, htr, hte⟩ := hasTrailing_eq_false_iff.mp ht
    exact ⟨v, tail, startsWith_of_value hv htr, hte, ha⟩
  · rintro ⟨v, tail, hs, hte, ha⟩
    have hn := hd v a ha
    obtain ⟨trail, htr, hv⟩ := hs.value_eq hn
    exact readBody_eq_ok hv hn ha (hasTrailing_eq_false_iff.mpr ⟨trail, tail, rfl, htr, hte⟩)

theorem isNumber_of_requestOf (v : Json) (q : Tool.Request) (h : requestOf v = .ok q) :
    v.isNumber = false := by
  cases v with
  | number x => simp [requestOf] at h
  | null | bool | string | array | object => rfl

theorem isNumber_of_requestsOf (v : Json) (qs : List Tool.Request) (h : requestsOf v = .ok qs) :
    v.isNumber = false := by
  cases v with
  | number x => simp [requestsOf] at h
  | null | bool | string | array | object => rfl

end Reading

/-- The value says which tools to call. Only two places ask for it. -/
def Route.Asks : Route → Json → Prop
  | .tool, v => ∃ q, requestOf v = .ok q
  | .batch, v => ∃ qs, requestsOf v = .ok qs
  | .catalogue, _ => False
  | .health, _ => False

theorem Route.Asks.isNumber_eq_false {route : Route} {v : Json} (h : route.Asks v) :
    v.isNumber = false := by
  cases route with
  | tool => exact h.elim (isNumber_of_requestOf v)
  | batch => exact h.elim (isNumber_of_requestsOf v)
  | catalogue | health => exact h.elim

/-- A request that posts the bytes to one of the places that call tools. -/
structure Posts (r : Request) (route : Route) (bytes : Bytes) : Prop where
  calls : route = .tool ∨ route = .batch
  method : r.method = "POST"
  path : r.target.path = Bytes.ofString route.path
  body : r.body = .content bytes

/-- The request is answered as a bad one, with a body that says why, and no tool is called. -/
structure Refused (s : Settings) (o : Occasion) (r : Request) : Prop where
  status : (handle s o r).status = 400
  body : ∃ message, (handle s o r).body = Reply.errorLine message
  calls : (plan s o r).calls = []

/-- The body is taken: what may be read of it is one value that says which tools to call, and what
follows is let pass. -/
def Taken (s : Settings) (route : Route) (bytes : Bytes) : Prop :=
  ∃ v tail, StartsWith (window s.maxBodyBytes bytes) v tail ∧
    (tail = [] ∧ exceeds s.maxBodyBytes bytes = false ∨ Closes tail) ∧ route.Asks v

def post (route : Route) (text : String) : Request where
  method := "POST"
  target := ⟨Bytes.ofString route.path, ""⟩
  body := .content (Bytes.ofString text)
  cancelled := false

theorem posts_post {route : Route} (h : route = .tool ∨ route = .batch) (text : String) :
    Posts (post route text) route (Bytes.ofString text) :=
  ⟨h, rfl, rfl, rfl⟩

def Occasion.plain : Occasion := ⟨"", fun _ => .written, ""⟩

def limitedTo (limit : Int) : Settings :=
  { Settings.default with maxBodyBytes := limit }

def renderCall : String :=
  "\x7b\"tool\":\"render\",\"params\":\x7b\"expr\":" ++
    "\x7b\"type\":\"variable\",\"name\":\"x\"\x7d\x7d\x7d"

section Posting
variable {s : Settings} {o : Occasion} {r : Request} {route : Route} {bytes : Bytes}

theorem Posts.plan_eq_planAt (h : Posts r route bytes) : plan s o r = planAt s o r := by
  have hw : r.target ≠ .whole := by
    intro hw
    have hp := h.path
    rw [hw] at hp
    rcases h.calls with rfl | rfl
    · exact absurd hp (by decide)
    · exact absurd hp (by decide)
  have hc : r.target.isClean = true := by
    rw [Target.isClean, h.path]
    rcases h.calls with rfl | rfl
    · decide
    · decide
  rw [plan, if_neg hw, hc, Bool.or_true, if_pos rfl]

theorem Posts.plan_tool (h : Posts r .tool bytes) :
    plan s o r = planBody o requestOf .tool s.maxBodyBytes bytes := by
  have hr : Route.ofPath? (Bytes.ofString Route.tool.path) = some .tool := by decide
  rw [h.plan_eq_planAt, planAt, h.path, hr]
  simp [planPosted, h.method, h.body]

theorem Posts.plan_batch (h : Posts r .batch bytes) :
    plan s o r = planBody o requestsOf (planBatch s r.cancelled) s.maxBodyBytes bytes := by
  have hr : Route.ofPath? (Bytes.ofString Route.batch.path) = some .batch := by decide
  rw [h.plan_eq_planAt, planAt, h.path, hr]
  simp [planPosted, h.method, h.body]

theorem refused_of_plan {message : String} (h : plan s o r = .reply (.badRequest message)) :
    Refused s o r := by
  have hh : handle s o r = .badRequest message := by rw [handle_eq_carryOut, h, Plan.carryOut]
  exact ⟨by rw [hh, Reply.status], ⟨message, by rw [hh, Reply.body]⟩, by rw [h, Plan.calls]⟩

theorem status_planBatch (s : Settings) (o : Occasion) (cancelled : Bool)
    (requests : List Tool.Request) :
    ((planBatch s cancelled requests).carryOut o).status ≠ 400 := by
  unfold planBatch
  split
  · simp [Plan.carryOut, Reply.status]
  split
  · simp [Plan.carryOut, Reply.status]
  · simp [Plan.carryOut, Reply.status]

theorem taken_or_refused {α : Type} {decode : Json → Except BodyError α} {next : α → Plan}
    (hp : plan s o r = planBody o decode next s.maxBodyBytes bytes)
    (hd : ∀ v a, decode v = .ok a → v.isNumber = false)
    (hr : ∀ v, route.Asks v ↔ ∃ a, decode v = .ok a)
    (hn : ∀ a, ((next a).carryOut o).status ≠ 400) :
    (Taken s route bytes ∧ (handle s o r).status ≠ 400) ∨
      (¬ Taken s route bytes ∧ Refused s o r) := by
  cases hb : readBody decode s.maxBodyBytes bytes with
  | ok a =>
    obtain ⟨v, tail, hs, ht, ha⟩ := (readBody_eq_ok_iff hd).mp hb
    have hh : handle s o r = (next a).carryOut o := by
      rw [handle_eq_carryOut, hp, planBody, hb]
    refine .inl ⟨⟨v, tail, hs, ht, (hr v).mpr ⟨a, ha⟩⟩, ?_⟩
    rw [hh]
    exact hn a
  | error e =>
    refine .inr ⟨?_, refused_of_plan (hp.trans (by rw [planBody, hb]))⟩
    rintro ⟨v, tail, hs, ht, hv⟩
    obtain ⟨a, ha⟩ := (hr v).mp hv
    have ho := (readBody_eq_ok_iff hd).mpr ⟨v, tail, hs, ht, ha⟩
    simp [hb] at ho

theorem Posts.taken_or_refused (h : Posts r route bytes) (s : Settings) (o : Occasion) :
    (Taken s route bytes ∧ (handle s o r).status ≠ 400) ∨
      (¬ Taken s route bytes ∧ Refused s o r) := by
  rcases h.calls with rfl | rfl
  · exact Service.taken_or_refused h.plan_tool isNumber_of_requestOf (fun _ => Iff.rfl)
      fun q => by simp [Plan.carryOut, Reply.status]
  · exact Service.taken_or_refused h.plan_batch isNumber_of_requestsOf (fun _ => Iff.rfl)
      (status_planBatch s o r.cancelled)

theorem Posts.status_ne_iff (h : Posts r route bytes) :
    (handle s o r).status ≠ 400 ↔ Taken s route bytes := by
  rcases h.taken_or_refused s o with ⟨ht, hs⟩ | ⟨ht, hr⟩
  · exact iff_of_true hs ht
  · exact iff_of_false (not_not_intro hr.status) ht

theorem Posts.refused_of_status (h : Posts r route bytes) (hs : (handle s o r).status = 400) :
    Refused s o r :=
  ((h.taken_or_refused s o).resolve_left fun ht => ht.2 hs).2

theorem Posts.refused_of_not_taken (h : Posts r route bytes) (ht : ¬ Taken s route bytes) :
    Refused s o r :=
  ((h.taken_or_refused s o).resolve_left fun hs => ht hs.1).2

/-- The value that a taken body starts with is its first one, so nothing but a mark that closes can
come next after space. -/
theorem not_taken_of_trailing {depth : Nat} {lead text trail rest : List Char} {c : Char} {v : Json}
    (hw : window s.maxBodyBytes bytes = lead ++ text ++ (trail ++ c :: rest)) (hl : Blank lead)
    (hx : Denotes depth text v) (ht : Blank trail) (hs : isSpace c = false)
    (hc : isClosing c = false) : ¬ Taken s route bytes := by
  rintro ⟨v', tail, hv, hte, ha⟩
  have hn := ha.isNumber_eq_false
  obtain ⟨trail', htr, hv⟩ := hv.value_eq hn
  rw [hw] at hv
  have hu : trail ++ c :: rest = trail' ++ tail := (hx.value_unique hl hv hn).2
  have hf := hasTrailing_eq_false_iff.mpr ⟨trail', tail, hu, htr, hte⟩
  rw [hasTrailing_append ht hs, hc] at hf
  simp at hf

/-- A body past the limit is refused, unless what may be read of it holds a value that says what to
call and, after space, a mark that closes. -/
theorem Posts.long_body (h : Posts r route bytes) (hL : 0 < s.maxBodyBytes)
    (hb : s.maxBodyBytes < bytes.length) :
    ((handle s o r).status ≠ 400 ↔
      ∃ v tail, StartsWith (Bytes.chars (bytes.take s.maxBodyBytes.toNat)) v tail ∧
        Closes tail ∧ route.Asks v) ∧
    ((handle s o r).status = 400 → Refused s o r) := by
  have he : exceeds s.maxBodyBytes bytes = true := by
    rw [exceeds, decide_eq_true_eq]
    omega
  refine ⟨?_, h.refused_of_status⟩
  rw [h.status_ne_iff, Taken, he]
  simp [window]

/-- The value ends within the limit, which is passed by nothing but space. -/
theorem long_body_blank : Refused (limitedTo 5) .plain (post .tool "null   ") := by
  have hp := posts_post (.inl rfl) "null   "
  exact (hp.long_body (by decide) (by decide +kernel)).2 (by decide +kernel)

/-- Not every body past the limit is refused: a bracket ends the reading, and the tool is called. -/
theorem not_forall_long_body_refused :
    ¬ ∀ (s : Settings) (o : Occasion) (r : Request) (route : Route) (bytes : Bytes),
      Posts r route bytes → 0 < s.maxBodyBytes → s.maxBodyBytes < bytes.length →
      Refused s o r := by
  intro h
  have hp := posts_post (.inl rfl) (renderCall ++ "]more")
  have hr := h (limitedTo 67) .plain _ _ _ hp (by decide) (by decide +kernel)
  have hs : (handle (limitedTo 67) .plain (post .tool (renderCall ++ "]more"))).status = 200 := by
    decide +kernel
  rw [hr.status] at hs
  exact absurd hs (by decide)

/-- A body within the limit is taken only if it is one value that says what to call, with space
around it, and either ends there or goes on with a mark that closes. With any other character after
its first value, of whatever depth, it is refused. -/
theorem Posts.short_body (h : Posts r route bytes) (hb : bytes.length ≤ s.maxBodyBytes) :
    ((handle s o r).status ≠ 400 ↔
      ∃ v tail, StartsWith bytes.chars v tail ∧ (tail = [] ∨ Closes tail) ∧ route.Asks v) ∧
    ∀ depth lead text trail c rest v, bytes.chars = lead ++ text ++ (trail ++ c :: rest) →
      Blank lead → Denotes depth text v → Blank trail → isSpace c = false →
      isClosing c = false → Refused s o r := by
  have he : exceeds s.maxBodyBytes bytes = false := by
    rw [exceeds, decide_eq_false_iff_not]
    omega
  have hw : window s.maxBodyBytes bytes = bytes.chars := by
    rw [window, List.take_of_length_le (by omega)]
  have ht : Taken s route bytes ↔
      ∃ v tail, StartsWith bytes.chars v tail ∧ (tail = [] ∨ Closes tail) ∧ route.Asks v := by
    rw [Taken, he, hw]
    simp
  refine ⟨h.status_ne_iff.trans ht, ?_⟩
  intro depth lead text trail c rest v hc hl hx htr hs hcl
  exact h.refused_of_not_taken (not_taken_of_trailing (hw.trans hc) hl hx htr hs hcl)

theorem short_body_second_value : Refused (limitedTo 64) .plain (post .tool "null null") := by
  have hp := posts_post (.inl rfl) "null null"
  have hc : (Bytes.ofString "null null").chars =
      [] ++ ['n', 'u', 'l', 'l'] ++ ([' '] ++ 'n' :: ['u', 'l', 'l']) := by decide +kernel
  have hn : Blank [] := by simp [Blank]
  have hb : Blank [' '] := by simp [Blank, isSpace]
  have hl : (Bytes.ofString "null null").length ≤ (limitedTo 64).maxBodyBytes := by decide +kernel
  exact (hp.short_body hl).2 0 _ _ _ _ _ .null hc hn .nullWord hb (by decide) (by decide)

/-- Not every body that goes on after its first value is refused: the call is answered. -/
theorem not_forall_short_body_refused :
    ¬ ∀ (s : Settings) (o : Occasion) (r : Request) (route : Route) (bytes : Bytes),
      Posts r route bytes → 0 < s.maxBodyBytes → bytes.length ≤ s.maxBodyBytes →
      ((handle s o r).status ≠ 400 → ∃ v, Spaced (Denotes nestingLimit) bytes.chars v) ∧
      ∀ depth lead text trail c rest v, bytes.chars = lead ++ text ++ (trail ++ c :: rest) →
        Blank lead → Denotes depth text v → Blank trail → isSpace c = false →
        Refused s o r := by
  intro h
  have hp := posts_post (.inl rfl) (renderCall ++ "] more")
  have hs : (handle .default .plain (post .tool (renderCall ++ "] more"))).status = 200 := by
    decide +kernel
  obtain ⟨v, hv⟩ := (h .default .plain _ _ _ hp (by decide) (by decide +kernel)).1 (by simp [hs])
  have hr :
      ∃ p ∈ (Json.value nestingLimit (Bytes.ofString (renderCall ++ "] more")).chars).toOption,
        p.1.isNumber = false ∧ p.2.head? = some ']' := by decide +kernel
  obtain ⟨⟨v', rest⟩, he, hn, hc⟩ := hr
  have hb : Blank rest := blank_of_value hv (eq_ok_of_mem_toOption he) hn
  have hsp : isSpace ']' = true := hb _ (List.mem_of_mem_head? hc)
  exact absurd hsp (by decide)

end Posting

end Symbolic.Service
