import Mathlib.Algebra.Ring.Nat
import Mathlib.Data.List.Basic
import Symbolic.Tool.Batch

/-!
Batches under every schedule. Whatever the order of the moves, a batch is answered with all its
responses in their places, or with the error that the caller's context has ended with. It is always
answered: as long as it is not, some move of its own is possible, and only so many moves can be
made.
-/

namespace Symbolic.Tool.Batch

def Phase.isOpen : Phase → Bool
  | .looping | .launching | .waiting => true
  | .checking | .returned _ => false

/-- All that a move can do, with what has to hold before it. -/
inductive Transition (b : Batch) (s : State) : Move → State → Prop
  | proceed : s.phase = .looping → s.workers.length < b.requests.length → s.group = none →
      Transition b s .loop { s with phase := .launching }
  | leave : s.phase = .looping → (b.requests.length ≤ s.workers.length ∨ ∃ e, s.group = some e) →
      Transition b s .loop { s with phase := .waiting }
  | launch : s.phase = .launching → b.hasRoom s = true →
      Transition b s .loop { s with phase := .looping, workers := s.workers ++ [.launched] }
  | wait : s.phase = .waiting → (∀ w ∈ s.workers, w = .finished) →
      Transition b s .loop
        { s with phase := .joined s.failure, group := s.group.or (some .cancelled) }
  | check : s.phase = .checking →
      Transition b s .loop { s with phase := .returned (.checked s.slots s.caller) }
  | look {i : Nat} : s.workers[i]? = some .launched →
      Transition b s (.worker i) { s with workers := s.workers.set i (.looked s.group) }
  | store {i : Nat} {q : Request} : s.workers[i]? = some .cleared → b.requests[i]? = some q →
      Transition b s (.worker i)
        { s with
          workers := s.workers.set i .stored
          slots := s.slots.set i (some (call (b.orders i) q)) }
  | finish {i : Nat} : s.workers[i]? = some .stored →
      Transition b s (.worker i) { s with workers := s.workers.set i .finished }
  | report {i : Nat} {e : BatchError} : s.workers[i]? = some (.stopped e) →
      Transition b s (.worker i)
        { s with
          workers := s.workers.set i .finished
          failure := s.failure.or (some e)
          group := s.group.or (some .cancelled) }
  | relay {e : BatchError} : s.caller = some e → s.group = none →
      Transition b s .relay { s with group := some e }
  | withdraw {e : BatchError} : s.caller = none →
      Transition b s (.withdraw e) { s with caller := some e }

section Steps
variable {b : Batch} {s s' : State}

theorem transition_of_loopStep (h : b.loopStep s = some s') : Transition b s .loop s' := by
  unfold loopStep at h
  split at h
  · next hp =>
    split at h
    · next hc =>
      obtain ⟨hl, hg⟩ : s.workers.length < b.requests.length ∧ s.group = none := by simpa using hc
      cases h
      exact .proceed hp hl hg
    · next hc =>
      have hc : s.workers.length < b.requests.length → s.group ≠ none := by simpa using hc
      cases h
      refine .leave hp ?_
      by_cases hl : s.workers.length < b.requests.length
      · exact .inr (Option.ne_none_iff_exists'.mp (hc hl))
      · exact .inl (Nat.not_lt.mp hl)
  · next hp =>
    split at h
    · next hr =>
      cases h
      exact .launch hp hr
    · simp at h
  · next hp =>
    split at h
    · next ha =>
      cases h
      exact .wait hp (by simpa using ha)
    · simp at h
  · next hp =>
    cases h
    exact .check hp
  · simp at h

theorem transition_of_workerStep {i : Nat} {q : Request} {w : Worker}
    (hw : s.workers[i]? = some w) (hq : b.requests[i]? = some q)
    (h : b.workerStep i q s w = some s') : Transition b s (.worker i) s' := by
  cases w with
  | launched =>
    cases h
    exact .look hw
  | cleared =>
    cases h
    exact .store hw hq
  | stored =>
    cases h
    exact .finish hw
  | stopped e =>
    cases h
    exact .report hw
  | finished => simp [workerStep] at h

theorem transition_of_step {m : Move} (h : b.step s m = some s') : Transition b s m s' := by
  cases m with
  | loop => exact transition_of_loopStep h
  | worker i =>
    simp only [step] at h
    split at h
    · next w q hw hq => exact transition_of_workerStep hw hq h
    · simp at h
  | relay =>
    simp only [step] at h
    split at h
    · next e hc hg =>
      cases h
      exact .relay hc hg
    · simp at h
  | withdraw e =>
    simp only [step] at h
    split at h
    · next hc =>
      cases h
      exact .withdraw hc
    · simp at h

end Steps

/-- Lists have the lengths of the requests, and the loop launches no worker without a request. -/
structure Fits (b : Batch) (s : State) : Prop where
  slots : s.slots.length = b.requests.length
  workers : s.workers.length ≤ b.requests.length
  launching : s.phase = .launching → s.workers.length < b.requests.length
  room : 0 < b.limit → s.live ≤ b.limit

/-- Whatever error has been seen or kept is the one that the caller's context has ended with. The
group's context counts until the loop has waited for the workers, and by then none is left. -/
structure Traced (s : State) : Prop where
  group : s.phase.isOpen = true → ∀ e, s.group = some e → s.caller = some e
  failure : ∀ e, s.failure = some e → s.caller = some e
  stopped : ∀ e, .stopped e ∈ s.workers → s.caller = some e ∧ s.group.isSome = true
  joined : s.phase.isOpen = false → ∀ w ∈ s.workers, w = .finished

/-- A worker that has stored its response or finished leaves its slot filled. -/
def Worker.isDone : Worker → Bool
  | .stored | .finished => true
  | .launched | .cleared | .stopped _ => false

/-- As long as the caller's context is open, every worker does its work, and the loop goes on to
the last request. -/
structure Served (b : Batch) (s : State) : Prop where
  filled : s.caller = none → ∀ (i : Nat) (w : Worker) (q : Request), s.workers[i]? = some w →
    w.isDone = true → b.requests[i]? = some q → s.slots[i]? = some (some (call (b.orders i) q))
  launched : s.caller = none → s.phase = .waiting ∨ s.phase = .checking →
    s.workers.length = b.requests.length

/-- All responses in their places. -/
def full (b : Batch) : List (Option Response) :=
  (callAll b.orders b.requests).map some

theorem getElem?_full (b : Batch) (i : Nat) :
    b.full[i]? = b.requests[i]?.map fun q => some (call (b.orders i) q) := by
  rw [full, callAll, List.getElem?_map, List.getElem?_mapIdx, Option.map_map]
  rfl

/-- The answer is complete, or the error that the caller's context has ended with. -/
def Answered (b : Batch) (s : State) : Prop :=
  ∀ r, s.phase = .returned r → r = .ok b.full ∨ ∃ e, r = .error e ∧ s.caller = some e

structure Inv (b : Batch) (s : State) : Prop where
  fits : Fits b s
  traced : Traced s
  served : Served b s
  answered : Answered b s

section Workers
variable {s : State} {i : Nat} {w w' : Worker}

theorem countP_set_le {ws : List Worker} (hw : ws[i]? = some w) (hf : w ≠ .finished) :
    (ws.set i w').countP (· ≠ .finished) ≤ ws.countP (· ≠ .finished) := by
  obtain ⟨hi, rfl⟩ := List.getElem?_eq_some_iff.mp hw
  have hp : 0 < ws.countP (· ≠ .finished) := by
    rw [List.countP_pos_iff]
    exact ⟨ws[i], List.getElem_mem hi, by simpa using hf⟩
  rw [List.countP_set hi, if_pos (by simpa using hf)]
  split
  · omega
  · omega

theorem Traced.isOpen (h : Traced s) (hw : s.workers[i]? = some w) (hf : w ≠ .finished) :
    s.phase.isOpen = true := by
  cases ho : s.phase.isOpen with
  | true => rfl
  | false => exact absurd (h.joined ho w (List.mem_of_getElem? hw)) hf

end Workers

section Preserved
variable {b : Batch} {s s' : State} {m : Move}

/-- A worker's move changes neither the phase nor the lengths, and makes no worker live. -/
theorem Fits.setWorker (hf : Fits b s) {i : Nat} {w w' : Worker} (hi : s.workers[i]? = some w)
    (hw : w ≠ .finished) (hp : s'.phase = s.phase) (hs : s'.slots.length = s.slots.length)
    (hws : s'.workers = s.workers.set i w') : Fits b s' := by
  have hl : s'.workers.length = s.workers.length := by rw [hws, List.length_set]
  have hlive : s'.live ≤ s.live := by
    rw [State.live, hws]
    exact countP_set_le hi hw
  refine ⟨hs.trans hf.slots, hl ▸ hf.workers, ?_, ?_⟩
  · rw [hp, hl]
    exact hf.launching
  · intro hpos
    have := hf.room hpos
    omega

theorem Fits.step (hf : Fits b s) (h : Transition b s m s') : Fits b s' := by
  cases h with
  | proceed _ hlt _ => exact ⟨hf.slots, hf.workers, fun _ => hlt, hf.room⟩
  | leave _ _ => exact ⟨hf.slots, hf.workers, nofun, hf.room⟩
  | launch hp hroom =>
    have hlt := hf.launching hp
    refine ⟨hf.slots, ?_, nofun, ?_⟩
    · rw [List.length_append]
      exact hlt
    · intro hpos
      have hlive : s.live < b.limit := by
        simp only [hasRoom, Bool.or_eq_true, decide_eq_true_eq] at hroom
        omega
      have hadd : s.live + 1 =
          (s.workers ++ [Worker.launched]).countP (· ≠ .finished) := by
        rw [List.countP_append]
        rfl
      rw [State.live, ← hadd]
      omega
  | wait hp _ =>
    refine ⟨hf.slots, hf.workers, ?_, hf.room⟩
    cases s.failure <;> nofun
  | check _ => exact ⟨hf.slots, hf.workers, nofun, hf.room⟩
  | look hi => exact hf.setWorker hi nofun rfl rfl rfl
  | store hi _ => exact hf.setWorker hi nofun rfl List.length_set rfl
  | finish hi => exact hf.setWorker hi nofun rfl rfl rfl
  | report hi => exact hf.setWorker hi nofun rfl rfl rfl
  | relay _ _ => exact ⟨hf.slots, hf.workers, hf.launching, hf.room⟩
  | withdraw _ => exact ⟨hf.slots, hf.workers, hf.launching, hf.room⟩

theorem Traced.setWorker (ht : Traced s) {i : Nat} {w w' : Worker} (hi : s.workers[i]? = some w)
    (hw : w ≠ .finished) (hp : s'.phase = s.phase) (hc : s'.caller = s.caller)
    (hg : s'.group = s.group) (hf : ∀ e, s'.failure = some e → s.caller = some e)
    (hws : s'.workers = s.workers.set i w') (hn : ∀ e, w' = .stopped e → s.group = some e) :
    Traced s' := by
  have ho : s.phase.isOpen = true := ht.isOpen hi hw
  refine ⟨?_, ?_, ?_, ?_⟩
  · rw [hp, hg, hc]
    exact ht.group
  · rw [hc]
    exact hf
  · intro e he
    rw [hc, hg]
    rw [hws] at he
    rcases List.mem_or_eq_of_mem_set he with he | he
    · exact ht.stopped e he
    · have hge := hn e he.symm
      exact ⟨ht.group ho e hge, by rw [hge]; rfl⟩
  · rw [hp, ho]
    nofun

theorem isOpen_joined (failure : Option BatchError) : (Phase.joined failure).isOpen = false := by
  cases failure <;> rfl

theorem Traced.step (ht : Traced s) (h : Transition b s m s') : Traced s' := by
  cases h with
  | proceed hp _ _ =>
    have ho : s.phase.isOpen = true := by rw [hp]; rfl
    exact ⟨fun _ => ht.group ho, ht.failure, ht.stopped, nofun⟩
  | leave hp _ =>
    have ho : s.phase.isOpen = true := by rw [hp]; rfl
    exact ⟨fun _ => ht.group ho, ht.failure, ht.stopped, nofun⟩
  | launch hp _ =>
    have ho : s.phase.isOpen = true := by rw [hp]; rfl
    refine ⟨fun _ => ht.group ho, ht.failure, ?_, nofun⟩
    intro e he
    exact ht.stopped e (by simpa using he)
  | wait _ ha =>
    refine ⟨?_, ht.failure, ?_, fun _ => ha⟩
    · simp [isOpen_joined]
    · intro e he
      exact absurd (ha _ he) nofun
  | check hp =>
    have ho : s.phase.isOpen = false := by rw [hp]; rfl
    exact ⟨nofun, ht.failure, ht.stopped, fun _ => ht.joined ho⟩
  | look hi =>
    refine ht.setWorker hi nofun rfl rfl rfl ht.failure rfl ?_
    intro e he
    cases hg : s.group with
    | none => simp [hg, Worker.looked] at he
    | some e' => simpa [hg, Worker.looked] using he
  | store hi _ => exact ht.setWorker hi nofun rfl rfl rfl ht.failure rfl nofun
  | finish hi => exact ht.setWorker hi nofun rfl rfl rfl ht.failure rfl nofun
  | @report i e hi =>
    obtain ⟨hc, hg⟩ := ht.stopped e (List.mem_of_getElem? hi)
    have hor : s.group.or (some .cancelled) = s.group := by
      obtain ⟨e', he'⟩ := Option.isSome_iff_exists.mp hg
      rw [he']
      rfl
    refine ht.setWorker hi nofun rfl rfl hor ?_ rfl nofun
    intro e' he'
    rcases Option.or_eq_some_iff.mp he' with he' | ⟨-, he'⟩
    · exact ht.failure e' he'
    · rw [← he']
      exact hc
  | relay hc _ =>
    refine ⟨?_, ht.failure, ?_, ht.joined⟩
    · rintro - e' ⟨⟩
      exact hc
    · intro e' he'
      exact ⟨(ht.stopped e' he').1, rfl⟩
  | withdraw hc =>
    -- With the caller's context open, no error has been seen yet.
    have hn : ∀ e, s.caller ≠ some e := by simp [hc]
    refine ⟨?_, ?_, ?_, ht.joined⟩
    · intro ho e he
      exact absurd (ht.group ho e he) (hn e)
    · intro e he
      exact absurd (ht.failure e he) (hn e)
    · intro e he
      exact absurd (ht.stopped e he).1 (hn e)

theorem Served.setWorker (hs : Served b s) {i : Nat} {w' : Worker} (hp : s'.phase = s.phase)
    (hc : s'.caller = s.caller) (hws : s'.workers = s.workers.set i w')
    (hslots : ∀ j, j ≠ i → s'.slots[j]? = s.slots[j]?)
    (hi : s.caller = none → w'.isDone = true → ∀ q, b.requests[i]? = some q →
      s'.slots[i]? = some (some (call (b.orders i) q))) : Served b s' := by
  refine ⟨?_, ?_⟩
  · intro hcaller j w q hj hd hq
    rw [hc] at hcaller
    rw [hws, List.getElem?_set] at hj
    by_cases hij : i = j
    · subst hij
      split at hj
      · split at hj
        · obtain rfl : w' = w := by simpa using hj
          exact hi hcaller hd q hq
        · simp at hj
      · contradiction
    · rw [if_neg hij] at hj
      rw [hslots j (Ne.symm hij)]
      exact hs.filled hcaller j w q hj hd hq
  · rw [hc, hp, hws, List.length_set]
    exact hs.launched

theorem Served.step (hf : Fits b s) (ht : Traced s) (hs : Served b s) (h : Transition b s m s') :
    Served b s' := by
  cases h with
  | proceed _ _ _ => exact ⟨hs.filled, by simp⟩
  | leave hp hl =>
    refine ⟨hs.filled, ?_⟩
    intro hc _
    rcases hl with hl | ⟨e, he⟩
    · exact Nat.le_antisymm hf.workers hl
    · have ho : s.phase.isOpen = true := by rw [hp]; rfl
      simp [ht.group ho e he] at hc
  | launch _ _ =>
    refine ⟨?_, by simp⟩
    intro hc j w q hj hd hq
    rw [List.getElem?_append] at hj
    split at hj
    · exact hs.filled hc j w q hj hd hq
    · obtain rfl : w = .launched := List.mem_singleton.mp (List.mem_of_getElem? hj)
      simp [Worker.isDone] at hd
  | wait hp _ =>
    refine ⟨hs.filled, ?_⟩
    intro hc _
    exact hs.launched hc (.inl hp)
  | check _ => exact ⟨hs.filled, by simp⟩
  | look hi =>
    refine hs.setWorker rfl rfl rfl (fun _ _ => rfl) ?_
    intro _ hd
    cases hg : s.group <;> simp [hg, Worker.looked, Worker.isDone] at hd
  | @store i q hi hq =>
    refine hs.setWorker rfl rfl rfl ?_ ?_
    · intro j hj
      exact List.getElem?_set_ne (Ne.symm hj)
    · intro _ _ q' hq'
      obtain rfl : q = q' := by simpa [hq] using hq'
      have hlt : i < s.slots.length := by
        rw [hf.slots]
        exact (List.getElem?_eq_some_iff.mp hq).1
      exact List.getElem?_set_self hlt
  | finish hi =>
    refine hs.setWorker rfl rfl rfl (fun _ _ => rfl) ?_
    intro hc _ q hq
    exact hs.filled hc _ _ q hi rfl hq
  | @report i e hi =>
    refine hs.setWorker rfl rfl rfl (fun _ _ => rfl) ?_
    intro hc
    simp [(ht.stopped e (List.mem_of_getElem? hi)).1] at hc
  | relay _ _ => exact ⟨hs.filled, hs.launched⟩
  | withdraw _ => exact ⟨nofun, nofun⟩

/-- Once all workers have finished undisturbed, every slot is filled. -/
theorem slots_eq_full (hf : Fits b s) (ht : Traced s) (hs : Served b s) (hp : s.phase = .checking)
    (hc : s.caller = none) : s.slots = b.full := by
  have ho : s.phase.isOpen = false := by rw [hp]; rfl
  apply List.ext_getElem?
  intro i
  rw [getElem?_full]
  cases hq : b.requests[i]? with
  | none =>
    have hi : b.requests.length ≤ i := List.getElem?_eq_none_iff.mp hq
    exact List.getElem?_eq_none (by rw [hf.slots]; exact hi)
  | some q =>
    have hi : i < s.workers.length := by
      rw [hs.launched hc (.inr hp)]
      exact (List.getElem?_eq_some_iff.mp hq).1
    have hw : s.workers[i]? = some .finished := by
      rw [List.getElem?_eq_getElem hi, ht.joined ho _ (List.getElem_mem hi)]
    exact hs.filled hc i _ q hw rfl hq

theorem Answered.step (hi : Inv b s) (h : Transition b s m s') : Answered b s' := by
  obtain ⟨hf, ht, hs, ha⟩ := hi
  cases h with
  | proceed _ _ _ => exact nofun
  | leave _ _ => exact nofun
  | launch _ _ => exact nofun
  | wait _ _ =>
    intro r hr
    cases he : s.failure with
    | none => simp [he, Phase.joined] at hr
    | some e =>
      obtain rfl : .error e = r := by simpa [he, Phase.joined] using hr
      exact .inr ⟨e, rfl, ht.failure e he⟩
  | check hp =>
    rintro r ⟨⟩
    cases hc : s.caller with
    | some e => exact .inr ⟨e, rfl, rfl⟩
    | none => exact .inl (congrArg Except.ok (slots_eq_full hf ht hs hp hc))
  | look _ | store _ _ | finish _ | report _ | relay _ _ => exact ha
  | withdraw hc =>
    intro r hr
    rcases ha r hr with rfl | ⟨e, -, he⟩
    · exact .inl rfl
    · simp [hc] at he

theorem Inv.step (hi : Inv b s) (h : Transition b s m s') : Inv b s' :=
  ⟨hi.fits.step h, hi.traced.step h, .step hi.fits hi.traced hi.served h, .step hi h⟩

theorem inv_start (b : Batch) (ended : Option BatchError) : Inv b (b.start ended) where
  fits := ⟨List.length_replicate, Nat.zero_le _, nofun, fun h => Int.le_of_lt h⟩
  traced := ⟨fun _ _ h => h, nofun, nofun, nofun⟩
  served := ⟨nofun, by simp [start]⟩
  answered := nofun

theorem run_cons_eq_some {m : Move} {ms : List Move} (h : b.run (m :: ms) s = some s') :
    ∃ t, b.step s m = some t ∧ b.run ms t = some s' :=
  Option.bind_eq_some_iff.mp h

theorem Inv.run (hi : Inv b s) {ms : List Move} (h : b.run ms s = some s') : Inv b s' := by
  induction ms generalizing s with
  | nil =>
    obtain rfl : s = s' := by simpa [Batch.run] using h
    exact hi
  | cons m ms ih =>
    obtain ⟨t, ht, h⟩ := run_cons_eq_some h
    exact ih (hi.step (transition_of_step ht)) h

end Preserved

section Ending
variable {b : Batch} {s s' : State} {m : Move}

def Worker.remaining : Worker → Nat
  | .launched => 3
  | .cleared => 2
  | .stored | .stopped _ => 1
  | .finished => 0

def Phase.remaining (unserved : Nat) : Phase → Nat
  | .looping => 5 * unserved + 3
  | .launching => 5 * unserved + 2
  | .waiting => 2
  | .checking => 1
  | .returned _ => 0

def openness (context : Option BatchError) : Nat :=
  if context.isNone then 1 else 0

def remaining (b : Batch) (s : State) : Nat :=
  s.phase.remaining (b.requests.length - s.workers.length)
    + (s.workers.map Worker.remaining).sum + openness s.caller + openness s.group

theorem sum_remaining_set {ws : List Worker} {i : Nat} {w w' : Worker} (hw : ws[i]? = some w) :
    ((ws.set i w').map Worker.remaining).sum + w.remaining =
      (ws.map Worker.remaining).sum + w'.remaining := by
  induction ws generalizing i with
  | nil => simp at hw
  | cons v ws ih =>
    cases i with
    | zero =>
      obtain rfl : v = w := by simpa using hw
      simp only [List.set_cons_zero, List.map_cons, List.sum_cons]
      omega
    | succ i =>
      have hr := ih (i := i) (by simpa using hw)
      simp only [List.set_cons_succ, List.map_cons, List.sum_cons]
      omega

theorem openness_or_le (context : Option BatchError) (e : BatchError) :
    openness (context.or (some e)) ≤ openness context := by
  cases context <;> simp [openness]

theorem remaining_setWorker {i : Nat} {w w' : Worker} (hi : s.workers[i]? = some w)
    (hw : w'.remaining < w.remaining) (hp : s'.phase = s.phase) (hc : s'.caller = s.caller)
    (hg : openness s'.group ≤ openness s.group) (hws : s'.workers = s.workers.set i w') :
    remaining b s' < remaining b s := by
  have hsum : ((s.workers.set i w').map Worker.remaining).sum + w.remaining =
      (s.workers.map Worker.remaining).sum + w'.remaining := sum_remaining_set hi
  rw [remaining, remaining, hp, hc, hws, List.length_set]
  omega

theorem Fits.remaining_lt (hf : Fits b s) (h : Transition b s m s') :
    remaining b s' < remaining b s := by
  cases h with
  | proceed hp _ _ =>
    simp only [remaining, hp, Phase.remaining]
    omega
  | leave hp _ =>
    simp only [remaining, hp, Phase.remaining]
    omega
  | launch hp _ =>
    have hlt := hf.launching hp
    simp only [remaining, hp, Phase.remaining, List.length_append, List.length_singleton,
      List.map_append, List.sum_append, List.map_singleton, List.sum_singleton, Worker.remaining]
    omega
  | wait hp _ =>
    have ho := openness_or_le s.group .cancelled
    have hj : (Phase.joined s.failure).remaining (b.requests.length - s.workers.length) ≤ 1 := by
      cases s.failure <;> simp [Phase.joined, Phase.remaining]
    simp only [remaining, hp, Phase.remaining] at hj ⊢
    omega
  | check hp =>
    simp only [remaining, hp, Phase.remaining]
    omega
  | look hi =>
    refine remaining_setWorker hi ?_ rfl rfl (Nat.le_refl _) rfl
    cases s.group <;> simp [Worker.looked, Worker.remaining]
  | store hi _ => exact remaining_setWorker hi (by decide) rfl rfl (Nat.le_refl _) rfl
  | finish hi => exact remaining_setWorker hi (by decide) rfl rfl (Nat.le_refl _) rfl
  | report hi =>
    exact remaining_setWorker hi (by simp [Worker.remaining]) rfl rfl
      (openness_or_le s.group .cancelled) rfl
  | relay _ hg =>
    simp only [remaining, hg, openness]
    simp
  | withdraw hc =>
    simp only [remaining, hc, openness]
    simp

theorem Inv.length_le (hi : Inv b s) {ms : List Move} (h : b.run ms s = some s') :
    ms.length + remaining b s' ≤ remaining b s := by
  induction ms generalizing s with
  | nil =>
    obtain rfl : s = s' := by simpa [Batch.run] using h
    simp
  | cons m ms ih =>
    obtain ⟨t, ht, h⟩ := run_cons_eq_some h
    have htr := transition_of_step ht
    have hlt := hi.fits.remaining_lt htr
    have := ih (hi.step htr) h
    simp only [List.length_cons]
    omega

theorem remaining_start (b : Batch) (ended : Option BatchError) :
    remaining b (b.start ended) ≤ 5 * b.requests.length + 5 := by
  cases ended <;> simp [remaining, start, Phase.remaining, openness]

theorem exists_workerStep {w : Worker} (hw : w ≠ .finished) (i : Nat) (q : Request) :
    ∃ t, b.workerStep i q s w = some t := by
  cases w with
  | finished => exact absurd rfl hw
  | launched | cleared | stored | stopped _ => exact ⟨_, rfl⟩

theorem exists_loopStep (hw : ∀ w ∈ s.workers, w = .finished)
    (hp : ∀ r, s.phase ≠ .returned r) : ∃ t, b.loopStep s = some t := by
  have hlive : s.live = 0 := by
    rw [State.live, List.countP_eq_zero]
    intro w h
    simpa using hw w h
  unfold loopStep
  cases h : s.phase with
  | looping =>
    simp only
    split
    · exact ⟨_, rfl⟩
    · exact ⟨_, rfl⟩
  | launching =>
    have hr : b.hasRoom s = true := by
      simp only [hasRoom, hlive, Bool.or_eq_true, decide_eq_true_eq]
      omega
    simp [hr]
  | waiting =>
    have ha : s.workers.all (· = .finished) = true := by simpa using hw
    simp [ha]
  | checking => exact ⟨_, rfl⟩
  | returned r => exact absurd h (hp r)

/-- As long as a batch is not answered, it can go on by itself. -/
theorem Inv.exists_step (hi : Inv b s) (hp : ∀ r, s.phase ≠ .returned r) :
    ∃ m t, m.isOwn = true ∧ b.step s m = some t := by
  by_cases hw : ∀ w ∈ s.workers, w = .finished
  · obtain ⟨t, ht⟩ := exists_loopStep (b := b) hw hp
    exact ⟨.loop, t, rfl, ht⟩
  · obtain ⟨w, hm, hf⟩ : ∃ w ∈ s.workers, w ≠ .finished := by simpa using hw
    obtain ⟨i, hlt, rfl⟩ := List.getElem_of_mem hm
    have hq : i < b.requests.length := Nat.lt_of_lt_of_le hlt hi.fits.workers
    obtain ⟨t, ht⟩ := exists_workerStep (b := b) (s := s) hf i b.requests[i]
    refine ⟨.worker i, t, rfl, ?_⟩
    rw [Batch.step, List.getElem?_eq_getElem hlt, List.getElem?_eq_getElem hq]
    exact ht

end Ending

section Outcomes
variable {b : Batch} {s s' : State} {ms : List Move} {ended : Option BatchError}

theorem Transition.caller_eq {m : Move} (h : Transition b s m s') :
    s'.caller = s.caller ∨ ∃ e, m = .withdraw e ∧ s'.caller = some e := by
  cases h with
  | @withdraw e _ => exact .inr ⟨e, rfl, rfl⟩
  | _ => exact .inl rfl

theorem caller_of_run {e : BatchError} (h : b.run ms s = some s') (he : s'.caller = some e) :
    s.caller = some e ∨ .withdraw e ∈ ms := by
  induction ms generalizing s with
  | nil =>
    obtain rfl : s = s' := by simpa [Batch.run] using h
    exact .inl he
  | cons m ms ih =>
    obtain ⟨t, ht, h⟩ := run_cons_eq_some h
    rcases ih h with hc | hm
    · rcases (transition_of_step ht).caller_eq with hs | ⟨e', rfl, he'⟩
      · exact .inl (hs ▸ hc)
      · obtain rfl : e' = e := by simpa [he'] using hc
        exact .inr (List.mem_cons_self ..)
    · exact .inr (List.mem_cons_of_mem m hm)

/-- The caller's context has ended, and the batch was not answered before. -/
def Refuses (e : BatchError) (s : State) : Prop :=
  s.caller = some e ∧ ∀ out, s.phase ≠ .returned (.ok out)

theorem Refuses.step {e : BatchError} {m : Move} (hr : Refuses e s) (h : Transition b s m s') :
    Refuses e s' := by
  obtain ⟨hc, hp⟩ := hr
  cases h with
  | proceed _ _ _ | leave _ _ | launch _ _ => exact ⟨hc, nofun⟩
  | wait _ _ => exact ⟨hc, by cases s.failure <;> exact nofun⟩
  | check _ => exact ⟨hc, by rw [hc]; exact nofun⟩
  | look _ | store _ _ | finish _ | report _ | relay _ _ => exact ⟨hc, hp⟩
  | withdraw hn => simp [hc] at hn

theorem Refuses.run {e : BatchError} (hr : Refuses e s) (h : b.run ms s = some s') :
    Refuses e s' := by
  induction ms generalizing s with
  | nil =>
    obtain rfl : s = s' := by simpa [Batch.run] using h
    exact hr
  | cons m ms ih =>
    obtain ⟨t, ht, h⟩ := run_cons_eq_some h
    exact ih (hr.step (transition_of_step ht)) h

/-- Whatever the schedule, a batch is answered as if all its calls were made at once, either before
the caller's context has ended or after. If it had ended beforehand, no call is answered. -/
theorem outcome_eq_batch {r : Outcome} (h : b.run ms (b.start ended) = some s)
    (hr : s.phase = .returned r) :
    ∃ x, r = (Tool.batch x b.orders b.requests).map (List.map some) ∧
      (x = none ∧ ended = none ∨ ∃ e, x = some e ∧ s.caller = some e) := by
  rcases ((inv_start b ended).run h).answered r hr with rfl | ⟨e, rfl, he⟩
  · refine ⟨none, by simp [Tool.batch, Except.map, full], .inl ⟨rfl, ?_⟩⟩
    cases ended with
    | none => rfl
    | some e =>
      have hs : Refuses e (b.start (some e)) := ⟨rfl, nofun⟩
      exact absurd hr ((hs.run h).2 b.full)
  · exact ⟨some e, rfl, .inr ⟨e, rfl, he⟩⟩

/-- No move of the batch's own is left. -/
def Halted (b : Batch) (s : State) : Prop :=
  ∀ m, m.isOwn = true → b.step s m = none

theorem Inv.returned_of_halted (hi : Inv b s) (hh : Halted b s) : ∃ r, s.phase = .returned r := by
  by_contra hn
  obtain ⟨m, t, ho, ht⟩ := hi.exists_step (not_exists.mp hn)
  simp [hh m ho] at ht

/-- Unless the caller's context ends, a schedule that is followed to its end answers all calls. -/
theorem returned_of_undisturbed (h : b.run ms (b.start none) = some s) (hh : Halted b s)
    (hm : ∀ e, .withdraw e ∉ ms) :
    s.phase = .returned (.ok ((callAll b.orders b.requests).map some)) := by
  have hi := (inv_start b none).run h
  obtain ⟨r, hr⟩ := hi.returned_of_halted hh
  rcases hi.answered r hr with rfl | ⟨e, -, hc⟩
  · exact hr
  · rcases caller_of_run h hc with he | he
    · simp [start] at he
    · exact absurd he (hm e)

/-- A batch that is answered with responses has them all, each in the place of its request. Any
other answer is the error that the caller's context has ended with, either beforehand or by a move
of the schedule. A schedule has only so many moves, and at its end the batch is answered, with all
responses if the caller's context has not ended. At no time are there more workers under way than
there may be. -/
theorem answered_of_run (h : b.run ms (b.start ended) = some s) :
    (∀ out, s.phase = .returned (.ok out) → out.length = b.requests.length ∧
      ∀ (i : Nat) q, b.requests[i]? = some q → out[i]? = some (some (call (b.orders i) q))) ∧
    (∀ e, s.phase = .returned (.error e) →
      s.caller = some e ∧ (ended = some e ∨ .withdraw e ∈ ms)) ∧
    ms.length ≤ 5 * b.requests.length + 5 ∧
    (Halted b s → ∃ r, s.phase = .returned r) ∧
    (Halted b s → ended = none → (∀ e, .withdraw e ∉ ms) →
      s.phase = .returned (.ok ((callAll b.orders b.requests).map some))) ∧
    (0 < b.limit → s.live ≤ b.limit) := by
  have hi := (inv_start b ended).run h
  refine ⟨?_, ?_, ?_, hi.returned_of_halted, ?_, hi.fits.room⟩
  · intro out ho
    rcases hi.answered _ ho with ho | ⟨e, ho, -⟩
    · obtain rfl : out = b.full := by simpa using ho
      exact ⟨by simp [full, callAll], fun i q hq => by simp [getElem?_full, hq]⟩
    · simp at ho
  · intro e he
    rcases hi.answered _ he with he | ⟨e', he, hc⟩
    · simp at he
    · obtain rfl : e = e' := by simpa using he
      exact ⟨hc, caller_of_run h hc⟩
  · have hl := (inv_start b ended).length_le h
    have hs := remaining_start b ended
    omega
  · rintro hh rfl hm
    exact returned_of_undisturbed h hh hm

theorem halted_of_returned {r : Outcome} (hp : s.phase = .returned r)
    (hw : ∀ w ∈ s.workers, w = .finished) (hc : s.caller = none ∨ s.group.isSome = true) :
    Halted b s := by
  intro m hm
  cases m with
  | loop => simp [Batch.step, loopStep, hp]
  | worker i =>
    simp only [Batch.step]
    split
    · next w q hi _ =>
      rw [hw w (List.mem_of_getElem? hi)]
      rfl
    · rfl
  | relay =>
    simp only [Batch.step]
    split
    · next e he hg => simp [he, hg] at hc
    · rfl
  | withdraw e => simp [Move.isOwn] at hm

/-- The caller's context ends after the first of two calls was cleared. Its response is stored, but
the loop breaks off before the second, and the batch is refused. Undisturbed, one worker after the
other is launched, and the batch is answered. -/
theorem answered_of_run_single_file :
    let p : Request := ⟨"tool_spec", []⟩
    let q : Request := ⟨"", []⟩
    let o : MemberOrder := .written
    let b : Batch := ⟨[p, q], 1, fun _ => o⟩
    let broken : List Move := [.loop, .loop, .worker 0, .withdraw .expired, .worker 0, .worker 0,
      .relay, .loop, .loop, .loop]
    let whole : List Move := [.loop, .loop, .worker 0, .worker 0, .worker 0, .loop, .loop,
      .worker 1, .worker 1, .worker 1, .loop, .loop, .loop]
    (∃ s, b.run broken (b.start none) = some s ∧ s.slots = [some (call o p), none] ∧
      s.phase = .returned (.error .expired) ∧ s.caller = some .expired) ∧
    ∃ s, b.run whole (b.start none) = some s ∧ Halted b s ∧
      s.phase = .returned (.ok [some (call o p), some (call o q)]) := by
  intro p q o b broken whole
  let refused : State := ⟨.returned (.error .expired), [.finished], [some (call o p), none],
    some .expired, some .expired, none⟩
  let answered : State := ⟨.returned (.ok [some (call o p), some (call o q)]),
    [.finished, .finished], [some (call o p), some (call o q)], none, some .cancelled, none⟩
  have hb : b.run broken (b.start none) = some refused := rfl
  have hw : b.run whole (b.start none) = some answered := rfl
  have hh : Halted b answered := halted_of_returned rfl (by simp [answered]) (.inl rfl)
  refine ⟨⟨refused, hb, rfl, rfl, ?_⟩, answered, hw, hh, ?_⟩
  · exact ((answered_of_run hb).2.1 .expired rfl).1
  · exact (answered_of_run hw).2.2.2.2.1 hh rfl (by simp [whole])

end Outcomes

end Symbolic.Tool.Batch
