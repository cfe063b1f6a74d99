import Fluo.Cache.HttpEviction

/-!
# Eviction is complete while responses are prompt

What holds of a write in every run, what holds of it while no response outlasts
the fallback timer, and what the store may hold under evicted keys.
-/

namespace Fluo.Cache.HttpEviction

variable {V : Type}

/-- The response failed, or was aborted, before it was committed. -/
def Write.Unserved (w : Write) : Prop :=
  w.committed = false ∨ w.abortedBeforeCommit = true ∨ w.send = .settled true false

def Send.isSettled : Send → Bool
  | .settled _ _ => true
  | _ => false

namespace Write

/-- What the handlers of a write keep in every run. -/
structure Sound (w : Write) : Prop where
  once : w.evictions ≤ 1
  idle : (∀ t, w.handler ≠ .fulfilled t) →
    w.deferred = none ∧ w.eviction = .none ∧ w.evictions = 0 ∧ w.deleted = []
  metadata : w.evict = none → w.evictions = 0 ∧ w.deferred = none
  fresh : ∀ d, w.deferred = some d → d.completed = false → w.evictions = 0
  wrapped : ∀ d, w.deferred = some d → d.restored = false → d.completed = false
  sending : w.send = .sending true → w.evictions = 0 ∧ ∃ d, w.deferred = some d ∧ d.responseWriteStarted = true
  settled : ∀ fulfilled, w.send = .settled true fulfilled → ∃ d, w.deferred = some d ∧ d.restored = true
  ran : w.evictions = 1 → w.committed = true ∧ w.abortedBeforeCommit = false ∧ w.send ≠ .settled true false
  marked : w.abortedBeforeCommit = true → w.aborted = true
  progress : ∀ keys, w.eviction = .deleting keys → ∀ key ∈ w.keys, key ∈ keys ∨ key ∈ w.deleted

variable {w w' : Write} {d : Deferred}

inductive Moves (w : Write) (time : Nat) : WriteEvent → Write → Prop where
  | handled (fulfilled : Bool) (running : w.handler = .running) : Moves w time (.handled fulfilled) (w.handled fulfilled time)
  | send (unsent : w.send = .unsent) : Moves w time .send w.sendResponse
  | commit (uncommitted : w.committed = false) : Moves w time .commit { w with committed := true }
  | settle (wrapped fulfilled : Bool) (sending : w.send = .sending wrapped) :
    Moves w time (.settle fulfilled) (w.settled wrapped fulfilled)
  | abort (live : w.aborted = false) : Moves w time .abort w.abort
  | fallback (d : Deferred) (installed : w.deferred = some d) (unrestored : d.restored = false) :
    Moves w time .fallback (w.fallback d)
  | resolved (resolving : w.eviction = .resolving) : Moves w time .resolved { w with eviction := .deleting w.keys }
  | delete (key : String) (keys : List String) (deleting : w.eviction = .deleting keys) (listed : key ∈ keys) :
    Moves w time (.delete key) { w with eviction := .deleting (keys.erase key), deleted := key :: w.deleted }

theorem moves {time : Nat} {e : WriteEvent} (stays : w.step time e = some w') : Moves w time e w' := by
  cases e with
  | handled fulfilled =>
    simp only [step, Option.ite_none_right_eq_some, Option.some.injEq] at stays
    exact stays.2 ▸ .handled fulfilled stays.1
  | send =>
    simp only [step, Option.ite_none_right_eq_some, Option.some.injEq] at stays
    exact stays.2 ▸ .send stays.1
  | commit =>
    simp only [step, Option.ite_none_left_eq_some, Option.some.injEq, Bool.not_eq_true] at stays
    exact stays.2 ▸ .commit stays.1
  | settle fulfilled =>
    simp only [step] at stays
    split at stays
    next wrapped sending => exact Option.some.inj stays ▸ .settle wrapped fulfilled sending
    next => cases stays
  | abort =>
    simp only [step, Option.ite_none_left_eq_some, Option.some.injEq, Bool.not_eq_true] at stays
    exact stays.2 ▸ .abort stays.1
  | fallback =>
    simp only [step] at stays
    split at stays
    next d installed =>
      simp only [Option.ite_none_left_eq_some, Option.some.injEq, Bool.not_eq_true] at stays
      exact stays.2 ▸ .fallback d installed stays.1
    next => cases stays
  | resolved =>
    simp only [step, Option.ite_none_right_eq_some, Option.some.injEq] at stays
    exact stays.2 ▸ .resolved stays.1
  | delete key =>
    simp only [step] at stays
    split at stays
    next keys deleting =>
      simp only [Option.ite_none_right_eq_some, Option.some.injEq] at stays
      exact stays.2 ▸ .delete key keys deleting stays.1
    next => cases stays

theorem sound_initial (evict : Option (List String)) (signal : Bool) : (initial evict signal).Sound := by
  constructor <;> simp [initial]

theorem handled_sound (h : w.Sound) (running : w.handler = .running) (fulfilled : Bool) (time : Nat) :
    (w.handled fulfilled time).Sound := by
  obtain ⟨deferred, eviction, evictions, deleted⟩ := h.idle fun t => by simp [running]
  have sending := h.sending
  have settled := h.settled
  have marked := h.marked
  unfold handled evictAfterWrite
  split
  · split
    · constructor <;> grind -ring -linarith -order
    · split
      · split
        · constructor <;> grind -ring -linarith -order
        · constructor <;> grind -ring -linarith -order [startEviction]
      · unfold installDeferredEviction
        constructor <;> grind -ring -linarith -order [cancel]
  · constructor <;> grind -ring -linarith -order

theorem sendResponse_sound (h : w.Sound) (_ : w.send = .unsent) : w.sendResponse.Sound := by
  obtain ⟨once, idle, metadata, fresh, wrapped, sending, settled, ran, marked, progress⟩ := h
  unfold sendResponse
  split
  · split <;> constructor <;> grind -ring -linarith -order [keys]
  · constructor <;> grind -ring -linarith -order [keys]

theorem settled_sound (h : w.Sound) {wrapped : Bool} (sending : w.send = .sending wrapped) (fulfilled : Bool) :
    (w.settled wrapped fulfilled).Sound := by
  obtain ⟨once, idle, metadata, fresh, unrestored, writing, written, ran, marked, progress⟩ := h
  unfold settled
  dsimp only
  split
  · split
    · split
      · unfold runEviction restore startEviction
        split <;> constructor <;> grind -ring -linarith -order [keys]
      · unfold cancel
        constructor <;> grind -ring -linarith -order [keys]
    · constructor <;> grind -ring -linarith -order [keys]
  · constructor <;> grind -ring -linarith -order [keys]

theorem abort_sound (h : w.Sound) (_ : w.aborted = false) : w.abort.Sound := by
  obtain ⟨once, idle, metadata, fresh, unrestored, writing, written, ran, marked, progress⟩ := h
  unfold abort
  split
  · split
    · unfold cancel
      constructor <;> grind -ring -linarith -order [keys]
    · constructor <;> grind -ring -linarith -order [keys]
  · constructor <;> grind -ring -linarith -order [keys]

theorem fallback_sound (h : w.Sound) (installed : w.deferred = some d) (waits : d.restored = false) :
    (w.fallback d).Sound := by
  obtain ⟨once, idle, metadata, fresh, unrestored, writing, written, ran, marked, progress⟩ := h
  unfold fallback restore runEviction startEviction
  dsimp only
  split
  · split <;> constructor <;> grind -ring -linarith -order [keys]
  · constructor <;> grind -ring -linarith -order [keys]

theorem Sound.step_sound (h : w.Sound) {time : Nat} {e : WriteEvent} (stays : w.step time e = some w') : w'.Sound := by
  cases moves stays with
  | handled fulfilled running => exact handled_sound h running fulfilled time
  | send unsent => exact sendResponse_sound h unsent
  | settle wrapped fulfilled sending => exact settled_sound h sending fulfilled
  | abort live => exact abort_sound h live
  | fallback d installed unrestored => exact fallback_sound h installed unrestored
  | commit | resolved | delete =>
    obtain ⟨once, idle, metadata, fresh, unrestored, writing, written, ran, marked, progress⟩ := h
    constructor <;> grind -ring -linarith -order [Write.keys]

/-! ## Prompt responses -/

/-- A successful response is not settled after the fallback has given it up, and
the request is not aborted between its response and its eviction. -/
def Prompt (w : Write) : WriteEvent → Prop
  | .settle true => w.committed = true → w.aborted = false → w.expired = false
  | .abort => w.published = true → w.handler = .failed ∨ w.evict = none ∨ w.evictions = 1
  | _ => True

/-- What the handlers of a write with prompt responses keep. -/
structure Served (w : Write) : Prop where
  published : w.published = true → w.committed = true ∧ w.send.isSettled = true
  aborted : w.published = true → w.aborted = true → w.handler = .failed ∨ w.evict = none ∨ w.evictions = 1
  waits : ∀ d, w.deferred = some d → d.restored = false → w.send = .sending true ∨ d.responseWriteStarted = false
  restored : ∀ d, w.deferred = some d → d.restored = true →
    w.evictions = 1 ∨ w.aborted = true ∨ (w.send = .sending true ∧ d.completed = false) ∨
      (w.published = false ∧ ((w.expired = true ∧ w.send ≠ .sending true) ∨ w.send.isSettled = true))
  direct : ∀ t, w.handler = .fulfilled t → w.evict ≠ none → w.deferred = none → w.evictions = 1 ∨ w.aborted = true

theorem served_initial (evict : Option (List String)) (signal : Bool) : (initial evict signal).Served := by
  constructor <;> simp [initial]

theorem handled_served (sound : w.Sound) (h : w.Served) (running : w.handler = .running) (fulfilled : Bool)
    (time : Nat) : (w.handled fulfilled time).Served := by
  obtain ⟨deferred, eviction, evictions, deleted⟩ := sound.idle fun t => by simp [running]
  obtain ⟨published, aborted, waits, restored, direct⟩ := h
  unfold handled evictAfterWrite
  split
  · split
    · constructor <;> grind -ring -linarith -order [Send.isSettled]
    · split
      · split
        · constructor <;> grind -ring -linarith -order [Send.isSettled]
        · constructor <;> grind -ring -linarith -order [startEviction, Send.isSettled]
      · unfold installDeferredEviction
        constructor <;> grind -ring -linarith -order [cancel, Send.isSettled]
  · constructor <;> grind -ring -linarith -order [Send.isSettled]

theorem sendResponse_served (h : w.Served) (_ : w.send = .unsent) : w.sendResponse.Served := by
  obtain ⟨published, aborted, waits, restored, direct⟩ := h
  unfold sendResponse
  split
  · split <;> constructor <;> grind -ring -linarith -order [Send.isSettled]
  · constructor <;> grind -ring -linarith -order [Send.isSettled]

theorem settled_served (sound : w.Sound) (h : w.Served) {wrapped : Bool} (sending : w.send = .sending wrapped)
    (fulfilled : Bool) (prompt : w.Prompt (.settle fulfilled)) : (w.settled wrapped fulfilled).Served := by
  have fresh := sound.fresh
  have unrestored := sound.wrapped
  have writing := sound.sending
  obtain ⟨published, aborted, waits, restored, direct⟩ := h
  unfold settled
  dsimp only
  split
  next d installed =>
    cases wrapped with
    | true =>
      rw [if_pos rfl]
      split
      next successful =>
        have idle : d.completed = false := by
          cases held : d.restored with
          | true =>
            have settled := restored d installed held
            simp_all [Send.isSettled]
          | false => exact unrestored d installed held
        unfold runEviction restore startEviction
        simp only [idle, Bool.false_eq_true, if_false]
        constructor <;> grind -ring -linarith -order [Send.isSettled]
      next =>
        unfold cancel
        constructor <;> grind -ring -linarith -order [Send.isSettled]
    | false => constructor <;> grind -ring -linarith -order [Prompt, Send.isSettled]
  next => constructor <;> grind -ring -linarith -order [Send.isSettled]

theorem abort_served (h : w.Served) (_ : w.aborted = false) (prompt : w.Prompt .abort) :
    w.abort.Served := by
  obtain ⟨published, aborted, waits, restored, direct⟩ := h
  unfold abort
  split
  · split
    · unfold cancel
      constructor <;> grind -ring -linarith -order [Prompt, Send.isSettled]
    · constructor <;> grind -ring -linarith -order [Prompt, Send.isSettled]
  · constructor <;> grind -ring -linarith -order [Prompt, Send.isSettled]

theorem fallback_served (sound : w.Sound) (h : w.Served) (installed : w.deferred = some d)
    (unrestored : d.restored = false) : (w.fallback d).Served := by
  have fresh := sound.fresh
  have wrapped := sound.wrapped
  obtain ⟨published, aborted, waits, restored, direct⟩ := h
  unfold fallback restore runEviction startEviction
  dsimp only
  split
  · split <;> constructor <;> grind -ring -linarith -order [Send.isSettled]
  · constructor <;> grind -ring -linarith -order [Send.isSettled]

theorem step_served (sound : w.Sound) (h : w.Served) {time : Nat} {e : WriteEvent} (prompt : w.Prompt e)
    (stays : w.step time e = some w') : w'.Served := by
  cases moves stays with
  | handled fulfilled running => exact handled_served sound h running fulfilled time
  | send unsent => exact sendResponse_served h unsent
  | settle wrapped fulfilled sending => exact settled_served sound h sending fulfilled prompt
  | abort live => exact abort_served h live prompt
  | fallback d installed unrestored => exact fallback_served sound h installed unrestored
  | commit | resolved | delete =>
    obtain ⟨published, aborted, waits, restored, direct⟩ := h
    constructor <;> grind -ring -linarith -order

/-- A response that was written is followed by its eviction, at once or when the
fallback timer fires. -/
theorem Served.evicts (sound : w.Sound) (h : w.Served) (published : w.published = true) {time : Nat}
    (fulfilled : w.handler = .fulfilled time) (evict : w.evict ≠ none) :
    w.evictions = 1 ∨ ∃ d, w.deferred = some d ∧ d.restored = false ∧ (w.fallback d).evictions = 1 := by
  obtain ⟨committed, settled⟩ := h.published published
  by_cases ran : w.evictions = 1
  · exact .inl ran
  have live : w.aborted = false := by
    by_contra aborted
    have gone := h.aborted published (by simpa using aborted)
    simp [fulfilled, evict, ran] at gone
  have quiet : w.send ≠ .sending true := fun sending => by simp [sending, Send.isSettled] at settled
  cases installed : w.deferred with
  | none =>
    have direct := h.direct time fulfilled evict installed
    simp [ran, live] at direct
  | some d =>
    cases held : d.restored with
    | true =>
      have restored := h.restored d installed held
      simp [ran, live, published, quiet] at restored
    | false =>
      have unstarted : d.responseWriteStarted = false := (h.waits d installed held).resolve_left quiet
      have idle := sound.wrapped d installed held
      have never := sound.fresh d installed idle
      exact .inr ⟨d, rfl, held, by
        simp [fallback, runEviction, restore, startEviction, unstarted, live, committed, idle, never]⟩

/-- A response that failed or was aborted before it was committed evicts nothing. -/
theorem Sound.keeps_entries (h : w.Sound) (unserved : w.Unserved) : w.evictions = 0 := by
  by_contra evicted
  have once := h.once
  obtain ⟨committed, unaborted, accepted⟩ := h.ran (by omega)
  rcases unserved with uncommitted | aborted | rejected
  · simp [committed] at uncommitted
  · simp [unaborted] at aborted
  · exact accepted rejected

theorem quiet_step {time : Nat} {e : WriteEvent} (moves : Moves w time e w')
    (quiet : match e with | .handled _ | .delete _ => False | _ => True) :
    w'.deleted = w.deleted ∧ w'.handler = w.handler := by
  cases moves with
  | handled | delete => exact quiet.elim
  | commit | resolved => exact ⟨rfl, rfl⟩
  | send =>
    unfold sendResponse
    split
    · split <;> exact ⟨rfl, rfl⟩
    · exact ⟨rfl, rfl⟩
  | settle =>
    unfold settled runEviction restore cancel startEviction
    grind -ring -linarith -order
  | abort =>
    unfold abort cancel
    grind -ring -linarith -order
  | fallback =>
    unfold fallback runEviction restore startEviction
    grind -ring -linarith -order

/-- A step of a write deletes the key it names; before its handler has completed
it deletes nothing. -/
theorem Sound.step_deleted (h : w.Sound) {time : Nat} {e : WriteEvent} (stays : w.step time e = some w') {key : String}
    (mem : key ∈ w'.deleted) :
    e = .delete key ∨ (key ∈ w.deleted ∧ ∀ t, w'.handler = .fulfilled t → w.handler = .fulfilled t) := by
  cases moves stays with
  | handled fulfilled running =>
    have kept : (w.handled fulfilled time).deleted = w.deleted := by
      unfold handled evictAfterWrite installDeferredEviction cancel startEviction
      grind -ring -linarith -order
    have nothing := (h.idle fun t => by simp [running]).2.2.2
    rw [kept, nothing] at mem
    cases mem
  | send | settle | abort | fallback | commit | resolved =>
    obtain ⟨deleted, handler⟩ := quiet_step (moves stays) trivial
    exact .inr ⟨deleted ▸ mem, fun t fulfilled => handler ▸ fulfilled⟩
  | delete key' keys =>
    rcases List.mem_cons.mp mem with rfl | mem
    · exact .inl rfl
    · exact .inr ⟨mem, fun t => id⟩

end Write

/-! ## Runs -/

/-- What is promised of a write: a response that was written is followed by one
eviction, an unserved one by none, and a finished eviction leaves no older value. -/
structure Complete (s : System V) (w : Write) : Prop where
  evicts : w.published = true → ∀ t, w.handler = .fulfilled t → w.evict ≠ none →
    w.evictions = 1 ∨ ∃ d, w.deferred = some d ∧ d.restored = false ∧ (w.fallback d).evictions = 1
  once : w.evictions ≤ 1
  unserved : w.Unserved → w.evictions = 0
  current : w.eviction = .deleting [] → ∀ key ∈ w.keys, ∀ t, w.handler = .fulfilled t →
    ∀ entry, s.store key = some entry → t ≤ entry.start

/-- Responses are prompt, and no `GET` stores a value under a key that a write has
deleted whose handler completed after the handler of the `GET` had started. -/
def Careful (s : System V) : Event V → Prop
  | .ofWrite index e => ∀ w, s.writes[index]? = some w → w.Prompt e
  | .ofRead index .store => ∀ r entry, s.reads[index]? = some r → r.stage = .storing entry →
    ∀ w ∈ s.writes, r.key ∈ w.deleted → ∀ t, w.handler = .fulfilled t → t ≤ entry.start
  | _ => True

structure Inv (s : System V) : Prop where
  sound : ∀ w ∈ s.writes, w.Sound
  served : ∀ w ∈ s.writes, w.Served
  current : ∀ w ∈ s.writes, ∀ key ∈ w.deleted, ∀ t, w.handler = .fulfilled t →
    ∀ entry, s.store key = some entry → t ≤ entry.start

theorem inv_initial : Inv (initial : System V) := by
  constructor <;> simp [initial]

theorem current_update {store : String → Option (Entry V)} {key key' : String} {entry : Entry V}
    (held : Function.update store key none key' = some entry) : key' ≠ key ∧ store key' = some entry := by
  by_cases same : key' = key
  · rw [same, Function.update_self] at held
    cases held
  · exact ⟨same, by rwa [Function.update_of_ne same] at held⟩

theorem keeps_inv (s : System V) (e : Event V) (s₁ : System V) (careful : Careful s e) (inv : Inv s)
    (stays : step s e = some s₁) : Inv s₁ := by
  cases e with
  | get key storable =>
    cases stays
    exact ⟨inv.sound, inv.served, inv.current⟩
  | write evict signal =>
    cases stays
    refine ⟨fun w mem => ?_, fun w mem => ?_, fun w mem key deleted => ?_⟩ <;>
      rcases List.mem_append.mp mem with mem | mem
    · exact inv.sound w mem
    · exact List.mem_singleton.mp mem ▸ Write.sound_initial evict signal
    · exact inv.served w mem
    · exact List.mem_singleton.mp mem ▸ Write.served_initial evict signal
    · exact inv.current w mem key deleted
    · rw [List.mem_singleton.mp mem] at deleted
      cases deleted
  | expire key =>
    cases stays
    exact ⟨inv.sound, inv.served, fun w mem k deleted t fulfilled entry held =>
      inv.current w mem k deleted t fulfilled entry (current_update held).2⟩
  | ofRead index e =>
    simp only [step] at stays
    split at stays
    next r here =>
      obtain ⟨⟨r', store⟩, moved, rfl⟩ := Option.map_eq_some_iff.mp stays
      refine ⟨inv.sound, inv.served, fun w mem key deleted t fulfilled entry held => ?_⟩
      cases e with
      | read | computed =>
        simp only [Read.step] at moved
        split at moved <;> cases moved
        exact inv.current w mem key deleted t fulfilled entry held
      | store =>
        simp only [Read.step] at moved
        split at moved
        next stored storing =>
          cases moved
          change Function.update s.store r.key (some stored) key = some entry at held
          by_cases same : key = r.key
          · subst same
            rw [Function.update_self] at held
            cases held
            exact careful r _ here storing w mem deleted t fulfilled
          · rw [Function.update_of_ne same] at held
            exact inv.current w mem key deleted t fulfilled entry held
        next => cases moved
    next => cases stays
  | ofWrite index e =>
    simp only [step] at stays
    split at stays
    next w here =>
      obtain ⟨w', moved, eq⟩ := Option.map_eq_some_iff.mp stays
      have mem : w ∈ s.writes := List.mem_of_getElem? here
      have sound := inv.sound w mem
      have removed : ∀ key entry, s₁.store key = some entry → e ≠ .delete key ∧ s.store key = some entry := by
        intro key entry held
        rw [← eq] at held
        cases e with
        | delete key' =>
          obtain ⟨other, held⟩ := current_update held
          exact ⟨fun same => other (WriteEvent.delete.inj same).symm, held⟩
        | _ => exact ⟨fun same => (by cases same), held⟩
      subst eq
      refine ⟨fun v listed => ?_, fun v listed => ?_, fun v listed key deleted t fulfilled entry held => ?_⟩ <;>
        rcases List.mem_or_eq_of_mem_set listed with other | rfl
      · exact inv.sound v other
      · exact sound.step_sound moved
      · exact inv.served v other
      · exact Write.step_served sound (inv.served w mem) (careful w here) moved
      · exact inv.current v other key deleted t fulfilled entry (removed key entry held).2
      · obtain ⟨kept, held⟩ := removed key entry held
        obtain ⟨earlier, same⟩ := (sound.step_deleted moved deleted).resolve_left kept
        exact inv.current w mem key earlier t (same t fulfilled) entry held
    next => cases stays

/-- In a run in which every step is careful, every write is complete. -/
theorem eviction_complete {es : List (Event V)} {s : System V} (run : Run.run step initial es = some s)
    (careful : Run.Throughout step Careful initial es) : ∀ w ∈ s.writes, Complete s w := by
  intro w mem
  have inv : Inv s := Run.keeps_throughout keeps_inv inv_initial careful run
  have sound := inv.sound w mem
  refine ⟨fun published t fulfilled evict => (inv.served w mem).evicts sound published fulfilled evict, sound.once,
    sound.keeps_entries, fun finished key listed => ?_⟩
  have deleted : key ∈ w.deleted := (sound.progress [] finished key listed).resolve_left nofun
  exact inv.current w mem key deleted

/-- A `GET` that starts after the write's handler fills the store again. -/
def refill : List (Event Nat) :=
  [.write (some ["users"]) true, .ofWrite 0 (.handled true), .ofWrite 0 .send, .ofWrite 0 .commit,
    .ofWrite 0 (.settle true), .get "users" true, .ofRead 0 .read, .ofRead 0 (.computed (some 7)),
    .ofWrite 0 .resolved, .ofWrite 0 (.delete "users"), .ofRead 0 .store]

theorem refill_complete : ∃ s, Run.run step initial refill = some s ∧ ∀ w ∈ s.writes, Complete s w := by
  have careful : Run.Throughout step Careful (initial : System Nat) refill := by
    unfold refill
    refine Run.throughout_cons trivial (by rfl) ?_
    refine Run.throughout_cons (fun w here => trivial) (by rfl) ?_
    refine Run.throughout_cons (fun w here => trivial) (by rfl) ?_
    refine Run.throughout_cons (fun w here => trivial) (by rfl) ?_
    refine Run.throughout_cons (fun w here committed live => ?_) (by rfl) ?_
    · cases here
      rfl
    refine Run.throughout_cons trivial (by rfl) ?_
    refine Run.throughout_cons trivial (by rfl) ?_
    refine Run.throughout_cons trivial (by rfl) ?_
    refine Run.throughout_cons (fun w here => trivial) (by rfl) ?_
    refine Run.throughout_cons (fun w here => trivial) (by rfl) ?_
    refine Run.throughout_cons (fun r entry here storing w mem deleted t fulfilled => ?_) (by rfl) trivial
    cases here
    cases storing
    cases List.mem_singleton.mp mem
    cases fulfilled
    decide
  exact ⟨_, rfl, eviction_complete rfl careful⟩

/-- The response is sent after the fallback has fired. -/
def slowResponse : List (Event Nat) :=
  [.write (some ["users"]) true, .ofWrite 0 (.handled true), .ofWrite 0 .fallback, .ofWrite 0 .send,
    .ofWrite 0 .commit, .ofWrite 0 (.settle true)]

/-- A `GET` that started before the write stores its value after the eviction. -/
def lateFill : List (Event Nat) :=
  [.get "users" true, .ofRead 0 .read, .write (some ["users"]) true, .ofWrite 0 (.handled true), .ofWrite 0 .send,
    .ofWrite 0 .commit, .ofWrite 0 (.settle true), .ofWrite 0 .resolved, .ofWrite 0 (.delete "users"),
    .ofRead 0 (.computed (some 7)), .ofRead 0 .store]

/-- A slow response is never followed by its eviction, and an older value stays
under an evicted key though the eviction has finished and no `GET` is running. -/
theorem eviction_incomplete :
    (∃ s, Run.run step initial slowResponse = some s ∧ ∃ w ∈ s.writes,
      w.published = true ∧ w.handler = .fulfilled 1 ∧ w.evict = some ["users"] ∧
      w.deferred = some ⟨true, false, false⟩ ∧ w.evictions = 0) ∧
    ∃ s, Run.run step initial lateFill = some s ∧ (∀ r ∈ s.reads, r.stage = .done) ∧ ∃ w ∈ s.writes,
      w.eviction = .deleting [] ∧ "users" ∈ w.keys ∧ w.handler = .fulfilled 3 ∧
      s.store "users" = some ⟨7, 1⟩ :=
  ⟨⟨_, rfl, _, List.mem_singleton_self _, rfl, rfl, rfl, rfl, rfl⟩,
    ⟨_, rfl, by simp [initial], _, List.mem_singleton_self _, rfl, by decide, rfl, rfl⟩⟩

end Fluo.Cache.HttpEviction
