import Fluo.Websockets.MessageOrder

/-!
# Delivery over a run

Connect handlers finish first, messages are dispatched in order and one at a time,
and the disconnect handlers run once. When no message arrives between the end of
the loop and its `finally`, and no failing reply leaves messages behind, none is
left waiting and the disconnect handlers run last.
-/

namespace Fluo.Websockets.Dispatch

/-- Before the gateways are bound messages and the close are buffered. -/
structure Unready (options : ModuleOptions) (c : Connection) : Prop where
  ordered : c.remaining = numbers c.bufferedMessages.waiting
  known : ∀ n ∈ c.dropped, n < c.accepted
  wellFormed : c.bufferedMessages.WellFormed
  bound : c.bufferedMessages.waiting.length ≤ options.limit
  queued : c.queuedMessages = .empty
  flag : c.processingMessageQueue = false
  loop : c.loop = .idle
  dispatched : c.dispatched = []
  disconnect : c.disconnect = .none
  disconnects : c.disconnects = 0
  closed : c.bufferedDisconnect = true ↔ c.closed ≠ none

/-- How often the disconnect handlers have been started by then. -/
def Disconnect.starts : Disconnect → Nat
  | .running _ | .done => 1
  | _ => 0

/-- The close of a connection that is bound. -/
structure Closing (c : Connection) : Prop where
  buffered : c.bufferedMessages.waiting = []
  chained : c.disconnect = .chained → c.loop ≠ .idle
  closed : c.disconnect = .none ↔ c.closed = none
  once : c.disconnects = c.disconnect.starts

structure Ready (options : ModuleOptions) (c : Connection) : Prop extends Queued options c [], Closing c

structure Inv (options : ModuleOptions) (c : Connection) : Prop where
  binding : c.handlersReady = true ↔ c.binding = .bound
  unready : c.handlersReady = false → Unready options c
  ready : c.handlersReady = true → Ready options c

/-- Nothing is left behind, and the close is dispatched behind what was accepted
before it. -/
structure Drained (c : Connection) : Prop where
  drained : c.loop = .idle ∨ c.loop = .ended → c.queuedMessages.waiting = []
  closed : ∀ k, c.closed = some k → k ≤ c.accepted
  after : c.disconnect ≠ .none → c.disconnect ≠ .chained → ∀ k, c.closed = some k → ∀ n < k,
    n ∈ c.dropped ∨ n ∈ c.dispatched ∧ ∀ handlers, c.loop ≠ .dispatching n handlers

section

variable {options : ModuleOptions} {c d : Connection}

theorem initial_inv (descriptors : List Gateway) : Inv options (.initial descriptors) :=
  ⟨⟨nofun, nofun⟩, fun _ => ⟨rfl, nofun, Nat.le_refl _, Nat.zero_le _, rfl, rfl, rfl, rfl, rfl, rfl, nofun, fun h => absurd rfl h⟩,
    nofun⟩

theorem bufferIncomingMessage_unready (h : Unready options c) (message : Message) :
    Unready options ({ c with accepted := c.accepted + 1 }.bufferIncomingMessage options (c.accepted, message)) := by
  have fresh : c.accepted ∉ c.dropped := fun mem => Nat.lt_irrefl _ (h.known _ mem)
  have arrived : (List.range (c.accepted + 1)).filter (· ∉ c.dropped) = numbers c.bufferedMessages.waiting ++ [c.accepted] := by
    rw [List.range_succ, List.filter_append, ← h.ordered]
    simp [Connection.remaining, fresh]
  have known (gone : List Nat) (old : ∀ n ∈ gone, n < c.accepted + 1) : ∀ n ∈ gone ++ c.dropped, n < c.accepted + 1 := by
    intro n mem
    rcases List.mem_append.mp mem with mem | mem
    · exact old n mem
    · exact Nat.lt_succ_of_lt (h.known n mem)
  have stood (n : Nat) (mem : n ∈ numbers c.bufferedMessages.waiting) : n < c.accepted + 1 := by
    rw [← h.ordered] at mem
    exact Nat.lt_succ_of_lt (Connection.mem_remaining.mp mem).1
  have count := c.bufferedMessages.count_eq
  unfold Connection.bufferIncomingMessage
  rcases admission_cases options c.bufferedMessages.count with ⟨admitted, room⟩ | ⟨full, other⟩
  · dsimp only
    rw [admitted]
    refine { h with ordered := ?_, known := known [] (List.forall_mem_nil _), wellFormed := h.wellFormed.push, bound := ?_ }
    · rw [Pending.waiting_push h.wellFormed]
      exact arrived.trans (by simp [numbers])
    · rw [Pending.waiting_push h.wellFormed, List.length_append]
      exact count ▸ room
  · have positive : 0 < options.limit := limit_pos
    dsimp only
    split
    next pushed => exact absurd pushed other
    next =>
      have waits : 0 < c.bufferedMessages.waiting.length := by omega
      have split : numbers c.bufferedMessages.waiting =
          numbers (c.bufferedMessages.waiting.take 1) ++ numbers (c.bufferedMessages.waiting.drop 1) := by
        rw [numbers, numbers, numbers, ← List.map_append, List.take_append_drop]
      have wellFormed := Pending.wellFormed_dropOldest (List.length_pos_iff.mp waits)
      refine { h with ordered := ?_, known := ?_, wellFormed := wellFormed.push, bound := ?_ }
      · rw [Pending.waiting_push wellFormed, Pending.waiting_dropOldest]
        have dropped := filter_drop [] (numbers (c.bufferedMessages.waiting.take 1)) _
          (arrived.trans (by rw [split, List.append_assoc, List.nil_append]))
        exact dropped.trans (by simp [numbers])
      · exact known _ fun n mem => stood n (split ▸ List.mem_append_left _ mem)
      · have bound := h.bound
        rw [Pending.waiting_push wellFormed, Pending.waiting_dropOldest, List.length_append, List.length_drop,
          List.length_singleton]
        omega
    next =>
      refine { h with ordered := ?_, known := known [c.accepted] (by simp) }
      refine (filter_drop _ [c.accepted] [] ?_).trans (List.append_nil _)
      rw [arrived, List.append_nil]
    next =>
      refine { h with ordered := ?_, known := ?_, wellFormed := Nat.le_refl _, bound := Nat.zero_le _ }
      · have gone := filter_drop [] (numbers c.bufferedMessages.waiting ++ [c.accepted]) []
          (arrived.trans (by simp))
        rw [List.append_assoc, List.singleton_append] at gone
        exact gone
      · rw [← List.singleton_append, ← List.append_assoc]
        refine known _ fun n mem => ?_
        rcases List.mem_append.mp mem with mem | mem
        · exact stood n mem
        · rw [List.mem_singleton.mp mem]
          exact Nat.lt_succ_self _

/-- A message that arrives is enqueued behind all others. -/
theorem receive_queued (h : Queued options c []) (message : Message) :
    Queued options ({ c with accepted := c.accepted + 1 }.enqueueMessageDispatch options (c.accepted, message)) [] ∧
      Advances { c with accepted := c.accepted + 1 }
        ({ c with accepted := c.accepted + 1 }.enqueueMessageDispatch options (c.accepted, message)) ∧
      ({ c with accepted := c.accepted + 1 }.enqueueMessageDispatch options (c.accepted, message)).Entered
        { c with accepted := c.accepted + 1 } := by
  have fresh : c.accepted ∉ c.dropped := fun mem => Nat.lt_irrefl _ (h.known _ mem)
  have arrived : Queued options { c with accepted := c.accepted + 1 } [c.accepted] := by
    refine ⟨⟨?_, fun n mem => Nat.lt_succ_of_lt (h.known n mem), h.wellFormed, h.bound⟩, h.flag, h.current⟩
    have ordered := h.ordered
    rw [List.append_nil] at ordered
    simp only [Connection.remaining, List.range_succ, List.filter_append] at ordered ⊢
    rw [ordered]
    simp [fresh]
  exact enqueueMessageDispatch_queued arrived

theorem Closing.advance (h : Closing c) (advances : Advances c d) : Closing d := by
  obtain ⟨sameDisconnect, sameClosed, sameCount⟩ := advances.close
  refine ⟨?_, fun chained => ?_, ?_, ?_⟩
  · rw [advances.buffered.1]
    exact h.buffered
  · rw [sameDisconnect] at chained
    rcases advances.loop with ⟨same, _⟩ | ⟨ended, _⟩ | ⟨_, _, entered, _⟩
    · rw [same]
      exact h.chained chained
    · rw [ended]
      nofun
    · rw [entered]
      nofun
  · rw [sameDisconnect, sameClosed]
    exact h.closed
  · rw [sameDisconnect, sameCount]
    exact h.once

theorem Queued.disconnecting {rest : List Nat} (h : Queued options c rest) (disconnect : Disconnect) :
    Queued options { c with disconnect := disconnect } rest :=
  ⟨{ h.toLined with }, h.flag, h.current⟩

/-- Messages that have been buffered are replayed in order. -/
theorem replay_queued (messages : List (Nat × Message)) (h : Queued options c (numbers messages)) :
    Queued options (messages.foldl (Connection.enqueueMessageDispatch options) c) [] ∧
      (messages.foldl (Connection.enqueueMessageDispatch options) c).disconnect = c.disconnect ∧
      (messages.foldl (Connection.enqueueMessageDispatch options) c).closed = c.closed ∧
      (messages.foldl (Connection.enqueueMessageDispatch options) c).disconnects = c.disconnects ∧
      (messages.foldl (Connection.enqueueMessageDispatch options) c).bufferedMessages = c.bufferedMessages ∧
      (messages.foldl (Connection.enqueueMessageDispatch options) c).accepted = c.accepted ∧
      (messages.foldl (Connection.enqueueMessageDispatch options) c).binding = c.binding ∧
      (messages.foldl (Connection.enqueueMessageDispatch options) c).handlersReady = c.handlersReady := by
  induction messages generalizing c with
  | nil => exact ⟨h, rfl, rfl, rfl, rfl, rfl, rfl, rfl⟩
  | cons message rest ih =>
    obtain ⟨queued, advances, _⟩ := enqueueMessageDispatch_queued h
    obtain ⟨queued, disconnect, closed, disconnects, buffered, accepted, binding, ready⟩ := ih queued
    exact ⟨queued, disconnect.trans advances.close.1, closed.trans advances.close.2.1,
      disconnects.trans advances.close.2.2, buffered.trans advances.buffered.1, accepted.trans advances.accepted,
      binding.trans advances.binding.1, ready.trans advances.binding.2.2⟩

theorem Unready.entered (h : Unready options c) : Queued options
    { c with binding := .bound, handlersReady := true, bufferedMessages := .empty, bufferedDisconnect := false }
    (numbers c.bufferedMessages.waiting) := by
  refine ⟨⟨?_, h.known, ?_, ?_⟩, ?_, fun number handlers here => ?_⟩
  · refine h.ordered.trans ?_
    simp [h.dispatched, h.queued, numbers, Pending.waiting, Pending.empty]
  · rw [h.queued]
    exact Nat.le_refl _
  · rw [h.queued]
    exact Nat.zero_le _
  · simp [h.flag, h.loop]
  · have idle := h.loop
    rw [here] at idle
    cases idle

theorem finalizeConnectionBinding_inv (h : Unready options c) : Inv options (c.finalizeConnectionBinding options) := by
  obtain ⟨queued, disconnect, closed, disconnects, buffered, _, binding, ready⟩ := replay_queued _ h.entered
  have open' := h.closed
  have disconnect := disconnect.trans h.disconnect
  have disconnects := disconnects.trans h.disconnects
  unfold Connection.finalizeConnectionBinding
  dsimp only
  split
  next dispatches =>
    refine ⟨iff_of_true ready binding, fun unready => ?_, fun _ => ⟨queued.disconnecting _, ?_, ?_, ?_, ?_⟩⟩
    · rw [Connection.enqueueDisconnectDispatch, ready] at unready
      cases unready
    · exact congrArg Pending.waiting buffered
    · simp only [Connection.enqueueDisconnectDispatch]
      split <;> simp_all
    · simp only [Connection.enqueueDisconnectDispatch]
      rw [closed]
      exact iff_of_false (by split <;> nofun) (open'.mp dispatches)
    · simp only [Connection.enqueueDisconnectDispatch]
      rw [disconnects]
      split <;> rfl
  next quiet =>
    refine ⟨iff_of_true ready binding, fun unready => ?_, fun _ => ⟨queued, congrArg Pending.waiting buffered, ?_, ?_, ?_⟩⟩
    · rw [ready] at unready
      cases unready
    · rw [disconnect]
      nofun
    · rw [disconnect, closed]
      exact iff_of_true rfl (not_not.mp fun closed => quiet (open'.mpr closed))
    · rw [disconnect, disconnects]
      rfl

/-- A step of a connection that is not yet bound. -/
theorem Inv.of_unready (h : Unready options d) (notReady : d.handlersReady = false) (binding : d.binding ≠ .bound) :
    Inv options d :=
  ⟨iff_of_false (by simp [notReady]) binding, fun _ => h, fun ready => absurd ready (by simp [notReady])⟩

theorem Inv.of_ready (h : Ready options d) (ready : d.handlersReady = true) (binding : d.binding = .bound) : Inv options d :=
  ⟨iff_of_true ready binding, fun notReady => absurd ready (by simp [notReady]), fun _ => h⟩

theorem Inv.not_ready (h : Inv options c) (other : c.binding ≠ .bound) : c.handlersReady = false := by
  cases ready : c.handlersReady with
  | false => rfl
  | true => exact absurd (h.binding.mp ready) other

theorem Inv.ready_of_loop (h : Inv options c) (busy : c.loop ≠ .idle) : c.handlersReady = true := by
  cases ready : c.handlersReady with
  | true => rfl
  | false => exact absurd (h.unready ready).loop busy

theorem bind_inv {found : Bool} (h : Inv options c) (ht : c.bind options found = some d) : Inv options d := by
  unfold Connection.bind at ht
  split at ht <;> cases ht
  next descriptor rest here =>
    have notReady := h.not_ready (by rw [here]; nofun)
    exact .of_unready { h.unready notReady with } notReady nofun
  next here =>
    have notReady := h.not_ready (by rw [here]; nofun)
    exact .of_unready { h.unready notReady with } notReady nofun
  next handlers here =>
    have notReady := h.not_ready (by rw [here]; nofun)
    exact .of_unready { h.unready notReady with } notReady nofun
  next here => exact finalizeConnectionBinding_inv (h.unready (h.not_ready (by rw [here]; nofun)))

theorem receive_inv (h : Inv options c) (message : Message) : Inv options (c.receive options message) := by
  unfold Connection.receive
  split
  next => exact h
  next =>
    dsimp only
    split
    next ready =>
      have isReady := h.ready ready
      obtain ⟨queued, advances, _⟩ := receive_queued isReady.toQueued message
      have closing : Closing { c with accepted := c.accepted + 1 } := { isReady.toClosing with }
      refine .of_ready ⟨queued, closing.advance advances⟩ ?_ ?_
      · exact advances.binding.2.2.trans ready
      · exact advances.binding.1.trans (h.binding.mp ready)
    next notReady =>
      have ready : c.handlersReady = false := by simpa using notReady
      have buffered := bufferIncomingMessage_unready (h.unready ready) message
      have same : ({ c with accepted := c.accepted + 1 }.bufferIncomingMessage options (c.accepted, message)).binding =
          c.binding ∧
          ({ c with accepted := c.accepted + 1 }.bufferIncomingMessage options (c.accepted, message)).handlersReady =
            c.handlersReady := by
        unfold Connection.bufferIncomingMessage
        split <;> exact ⟨rfl, rfl⟩
      refine .of_unready buffered (same.2.trans ready) ?_
      rw [same.1]
      exact fun bound => absurd (h.binding.mpr bound) (by simp [ready])

theorem close_inv (h : Inv options c) (opened : c.closed = none) : Inv options c.close := by
  unfold Connection.close
  dsimp only
  split
  next ready =>
    have isReady := h.ready ready
    have none := isReady.closed.mpr opened
    refine .of_ready ⟨?_, isReady.buffered, ?_, ?_, ?_⟩ ready (h.binding.mp ready)
    · exact ⟨{ isReady.toLined with }, isReady.flag, isReady.current⟩
    · simp only [Connection.enqueueDisconnectDispatch]
      split
      · nofun
      · exact fun _ => ‹_›
    · exact iff_of_false (by simp only [Connection.enqueueDisconnectDispatch]; split <;> nofun) nofun
    · have count := isReady.once
      rw [none] at count
      simp only [Connection.enqueueDisconnectDispatch]
      rw [count]
      split <;> rfl
  next notReady =>
    have ready : c.handlersReady = false := by simpa using notReady
    have unready := h.unready ready
    exact .of_unready { unready with closed := iff_of_true rfl nofun } ready
      fun bound => absurd (h.binding.mpr bound) (by simp [ready])

theorem dispatch_inv {replyFails : Bool} (h : Inv options c) (ht : c.dispatch replyFails = some d) : Inv options d := by
  unfold Connection.dispatch at ht
  split at ht
  next number handlers here =>
    have ready := h.ready_of_loop (by rw [here]; nofun)
    have isReady := h.ready ready
    have flag := isReady.flag.mpr (by rw [here]; nofun)
    cases replyFails with
    | true =>
      cases ht
      exact .of_ready ⟨⟨{ isReady.toLined with }, iff_of_true flag nofun, nofun⟩,
        { isReady.toClosing with chained := fun _ => nofun }⟩ ready (h.binding.mp ready)
    | false =>
      cases ht
      refine .of_ready ⟨⟨{ isReady.toLined with }, iff_of_true flag nofun, ?_⟩,
        { isReady.toClosing with chained := fun _ => nofun }⟩ ready (h.binding.mp ready)
      rintro number' handlers' ⟨⟩
      exact isReady.current number _ here
  next number here =>
    cases replyFails <;> cases ht
    have ready := h.ready_of_loop (by rw [here]; nofun)
    have isReady := h.ready ready
    obtain ⟨queued, advances⟩ := next_queued isReady.toLined (isReady.flag.mpr (by rw [here]; nofun))
    exact .of_ready ⟨queued, isReady.toClosing.advance advances⟩ (advances.binding.2.2.trans ready)
      (advances.binding.1.trans (h.binding.mp ready))
  next => cases ht

theorem finish_inv (h : Inv options c) (ht : c.finish = some d) : Inv options d := by
  unfold Connection.finish at ht
  split at ht <;> cases ht
  next here =>
    have ready := h.ready_of_loop (by rw [here]; nofun)
    have isReady := h.ready ready
    refine .of_ready ⟨⟨{ isReady.toLined with }, iff_of_false nofun (by simp), nofun⟩, isReady.buffered, ?_, ?_, ?_⟩ ready
      (h.binding.mp ready)
    · dsimp only
      split
      · nofun
      · exact fun chained => absurd chained ‹_›
    · dsimp only
      rw [← isReady.closed]
      split
      next chained => simp [chained]
      next => rfl
    · dsimp only
      rw [isReady.once]
      split
      next chained => rw [chained]; rfl
      next => rfl

theorem handleDisconnect_inv (h : Inv options c) (ht : c.handleDisconnect = some d) : Inv options d := by
  unfold Connection.handleDisconnect at ht
  have isReady (other : c.disconnect ≠ .none) : c.handlersReady = true := by
    cases ready : c.handlersReady with
    | true => rfl
    | false => exact absurd (h.unready ready).disconnect other
  split at ht <;> cases ht
  all_goals
    rename_i here
    have ready := isReady (by rw [here]; nofun)
    have was := h.ready ready
    have closed : c.closed ≠ none := fun opened => by
      have none := was.closed.mpr opened
      rw [here] at none
      cases none
    have once := was.once
    rw [here] at once
    refine .of_ready ⟨⟨{ was.toLined with }, was.flag, was.current⟩, was.buffered, nofun, iff_of_false nofun closed, ?_⟩
      ready (h.binding.mp ready)
  · exact congrArg (· + 1) once
  · exact once
  · exact once

theorem step_inv {e : Event} (h : Inv options c) (ht : step options c e = some d) : Inv options d := by
  cases e with
  | bind found => exact bind_inv h ht
  | message message =>
    cases ht
    exact receive_inv h message
  | error => cases ht; exact h
  | close =>
    obtain ⟨opened, is⟩ := Option.ite_none_right_eq_some.mp ht
    cases is
    exact close_inv h opened
  | dispatch replyFails => exact dispatch_inv h ht
  | finish => exact finish_inv h ht
  | handleDisconnect => exact handleDisconnect_inv h ht

theorem run_inv {descriptors : List Gateway} {es : List Event} (run : Run.run (step options) (.initial descriptors) es = some c) :
    Inv options c :=
  Run.keeps (fun _ _ _ => step_inv) (initial_inv descriptors) run

/-! ## Nothing is left behind -/

/-- The steps behind which no message is lost: no message arrives when the loop has
ended and its `finally` is still to run, and no reply fails while messages wait. -/
def Careful (options : ModuleOptions) (c : Connection) : Event → Prop
  | .message message => message.byteLength ≤ options.resolveMaxPayloadBytes → c.loop ≠ .ended
  | .dispatch true => c.queuedMessages.waiting = []
  | _ => True

instance (options : ModuleOptions) (c : Connection) (e : Event) : Decidable (Careful options c e) := by
  unfold Careful
  split <;> infer_instance

/-- When no message waits, all that were accepted are dropped or dispatched. -/
theorem settled_of_empty (h : Queued options c []) (empty : c.queuedMessages.waiting = []) {n : Nat} (arrived : n < c.accepted) :
    n ∈ c.dropped ∨ n ∈ c.dispatched := by
  by_cases gone : n ∈ c.dropped
  · exact .inl gone
  · have mem := Connection.mem_remaining.mpr ⟨arrived, gone⟩
    rw [h.ordered, empty] at mem
    exact .inr (by simpa [numbers] using mem)

theorem Drained.advance (h : Drained c) (advances : Advances c d) (drained : d.loop = .idle ∨ d.loop = .ended →
    d.queuedMessages.waiting = []) : Drained d := by
  obtain ⟨sameDisconnect, sameClosed, _⟩ := advances.close
  refine ⟨drained, ?_, ?_⟩
  · rw [sameClosed, advances.accepted]
    exact h.closed
  · rw [sameDisconnect, sameClosed]
    intro started unchained k closed n before
    rcases h.after started unchained k closed n before with gone | ⟨mem, past⟩
    · exact .inl (advances.dropped n gone)
    · rcases advances.loop with ⟨same, starts⟩ | ⟨ended, starts⟩ | ⟨number, handlers, entered, starts, fresh, _⟩
      · rw [starts, same]
        exact .inr ⟨mem, past⟩
      · rw [starts, ended]
        exact .inr ⟨mem, nofun⟩
      · rw [starts, entered]
        refine .inr ⟨List.mem_append_left _ mem, ?_⟩
        rintro _ ⟨⟩
        exact fresh mem

/-- A loop that has not ended leaves no message behind when it is entered. -/
theorem Connection.Entered.drained (entered : d.Entered c) (running : c.loop ≠ .ended)
    (drained : c.loop = .idle → c.queuedMessages.waiting = []) :
    d.loop ≠ .ended ∧ (d.loop = .idle → d.queuedMessages.waiting = []) := by
  by_cases idle : c.loop = .idle
  · rcases entered.idle idle with ⟨same, _, waiting⟩ | ⟨number, handlers, busy, _⟩
    · refine ⟨by rw [same]; nofun, fun _ => ?_⟩
      rcases waiting with same | empty
      · exact same.trans (drained idle)
      · exact empty
    · rw [busy]
      exact ⟨nofun, nofun⟩
  · obtain ⟨same, _⟩ := entered.busy idle
    rw [same]
    exact ⟨running, fun idle' => absurd idle' idle⟩

theorem replay_entered (messages : List (Nat × Message)) (h : Queued options c (numbers messages)) :
    (messages.foldl (Connection.enqueueMessageDispatch options) c).Entered c := by
  induction messages generalizing c with
  | nil => exact ⟨fun _ => ⟨rfl, rfl⟩, fun idle => .inl ⟨idle, rfl, .inl rfl⟩⟩
  | cons message rest ih =>
    obtain ⟨queued, _, first⟩ := enqueueMessageDispatch_queued h
    have later := ih queued
    refine ⟨fun busy => ?_, fun idle => ?_⟩
    · obtain ⟨loop, dispatched⟩ := first.busy busy
      obtain ⟨loop', dispatched'⟩ := later.busy (by rw [loop]; exact busy)
      exact ⟨loop'.trans loop, dispatched'.trans dispatched⟩
    · rcases first.idle idle with ⟨loop, dispatched, waiting⟩ | ⟨number, handlers, loop, dispatched⟩
      · refine (later.idle loop).imp ?_ ?_
        · rintro ⟨loop', dispatched', waiting'⟩
          refine ⟨loop', dispatched'.trans dispatched, ?_⟩
          rcases waiting' with same | empty
          · rw [List.foldl_cons, same]
            exact waiting
          · exact .inr empty
        · rintro ⟨number, handlers, loop', dispatched'⟩
          exact ⟨number, handlers, loop', dispatched'.trans (by rw [dispatched])⟩
      · obtain ⟨loop', dispatched'⟩ := later.busy (by rw [loop]; nofun)
        exact .inr ⟨number, handlers, loop'.trans loop, dispatched'.trans dispatched⟩

theorem Unready.drained (h : Unready options c) (closed : ∀ k, c.closed = some k → k ≤ c.accepted) : Drained c := by
  refine ⟨fun _ => ?_, closed, fun started => absurd h.disconnect started⟩
  rw [h.queued]
  rfl

/-- A close is dispatched at once when no loop runs, and then nothing waits. -/
theorem Drained.disconnecting (h : Drained c) (queued : Queued options c []) : Drained c.enqueueDisconnectDispatch := by
  refine ⟨h.drained, h.closed, fun _ unchained k closed n before => ?_⟩
  have idle : c.loop = .idle := by
    by_contra busy
    exact unchained (if_neg busy)
  have arrived := Nat.lt_of_lt_of_le before (h.closed k closed)
  refine (settled_of_empty queued (h.drained (.inl idle)) arrived).imp_right fun mem => ⟨mem, ?_⟩
  simp [Connection.enqueueDisconnectDispatch, idle]

theorem finalizeConnectionBinding_drained (h : Unready options c) (closed : ∀ k, c.closed = some k → k ≤ c.accepted) :
    Drained (c.finalizeConnectionBinding options) := by
  obtain ⟨queued, disconnect, sameClosed, _, _, accepted, _⟩ := replay_queued _ h.entered
  have entered := replay_entered _ h.entered
  obtain ⟨running, drained⟩ := entered.drained (by rw [h.loop]; nofun) fun _ => by rw [h.queued]; rfl
  have replayed : Drained (c.bufferedMessages.waiting.foldl (Connection.enqueueMessageDispatch options)
      { c with binding := .bound, handlersReady := true, bufferedMessages := .empty, bufferedDisconnect := false }) := by
    refine ⟨fun past => past.elim drained fun ended => absurd ended running, ?_, fun started => ?_⟩
    · rw [sameClosed, accepted]
      exact closed
    · exact absurd (disconnect.trans h.disconnect) started
  unfold Connection.finalizeConnectionBinding
  dsimp only
  split
  · exact replayed.disconnecting queued
  · exact replayed

theorem step_drained {e : Event} (careful : Careful options c e) (inv : Inv options c) (h : Drained c)
    (ht : step options c e = some d) : Drained d := by
  cases e with
  | bind found =>
    simp only [step, Connection.bind] at ht
    split at ht <;> cases ht
    next => exact { h with }
    next => exact { h with }
    next => exact { h with }
    next here => exact finalizeConnectionBinding_drained (inv.unready (inv.not_ready (by rw [here]; nofun))) h.closed
  | message message =>
    cases ht
    unfold Connection.receive
    split
    next => exact h
    next small =>
      have running := careful (Nat.not_lt.mp small)
      have arrived : Drained { c with accepted := c.accepted + 1 } :=
        { h with closed := fun k closed => Nat.le_succ_of_le (h.closed k closed) }
      dsimp only
      split
      next ready =>
        obtain ⟨_, advances, entered⟩ := receive_queued (inv.ready ready).toQueued message
        obtain ⟨running', drained⟩ := entered.drained running fun idle => h.drained (.inl idle)
        exact arrived.advance advances fun past => past.elim drained fun ended => absurd ended running'
      next notReady =>
        have unready := inv.unready (by simpa using notReady)
        refine (bufferIncomingMessage_unready unready message).drained fun k closed => ?_
        unfold Connection.bufferIncomingMessage at closed ⊢
        split at closed <;> exact arrived.closed k closed
  | error => cases ht; exact h
  | close =>
    simp only [step, Option.ite_none_right_eq_some, Option.some.injEq] at ht
    obtain ⟨opened, rfl⟩ := ht
    unfold Connection.close
    dsimp only
    split
    next ready =>
      have isReady := inv.ready ready
      have closed : Drained { c with closed := some c.accepted } := by
        refine ⟨h.drained, ?_, fun started => absurd (isReady.closed.mpr opened) started⟩
        rintro k ⟨⟩
        exact Nat.le_refl _
      have queued : Queued options { c with closed := some c.accepted } [] :=
        ⟨{ isReady.toLined with }, isReady.flag, isReady.current⟩
      exact closed.disconnecting queued
    next notReady =>
      have unready := inv.unready (by simpa using notReady)
      refine ⟨h.drained, ?_, fun started => absurd unready.disconnect started⟩
      rintro k ⟨⟩
      exact Nat.le_refl _
  | dispatch replyFails =>
    simp only [step, Connection.dispatch] at ht
    split at ht
    next number handlers here =>
      have past (loop : Loop) (same : ∀ n handlers, loop = .dispatching n handlers → n = number) (k : Nat)
          (started : c.disconnect ≠ .none) (unchained : c.disconnect ≠ .chained) (closed : c.closed = some k) (n : Nat)
          (before : n < k) : n ∈ c.dropped ∨ n ∈ c.dispatched ∧ ∀ handlers, loop ≠ .dispatching n handlers := by
        refine (h.after started unchained k closed n before).imp_right fun ⟨mem, other⟩ => ⟨mem, fun handlers' this => ?_⟩
        rw [same n handlers' this] at other
        exact other _ here
      cases replyFails with
      | true =>
        cases ht
        exact ⟨fun _ => careful, h.closed, fun started unchained k => past .ended nofun k started unchained⟩
      | false =>
        cases ht
        refine ⟨nofun, h.closed, fun started unchained k => past _ ?_ k started unchained⟩
        rintro n _ ⟨⟩
        rfl
    next number here =>
      cases replyFails <;> cases ht
      have isReady := inv.ready (inv.ready_of_loop (by rw [here]; nofun))
      obtain ⟨_, advances⟩ := next_queued isReady.toLined (isReady.flag.mpr (by rw [here]; nofun))
      refine h.advance advances fun past => ?_
      unfold Connection.next at past ⊢
      split
      next some => simp [some] at past
      next => rfl
    next => cases ht
  | finish =>
    simp only [step, Connection.finish] at ht
    split at ht <;> cases ht
    next here =>
      have isReady := inv.ready (inv.ready_of_loop (by rw [here]; nofun))
      refine ⟨fun _ => h.drained (.inr here), h.closed, fun started _ k closed n before => ?_⟩
      have arrived := Nat.lt_of_lt_of_le before (h.closed k closed)
      exact (settled_of_empty isReady.toQueued (h.drained (.inr here)) arrived).imp_right fun mem => ⟨mem, fun _ => nofun⟩
  | handleDisconnect =>
    simp only [step, Connection.handleDisconnect] at ht
    split at ht <;> cases ht
    all_goals
      rename_i here
      exact ⟨h.drained, h.closed, fun _ _ => h.after (by rw [here]; nofun) (by rw [here]; nofun)⟩

theorem run_drained {descriptors : List Gateway} {es : List Event}
    (careful : Run.Throughout (step options) (Careful options) (.initial descriptors) es)
    (run : Run.run (step options) (.initial descriptors) es = some c) : Drained c := by
  have initial : Inv options (.initial descriptors) ∧ Drained (.initial descriptors) :=
    ⟨initial_inv descriptors, fun _ => rfl, nofun, fun started => absurd rfl started⟩
  refine (Run.keeps_throughout (I := fun c => Inv options c ∧ Drained c) ?_ initial careful run).2
  exact fun c e d careful h ht => ⟨step_inv h.1 ht, step_drained careful h.1 h.2 ht⟩

/-! ## Delivery -/

/-- A message is dispatched when no other one is. -/
theorem step_dispatched {e : Event} (inv : Inv options c) (ht : step options c e = some d) :
    d.dispatched = c.dispatched ∨ ∃ number handlers, d.dispatched = c.dispatched ++ [number] ∧
      d.loop = .dispatching number handlers ∧ (c.loop = .idle ∨ ∃ other, c.loop = .dispatching other 0) := by
  have starts {c' d' : Connection} (entered : d'.Entered c') : d'.dispatched = c'.dispatched ∨
      ∃ number handlers, d'.dispatched = c'.dispatched ++ [number] ∧ d'.loop = .dispatching number handlers ∧
        (c'.loop = .idle ∨ ∃ other, c'.loop = .dispatching other 0) := by
    by_cases idle : c'.loop = .idle
    · rcases entered.idle idle with ⟨_, same, _⟩ | ⟨number, handlers, loop, dispatched⟩
      · exact .inl same
      · exact .inr ⟨number, handlers, dispatched, loop, .inl idle⟩
    · exact .inl (entered.busy idle).2
  cases e with
  | bind found =>
    simp only [step, Connection.bind] at ht
    split at ht <;> cases ht
    next => exact .inl rfl
    next => exact .inl rfl
    next => exact .inl rfl
    next here =>
      have unready := inv.unready (inv.not_ready (by rw [here]; nofun))
      have replayed := starts (replay_entered _ unready.entered)
      unfold Connection.finalizeConnectionBinding
      dsimp only
      split <;> exact replayed
  | message message =>
    cases ht
    unfold Connection.receive
    split
    next => exact .inl rfl
    next =>
      dsimp only
      split
      next ready =>
        have begun := starts (receive_queued (inv.ready ready).toQueued message).2.2
        exact begun
      next => unfold Connection.bufferIncomingMessage; split <;> exact .inl rfl
  | error => cases ht; exact .inl rfl
  | close =>
    simp only [step, Option.ite_none_right_eq_some, Option.some.injEq] at ht
    obtain ⟨_, rfl⟩ := ht
    unfold Connection.close
    dsimp only
    split <;> exact .inl rfl
  | dispatch replyFails =>
    simp only [step, Connection.dispatch] at ht
    split at ht
    next => cases replyFails <;> cases ht <;> exact .inl rfl
    next number here =>
      cases replyFails <;> cases ht
      unfold Connection.next
      split
      · exact .inr ⟨_, _, rfl, rfl, .inr ⟨number, here⟩⟩
      · exact .inl rfl
    next => cases ht
  | finish =>
    simp only [step, Connection.finish] at ht
    split at ht <;> cases ht
    exact .inl rfl
  | handleDisconnect =>
    simp only [step, Connection.handleDisconnect] at ht
    split at ht <;> cases ht <;> exact .inl rfl

/-! ## What is dropped, and when the gateways are bound -/

theorem Connection.next_kept (c : Connection) : c.next.dropped = c.dropped ∧ c.next.binding = c.binding ∧
    c.next.resolved = c.resolved ∧ c.next.queuedMessages.waiting.length ≤ c.queuedMessages.waiting.length := by
  unfold Connection.next
  split
  next number message here =>
    refine ⟨rfl, rfl, rfl, ?_⟩
    rw [Pending.waiting_of_getElem? here]
    exact Nat.le_succ _
  next => exact ⟨rfl, rfl, rfl, Nat.zero_le _⟩

theorem Connection.enqueue_kept (message : Nat × Message) (wellFormed : c.queuedMessages.WellFormed) :
    (c.enqueue message).dropped = c.dropped ∧
      (c.enqueue message).queuedMessages.waiting.length ≤ c.queuedMessages.waiting.length + 1 := by
  have one : (c.queuedMessages.push message).waiting.length = c.queuedMessages.waiting.length + 1 := by
    rw [Pending.waiting_push wellFormed, List.length_append, List.length_singleton]
  unfold Connection.enqueue
  dsimp only
  split
  · exact ⟨rfl, Nat.le_of_eq one⟩
  · obtain ⟨dropped, -, -, fewer⟩ := Connection.next_kept
      { c with queuedMessages := c.queuedMessages.push message, processingMessageQueue := true }
    exact ⟨dropped, fewer.trans (Nat.le_of_eq one)⟩

theorem enqueueMessageDispatch_room (message : Nat × Message) (wellFormed : c.queuedMessages.WellFormed)
    (room : c.queuedMessages.waiting.length < options.limit) :
    (c.enqueueMessageDispatch options message).dropped = c.dropped ∧
      (c.enqueueMessageDispatch options message).queuedMessages.waiting.length ≤ c.queuedMessages.waiting.length + 1 := by
  have admitted : admission options c.queuedMessages.count = .pushed := if_pos (c.queuedMessages.count_eq ▸ room)
  unfold Connection.enqueueMessageDispatch
  rw [admitted]
  exact c.enqueue_kept message wellFormed

theorem replay_room (messages : List (Nat × Message)) (h : Queued options c (numbers messages))
    (room : c.queuedMessages.waiting.length + messages.length ≤ options.limit) :
    (messages.foldl (Connection.enqueueMessageDispatch options) c).dropped = c.dropped := by
  induction messages generalizing c with
  | nil => rfl
  | cons message rest ih =>
    rw [List.length_cons] at room
    have fits : c.queuedMessages.waiting.length < options.limit := by omega
    obtain ⟨dropped, more⟩ := enqueueMessageDispatch_room message h.wellFormed fits
    exact (ih (enqueueMessageDispatch_queued h).1 (by omega)).trans dropped

theorem bufferIncomingMessage_room (message : Nat × Message) (room : c.bufferedMessages.waiting.length < options.limit) :
    (c.bufferIncomingMessage options message).dropped = c.dropped := by
  have admitted : admission options c.bufferedMessages.count = .pushed := if_pos (c.bufferedMessages.count_eq ▸ room)
  unfold Connection.bufferIncomingMessage
  rw [admitted]

theorem replay_resolved (messages : List (Nat × Message)) (h : Queued options c (numbers messages)) :
    (messages.foldl (Connection.enqueueMessageDispatch options) c).resolved = c.resolved := by
  induction messages generalizing c with
  | nil => rfl
  | cons message rest ih =>
    obtain ⟨queued, advances, -⟩ := enqueueMessageDispatch_queued h
    exact (ih queued).trans advances.binding.2.1

/-- The binding of the connection has had a turn: a gateway has been looked up, or a connect handler has returned. -/
def Event.binds : Event → Bool
  | .bind _ => true
  | _ => false

/-- The overflow policy drops nothing before as many messages wait as may wait, and only a turn of the binding changes
what a connection is bound to. -/
theorem step_kept {e : Event} (inv : Inv options c) (ht : step options c e = some d) :
    (c.bufferedMessages.waiting.length + c.queuedMessages.waiting.length < options.limit → d.dropped = c.dropped) ∧
      (e.binds = false → d.binding = c.binding ∧ d.resolved = c.resolved) := by
  cases e with
  | bind found =>
    refine ⟨fun room => ?_, nofun⟩
    simp only [step, Connection.bind] at ht
    split at ht <;> cases ht
    next => rfl
    next => rfl
    next => rfl
    next here =>
      have unready := inv.unready (inv.not_ready (by rw [here]; nofun))
      have fits : c.queuedMessages.waiting.length + c.bufferedMessages.waiting.length ≤ options.limit := by omega
      have replayed := replay_room _ unready.entered fits
      refine Eq.trans ?_ replayed
      unfold Connection.finalizeConnectionBinding
      dsimp only
      split <;> rfl
  | message message =>
    cases ht
    unfold Connection.receive
    split
    next => exact ⟨fun _ => rfl, fun _ => ⟨rfl, rfl⟩⟩
    next =>
      dsimp only
      split
      next ready =>
        obtain ⟨-, advances, -⟩ := receive_queued (inv.ready ready).toQueued message
        refine ⟨fun room => ?_, fun _ => ⟨advances.binding.1, advances.binding.2.1⟩⟩
        have fits : c.queuedMessages.waiting.length < options.limit := by omega
        exact (enqueueMessageDispatch_room (c := { c with accepted := c.accepted + 1 }) _ (inv.ready ready).wellFormed fits).1
      next =>
        refine ⟨fun room => ?_, fun _ => ?_⟩
        · have fits : c.bufferedMessages.waiting.length < options.limit := by omega
          exact bufferIncomingMessage_room (c := { c with accepted := c.accepted + 1 }) _ fits
        · unfold Connection.bufferIncomingMessage
          split <;> exact ⟨rfl, rfl⟩
  | error =>
    cases ht
    exact ⟨fun _ => rfl, fun _ => ⟨rfl, rfl⟩⟩
  | close =>
    obtain ⟨-, is⟩ := Option.ite_none_right_eq_some.mp ht
    cases is
    unfold Connection.close
    dsimp only
    split <;> exact ⟨fun _ => rfl, fun _ => ⟨rfl, rfl⟩⟩
  | dispatch replyFails =>
    simp only [step, Connection.dispatch] at ht
    split at ht
    next => cases replyFails <;> cases ht <;> exact ⟨fun _ => rfl, fun _ => ⟨rfl, rfl⟩⟩
    next =>
      cases replyFails <;> cases ht
      obtain ⟨dropped, binding, resolved, -⟩ := c.next_kept
      exact ⟨fun _ => dropped, fun _ => ⟨binding, resolved⟩⟩
    next => cases ht
  | finish =>
    simp only [step, Connection.finish] at ht
    split at ht <;> cases ht
    exact ⟨fun _ => rfl, fun _ => ⟨rfl, rfl⟩⟩
  | handleDisconnect =>
    simp only [step, Connection.handleDisconnect] at ht
    split at ht <;> cases ht <;> exact ⟨fun _ => rfl, fun _ => ⟨rfl, rfl⟩⟩

def Connection.connectHandlers (c : Connection) : Nat := (c.resolved.map Gateway.connectHandlers).sum

/-- The turns that have been taken: one for each gateway, one that calls the connect handlers, one for each of these
and a last one. -/
def Connection.Turned (gateways turns : Nat) (c : Connection) : Prop :=
  match c.binding with
  | .resolving descriptors => turns + descriptors.length = gateways
  | .connecting handlers => turns + handlers = gateways + 1 + c.connectHandlers
  | .bound => turns = gateways + 2 + c.connectHandlers

theorem Connection.Turned.of_kept {gateways turns : Nat} (h : c.Turned gateways turns) (binding : d.binding = c.binding)
    (resolved : d.resolved = c.resolved) : d.Turned gateways turns := by
  unfold Connection.Turned Connection.connectHandlers at *
  rw [binding, resolved]
  exact h

theorem step_turned {gateways turns : Nat} {e : Event} (inv : Inv options c) (h : c.Turned gateways turns)
    (ht : step options c e = some d) : d.Turned gateways (turns + if e.binds then 1 else 0) := by
  cases e with
  | bind found =>
    unfold Connection.Turned at h
    simp only [step, Connection.bind] at ht
    split at ht <;> cases ht
    next descriptor rest here =>
      rw [here] at h
      exact (Nat.add_assoc turns 1 _).trans ((congrArg (turns + ·) (Nat.add_comm 1 _)).trans h)
    next here =>
      rw [here] at h
      exact congrArg (· + 1 + c.connectHandlers) h
    next handlers here =>
      rw [here] at h
      exact (Nat.add_assoc turns 1 _).trans ((congrArg (turns + ·) (Nat.add_comm 1 _)).trans h)
    next here =>
      rw [here] at h
      have unready := inv.unready (inv.not_ready (by rw [here]; nofun))
      obtain ⟨-, -, -, -, -, -, binding, -⟩ := replay_queued _ unready.entered
      have resolved := replay_resolved _ unready.entered
      have bound : (c.finalizeConnectionBinding options).binding = .bound ∧
          (c.finalizeConnectionBinding options).resolved = c.resolved := by
        unfold Connection.finalizeConnectionBinding
        dsimp only
        split <;> exact ⟨binding, resolved⟩
      unfold Connection.Turned Connection.connectHandlers
      rw [bound.1, bound.2]
      dsimp only at h ⊢
      unfold Connection.connectHandlers at h
      simp only [Event.binds, if_true]
      omega
  | _ =>
    obtain ⟨binding, resolved⟩ := (step_kept inv ht).2 rfl
    exact h.of_kept binding resolved

theorem run_turned {gateways turns : Nat} {es : List Event} (inv : Inv options c) (h : c.Turned gateways turns)
    (run : Run.run (step options) c es = some d) : d.Turned gateways (turns + es.countP Event.binds) := by
  induction es generalizing c turns with
  | nil =>
    cases run
    exact h
  | cons e es ih =>
    obtain ⟨next, here, run⟩ := Run.run_cons run
    have later := ih (step_inv inv here) (step_turned inv h here) run
    rwa [List.countP_cons, Nat.add_comm (es.countP Event.binds), ← Nat.add_assoc]

/-- No handler of the socket runs and no step of its loop is pending. -/
def Quiet (c : Connection) : Prop :=
  c.binding = .bound ∧ c.loop = .idle ∧ (c.disconnect = .none ∨ c.disconnect = .done)

/-- Two messages come before the gateway is bound, of which one may wait, and a third one comes later. -/
def droppingRun : List Event :=
  [.bind true, .message ⟨1, none⟩, .message ⟨1, none⟩, .bind true, .bind true, .bind true, .message ⟨1, none⟩, .close,
    .dispatch false, .dispatch false, .dispatch false, .dispatch false, .finish, .handleDisconnect, .handleDisconnect,
    .handleDisconnect]

end

end Fluo.Websockets.Dispatch
