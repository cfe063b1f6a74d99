import Mathlib.Data.List.Nodup
import Mathlib.Data.List.Range
import Fluo.Websockets.Dispatch

/-!
# Messages in order

What is accepted is dropped by the overflow policy, dispatched, or waits, in the
order of arrival, and no more than the limit waits.
-/

namespace Fluo.Websockets.Dispatch

/-! ## Queues with a start index -/

namespace Pending

variable {α : Type} {p : Pending α} {x : α}

def WellFormed (p : Pending α) : Prop := p.startIndex ≤ p.messages.length

theorem count_eq (p : Pending α) : p.count = p.waiting.length := by simp [count, waiting]

theorem waiting_push (h : p.WellFormed) : (p.push x).waiting = p.waiting ++ [x] :=
  List.drop_append_of_le_length h

theorem WellFormed.push (h : p.WellFormed) : (p.push x).WellFormed := by
  simp only [WellFormed, Pending.push, List.length_append] at *
  omega

theorem waiting_maybeCompact (p : Pending α) : p.maybeCompact.waiting = p.waiting := by
  unfold maybeCompact
  split <;> simp [waiting]

theorem WellFormed.maybeCompact (h : p.WellFormed) : p.maybeCompact.WellFormed := by
  unfold Pending.maybeCompact
  split
  · exact h
  · exact Nat.zero_le _

theorem waiting_dropOldest (p : Pending α) : p.dropOldest.waiting = p.waiting.drop 1 := by
  unfold dropOldest
  rw [waiting_maybeCompact]
  simp [waiting, List.drop_drop]

theorem wellFormed_dropOldest (waits : p.waiting ≠ []) : p.dropOldest.WellFormed := by
  refine WellFormed.maybeCompact ?_
  have := List.length_pos_iff.mpr waits
  simp only [waiting, List.length_drop] at this
  simp only [WellFormed]
  omega

/-- The message at the start index is the first that waits. -/
theorem waiting_of_getElem? (h : p.messages[p.startIndex]? = some x) :
    p.waiting = x :: p.messages.drop (p.startIndex + 1) := by
  obtain ⟨bound, rfl⟩ := List.getElem?_eq_some_iff.mp h
  exact List.drop_eq_getElem_cons bound

theorem waiting_of_none (h : p.messages[p.startIndex]? = none) : p.waiting = [] :=
  List.drop_eq_nil_of_le (List.getElem?_eq_none_iff.mp h)

end Pending

/-! ## What has arrived -/

/-- The messages that have been accepted and not dropped, in the order of arrival. -/
def Connection.remaining (c : Connection) : List Nat := (List.range c.accepted).filter (· ∉ c.dropped)

theorem Connection.remaining_nodup (c : Connection) : c.remaining.Nodup := List.nodup_range.filter _

theorem Connection.mem_remaining {c : Connection} {n : Nat} : n ∈ c.remaining ↔ n < c.accepted ∧ n ∉ c.dropped := by
  simp [remaining]

/-- Dropping a stretch of what remains leaves the rest in order. -/
theorem filter_drop {accepted : Nat} {dropped : List Nat} (before gone behind : List Nat)
    (h : (List.range accepted).filter (· ∉ dropped) = before ++ gone ++ behind) :
    (List.range accepted).filter (· ∉ gone ++ dropped) = before ++ behind := by
  have nodup : (before ++ gone ++ behind).Nodup := h ▸ List.nodup_range.filter _
  have apart := (List.nodup_append.mp nodup).2.2
  have apart' := (List.nodup_append.mp (List.nodup_append.mp nodup).1).2.2
  have split : (List.range accepted).filter (· ∉ gone ++ dropped) =
      ((List.range accepted).filter (· ∉ dropped)).filter (· ∉ gone) := by
    rw [List.filter_filter]
    refine List.filter_congr fun n _ => ?_
    simp
  rw [split, h, List.filter_append, List.filter_append]
  have keeps : ∀ l : List Nat, (∀ n ∈ l, n ∉ gone) → l.filter (· ∉ gone) = l :=
    fun l out => List.filter_eq_self.mpr fun n mem => by simpa using out n mem
  have none : gone.filter (· ∉ gone) = [] := List.filter_eq_nil_iff.mpr fun n mem => by simpa using mem
  rw [none, List.append_nil, keeps before fun n mem mem' => apart' n mem n mem' rfl,
    keeps behind fun n mem mem' => apart n (List.mem_append_right _ mem') n mem rfl]

/-- Messages stand in line for the dispatch; `rest` are those that are not yet in
the queue. -/
structure Lined (options : ModuleOptions) (c : Connection) (rest : List Nat) : Prop where
  ordered : c.remaining = c.dispatched ++ numbers c.queuedMessages.waiting ++ rest
  known : ∀ n ∈ c.dropped, n < c.accepted
  wellFormed : c.queuedMessages.WellFormed
  bound : c.queuedMessages.waiting.length ≤ options.limit

/-- They do, and the loop that dispatches them is entered at most once. -/
structure Queued (options : ModuleOptions) (c : Connection) (rest : List Nat) : Prop extends Lined options c rest where
  flag : c.processingMessageQueue = true ↔ c.loop ≠ .idle
  current : ∀ number handlers, c.loop = .dispatching number handlers → c.dispatched.getLast? = some number

/-- A loop that is entered dispatches a message; one that runs is left alone. -/
structure Connection.Entered (d c : Connection) : Prop where
  busy : c.loop ≠ .idle → d.loop = c.loop ∧ d.dispatched = c.dispatched
  idle : c.loop = .idle → d.loop = .idle ∧ d.dispatched = c.dispatched ∧
      (d.queuedMessages.waiting = c.queuedMessages.waiting ∨ d.queuedMessages.waiting = []) ∨
    ∃ number handlers, d.loop = .dispatching number handlers ∧ d.dispatched = c.dispatched ++ [number]

/-- What enqueueing leaves alone, and what it adds. -/
structure Advances (c d : Connection) : Prop where
  binding : d.binding = c.binding ∧ d.resolved = c.resolved ∧ d.handlersReady = c.handlersReady
  buffered : d.bufferedMessages = c.bufferedMessages ∧ d.bufferedDisconnect = c.bufferedDisconnect
  close : d.disconnect = c.disconnect ∧ d.closed = c.closed ∧ d.disconnects = c.disconnects
  accepted : d.accepted = c.accepted
  dropped : ∀ n ∈ c.dropped, n ∈ d.dropped
  loop : d.loop = c.loop ∧ d.dispatched = c.dispatched ∨ d.loop = .ended ∧ d.dispatched = c.dispatched ∨
    ∃ number handlers, d.loop = .dispatching number handlers ∧ d.dispatched = c.dispatched ++ [number] ∧
      number ∉ c.dispatched ∧ number ∉ c.dropped

theorem positiveOr_pos {fallback : Nat} (positive : 0 < fallback) (configured : Option Nat) :
    0 < positiveOr fallback configured := by
  unfold positiveOr
  split
  · exact Nat.succ_pos _
  · exact positive

section

variable {options : ModuleOptions} {c d : Connection} {rest : List Nat} {message : Nat × Message}

theorem limit_pos : 0 < options.limit := positiveOr_pos (by decide) _

theorem next_queued (h : Lined options c rest) (processing : c.processingMessageQueue = true) :
    Queued options c.next rest ∧ Advances c c.next := by
  unfold Connection.next
  split
  next number m here =>
    have waiting := Pending.waiting_of_getElem? here
    have ordered := h.ordered
    rw [waiting] at ordered
    have mem : number ∈ c.remaining := by
      rw [ordered]
      simp [numbers]
    have nodup := c.remaining_nodup
    rw [ordered, List.append_assoc] at nodup
    have fresh : number ∉ c.dispatched :=
      fun mem' => (List.nodup_append.mp nodup).2.2 number mem' number (by simp [numbers]) rfl
    refine ⟨⟨⟨?_, h.known, ?_, ?_⟩, iff_of_true processing nofun, ?_⟩, ⟨rfl, rfl, rfl⟩, ⟨rfl, rfl⟩, ⟨rfl, rfl, rfl⟩, rfl,
      fun _ => id, .inr (.inr ⟨number, _, rfl, rfl, fresh, (Connection.mem_remaining.mp mem).2⟩)⟩
    · exact ordered.trans (by simp [numbers, Pending.waiting])
    · exact (List.getElem?_eq_some_iff.mp here).1
    · have bound := h.bound
      rw [waiting] at bound
      exact Nat.le_of_succ_le bound
    · rintro number' handlers ⟨⟩
      simp
  next none =>
    have waiting := Pending.waiting_of_none none
    refine ⟨⟨⟨?_, h.known, Nat.le_refl _, Nat.zero_le _⟩, iff_of_true processing nofun, nofun⟩, ⟨rfl, rfl, rfl⟩, ⟨rfl, rfl⟩,
      ⟨rfl, rfl, rfl⟩, rfl, fun _ => id, .inr (.inl ⟨rfl, rfl⟩)⟩
    have ordered := h.ordered
    rw [waiting] at ordered
    exact ordered

theorem enqueue_queued (h : Queued options c (message.1 :: rest)) (room : c.queuedMessages.waiting.length < options.limit) :
    Queued options (c.enqueue message) rest ∧ Advances c (c.enqueue message) ∧
      (c.loop ≠ .idle → (c.enqueue message).loop = c.loop ∧ (c.enqueue message).dispatched = c.dispatched) ∧
      (c.loop = .idle → ∃ number handlers, (c.enqueue message).loop = .dispatching number handlers ∧
        (c.enqueue message).dispatched = c.dispatched ++ [number]) := by
  have pushed : Lined options { c with queuedMessages := c.queuedMessages.push message } rest := by
    refine ⟨?_, h.known, h.wellFormed.push, ?_⟩
    · rw [Pending.waiting_push h.wellFormed]
      exact h.ordered.trans (by simp [numbers])
    · rw [Pending.waiting_push h.wellFormed, List.length_append]
      exact room
  unfold Connection.enqueue
  dsimp only
  split
  next processing =>
    refine ⟨⟨pushed, h.flag, h.current⟩, ⟨⟨rfl, rfl, rfl⟩, ⟨rfl, rfl⟩, ⟨rfl, rfl, rfl⟩, rfl, fun _ => id, .inl ⟨rfl, rfl⟩⟩,
      fun _ => ⟨rfl, rfl⟩, fun idle => ?_⟩
    exact absurd idle (h.flag.mp processing)
  next processing =>
    have entered : Lined options
        { c with queuedMessages := c.queuedMessages.push message, processingMessageQueue := true } rest :=
      ⟨pushed.ordered, pushed.known, pushed.wellFormed, pushed.bound⟩
    obtain ⟨queued, advances⟩ := next_queued entered rfl
    refine ⟨queued, { advances with }, fun busy => absurd (h.flag.mpr busy) processing, fun _ => ?_⟩
    -- the message that has just been pushed is there to be dispatched
    unfold Connection.next
    split
    next number _ _ => exact ⟨number, _, rfl, rfl⟩
    next none =>
      have empty := Pending.waiting_of_none none
      rw [Pending.waiting_push h.wellFormed] at empty
      exact absurd empty (List.append_ne_nil_of_right_ne_nil _ nofun)

theorem admission_cases (options : ModuleOptions) (count : Nat) :
    admission options count = .pushed ∧ count < options.limit ∨ options.limit ≤ count ∧ admission options count ≠ .pushed := by
  unfold admission
  split
  next room => exact .inl ⟨rfl, room⟩
  next full => exact .inr ⟨Nat.not_lt.mp full, by split <;> nofun⟩

theorem enqueueMessageDispatch_queued (h : Queued options c (message.1 :: rest)) :
    Queued options (c.enqueueMessageDispatch options message) rest ∧
      Advances c (c.enqueueMessageDispatch options message) ∧ (c.enqueueMessageDispatch options message).Entered c := by
  have ordered := h.ordered
  have stood (n : Nat) (mem : n ∈ numbers c.queuedMessages.waiting ∨ n = message.1) : n < c.accepted := by
    refine (Connection.mem_remaining.mp ?_).1
    rw [ordered]
    rcases mem with mem | rfl <;> simp [*]
  unfold Connection.enqueueMessageDispatch
  have count := c.queuedMessages.count_eq
  rcases admission_cases options c.queuedMessages.count with ⟨admitted, room⟩ | ⟨full, other⟩
  · rw [admitted]
    obtain ⟨queued, advances, busy, enters⟩ := enqueue_queued h (count ▸ room)
    exact ⟨queued, advances, busy, fun idle => .inr (enters idle)⟩
  · have positive : 0 < options.limit := limit_pos
    split
    next pushed => exact absurd pushed other
    next =>
      have waits : 0 < c.queuedMessages.waiting.length := by omega
      have split : numbers c.queuedMessages.waiting =
          numbers (c.queuedMessages.waiting.take 1) ++ numbers (c.queuedMessages.waiting.drop 1) := by
        rw [numbers, numbers, numbers, ← List.map_append, List.take_append_drop]
      have dropped : Queued options { c with
          queuedMessages := c.queuedMessages.dropOldest
          dropped := numbers (c.queuedMessages.waiting.take 1) ++ c.dropped } (message.1 :: rest) := by
        refine ⟨⟨?_, fun n mem => ?_, Pending.wellFormed_dropOldest (List.length_pos_iff.mp waits), ?_⟩, h.flag, h.current⟩
        · dsimp only [Connection.remaining]
          rw [Pending.waiting_dropOldest, List.append_assoc]
          refine filter_drop _ _ _ ?_
          rw [← Connection.remaining, ordered, split]
          simp only [List.append_assoc]
        · rcases List.mem_append.mp mem with mem | mem
          · exact stood n (.inl (split ▸ List.mem_append_left _ mem))
          · exact h.known n mem
        · rw [Pending.waiting_dropOldest, List.length_drop]
          exact Nat.le_trans (Nat.sub_le _ _) h.bound
      have room : c.queuedMessages.dropOldest.waiting.length < options.limit := by
        have bound := h.bound
        rw [Pending.waiting_dropOldest, List.length_drop]
        omega
      obtain ⟨queued, advances, busy, enters⟩ := enqueue_queued dropped room
      refine ⟨queued, { advances with dropped := fun n mem => ?_, loop := ?_ }, busy, fun idle => .inr (enters idle)⟩
      · exact advances.dropped n (List.mem_append_right _ mem)
      · refine advances.loop.imp_right fun loop => loop.imp_right ?_
        rintro ⟨number, handlers, entered, starts, fresh, kept⟩
        exact ⟨number, handlers, entered, starts, fresh, fun mem => kept (List.mem_append_right _ mem)⟩
    next =>
      refine ⟨⟨⟨?_, fun n mem => ?_, h.wellFormed, h.bound⟩, h.flag, h.current⟩, ⟨⟨rfl, rfl, rfl⟩, ⟨rfl, rfl⟩,
        ⟨rfl, rfl, rfl⟩, rfl, fun _ => List.mem_cons_of_mem _, .inl ⟨rfl, rfl⟩⟩, fun _ => ⟨rfl, rfl⟩,
        fun idle => .inl ⟨idle, rfl, .inl rfl⟩⟩
      · refine filter_drop _ [message.1] _ ?_
        rw [← Connection.remaining, ordered]
        simp only [List.append_assoc, List.singleton_append]
      · rcases List.mem_cons.mp mem with rfl | mem
        · exact stood _ (.inr rfl)
        · exact h.known n mem
    next =>
      refine ⟨⟨⟨?_, fun n mem => ?_, Nat.le_refl _, Nat.zero_le _⟩, h.flag, h.current⟩, ⟨⟨rfl, rfl, rfl⟩, ⟨rfl, rfl⟩,
        ⟨rfl, rfl, rfl⟩, rfl, fun _ mem => List.mem_append_right _ (List.mem_cons_of_mem _ mem), .inl ⟨rfl, rfl⟩⟩,
        fun _ => ⟨rfl, rfl⟩, fun idle => .inl ⟨idle, rfl, .inr rfl⟩⟩
      · have gone : (List.range c.accepted).filter (· ∉ (numbers c.queuedMessages.waiting ++ [message.1]) ++ c.dropped) =
            c.dispatched ++ rest := by
          refine filter_drop _ _ _ ?_
          rw [← Connection.remaining, ordered]
          simp only [List.append_assoc, List.singleton_append]
        rw [List.append_assoc, List.singleton_append] at gone
        exact gone.trans (by simp [numbers, Pending.waiting, Pending.empty])
      · rcases List.mem_append.mp mem with mem | mem
        · exact stood n (.inl mem)
        · rcases List.mem_cons.mp mem with rfl | mem
          · exact stood _ (.inr rfl)
          · exact h.known n mem

end

end Fluo.Websockets.Dispatch
