import Fluo.Lib.Run
import Fluo.Microservices.BrokerRequests

/-!
# The RabbitMQ transport

As the Kafka transport, but for two things: the queues with a consumer are on
record, and a `send` waits for the transport to listen.
-/

namespace Fluo.Microservices.RabbitMqTransport

open Fluo.Microservices.BrokerRequests

variable {V : Type}

/-- The body of `listenPromise`: it awaits `queue`. -/
inductive Listen where
  | consuming (queue : String) (rest : List String)
  | cancelling (queue : String) (rest : List String) (error : String)

/-- The body of `closePromise`. -/
inductive Close where
  | listening
  | cancelling (queue : String) (rest : List String) (closeError listenError : Option String)

structure Transport (V : Type) where
  closing : Bool
  listening : Bool
  listenPromise : Option Listen
  closePromise : Option Close
  subscribedQueues : List String
  requests : List (Request V)
  /-- The consumers that the broker runs for this transport. -/
  live : List String
  /-- How the last `close` ended, until the transport consumes again. -/
  closed : Option (Except String Unit)

namespace Transport

def initial : Transport V := ⟨false, false, none, none, [], [], [], none⟩

/-- What `close` does at its end. -/
def finishClose (s : Transport V) (closeError listenError : Option String) : Transport V :=
  { s with
    listening := false
    closePromise := none
    requests := s.requests.map (·.rejectPending .rabbitMq)
    closed := some (match listenError.or closeError with | some error => .error error | none => .ok ()) }

def cancel (s : Transport V) (closeError listenError : Option String) : List String → Transport V
  | [] => s.finishClose closeError listenError
  | queue :: rest => { s with closePromise := some (.cancelling queue rest closeError listenError) }

/-- A `send` goes on that has waited for `listenPromise`. -/
def resume (listening : Bool) (result : Except String Unit) (r : Request V) : Request V :=
  if r.stage = .waiting then
    match result with
    | .ok () =>
      if listening then r.start .rabbitMq
      else .refused r.pattern r.signal "RabbitMqMicroserviceTransport is not listening. Call listen() before send()."
    | .error error => .refused r.pattern r.signal error
  else r

/-- `listenPromise` settles: the calls of `send` that wait for it go on, then `close` if
it waits for it. -/
def settleListen (s : Transport V) (result : Except String Unit) : Transport V :=
  let listening := match result with | .ok () => true | .error _ => s.listening
  let s := { s with
    listening := listening
    listenPromise := none
    requests := s.requests.map (resume listening result) }
  match s.closePromise with
  | some .listening =>
    s.cancel none (match result with | .ok () => none | .error error => some error) s.subscribedQueues
  | _ => s

def consume (s : Transport V) : List String → Transport V
  | [] => s.settleListen (.ok ())
  | queue :: rest => { s with listenPromise := some (.consuming queue rest) }

def rollback (s : Transport V) (error : String) : List String → Transport V
  | [] => { s with subscribedQueues := [] }.settleListen (.error error)
  | queue :: rest => { s with listenPromise := some (.cancelling queue rest error) }

def listen (topics : Topics) (s : Transport V) : Transport V :=
  if s.closing && (s.closePromise.isSome || !s.subscribedQueues.isEmpty) then s
  else
    let s := { s with closing := false }
    if s.listening || s.listenPromise.isSome then s
    else { s with closed := none }.consume topics.all

def close (s : Transport V) : Transport V :=
  if s.closePromise.isSome then s
  else
    let s := { s with closing := true }
    if s.listenPromise.isSome then { s with closePromise := some .listening }
    else s.cancel none none s.subscribedQueues

def send (s : Transport V) (pattern : String) (signal : Option Bool) : Transport V :=
  let waiting : Request V := ⟨pattern, signal, .waiting, false, false, false, none⟩
  let r : Request V :=
    if s.closing then
      .refused pattern signal "RabbitMqMicroserviceTransport is closing. Wait for close() to complete before send()."
    else if s.listenPromise.isSome then waiting
    else resume s.listening (.ok ()) waiting
  { s with requests := s.requests ++ [r] }

/-- The consumer of a queue starts, and the queue is recorded. -/
def consumed (s : Transport V) (queue : String) : Transport V :=
  { s with
    live := s.live ++ [queue]
    subscribedQueues := if queue ∈ s.subscribedQueues then s.subscribedQueues else s.subscribedQueues ++ [queue] }

def cancelled (s : Transport V) (queue : String) : Transport V := { s with live := s.live.filter (· ≠ queue) }

end Transport

inductive Event (V : Type) where
  | listen
  /-- A call of `consume` ends, with an error or without. -/
  | consumed (error : Option String)
  /-- A call of `cancel` in the rollback of `listen` ends. -/
  | rolledBack (error : Option String)
  | close
  /-- A call of `cancel` in `close` ends. -/
  | cancelled (error : Option String)
  | send (pattern : String) (signal : Option Bool)
  | request (index : Nat) (e : RequestEvent V)

def step (topics : Topics) (requestTimeoutMs : Nat) (s : Transport V) : Event V → Option (Transport V)
  | .listen => some (s.listen topics)
  | .consumed error =>
    match s.listenPromise with
    | some (.consuming queue rest) =>
      match error with
      | none => some ((s.consumed queue).consume rest)
      | some error => some (s.rollback error s.subscribedQueues)
    | _ => none
  | .rolledBack error =>
    match s.listenPromise with
    | some (.cancelling queue rest listenError) =>
      some ((if error = none then s.cancelled queue else s).rollback listenError rest)
    | _ => none
  | .close => some s.close
  | .cancelled error =>
    match s.closePromise with
    | some (.cancelling queue rest closeError listenError) =>
      match error with
      | none =>
        let s := s.cancelled queue
        some ({ s with subscribedQueues := s.subscribedQueues.filter (· ≠ queue) }.cancel closeError listenError rest)
      | some error => some (s.cancel (closeError.or (some error)) listenError rest)
    | _ => none
  | .send pattern signal => some (s.send pattern signal)
  | .request index e =>
    (requestStep .rabbitMq s.closing requestTimeoutMs s.requests index e).map fun requests =>
      { s with requests := requests }

/-! ## Requests -/

variable {topics : Topics} {requestTimeoutMs : Nat} {s t : Transport V}

/-- What every run keeps of the promises and the requests. -/
structure Inv (s : Transport V) : Prop where
  valid : ∀ r ∈ s.requests, r.Valid
  waiting : ∀ r ∈ s.requests, r.stage = .waiting → s.listenPromise ≠ none
  idle : s.listening = false → ∀ r ∈ s.requests, r.stage ≠ .waiting → r.outcome.isSome = true
  quiet : s.listenPromise ≠ none → s.listening = false
  waits : s.closePromise = some .listening → s.listenPromise ≠ none
  closing : s.closePromise ≠ none → s.closing = true
  cancelling : ∀ queue rest closeError listenError,
    s.closePromise = some (.cancelling queue rest closeError listenError) → s.listenPromise = none
  closed : s.closed ≠ none → s.listening = false ∧ s.listenPromise = none

theorem Inv.unclosed (h : Inv s) (held : s.listenPromise ≠ none) : s.closed = none := by
  by_contra closed
  exact held (h.closed closed).2

namespace Transport

theorem initial_inv : Inv (initial : Transport V) := by
  constructor <;> simp [initial]

theorem resume_valid {r : Request V} (h : r.Valid) (listening : Bool) (result : Except String Unit) :
    (resume listening result r).Valid := by
  unfold resume
  split
  next waiting =>
    cases result with
    | ok =>
      dsimp only
      split
      · exact Request.start_valid h waiting
      · exact Request.refused_valid _ _ _
    | error error => exact Request.refused_valid _ _ _
  next => exact h

theorem resume_started (listening : Bool) (result : Except String Unit) (r : Request V) :
    (resume listening result r).stage ≠ .waiting := by
  unfold resume
  split
  next =>
    cases result with
    | ok =>
      dsimp only
      split
      · exact Request.start_started _ _
      · exact nofun
    | error error => exact nofun
  next started => exact started

theorem resume_later {r : Request V} (h : r.Valid) (listening : Bool) (result : Except String Unit) :
    Request.Later r (resume listening result r) := by
  unfold resume
  split
  next waiting =>
    have unsettled : r.outcome = none := (h.waiting waiting).1
    exact ⟨fun settled => by simp [unsettled] at settled, fun _ => waiting⟩
  next => exact .refl r

theorem finishClose_inv (h : Inv { s with closePromise := none }) (settled : s.listenPromise = none)
    (closeError listenError : Option String) : Inv (s.finishClose closeError listenError) where
  valid r mem := by
    obtain ⟨r₀, mem₀, rfl⟩ := List.mem_map.mp mem
    exact Request.rejectPending_valid (h.valid r₀ mem₀)
  waiting r mem waiting := by
    obtain ⟨r₀, mem₀, rfl⟩ := List.mem_map.mp mem
    exact h.waiting r₀ mem₀ ((Request.rejectPending_later .rabbitMq r₀).stage waiting)
  idle _ r mem _ := by
    obtain ⟨r₀, mem₀, rfl⟩ := List.mem_map.mp mem
    exact Request.rejectPending_settled (h.valid r₀ mem₀) fun waiting => h.waiting r₀ mem₀ waiting settled
  quiet := fun _ => rfl
  waits := nofun
  closing := fun held => absurd rfl held
  cancelling := nofun
  closed := fun _ => ⟨rfl, settled⟩

theorem cancel_inv (h : Inv { s with closePromise := none }) (settled : s.listenPromise = none)
    (closing : s.closing = true) (closeError listenError : Option String) (rest : List String) :
    Inv (s.cancel closeError listenError rest) := by
  cases rest with
  | nil => exact finishClose_inv h settled closeError listenError
  | cons queue rest =>
    exact ⟨h.valid, h.waiting, h.idle, h.quiet, nofun, fun _ => closing, fun _ _ _ _ _ => settled, h.closed⟩

theorem settleListen_inv (h : Inv s) (held : s.listenPromise ≠ none) (result : Except String Unit) :
    Inv (s.settleListen result) := by
  have silent := h.quiet held
  have unclosed := h.unclosed held
  unfold settleListen
  dsimp only
  generalize heard : (match result with | .ok () => true | .error _ => s.listening) = listening
  have listens : Inv { s with
      listening := listening
      listenPromise := none
      requests := s.requests.map (resume listening result)
      closePromise := none } := by
    refine ⟨fun r mem => ?_, fun r mem waiting => ?_, fun quiet r mem _ => ?_, fun held => absurd rfl held, nofun,
      fun held => absurd rfl held, nofun, fun closed => absurd unclosed closed⟩ <;>
      obtain ⟨r₀, mem₀, rfl⟩ := List.mem_map.mp mem
    · exact resume_valid (h.valid r₀ mem₀) listening result
    · exact absurd waiting (resume_started listening result r₀)
    · cases result with
      | ok => exact absurd (heard.trans quiet) nofun
      | error error =>
        unfold resume
        split
        · rfl
        next started => exact h.idle silent r₀ mem₀ started
  split
  next waits =>
    exact cancel_inv (s := { s with
        listening := listening
        listenPromise := none
        requests := s.requests.map (resume listening result) })
      listens rfl (h.closing (by simp [waits])) none _ _
  next other =>
    exact ⟨listens.valid, listens.waiting, listens.idle, listens.quiet, fun waits => absurd waits other, h.closing,
      fun _ _ _ _ _ => rfl, listens.closed⟩

theorem consume_inv (h : Inv s) (silent : s.listening = false) (unclosed : s.closed = none) {rest : List String}
    (held : rest = [] → s.listenPromise ≠ none)
    (free : ∀ queue rest closeError listenError, s.closePromise ≠ some (.cancelling queue rest closeError listenError)) :
    Inv (s.consume rest) := by
  cases rest with
  | nil => exact settleListen_inv h (held rfl) (.ok ())
  | cons queue rest =>
    exact ⟨h.valid, fun _ _ _ => nofun, h.idle, fun _ => silent, fun _ => nofun, h.closing,
      fun queue rest closeError listenError cancelling => absurd cancelling (free queue rest closeError listenError),
      fun closed => absurd unclosed closed⟩

theorem rollback_inv (h : Inv s) (held : s.listenPromise ≠ none) (error : String) (rest : List String) :
    Inv (s.rollback error rest) := by
  cases rest with
  | nil =>
    have cleared : Inv { s with subscribedQueues := [] } :=
      ⟨h.valid, h.waiting, h.idle, h.quiet, h.waits, h.closing, h.cancelling, h.closed⟩
    have settles := settleListen_inv cleared held (.error error)
    exact settles
  | cons queue rest =>
    exact ⟨h.valid, fun _ _ _ => nofun, h.idle, fun _ => h.quiet held, fun _ => nofun, h.closing,
      fun queue rest closeError listenError cancelling =>
        absurd (h.cancelling queue rest closeError listenError cancelling) held,
      fun closed => absurd (h.unclosed held) closed⟩

theorem listen_inv (h : Inv s) : Inv (s.listen topics) := by
  unfold listen
  dsimp only
  split
  · exact h
  next free =>
    have idle : s.closePromise = none := by
      by_contra held
      exact free (by simp [h.closing held, Option.isSome_iff_ne_none, held])
    split
    · exact ⟨h.valid, h.waiting, h.idle, h.quiet, h.waits, fun held => absurd idle held, h.cancelling, h.closed⟩
    next quiet =>
      simp only [Bool.or_eq_true, not_or, Bool.not_eq_true, Option.isSome_eq_false_iff, Option.isNone_iff_eq_none] at quiet
      exact consume_inv (s := { s with closing := false, closed := none })
        ⟨h.valid, h.waiting, h.idle, h.quiet, h.waits, fun held => absurd idle held, h.cancelling,
          fun closed => absurd rfl closed⟩
        quiet.1 rfl nofun fun _ _ _ _ => by simp [idle]

theorem close_inv (h : Inv s) : Inv s.close := by
  unfold close
  dsimp only
  split
  · exact h
  next free =>
    split
    next held =>
      have listens : s.listenPromise ≠ none := Option.isSome_iff_ne_none.mp held
      exact ⟨h.valid, h.waiting, h.idle, h.quiet, fun _ => listens, fun _ => rfl, nofun, h.closed⟩
    next free =>
      have settled : s.listenPromise = none := by simpa using free
      exact cancel_inv (s := { s with closing := true })
        ⟨h.valid, h.waiting, h.idle, h.quiet, nofun, fun held => absurd rfl held, nofun, h.closed⟩ settled rfl none none _

theorem send_inv (h : Inv s) (pattern : String) (signal : Option Bool) : Inv (s.send pattern signal) := by
  have fresh : (⟨pattern, signal, .waiting, false, false, false, none⟩ : Request V).Valid := by
    constructor <;> simp
  refine ⟨fun r mem => ?_, fun r mem waiting => ?_, fun silent r mem started => ?_, h.quiet, h.waits, h.closing,
    h.cancelling, h.closed⟩ <;>
    rcases List.mem_append.mp mem with mem | mem
  · exact h.valid r mem
  · rw [List.mem_singleton.mp mem]
    split
    · exact Request.refused_valid _ _ _
    · split
      · exact fresh
      · exact resume_valid fresh _ _
  · exact h.waiting r mem waiting
  · rw [List.mem_singleton.mp mem] at waiting
    split at waiting
    · cases waiting
    · split at waiting
      next held =>
        have held : s.listenPromise ≠ none := Option.isSome_iff_ne_none.mp held
        exact held
      next => exact absurd waiting (resume_started _ _ _)
  · exact h.idle silent r mem started
  · rw [List.mem_singleton.mp mem] at started ⊢
    by_cases closing : s.closing = true
    · rw [if_pos closing]
      rfl
    · rw [if_neg closing] at started ⊢
      by_cases held : s.listenPromise.isSome = true
      · rw [if_pos held] at started
        exact absurd rfl started
      · have silent : s.listening = false := silent
        rw [if_neg held, silent]
        rfl

end Transport

theorem step_inv {e : Event V} (h : Inv s) (stays : step topics requestTimeoutMs s e = some t) : Inv t := by
  cases e with
  | listen => cases stays; exact Transport.listen_inv h
  | consumed error =>
    simp only [step] at stays
    split at stays
    next queue rest consuming =>
      have held : s.listenPromise ≠ none := by simp [consuming]
      cases error with
      | none =>
        cases stays
        exact Transport.consume_inv (s := s.consumed queue)
          ⟨h.valid, h.waiting, h.idle, h.quiet, h.waits, h.closing, h.cancelling, h.closed⟩ (h.quiet held)
          (h.unclosed held) (fun _ => held) fun queue rest closeError listenError cancelling =>
            held (h.cancelling queue rest closeError listenError cancelling)
      | some error =>
        cases stays
        exact Transport.rollback_inv h held error _
    next => cases stays
  | rolledBack error =>
    simp only [step] at stays
    split at stays
    next queue rest listenError cancelling =>
      have held : s.listenPromise ≠ none := by simp [cancelling]
      cases stays
      split
      · exact Transport.rollback_inv (s := s.cancelled queue)
          ⟨h.valid, h.waiting, h.idle, h.quiet, h.waits, h.closing, h.cancelling, h.closed⟩ held listenError rest
      · exact Transport.rollback_inv h held listenError rest
    next => cases stays
  | close => cases stays; exact Transport.close_inv h
  | cancelled error =>
    simp only [step] at stays
    split at stays
    next queue rest closeError listenError cancelling =>
      have settled := h.cancelling queue rest closeError listenError cancelling
      have closing := h.closing (by simp [cancelling])
      have free : Inv { s with closePromise := none } :=
        ⟨h.valid, h.waiting, h.idle, h.quiet, nofun, fun held => absurd rfl held, nofun, h.closed⟩
      cases error with
      | none =>
        cases stays
        exact Transport.cancel_inv
          (s := { s.cancelled queue with subscribedQueues := s.subscribedQueues.filter (· ≠ queue) })
          ⟨free.valid, free.waiting, free.idle, free.quiet, free.waits, free.closing, free.cancelling, free.closed⟩
          settled closing closeError listenError rest
      | some error =>
        cases stays
        exact Transport.cancel_inv free settled closing _ listenError rest
    next => cases stays
  | send pattern signal => cases stays; exact Transport.send_inv h pattern signal
  | request index e =>
    obtain ⟨requests, moved, rfl⟩ := Option.map_eq_some_iff.mp stays
    refine ⟨?_, ?_, fun silent => ?_, h.quiet, h.waits, h.closing, h.cancelling, h.closed⟩
    · exact requestStep_all (fun r r' valid moves => Request.step_valid valid moves) moved h.valid
    · exact requestStep_all (fun r r' waits moves waiting => waits ((Request.step_later moves).stage waiting)) moved
        h.waiting
    · refine fun r mem => (requestStep_all (P := fun r => r.Valid ∧ (r.stage ≠ .waiting → r.outcome.isSome = true))
        (fun r r' old moves => ?_) moved (fun r mem => ⟨h.valid r mem, h.idle silent r mem⟩) r mem).2
      refine ⟨Request.step_valid old.1 moves, fun started => ?_⟩
      have settled := old.2 fun waiting => started (Request.step_waiting old.1 waiting moves)
      rw [(Request.step_later moves).outcome settled]
      exact settled

theorem cancel_continues (s : Transport V) (closeError listenError : Option String) (rest : List String) :
    Continues s.requests (s.cancel closeError listenError rest).requests := by
  cases rest with
  | nil => exact continues_map (Request.rejectPending_later .rabbitMq) _
  | cons queue rest => exact .refl _

theorem settleListen_continues (h : Inv s) (result : Except String Unit) :
    Continues s.requests (s.settleListen result).requests := by
  unfold Transport.settleListen
  dsimp only
  generalize (match result with | .ok () => true | .error _ => s.listening) = listening
  have resumed : Continues s.requests (s.requests.map (Transport.resume listening result)) := by
    intro index r here
    have valid := h.valid r (List.mem_of_getElem? here)
    exact ⟨Transport.resume listening result r, by simp [here], Transport.resume_later valid listening result⟩
  split
  · exact resumed.trans (cancel_continues
      { s with
        listening := listening
        listenPromise := none
        requests := s.requests.map (Transport.resume listening result) } none _ _)
  · exact resumed

theorem step_continues {e : Event V} (h : Inv s) (stays : step topics requestTimeoutMs s e = some t) :
    Continues s.requests t.requests := by
  cases e with
  | listen =>
    cases stays
    unfold Transport.listen
    dsimp only
    split
    · exact .refl _
    · split
      · exact .refl _
      · exact .refl _
  | consumed error =>
    simp only [step] at stays
    split at stays
    next queue rest consuming =>
      have consumed : Inv (s.consumed queue) :=
        ⟨h.valid, h.waiting, h.idle, h.quiet, h.waits, h.closing, h.cancelling, h.closed⟩
      have cleared : Inv { s with subscribedQueues := [] } :=
        ⟨h.valid, h.waiting, h.idle, h.quiet, h.waits, h.closing, h.cancelling, h.closed⟩
      cases error with
      | none =>
        cases stays
        cases rest with
        | nil => exact settleListen_continues consumed (.ok ())
        | cons => exact .refl _
      | some error =>
        cases stays
        cases s.subscribedQueues with
        | nil => exact settleListen_continues cleared (.error error)
        | cons => exact .refl _
    next => cases stays
  | rolledBack error =>
    simp only [step] at stays
    split at stays
    next queue rest listenError _ =>
      have cleared : Inv { s with subscribedQueues := [] } :=
        ⟨h.valid, h.waiting, h.idle, h.quiet, h.waits, h.closing, h.cancelling, h.closed⟩
      have cancelled : Inv { s.cancelled queue with subscribedQueues := [] } :=
        ⟨h.valid, h.waiting, h.idle, h.quiet, h.waits, h.closing, h.cancelling, h.closed⟩
      cases stays
      cases rest with
      | nil =>
        split
        · exact settleListen_continues cancelled (.error listenError)
        · exact settleListen_continues cleared (.error listenError)
      | cons => split <;> exact .refl _
    next => cases stays
  | close =>
    cases stays
    unfold Transport.close
    dsimp only
    split
    · exact .refl _
    · split
      · exact .refl _
      · exact cancel_continues { s with closing := true } none none _
  | cancelled error =>
    simp only [step] at stays
    split at stays
    next queue rest closeError listenError _ =>
      cases error with
      | none =>
        cases stays
        exact cancel_continues { s.cancelled queue with subscribedQueues := _ } closeError listenError rest
      | some error => cases stays; exact cancel_continues s _ listenError rest
    next => cases stays
  | send pattern signal => cases stays; exact continues_append _ _
  | request index e =>
    obtain ⟨requests, moved, rfl⟩ := Option.map_eq_some_iff.mp stays
    exact requestStep_continues moved

/-! ## Consumers -/

/-- The queues whose consumers a rollback or a `close` that is under way has yet to
cancel, or else the next `close` would. -/
def Transport.owned (s : Transport V) : List String :=
  match s.listenPromise with
  | some (.cancelling queue rest _) => queue :: rest
  | _ => s.subscribedQueues

/-- What a run keeps of the consumers while the rollback of `listen` does not fail. -/
structure Held (topics : Topics) (s : Transport V) : Prop where
  single : s.live.Nodup
  owned : ∀ queue ∈ s.live, queue ∈ s.owned
  plan : ∀ queue rest, s.listenPromise = some (.consuming queue rest) → s.subscribedQueues ++ queue :: rest = topics.all
  rested : s.listening = false → s.listenPromise = none → s.closing = false → s.subscribedQueues = []
  cancelled : ∀ queue rest listenError, s.closePromise = some (.cancelling queue rest none listenError) →
    ∀ q ∈ s.subscribedQueues, q ∈ queue :: rest
  closed : s.closed = some (.ok ()) → s.subscribedQueues = []

namespace Transport

/-- `close` ends, or goes on with a queue. -/
theorem cancel_held (settled : s.listenPromise = none) (closing : s.closing = true) (single : s.live.Nodup)
    (owned : ∀ queue ∈ s.live, queue ∈ s.subscribedQueues) (closed : s.closed = some (.ok ()) → s.subscribedQueues = [])
    {closeError listenError : Option String} {rest : List String}
    (cancelled : closeError = none → ∀ queue ∈ s.subscribedQueues, queue ∈ rest) :
    Held topics (s.cancel closeError listenError rest) := by
  have recorded : ∀ queue ∈ s.live, queue ∈ (match s.listenPromise with
      | some (.cancelling queue rest _) => queue :: rest
      | _ => s.subscribedQueues) := by
    rw [settled]
    exact owned
  cases rest with
  | nil =>
    refine ⟨single, recorded, fun _ _ consuming => ?_, fun _ _ open_ => ?_, nofun, fun closed => ?_⟩
    · exact absurd (settled.symm.trans consuming) nofun
    · exact absurd (closing.symm.trans open_) nofun
    · cases closeError with
      | none => exact List.eq_nil_iff_forall_not_mem.mpr fun queue mem => absurd (cancelled rfl queue mem) List.not_mem_nil
      | some error => cases listenError <;> simp [cancel, finishClose] at closed
  | cons queue rest =>
    refine ⟨single, recorded, fun _ _ consuming => ?_, fun _ _ open_ => ?_, fun _ _ _ cancelling => ?_, closed⟩
    · exact absurd (settled.symm.trans consuming) nofun
    · exact absurd (closing.symm.trans open_) nofun
    · cases cancelling
      exact cancelled rfl

theorem settleListen_held (inv : Inv s) (held : s.listenPromise ≠ none) (single : s.live.Nodup)
    (owned : ∀ queue ∈ s.live, queue ∈ s.subscribedQueues) {result : Except String Unit}
    (failed : ∀ error, result = .error error → s.subscribedQueues = []) : Held topics (s.settleListen result) := by
  have unclosed := inv.unclosed held
  unfold settleListen
  dsimp only
  generalize heard : (match result with | .ok () => true | .error _ => s.listening) = listening
  split
  next waits =>
    exact cancel_held
      (s := { s with
        listening := listening
        listenPromise := none
        requests := s.requests.map (resume listening result) })
      rfl (inv.closing (by simp [waits])) single owned (fun closed => absurd (unclosed.symm.trans closed) nofun)
      fun _ _ => id
  next other =>
    refine ⟨single, owned, nofun, fun silent _ _ => ?_, fun queue rest listenError cancelling => ?_,
      fun closed => absurd (unclosed.symm.trans closed) nofun⟩
    · cases result with
      | ok => exact absurd (heard.trans silent) nofun
      | error error => exact failed error rfl
    · exact absurd (inv.cancelling queue rest none listenError cancelling) held

theorem consume_held (inv : Inv s) (held : s.listenPromise ≠ none) (single : s.live.Nodup)
    (owned : ∀ queue ∈ s.live, queue ∈ s.subscribedQueues) {rest : List String}
    (plan : s.subscribedQueues ++ rest = topics.all) : Held topics (s.consume rest) := by
  cases rest with
  | nil =>
    have settles : Held topics (s.settleListen (.ok ())) :=
      settleListen_held inv held single owned fun _ failed => by cases failed
    exact settles
  | cons queue rest =>
    refine ⟨single, owned, fun _ _ consuming => ?_, nofun, fun queue rest listenError cancelling => ?_, fun closed => ?_⟩
    · cases consuming
      exact plan
    · exact absurd (inv.cancelling queue rest none listenError cancelling) held
    · exact absurd ((inv.unclosed held).symm.trans closed) nofun

theorem rollback_held (inv : Inv s) (held : s.listenPromise ≠ none) (single : s.live.Nodup) (error : String)
    {rest : List String} (owned : ∀ queue ∈ s.live, queue ∈ rest) : Held topics (s.rollback error rest) := by
  cases rest with
  | nil =>
    have cleared : Inv { s with subscribedQueues := [] } :=
      ⟨inv.valid, inv.waiting, inv.idle, inv.quiet, inv.waits, inv.closing, inv.cancelling, inv.closed⟩
    have settles : Held topics ({ s with subscribedQueues := [] }.settleListen (.error error)) :=
      settleListen_held cleared held single owned fun _ _ => rfl
    exact settles
  | cons queue rest =>
    refine ⟨single, owned, nofun, nofun, fun queue rest listenError cancelling => ?_, fun closed => ?_⟩
    · exact absurd (inv.cancelling queue rest none listenError cancelling) held
    · exact absurd ((inv.unclosed held).symm.trans closed) nofun

/-- A queue is cancelled, and the rest is still to be. -/
theorem cancelled_owned {queue : String} {rest : List String} (owned : ∀ q ∈ s.live, q ∈ queue :: rest) :
    ∀ q ∈ (s.cancelled queue).live, q ∈ rest := by
  intro q mem
  obtain ⟨live, other⟩ := List.mem_filter.mp mem
  exact (List.mem_cons.mp (owned q live)).resolve_left (of_decide_eq_true other)

end Transport

/-- No call of `cancel` fails in the rollback of `listen`. -/
def Careful (_ : Transport V) : Event V → Prop
  | .rolledBack error => error = none
  | _ => True

theorem Held.recorded (h : Held topics s)
    (forward : ∀ queue rest error, s.listenPromise ≠ some (.cancelling queue rest error)) :
    ∀ queue ∈ s.live, queue ∈ s.subscribedQueues := by
  intro queue mem
  have owned := h.owned queue mem
  unfold Transport.owned at owned
  split at owned
  next queue rest error cancelling => exact absurd cancelling (forward queue rest error)
  next => exact owned

theorem Held.listen (inv : Inv s) (h : Held topics s)
    (stays : step topics requestTimeoutMs s .listen = some t) : Held topics t := by
  cases stays
  unfold Transport.listen
  dsimp only
  split
  · exact h
  next free =>
    have idle : s.closePromise = none := by
      by_contra held
      exact free (by simp [inv.closing held, Option.isSome_iff_ne_none, held])
    split
    next busy =>
      refine ⟨h.single, h.owned, h.plan, fun silent settled _ => ?_, h.cancelled, h.closed⟩
      rw [Bool.or_eq_true] at busy
      rcases busy with listening | held
      · exact absurd (silent.symm.trans listening) nofun
      · exact absurd settled (Option.isSome_iff_ne_none.mp held)
    next quiet =>
      simp only [Bool.or_eq_true, not_or, Bool.not_eq_true, Option.isSome_eq_false_iff, Option.isNone_iff_eq_none] at quiet
      have empty : s.subscribedQueues = [] := by
        cases closing : s.closing with
        | true => simpa [closing, idle] using free
        | false => exact h.rested quiet.1 quiet.2 closing
      have recorded := h.recorded fun _ _ _ cancelling => absurd (quiet.2.symm.trans cancelling) nofun
      refine ⟨h.single, recorded, fun _ _ consuming => ?_, nofun, fun _ _ _ cancelling => ?_, nofun⟩
      · cases consuming
        simp [Transport.consume, Topics.all, empty]
      · exact absurd (idle.symm.trans cancelling) nofun

theorem Held.consumed {error : Option String} (inv : Inv s) (h : Held topics s)
    (stays : step topics requestTimeoutMs s (.consumed error) = some t) : Held topics t := by
  simp only [step] at stays
  split at stays
  next queue rest consuming =>
    have held : s.listenPromise ≠ none := by simp [consuming]
    have plan := h.plan queue rest consuming
    have recorded := h.recorded fun _ _ _ cancelling => absurd (consuming.symm.trans cancelling) nofun
    cases error with
    | none =>
      cases stays
      have fresh : queue ∉ s.subscribedQueues := by
        have distinct : (s.subscribedQueues ++ queue :: rest).Nodup := plan ▸ topics.distinct
        exact fun mem => (List.nodup_append.mp distinct).2.2 queue mem queue List.mem_cons_self rfl
      have added : (s.consumed queue).subscribedQueues = s.subscribedQueues ++ [queue] := if_neg fresh
      refine Transport.consume_held (s := s.consumed queue)
        ⟨inv.valid, inv.waiting, inv.idle, inv.quiet, inv.waits, inv.closing, inv.cancelling, inv.closed⟩ held ?_
        (fun q mem => ?_) ?_
      · refine List.nodup_append.mpr ⟨h.single, List.pairwise_singleton _ _, fun q mem other here same => ?_⟩
        rw [same, List.mem_singleton.mp here] at mem
        exact fresh (recorded queue mem)
      · rw [added]
        rcases List.mem_append.mp mem with mem | mem
        · exact List.mem_append_left _ (recorded q mem)
        · exact List.mem_append_right _ mem
      · rw [added, List.append_assoc]
        exact plan
    | some error =>
      cases stays
      exact Transport.rollback_held inv held h.single error recorded
  next => cases stays

theorem Held.rolledBack {error : Option String} (careful : Careful s (.rolledBack error)) (inv : Inv s) (h : Held topics s)
    (stays : step topics requestTimeoutMs s (.rolledBack error) = some t) : Held topics t := by
  simp only [step] at stays
  split at stays
  next queue rest listenError cancelling =>
    cases stays
    cases careful
    have owned : ∀ q ∈ s.live, q ∈ queue :: rest := by
      intro q mem
      have owned := h.owned q mem
      rwa [Transport.owned, cancelling] at owned
    exact Transport.rollback_held (s := s.cancelled queue)
      ⟨inv.valid, inv.waiting, inv.idle, inv.quiet, inv.waits, inv.closing, inv.cancelling, inv.closed⟩
      (by simp [Transport.cancelled, cancelling]) (h.single.filter _) listenError (Transport.cancelled_owned owned)
  next => cases stays

theorem Held.close (h : Held topics s)
    (stays : step topics requestTimeoutMs s .close = some t) : Held topics t := by
  cases stays
  unfold Transport.close
  dsimp only
  split
  · exact h
  next free =>
    split
    next held =>
      exact ⟨h.single, h.owned, h.plan, nofun, nofun, h.closed⟩
    next quiet =>
      have settled : s.listenPromise = none := by simpa using quiet
      have recorded := h.recorded fun _ _ _ cancelling => absurd (settled.symm.trans cancelling) nofun
      exact Transport.cancel_held (s := { s with closing := true }) settled rfl h.single recorded h.closed fun _ _ => id

theorem Held.cancelling {error : Option String} (inv : Inv s) (h : Held topics s)
    (stays : step topics requestTimeoutMs s (.cancelled error) = some t) : Held topics t := by
  simp only [step] at stays
  split at stays
  next queue rest closeError listenError cancelling =>
    have settled := inv.cancelling queue rest closeError listenError cancelling
    have closing := inv.closing (by simp [cancelling])
    have recorded := h.recorded fun _ _ _ cancelling => absurd (settled.symm.trans cancelling) nofun
    cases error with
    | none =>
      cases stays
      refine Transport.cancel_held
        (s := { s.cancelled queue with subscribedQueues := s.subscribedQueues.filter (· ≠ queue) }) settled closing
        (h.single.filter _) (fun q mem => ?_) (fun closed => ?_) fun unfailed q mem => ?_
      · obtain ⟨live, other⟩ := List.mem_filter.mp mem
        exact List.mem_filter.mpr ⟨recorded q live, other⟩
      · simp [h.closed closed]
      · obtain ⟨subscribed, other⟩ := List.mem_filter.mp mem
        have listed := h.cancelled queue rest listenError (unfailed ▸ cancelling) q subscribed
        exact (List.mem_cons.mp listed).resolve_left (of_decide_eq_true other)
    | some error =>
      cases stays
      refine Transport.cancel_held settled closing h.single recorded h.closed fun unfailed => ?_
      cases closeError <;> cases unfailed
  next => cases stays

theorem step_held {e : Event V} (careful : Careful s e) (inv : Inv s) (h : Held topics s)
    (stays : step topics requestTimeoutMs s e = some t) : Held topics t := by
  cases e with
  | listen => exact h.listen inv stays
  | consumed error => exact h.consumed inv stays
  | rolledBack error => exact h.rolledBack careful inv stays
  | close => exact h.close stays
  | cancelled error => exact h.cancelling inv stays
  | send pattern signal =>
    cases stays
    exact ⟨h.single, h.owned, h.plan, h.rested, h.cancelled, h.closed⟩
  | request index e =>
    obtain ⟨requests, moved, rfl⟩ := Option.map_eq_some_iff.mp stays
    exact ⟨h.single, h.owned, h.plan, h.rested, h.cancelled, h.closed⟩

/-! ## Runs -/

/-- What is promised of the requests: one that has not settled is under a timer that
settles it, or waits for the transport to listen; one that has settled stays so and has left nothing behind, and
`close` leaves none that has not settled. -/
structure Settles (topics : Topics) (requestTimeoutMs : Nat) (s : Transport V) : Prop where
  clean : ∀ r ∈ s.requests, r.Valid
  due : ∀ index r, s.requests[index]? = some r → r.outcome = none →
    (r.stage = .waiting ∧ s.listenPromise ≠ none) ∨
      ∃ t r', step topics requestTimeoutMs s (.request index .timeout) = some t ∧ t.requests[index]? = some r' ∧
        r'.outcome.isSome = true
  stays : ∀ e t, step topics requestTimeoutMs s e = some t → Continues s.requests t.requests
  closed : s.closed ≠ none → ∀ r ∈ s.requests, r.outcome.isSome = true

structure Owns (s : Transport V) : Prop where
  single : s.live.Nodup
  closed : s.closed = some (.ok ()) → s.live = []
  owned : ∀ queue ∈ s.live, queue ∈ s.owned

theorem run_inv {es : List (Event V)} (run : Run.run (step topics requestTimeoutMs) Transport.initial es = some s) : Inv s :=
  Run.keeps (fun _ _ _ h stays => step_inv h stays) Transport.initial_inv run

theorem run_settles {es : List (Event V)} (run : Run.run (step topics requestTimeoutMs) Transport.initial es = some s) :
    Settles topics requestTimeoutMs s := by
  have inv := run_inv run
  refine ⟨inv.valid, fun index r here unsettled => ?_, fun e t stays => step_continues inv stays, fun closed r mem => ?_⟩
  · have mem := List.mem_of_getElem? here
    by_cases waiting : r.stage = .waiting
    · exact .inl ⟨waiting, inv.waiting r mem waiting⟩
    · have armed := ((inv.valid r mem).pending unsettled waiting).2
      obtain ⟨requests, r', moved, here', settled⟩ := requestStep_due .rabbitMq s.closing requestTimeoutMs here armed
      exact .inr ⟨{ s with requests := requests }, r', by simp [step, moved], here', settled⟩
  · obtain ⟨silent, settled⟩ := inv.closed closed
    exact inv.idle silent r mem fun waiting => inv.waiting r mem waiting settled

theorem initial_held : Held topics (Transport.initial : Transport V) := by
  constructor <;> simp [Transport.initial]

theorem run_owns {es : List (Event V)} (run : Run.run (step topics requestTimeoutMs) Transport.initial es = some s)
    (careful : Run.Throughout (step topics requestTimeoutMs) Careful Transport.initial es) : Owns s := by
  have inv := run_inv run
  have held : Inv s ∧ Held topics s := Run.keeps_throughout (I := fun s => Inv s ∧ Held topics s)
    (fun _ _ _ careful h stays => ⟨step_inv h.1 stays, step_held careful h.1 h.2 stays⟩)
    ⟨Transport.initial_inv, initial_held⟩ careful run
  refine ⟨held.2.single, fun closed => ?_, held.2.owned⟩
  obtain ⟨silent, settled⟩ := inv.closed (by simp [closed])
  have recorded := held.2.recorded fun _ _ _ cancelling => absurd (settled.symm.trans cancelling) nofun
  refine List.eq_nil_iff_forall_not_mem.mpr fun queue mem => ?_
  have listed := recorded queue mem
  rw [held.2.closed closed] at listed
  cases listed

end Fluo.Microservices.RabbitMqTransport
