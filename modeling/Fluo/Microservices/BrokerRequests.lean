import Mathlib.Data.List.Basic

/-!
# Requests over a broker

A `send` of the Kafka or RabbitMQ transport: its entry in `pending`, its timer and
its abort listener. The two transports differ in their texts and in how they
settle a request twice.
-/

namespace Fluo.Microservices.BrokerRequests

variable {V : Type}

inductive Broker where
  | kafka
  | rabbitMq
  deriving DecidableEq

def Broker.name : Broker → String
  | .kafka => "Kafka"
  | .rabbitMq => "RabbitMQ"

def Broker.transport : Broker → String
  | .kafka => "KafkaMicroserviceTransport"
  | .rabbitMq => "RabbitMqMicroserviceTransport"

/-- Where a `send` waits: for the transport to listen, for the turn in which it
dispatches, or for the broker to take the message. -/
inductive Stage where
  | waiting
  | queued
  | publishing
  | done
  deriving DecidableEq

/-- A call of `send`. Its request id is its number. -/
structure Request (V : Type) where
  pattern : String
  /-- Whether the abort signal, if there is one, has been aborted. -/
  signal : Option Bool
  stage : Stage
  entry : Bool
  timer : Bool
  listener : Bool
  outcome : Option (Except String V)

inductive RequestEvent (V : Type) where
  | dispatch
  /-- The broker has taken the message, or not: with an `Error`, or another value. -/
  | published (error : Option (Option String))
  | timeout
  | abort
  | response (error : Option String) (payload : V)

namespace Request

def cleanup (r : Request V) : Request V := { r with entry := false, timer := false, listener := false }

/-- A promise keeps its first outcome, but Kafka cleans up each time. -/
def settle (b : Broker) (r : Request V) (outcome : Except String V) : Request V :=
  match b with
  | .kafka => { r.cleanup with outcome := r.outcome.or (some outcome) }
  | .rabbitMq => if r.outcome.isSome then r else { r.cleanup with outcome := some outcome }

/-- The call rejects before it has a request id. -/
def refused (pattern : String) (signal : Option Bool) (error : String) : Request V :=
  ⟨pattern, signal, .done, false, false, false, some (.error error)⟩

/-- The executor of the promise that `send` returns. -/
def start (b : Broker) (r : Request V) : Request V :=
  let r := { r with entry := true, timer := true, stage := .queued }
  match r.signal with
  | some true => { r.settle b (.error (b.name ++ " request aborted before publish.")) with stage := .done }
  | some false => { r with listener := true }
  | none => r

/-- The request is no longer pending when its turn comes. -/
def gone (b : Broker) (r : Request V) : Bool :=
  match b with
  | .kafka => !r.entry
  | .rabbitMq => r.outcome.isSome

def dispatch (b : Broker) (closing : Bool) (r : Request V) : Request V :=
  let r := { r with stage := .done }
  if r.gone b then r
  else if r.signal = some true then r.settle b (.error (b.name ++ " request aborted before publish."))
  else if closing then r.settle b (.error (b.name ++ " microservice transport closed before request dispatch."))
  else { r with stage := .publishing }

def published (b : Broker) (error : Option (Option String)) (r : Request V) : Request V :=
  let r := { r with stage := .done }
  match error with
  | some error => r.settle b (.error (error.getD ("Failed to publish " ++ b.name ++ " request.")))
  | none => r

def timeout (b : Broker) (requestTimeoutMs : Nat) (r : Request V) : Request V :=
  r.settle b (.error (b.name ++ " request timed out after " ++ toString requestTimeoutMs ++
    "ms waiting for pattern \"" ++ r.pattern ++ "\"."))

def abort (b : Broker) (r : Request V) : Request V :=
  let r := { r with signal := some true }
  if r.listener then r.settle b (.error (b.name ++ " request aborted.")) else r

/-- `handleInboundResponse` and `handleResponse`: an empty error counts as none. -/
def respond (b : Broker) (error : Option String) (payload : V) (r : Request V) : Request V :=
  if r.entry then
    r.settle b (match error with
      | some error => if error = "" then .ok payload else .error error
      | none => .ok payload)
  else r

def step (b : Broker) (closing : Bool) (requestTimeoutMs : Nat) (r : Request V) : RequestEvent V → Option (Request V)
  | .dispatch => if r.stage = .queued then some (r.dispatch b closing) else none
  | .published error => if r.stage = .publishing then some (r.published b error) else none
  | .timeout => if r.timer then some (r.timeout b requestTimeoutMs) else none
  | .abort => if r.signal = some false then some (r.abort b) else none
  | .response error payload => some (r.respond b error payload)

/-- `close` rejects what is pending. -/
def rejectPending (b : Broker) (r : Request V) : Request V :=
  if r.entry then r.settle b (.error (b.name ++ " microservice transport closed before response.")) else r

/-! ## Requests settle once -/

/-- A request that has not settled is pending under a timer, or waits for the
transport to listen; one that has settled has left nothing behind. -/
structure Valid (r : Request V) : Prop where
  settled : r.outcome.isSome = true → r.entry = false ∧ r.timer = false ∧ r.listener = false
  pending : r.outcome = none → r.stage ≠ .waiting → r.entry = true ∧ r.timer = true
  waiting : r.stage = .waiting → r.outcome = none ∧ r.entry = false ∧ r.timer = false ∧ r.listener = false

/-- What a step leaves of a request: an outcome stays, and no request goes back to waiting. -/
structure Later (r r' : Request V) : Prop where
  outcome : r.outcome.isSome = true → r'.outcome = r.outcome
  stage : r'.stage = .waiting → r.stage = .waiting

variable {b : Broker} {r r' r'' : Request V}

theorem Later.refl (r : Request V) : Later r r := ⟨fun _ => rfl, id⟩

theorem Later.trans (h : Later r r') (h' : Later r' r'') : Later r r'' where
  outcome settled := by rw [h'.outcome (h.outcome settled ▸ settled), h.outcome settled]
  stage waiting := h.stage (h'.stage waiting)

theorem refused_valid (pattern : String) (signal : Option Bool) (error : String) :
    (refused pattern signal error : Request V).Valid := by
  constructor <;> simp [refused]

theorem settle_outcome (b : Broker) (r : Request V) (outcome : Except String V) :
    (r.settle b outcome).outcome = r.outcome.or (some outcome) := by
  cases b with
  | kafka => rfl
  | rabbitMq =>
    unfold settle
    cases settled : r.outcome with
    | none => rfl
    | some first => simp [settled]

theorem settle_settled (b : Broker) (r : Request V) (outcome : Except String V) :
    (r.settle b outcome).outcome.isSome = true := by
  simp [settle_outcome]

theorem settle_stage (b : Broker) (r : Request V) (outcome : Except String V) :
    (r.settle b outcome).stage = r.stage := by
  unfold settle cleanup
  grind -ring -linarith -order

theorem settle_later (b : Broker) (r : Request V) (outcome : Except String V) : Later r (r.settle b outcome) where
  outcome settled := by
    rw [settle_outcome]
    exact Option.or_of_isSome settled
  stage waiting := settle_stage b r outcome ▸ waiting

theorem later_of_eq (outcome : r'.outcome = r.outcome) (stage : r'.stage = .waiting → r.stage = .waiting) : Later r r' :=
  ⟨fun _ => outcome, stage⟩

theorem settle_valid (h : r.Valid) (outcome : Except String V) (started : r.stage ≠ .waiting) :
    (r.settle b outcome).Valid := by
  obtain ⟨settled, pending, waiting⟩ := h
  constructor <;> unfold settle cleanup <;> grind -ring -linarith -order

/-- The stage of a request that is under way does not matter to its entry. -/
theorem Valid.moved (h : r.Valid) (started : r.stage ≠ .waiting) {stage : Stage} (moved : stage ≠ .waiting) :
    ({ r with stage := stage } : Request V).Valid :=
  ⟨h.settled, fun outcome _ => h.pending outcome started, fun waiting => absurd waiting moved⟩

theorem start_valid (h : r.Valid) (waiting : r.stage = .waiting) : (r.start b).Valid := by
  obtain ⟨outcome, entry, timer, listener⟩ := h.waiting waiting
  unfold start settle cleanup
  constructor <;> grind -ring -linarith -order

theorem start_started (b : Broker) (r : Request V) : (r.start b).stage ≠ .waiting := by
  unfold start
  dsimp only
  split <;> simp

theorem dispatch_valid (h : r.Valid) (queued : r.stage = .queued) (closing : Bool) : (r.dispatch b closing).Valid := by
  have started : r.stage ≠ .waiting := by simp [queued]
  have moved : ({ r with stage := .done } : Request V).Valid := h.moved started nofun
  unfold dispatch
  dsimp only
  split
  · exact moved
  · split
    · exact settle_valid moved _ nofun
    · split
      · exact settle_valid moved _ nofun
      · exact h.moved started nofun

theorem dispatch_later (b : Broker) (r : Request V) (closing : Bool) : Later r (r.dispatch b closing) := by
  have moved : ∀ stage, stage ≠ .waiting → Later r { r with stage := stage } :=
    fun stage other => later_of_eq rfl fun waiting => absurd waiting other
  unfold dispatch
  dsimp only
  split
  · exact moved .done nofun
  · split
    · exact (moved .done nofun).trans (settle_later b _ _)
    · split
      · exact (moved .done nofun).trans (settle_later b _ _)
      · exact moved .publishing nofun

theorem published_valid (h : r.Valid) (publishing : r.stage = .publishing) (error : Option (Option String)) :
    (r.published b error).Valid := by
  have moved : ({ r with stage := .done } : Request V).Valid := h.moved (by simp [publishing]) nofun
  unfold published
  dsimp only
  split
  · exact settle_valid moved _ nofun
  · exact moved

theorem abort_valid (h : r.Valid) : (r.abort b).Valid := by
  obtain ⟨settled, pending, waiting⟩ := h
  unfold abort settle cleanup
  constructor <;> grind -ring -linarith -order

theorem step_valid {closing : Bool} {requestTimeoutMs : Nat} {e : RequestEvent V} (h : r.Valid)
    (stays : r.step b closing requestTimeoutMs e = some r') : r'.Valid := by
  have started : r.entry = true ∨ r.timer = true → r.stage ≠ .waiting := by
    intro held waiting
    obtain ⟨_, entry, timer, _⟩ := h.waiting waiting
    simp [entry, timer] at held
  cases e with
  | dispatch =>
    simp only [step, Option.ite_none_right_eq_some, Option.some.injEq] at stays
    exact stays.2 ▸ dispatch_valid h stays.1 closing
  | published error =>
    simp only [step, Option.ite_none_right_eq_some, Option.some.injEq] at stays
    exact stays.2 ▸ published_valid h stays.1 error
  | timeout =>
    simp only [step, Option.ite_none_right_eq_some, Option.some.injEq] at stays
    exact stays.2 ▸ settle_valid h _ (started (.inr stays.1))
  | abort =>
    simp only [step, Option.ite_none_right_eq_some, Option.some.injEq] at stays
    exact stays.2 ▸ abort_valid h
  | response error payload =>
    cases stays
    unfold respond
    split
    next held => exact settle_valid h _ (started (.inl held))
    next => exact h

theorem step_later {closing : Bool} {requestTimeoutMs : Nat} {e : RequestEvent V}
    (stays : r.step b closing requestTimeoutMs e = some r') : Later r r' := by
  cases e with
  | dispatch =>
    simp only [step, Option.ite_none_right_eq_some, Option.some.injEq] at stays
    exact stays.2 ▸ dispatch_later b r closing
  | published error =>
    simp only [step, Option.ite_none_right_eq_some, Option.some.injEq] at stays
    obtain ⟨_, rfl⟩ := stays
    have moved : Later r { r with stage := .done } := later_of_eq rfl nofun
    unfold published
    dsimp only
    split
    · exact moved.trans (settle_later b _ _)
    · exact moved
  | timeout =>
    simp only [step, Option.ite_none_right_eq_some, Option.some.injEq] at stays
    exact stays.2 ▸ settle_later b r _
  | abort =>
    simp only [step, Option.ite_none_right_eq_some, Option.some.injEq] at stays
    obtain ⟨_, rfl⟩ := stays
    have aborted : Later r { r with signal := some true } := later_of_eq rfl id
    unfold abort
    dsimp only
    split
    · exact aborted.trans (settle_later b _ _)
    · exact aborted
  | response error payload =>
    cases stays
    unfold respond
    split
    · exact settle_later b r _
    · exact .refl r

theorem step_waiting {closing : Bool} {requestTimeoutMs : Nat} {e : RequestEvent V} (h : r.Valid)
    (waiting : r.stage = .waiting) (stays : r.step b closing requestTimeoutMs e = some r') : r'.stage = .waiting := by
  obtain ⟨_, entry, timer, listener⟩ := h.waiting waiting
  cases e with
  | dispatch | published | timeout => simp [step, waiting, timer] at stays
  | abort =>
    simp only [step, Option.ite_none_right_eq_some, Option.some.injEq] at stays
    obtain ⟨_, rfl⟩ := stays
    simpa [abort, listener] using waiting
  | response error payload =>
    simp only [step, respond, entry, Bool.false_eq_true, if_false, Option.some.injEq] at stays
    exact stays ▸ waiting

theorem rejectPending_valid (h : r.Valid) : (r.rejectPending b).Valid := by
  unfold rejectPending
  split
  next held => exact settle_valid h _ fun waiting => by simp [(h.waiting waiting).2.1] at held
  next => exact h

theorem rejectPending_later (b : Broker) (r : Request V) : Later r (r.rejectPending b) := by
  unfold rejectPending
  split
  · exact settle_later b r _
  · exact .refl r

/-- What `close` leaves has settled. -/
theorem rejectPending_settled (h : r.Valid) (started : r.stage ≠ .waiting) :
    (r.rejectPending b).outcome.isSome = true := by
  unfold rejectPending
  split
  · exact settle_settled b r _
  next unheld =>
    cases settled : r.outcome with
    | none => exact absurd (h.pending settled started).1 unheld
    | some outcome => rfl

end Request

/-- The names of the three topics or queues of a transport. -/
structure Topics where
  event : String
  message : String
  response : String
  distinct : [event, message, response].Nodup

def Topics.all (topics : Topics) : List String := [topics.event, topics.message, topics.response]

def requestStep (b : Broker) (closing : Bool) (requestTimeoutMs : Nat) (requests : List (Request V)) (index : Nat)
    (e : RequestEvent V) : Option (List (Request V)) :=
  match requests[index]? with
  | some r => (r.step b closing requestTimeoutMs e).map fun r => requests.set index r
  | none => none

/-- Each of the calls is as it was, or later. -/
def Continues (requests requests' : List (Request V)) : Prop :=
  ∀ (index : Nat) (r : Request V), requests[index]? = some r → ∃ r', requests'[index]? = some r' ∧ r.Later r'

variable {b : Broker} {requests requests' : List (Request V)}

theorem Continues.refl (requests : List (Request V)) : Continues requests requests := fun _ r here => ⟨r, here, .refl r⟩

theorem Continues.trans {requests'' : List (Request V)} (h : Continues requests requests')
    (h' : Continues requests' requests'') : Continues requests requests'' := by
  intro index r here
  obtain ⟨r', here', later⟩ := h index r here
  obtain ⟨r'', here'', later'⟩ := h' index r' here'
  exact ⟨r'', here'', later.trans later'⟩

theorem continues_map {f : Request V → Request V} (later : ∀ r, Request.Later r (f r)) (requests : List (Request V)) :
    Continues requests (requests.map f) := by
  intro index r here
  exact ⟨f r, by simp [here], later r⟩

theorem continues_append (requests added : List (Request V)) : Continues requests (requests ++ added) := by
  intro index r here
  have bound := (List.getElem?_eq_some_iff.mp here).1
  exact ⟨r, by rw [List.getElem?_append_left bound, here], .refl r⟩

theorem requestStep_cases {closing : Bool} {requestTimeoutMs index : Nat} {e : RequestEvent V}
    (stays : requestStep b closing requestTimeoutMs requests index e = some requests') :
    ∃ r r', requests[index]? = some r ∧ r.step b closing requestTimeoutMs e = some r' ∧
      requests' = requests.set index r' := by
  unfold requestStep at stays
  split at stays
  next r here =>
    obtain ⟨r', moved, rfl⟩ := Option.map_eq_some_iff.mp stays
    exact ⟨r, r', here, moved, rfl⟩
  next => cases stays

theorem requestStep_continues {closing : Bool} {requestTimeoutMs index : Nat} {e : RequestEvent V}
    (stays : requestStep b closing requestTimeoutMs requests index e = some requests') :
    Continues requests requests' := by
  obtain ⟨r, r', here, moved, rfl⟩ := requestStep_cases stays
  intro i r₀ here₀
  by_cases same : index = i
  · subst same
    obtain rfl : r₀ = r := Option.some.inj (here₀.symm.trans here)
    have bound := (List.getElem?_eq_some_iff.mp here).1
    exact ⟨r', List.getElem?_set_self bound, Request.step_later moved⟩
  · exact ⟨r₀, by rw [List.getElem?_set_ne same, here₀], .refl r₀⟩

/-- A step of a call keeps what every later state of a call has. -/
theorem requestStep_all {P : Request V → Prop} {closing : Bool} {requestTimeoutMs index : Nat} {e : RequestEvent V}
    (keeps : ∀ r r', P r → r.step b closing requestTimeoutMs e = some r' → P r')
    (stays : requestStep b closing requestTimeoutMs requests index e = some requests') (all : ∀ r ∈ requests, P r) :
    ∀ r ∈ requests', P r := by
  obtain ⟨r, r', here, moved, rfl⟩ := requestStep_cases stays
  intro r₀ mem
  rcases List.mem_or_eq_of_mem_set mem with other | rfl
  · exact all r₀ other
  · exact keeps r r₀ (all r (List.mem_of_getElem? here)) moved

theorem requestStep_due (b : Broker) (closing : Bool) (requestTimeoutMs : Nat) {index : Nat} {r : Request V}
    (here : requests[index]? = some r) (armed : r.timer = true) :
    ∃ requests' r', requestStep b closing requestTimeoutMs requests index .timeout = some requests' ∧
      requests'[index]? = some r' ∧ r'.outcome.isSome = true := by
  have bound := (List.getElem?_eq_some_iff.mp here).1
  refine ⟨requests.set index (r.timeout b requestTimeoutMs), r.timeout b requestTimeoutMs, ?_,
    List.getElem?_set_self bound, Request.settle_settled b r _⟩
  simp [requestStep, here, Request.step, armed]

end Fluo.Microservices.BrokerRequests
