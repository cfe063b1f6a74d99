import Fluo.Lib.Run
import Fluo.Microservices.RedisStreams
import Mathlib.Logic.Function.Basic

/-!
# Remote outcomes

What a handler's outcome becomes at the `send` that has asked for it, over TCP
and over Redis streams, with requests that time out or are aborted and with
responses in any order.
-/

namespace Fluo.Microservices

open Fluo.Js Fluo.Run

variable {Json : Type}

/-- What a `send` is to come to. -/
def Outcome.expected : Outcome Json → Settlement Json
  | .fulfilled payload => .fulfilled (some payload)
  | .rejected error => .rejected error.message

/-- How a request has been settled: by a response, or by a timeout, an abort or a lost connection. -/
inductive Settled (Json : Type)
  | answered (settlement : Settlement Json)
  | abandoned
  deriving DecidableEq, Repr

def Outcome.telling : Outcome Json → Bool
  | .fulfilled _ => true
  | .rejected error => error.message ≠ []

/-! ## TCP -/

structure WireResponse (Json : Type) where
  error : Option JsString
  payload : Option Json
  requestId : Nat
  deriving DecidableEq, Repr

/-- `byteLength` is the size of the text of a frame. -/
structure TcpOptions (Json : Type) where
  maxFrameBytes : Nat
  byteLength : WireResponse Json → Nat

def serializeFrame (options : TcpOptions Json) (frame : WireResponse Json) : Except Thrown (WireResponse Json) :=
  if options.maxFrameBytes < options.byteLength frame then
    .error (.error (text ("Microservice TCP frame exceeded " ++ toString options.maxFrameBytes ++ " bytes.")))
  else .ok frame

/-- The `catch` of `handleInboundPacket`. Without a frame the socket is destroyed. -/
def writeError (options : TcpOptions Json) (requestId : Nat) (error : Thrown) : List (WireResponse Json) :=
  match serializeFrame options ⟨some error.message, none, requestId⟩ with
  | .ok frame => [frame]
  | .error _ => []

/-- The frames that are written to the socket of a request. -/
def handleInboundPacket (options : TcpOptions Json) (requestId : Nat) (outcome : Outcome Json) :
    List (WireResponse Json) :=
  match outcome with
  | .fulfilled payload =>
    match serializeFrame options ⟨none, some payload, requestId⟩ with
    | .ok frame => [frame]
    | .error error => writeError options requestId error
  | .rejected error => writeError options requestId error

/-- What a frame on the socket of a request does to it. -/
def receiveFrame (requestId : Nat) (response : WireResponse Json) : Option (Settlement Json) :=
  if response.requestId ≠ requestId then none
  else
    match truthy response.error with
    | some error => some (.rejected error)
    | none => some (.fulfilled response.payload)

structure TcpState (Json : Type) where
  requestCount : Nat
  settled : Nat → Option (Settled Json)
  handled : Nat → Option (Outcome Json)
  /-- The frames that have been written to the socket of a request. -/
  socket : Nat → List (WireResponse Json)

def TcpState.initial : TcpState Json := ⟨0, fun _ => none, fun _ => none, fun _ => []⟩

inductive TcpEvent (Json : Type)
  | send
  | handle (request : Nat) (outcome : Outcome Json)
  | receive (request place : Nat)
  | abandon (request : Nat)

def tcpStep (options : TcpOptions Json) (s : TcpState Json) : TcpEvent Json → Option (TcpState Json)
  | .send => some { s with requestCount := s.requestCount + 1 }
  | .handle r outcome =>
    if r < s.requestCount ∧ (s.handled r).isNone then
      some { s with
        handled := Function.update s.handled r (some outcome)
        socket := Function.update s.socket r (s.socket r ++ handleInboundPacket options r outcome) }
    else none
  | .receive r place =>
    (s.socket r)[place]?.map fun response =>
      match s.settled r, receiveFrame r response with
      | none, some settlement => { s with settled := Function.update s.settled r (some (.answered settlement)) }
      | _, _ => s
  | .abandon r =>
    if r < s.requestCount ∧ (s.settled r).isNone then
      some { s with settled := Function.update s.settled r (some .abandoned) }
    else none

/-- The result of a handler fits into a frame, and its error has a text. -/
def TcpCarries (options : TcpOptions Json) : TcpEvent Json → Prop
  | .handle r outcome =>
    outcome.telling = true ∧
      ∀ payload, outcome = .fulfilled payload → options.byteLength ⟨none, some payload, r⟩ ≤ options.maxFrameBytes
  | _ => True

/-- An answered request is settled as its own handler has ended. -/
structure TcpAgrees (options : TcpOptions Json) (s : TcpState Json) : Prop where
  answered : ∀ r settlement, s.settled r = some (.answered settlement) →
    ∃ outcome, s.handled r = some outcome ∧ settlement = outcome.expected
  /-- The first answer settles a request that is still open. -/
  answers : ∀ r outcome place t, s.settled r = none → s.handled r = some outcome →
    tcpStep options s (.receive r place) = some t → t.settled r = some (.answered outcome.expected)

/-! ## Redis streams -/

structure StreamsState (Json : Type) where
  requestCount : Nat
  client : Nat → Nat
  pattern : Nat → JsString
  settled : Nat → Option (Settled Json)
  /-- How the handlers of a request have ended, which may have been delivered more than once. -/
  handled : List (Nat × Outcome Json)
  /-- The frames that have been appended to the response streams. -/
  frames : List (Nat × Fields Json)

def StreamsState.initial : StreamsState Json := ⟨0, fun _ => 0, fun _ => [], fun _ => none, [], []⟩

inductive StreamsEvent (Json : Type)
  | send (client : Nat) (pattern : JsString)
  | handle (request self : Nat) (payload : Json) (fate : Fate Json)
  | receive (place : Nat)
  | abandon (request : Nat)

def requestFields (s : StreamsState Json) (r : Nat) (payload : Json) : Fields Json :=
  ⟨none, some .message, some (s.pattern r), some (.value payload), some (s.client r), some r⟩

def streamsStep (s : StreamsState Json) : StreamsEvent Json → Option (StreamsState Json)
  | .send client pattern =>
    some { s with
      requestCount := s.requestCount + 1
      client := Function.update s.client s.requestCount client
      pattern := Function.update s.pattern s.requestCount pattern }
  | .handle r self payload fate =>
    if r < s.requestCount then
      (parseFields (requestFields s r payload)).map fun message =>
        { s with
          handled := s.handled ++ [(r, fate.outcome)]
          frames := s.frames ++ (handleInboundRequest self message fate).frames }
    else none
  | .receive place => do
    let (stream, fields) ← s.frames[place]?
    match (parseFields fields).bind handleInboundResponse with
    | none => some s
    | some (r, settlement) =>
      -- Only the transport that has sent the request has it pending.
      if s.client r = stream ∧ r < s.requestCount ∧ (s.settled r).isNone then
        some { s with settled := Function.update s.settled r (some (.answered settlement)) }
      else some s
  | .abandon r =>
    if r < s.requestCount ∧ (s.settled r).isNone then
      some { s with settled := Function.update s.settled r (some .abandoned) }
    else none

/-- The result of a handler can be published, and its error has a text. -/
def StreamsCarry : StreamsEvent Json → Prop
  | .handle _ _ _ fate => fate.outcome.telling = true ∧ (fate.outcome.rejects = false → fate.published = .done)
  | _ => True

/-- An answered request is settled as one of its own handlers has ended. -/
structure StreamsAgree (s : StreamsState Json) : Prop where
  answered : ∀ r settlement, s.settled r = some (.answered settlement) →
    ∃ outcome, (r, outcome) ∈ s.handled ∧ settlement = outcome.expected
  /-- Every frame answers a request, on the stream of its client, and the first answer settles a request that is still
  open. -/
  answers : ∀ place stream fields t, s.frames[place]? = some (stream, fields) → streamsStep s (.receive place) = some t →
    ∃ r outcome, fields.requestId = some r ∧ stream = s.client r ∧ (r, outcome) ∈ s.handled ∧
      (s.settled r = none → t.settled r = some (.answered outcome.expected))

/-! ## Frames -/

theorem serializeFrame_ok {options : TcpOptions Json} {frame frame' : WireResponse Json}
    (is : serializeFrame options frame = .ok frame') : frame' = frame := by
  unfold serializeFrame at is
  split at is
  · cases is
  · cases is
    rfl

theorem receive_writeError {options : TcpOptions Json} {r : Nat} {error : Thrown} (telling : error.message ≠ [])
    {frame : WireResponse Json} (mem : frame ∈ writeError options r error) :
    receiveFrame r frame = some (.rejected error.message) := by
  unfold writeError at mem
  split at mem
  · next made =>
    rw [List.mem_singleton.mp mem, serializeFrame_ok made]
    simp [receiveFrame, truthy_some telling]
  · cases mem

theorem receive_handled {options : TcpOptions Json} {r : Nat} {outcome : Outcome Json}
    (carries : TcpCarries options (.handle r outcome)) {frame : WireResponse Json}
    (mem : frame ∈ handleInboundPacket options r outcome) : receiveFrame r frame = some outcome.expected := by
  obtain ⟨telling, fits⟩ := carries
  unfold handleInboundPacket at mem
  cases outcome with
  | fulfilled payload =>
    dsimp only at mem
    have serialized : serializeFrame options ⟨none, some payload, r⟩ = .ok ⟨none, some payload, r⟩ :=
      if_neg (Nat.not_lt.mpr (fits payload rfl))
    rw [serialized] at mem
    rw [List.mem_singleton.mp mem]
    simp [receiveFrame, Outcome.expected]
  | rejected error => exact receive_writeError (of_decide_eq_true telling) mem

/-- What a handling appends answers the request on the stream of its client. -/
theorem handleInboundRequest_frames {s : StreamsState Json} {r self : Nat} {payload : Json} {fate : Fate Json}
    {message : RedisStreamTransportMessage Json} (parsed : parseFields (requestFields s r payload) = some message)
    (carries : StreamsCarry (.handle r self payload fate)) {frame : Nat × Fields Json}
    (mem : frame ∈ (handleInboundRequest self message fate).frames) :
    frame.1 = s.client r ∧ (parseFields frame.2).bind handleInboundResponse = some (r, fate.outcome.expected) := by
  obtain ⟨telling, published⟩ := carries
  have pattern : s.pattern r ≠ [] := by
    intro empty
    simp [parseFields, requestFields, empty] at parsed
  have shape : message = ⟨none, .message, s.pattern r, some payload, some (s.client r), some r⟩ := by
    simpa [parseFields, requestFields, truthy_some pattern, parsePayload] using parsed.symm
  subst shape
  simp only [handleInboundRequest, Option.getD_some] at mem
  cases is : fate.outcome with
  | fulfilled result =>
    rw [is] at published mem
    rw [published rfl] at mem
    simp only [publishFrame, Command.applies, if_true, List.mem_singleton] at mem
    subst mem
    refine ⟨rfl, ?_⟩
    simp [successFrame, parseFields, truthy_some pattern, parsePayload, handleInboundResponse, Outcome.expected]
  | rejected error =>
    rw [is] at telling mem
    have telling : error.message ≠ [] := of_decide_eq_true telling
    simp only [replyError, publishFrame] at mem
    split at mem
    · rw [List.mem_singleton.mp mem]
      refine ⟨rfl, ?_⟩
      simp [errorFrame, parseFields, truthy_some pattern, parsePayload, handleInboundResponse, Outcome.expected,
        truthy_some telling]
    · cases mem

/-! ## Runs over TCP -/

structure TcpSound (options : TcpOptions Json) (s : TcpState Json) : Prop where
  written : ∀ r, ∀ frame ∈ s.socket r, ∃ outcome, s.handled r = some outcome ∧
    receiveFrame r frame = some outcome.expected
  answered : ∀ r settlement, s.settled r = some (.answered settlement) →
    ∃ outcome, s.handled r = some outcome ∧ settlement = outcome.expected

theorem TcpSound.handle {options : TcpOptions Json} {s : TcpState Json} {r : Nat} {outcome : Outcome Json}
    (sound : TcpSound options s) (open_ : s.handled r = none) (carries : TcpCarries options (.handle r outcome)) :
    TcpSound options { s with
      handled := Function.update s.handled r (some outcome)
      socket := Function.update s.socket r (s.socket r ++ handleInboundPacket options r outcome) } := by
  have kept {r' : Nat} {outcome' : Outcome Json} (is : s.handled r' = some outcome') :
      Function.update s.handled r (some outcome) r' = some outcome' := by
    have other : r' ≠ r := by
      rintro rfl
      rw [open_] at is
      cases is
    rw [Function.update_of_ne other, is]
  refine ⟨fun r' frame mem => ?_, fun r' settlement is => ?_⟩
  · by_cases here : r' = r
    · subst here
      dsimp only at mem ⊢
      rw [Function.update_self] at mem ⊢
      rcases List.mem_append.mp mem with before | new
      · obtain ⟨outcome', is, -⟩ := sound.written r' frame before
        rw [open_] at is
        cases is
      · exact ⟨outcome, rfl, receive_handled carries new⟩
    · dsimp only at mem
      rw [Function.update_of_ne here] at mem
      obtain ⟨outcome', is, received⟩ := sound.written r' frame mem
      exact ⟨outcome', kept is, received⟩
  · obtain ⟨outcome', handled, same⟩ := sound.answered r' settlement is
    exact ⟨outcome', kept handled, same⟩

theorem update_answered {settled : Nat → Option (Settled Json)} {r r' : Nat} {new : Settled Json}
    {settlement : Settlement Json} (is : Function.update settled r (some new) r' = some (.answered settlement)) :
    r' = r ∧ new = .answered settlement ∨ settled r' = some (.answered settlement) := by
  by_cases here : r' = r
  · subst here
    rw [Function.update_self] at is
    exact .inl ⟨rfl, Option.some.inj is⟩
  · rw [Function.update_of_ne here] at is
    exact .inr is

theorem TcpSound.step {options : TcpOptions Json} {s t : TcpState Json} {e : TcpEvent Json} (sound : TcpSound options s)
    (carries : TcpCarries options e) (is : tcpStep options s e = some t) : TcpSound options t := by
  cases e with
  | send =>
    cases is
    exact ⟨sound.written, sound.answered⟩
  | handle r outcome =>
    obtain ⟨⟨-, open_⟩, is⟩ := Option.ite_none_right_eq_some.mp is
    cases is
    exact sound.handle (Option.isNone_iff_eq_none.mp open_) carries
  | receive r place =>
    obtain ⟨response, there, rfl⟩ := Option.map_eq_some_iff.mp is
    split
    · next settlement _ received =>
      refine ⟨sound.written, fun r' settlement' is => ?_⟩
      rcases update_answered is with ⟨rfl, same⟩ | before
      · cases same
        obtain ⟨outcome, handled, expected⟩ := sound.written r' response (List.mem_of_getElem? there)
        rw [received] at expected
        exact ⟨outcome, handled, Option.some.inj expected⟩
      · exact sound.answered r' settlement' before
    · exact sound
  | abandon r =>
    obtain ⟨-, is⟩ := Option.ite_none_right_eq_some.mp is
    cases is
    refine ⟨sound.written, fun r' settlement is => ?_⟩
    rcases update_answered is with ⟨-, same⟩ | before
    · cases same
    · exact sound.answered r' settlement before

theorem TcpSound.agrees {options : TcpOptions Json} {s : TcpState Json} (sound : TcpSound options s) :
    TcpAgrees options s := by
  refine ⟨sound.answered, fun r outcome place t settled handled is => ?_⟩
  obtain ⟨response, there, rfl⟩ := Option.map_eq_some_iff.mp is
  obtain ⟨outcome', handled', received⟩ := sound.written r response (List.mem_of_getElem? there)
  rw [handled] at handled'
  cases handled'
  rw [settled, received]
  exact Function.update_self _ _ _

/-! ## Runs over Redis streams -/

structure StreamsSound (s : StreamsState Json) : Prop where
  known : ∀ r outcome, (r, outcome) ∈ s.handled → r < s.requestCount
  appended : ∀ frame ∈ s.frames, ∃ r outcome, (r, outcome) ∈ s.handled ∧ frame.1 = s.client r ∧
    (parseFields frame.2).bind handleInboundResponse = some (r, outcome.expected)
  answered : ∀ r settlement, s.settled r = some (.answered settlement) →
    ∃ outcome, (r, outcome) ∈ s.handled ∧ settlement = outcome.expected

theorem StreamsSound.step {s t : StreamsState Json} {e : StreamsEvent Json} (sound : StreamsSound s)
    (carry : StreamsCarry e) (is : streamsStep s e = some t) : StreamsSound t := by
  cases e with
  | send client pattern =>
    cases is
    refine ⟨fun r outcome mem => Nat.lt_succ_of_lt (sound.known r outcome mem), fun frame mem => ?_, sound.answered⟩
    obtain ⟨r, outcome, handled, stream, answers⟩ := sound.appended frame mem
    refine ⟨r, outcome, handled, ?_, answers⟩
    dsimp only
    rw [Function.update_of_ne (Nat.ne_of_lt (sound.known r outcome handled)), stream]
  | handle r self payload fate =>
    obtain ⟨inside, is⟩ := Option.ite_none_right_eq_some.mp is
    obtain ⟨message, parsed, rfl⟩ := Option.map_eq_some_iff.mp is
    refine ⟨fun r' outcome mem => ?_, fun frame mem => ?_, fun r' settlement is => ?_⟩
    · rcases List.mem_append.mp mem with before | here
      · exact sound.known r' outcome before
      · cases List.mem_singleton.mp here
        exact inside
    · rcases List.mem_append.mp mem with before | new
      · obtain ⟨r', outcome, handled, answers⟩ := sound.appended frame before
        exact ⟨r', outcome, List.mem_append_left _ handled, answers⟩
      · exact ⟨r, fate.outcome, List.mem_append_right _ (List.mem_singleton_self _),
          handleInboundRequest_frames parsed carry new⟩
    · obtain ⟨outcome, handled, same⟩ := sound.answered r' settlement is
      exact ⟨outcome, List.mem_append_left _ handled, same⟩
  | receive place =>
    obtain ⟨frame, there, is⟩ := Option.bind_eq_some_iff.mp is
    obtain ⟨r', outcome, handled, -, answers⟩ := sound.appended frame (List.mem_of_getElem? there)
    obtain ⟨stream, fields⟩ := frame
    dsimp only at is answers
    rw [answers] at is
    dsimp only at is
    split at is
    · cases is
      refine ⟨sound.known, sound.appended, fun r settlement is => ?_⟩
      rcases update_answered is with ⟨rfl, same⟩ | before
      · cases same
        exact ⟨outcome, handled, rfl⟩
      · exact sound.answered r settlement before
    · cases is
      exact sound
  | abandon r =>
    obtain ⟨-, is⟩ := Option.ite_none_right_eq_some.mp is
    cases is
    refine ⟨sound.known, sound.appended, fun r' settlement is => ?_⟩
    rcases update_answered is with ⟨-, same⟩ | before
    · cases same
    · exact sound.answered r' settlement before

theorem requestId_of_answers {fields : Fields Json} {r : Nat} {settlement : Settlement Json}
    (answers : (parseFields fields).bind handleInboundResponse = some (r, settlement)) : fields.requestId = some r := by
  obtain ⟨message, parsed, answers⟩ := Option.bind_eq_some_iff.mp answers
  have same : message.requestId = fields.requestId := by
    simp only [parseFields, Option.bind_eq_bind, Option.bind_eq_some_iff, Option.some.injEq] at parsed
    obtain ⟨_, -, _, -, _, -, rfl⟩ := parsed
    rfl
  rw [← same]
  unfold handleInboundResponse at answers
  split at answers
  · next named =>
    rw [named]
    split at answers <;> cases answers <;> rfl
  · cases answers

theorem StreamsSound.agree {s : StreamsState Json} (sound : StreamsSound s) : StreamsAgree s := by
  refine ⟨sound.answered, fun place stream fields t there is => ?_⟩
  obtain ⟨r, outcome, handled, same, answers⟩ := sound.appended _ (List.mem_of_getElem? there)
  refine ⟨r, outcome, requestId_of_answers answers, same, handled, fun settled => ?_⟩
  have pending : s.client r = stream ∧ r < s.requestCount ∧ (s.settled r).isNone = true :=
    ⟨same.symm, sound.known r outcome handled, by rw [settled]; rfl⟩
  simp only [streamsStep, there, Option.bind_eq_bind, Option.bind_some, answers, if_pos pending] at is
  cases is
  exact Function.update_self _ _ _

/-- Remote outcomes are those of the handlers as long as results fit and can be published, and errors have texts. -/
theorem remote_outcomes_agree (Json : Type) (options : TcpOptions Json) :
    (∀ es s, Throughout (tcpStep options) (fun _ => TcpCarries options) .initial es →
      run (tcpStep options) .initial es = some s → TcpAgrees options s) ∧
    ∀ (es : List (StreamsEvent Json)) s, Throughout streamsStep (fun _ => StreamsCarry) .initial es →
      run streamsStep .initial es = some s → StreamsAgree s := by
  refine ⟨fun es s carries reached => ?_, fun es s carry reached => ?_⟩
  · have sound : TcpSound options s := by
      refine keeps_throughout (fun _ _ _ carries sound is => TcpSound.step sound carries is) ?_ carries reached
      exact ⟨nofun, nofun⟩
    exact sound.agrees
  · have sound : StreamsSound s := by
      refine keeps_throughout (fun _ _ _ carry sound is => StreamsSound.step sound carry is) ?_ carry reached
      exact ⟨nofun, nofun, nofun⟩
    exact sound.agree

/-! ## Two concurrent requests -/

def smallFrames : TcpOptions Nat := ⟨1048576, fun _ => 64⟩

def tcpRun (error : JsString) : List (TcpEvent Nat) :=
  [.send, .send, .handle 0 (.rejected (.error error)), .handle 1 (.fulfilled 7), .receive 1 0, .receive 0 0]

def fate (outcome : Outcome Nat) : Fate Nat := ⟨outcome, .done, .done, .done, .done⟩

def streamsRun (error : JsString) : List (StreamsEvent Nat) :=
  [.send 0 [97], .send 1 [97], .handle 0 2 5 (fate (.rejected (.error error))), .handle 1 2 5 (fate (.fulfilled 7)),
    .receive 1, .receive 0]

theorem remote_outcomes_agree_concurrent :
    (∃ s, run (tcpStep smallFrames) .initial (tcpRun [98]) = some s ∧ s.settled 0 = some (.answered (.rejected [98])) ∧
      TcpAgrees smallFrames s) ∧
    ∃ s, run streamsStep .initial (streamsRun [98]) = some s ∧ s.settled 0 = some (.answered (.rejected [98])) ∧
      StreamsAgree s := by
  obtain ⟨tcp, streams⟩ := remote_outcomes_agree Nat smallFrames
  constructor
  · have reached : ((run (tcpStep smallFrames) .initial (tcpRun [98])).map fun s => s.settled 0) =
        some (some (.answered (.rejected [98]))) := by decide
    obtain ⟨s, reached, settled⟩ := Option.map_eq_some_iff.mp reached
    refine ⟨s, reached, settled, tcp (tcpRun [98]) s ?_ reached⟩
    simp [tcpRun, Throughout, TcpCarries, Outcome.telling, Thrown.message, smallFrames]
  · have reached : ((run streamsStep .initial (streamsRun [98])).map fun s => s.settled 0) =
        some (some (.answered (.rejected [98]))) := by decide
    obtain ⟨s, reached, settled⟩ := Option.map_eq_some_iff.mp reached
    refine ⟨s, reached, settled, streams (streamsRun [98]) s ?_ reached⟩
    simp [streamsRun, fate, Throughout, StreamsCarry, Outcome.telling, Thrown.message]

/-- A handler that rejects with an empty message fulfils the request. -/
theorem empty_error_fulfils :
    ¬ ∀ (options : TcpOptions Nat) es s, run (tcpStep options) .initial es = some s → TcpAgrees options s := by
  intro always
  have reached : ((run (tcpStep smallFrames) .initial (tcpRun [])).map fun s => (s.settled 0, s.handled 0)) =
      some (some (.answered (.fulfilled none)), some (.rejected (.error []))) := by decide
  obtain ⟨s, reached, facts⟩ := Option.map_eq_some_iff.mp reached
  simp only [Prod.mk.injEq] at facts
  obtain ⟨outcome, handled, same⟩ := (always smallFrames (tcpRun []) s reached).answered 0 _ facts.1
  rw [facts.2] at handled
  cases handled
  cases same

/-- Over streams too. -/
example : ((run streamsStep .initial (streamsRun [])).map fun s => s.settled 0) =
    some (some (.answered (.fulfilled none))) := by decide

end Fluo.Microservices
