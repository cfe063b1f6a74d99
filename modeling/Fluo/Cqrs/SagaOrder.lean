import Fluo.Cqrs.Outcome

/-!
# Saga order

The executions of one token run one behind the other, in the order in which
they were admitted, as long as the chains are cleared only when they are over.
-/

namespace Fluo.Cqrs

open Fluo.Run

/-- An execution is behind its `handle`. -/
def Past (s : CqrsState) (x : Nat) : Prop := (s.execution x).phase.past = true

instance (s : CqrsState) (x : Nat) : Decidable (Past s x) := inferInstanceAs (Decidable (_ = _))

def SameToken (s : CqrsState) (x y : Nat) : Prop := (s.execution x).descriptor.token = (s.execution y).descriptor.token

structure Serial (s : CqrsState) : Prop where
  /-- A chain ends with the last execution of its token. -/
  last : ∀ token z, s.executionChains token = some z → z < s.executionCount ∧
    (s.execution z).descriptor.token = token ∧
    ∀ x < s.executionCount, (s.execution x).descriptor.token = token → x ≤ z
  free : ∀ token, s.executionChains token = none → ∀ x < s.executionCount,
    (s.execution x).descriptor.token = token → Past s x
  known : ∀ y < s.executionCount, ∀ z, (s.execution y).previous = some z → z < y ∧ SameToken s z y
  chained : ∀ y < s.executionCount, (s.execution y).phase = .waiting → ∀ x < y, SameToken s x y →
    Past s x ∨ ∃ z, (s.execution y).previous = some z ∧ x ≤ z
  order : ∀ y < s.executionCount, (s.execution y).phase ≠ .waiting → ∀ x < y, SameToken s x y → Past s x

theorem Serial.congr {s t : CqrsState} (serial : Serial s) (execution : t.execution = s.execution)
    (executionCount : t.executionCount = s.executionCount) (executionChains : t.executionChains = s.executionChains) :
    Serial t := by
  obtain ⟨last, free, known, chained, order⟩ := serial
  refine ⟨?_, ?_, ?_, ?_, ?_⟩
  · rw [executionChains, executionCount, execution]
    exact last
  · rw [executionChains, executionCount]
    simp only [Past, execution]
    exact free
  · rw [executionCount]
    simp only [SameToken, execution]
    exact known
  · rw [executionCount]
    simp only [Past, SameToken, execution]
    exact chained
  · rw [executionCount]
    simp only [Past, SameToken, execution]
    exact order

/-! ## What happens to executions -/

theorem Serial.append {s : CqrsState} (serial : Serial s) (descriptor : SagaDescriptor) (event : Nat)
    (topology : SagaTopologyEntry) (d : Nat) : Serial (dispatchWithOrdering s descriptor event topology d) := by
  generalize admitted : dispatchWithOrdering s descriptor event topology d = t
  have count : t.executionCount = s.executionCount + 1 := by rw [← admitted]; rfl
  have chains : t.executionChains = Function.update s.executionChains descriptor.token (some s.executionCount) := by
    rw [← admitted]; rfl
  have old (x : Nat) (inside : x < s.executionCount) : t.execution x = s.execution x := by
    rw [← admitted]
    exact Function.update_of_ne (Nat.ne_of_lt inside) _ _
  have new : (t.execution s.executionCount).descriptor = descriptor ∧
      (t.execution s.executionCount).previous = s.executionChains descriptor.token ∧
      (t.execution s.executionCount).phase = .waiting := by
    rw [← admitted, dispatchWithOrdering]
    simp
  obtain ⟨newDescriptor, newPrevious, newPhase⟩ := new
  have past (x : Nat) (inside : x < s.executionCount) (is : Past s x) : Past t x := by
    rw [Past, old x inside]
    exact is
  refine ⟨fun token z is => ?_, fun token is x inside own => ?_, fun y inside z is => ?_,
    fun y inside waiting x before same => ?_, fun y inside started x before same => ?_⟩
  · rw [chains] at is
    by_cases here : token = descriptor.token
    · subst here
      rw [Function.update_self] at is
      cases is
      exact ⟨by omega, by rw [newDescriptor], fun x inside _ => by omega⟩
    · rw [Function.update_of_ne here] at is
      obtain ⟨below, own, last⟩ := serial.last token z is
      refine ⟨by omega, by rw [old z below, own], fun x inside at_ => ?_⟩
      rcases Nat.lt_succ_iff_lt_or_eq.mp (count ▸ inside) with before | rfl
      · exact last x before (by rw [← old x before, at_])
      · rw [newDescriptor] at at_
        exact absurd at_.symm here
  · rw [chains] at is
    have other : token ≠ descriptor.token := by
      rintro rfl
      rw [Function.update_self] at is
      cases is
    rw [Function.update_of_ne other] at is
    rcases Nat.lt_succ_iff_lt_or_eq.mp (count ▸ inside) with before | rfl
    · exact past x before (serial.free token is x before (by rw [← old x before, own]))
    · rw [newDescriptor] at own
      exact absurd own.symm other
  · rcases Nat.lt_succ_iff_lt_or_eq.mp (count ▸ inside) with below | rfl
    · rw [old y below] at is
      obtain ⟨between, own⟩ := serial.known y below z is
      refine ⟨between, ?_⟩
      rw [SameToken, old z (Nat.lt_trans between below), old y below]
      exact own
    · rw [newPrevious] at is
      obtain ⟨below, own, -⟩ := serial.last _ z is
      refine ⟨below, ?_⟩
      rw [SameToken, old z below, newDescriptor]
      exact own
  · rcases Nat.lt_succ_iff_lt_or_eq.mp (count ▸ inside) with below | rfl
    · rw [old y below] at waiting ⊢
      rw [SameToken, old x (Nat.lt_trans before below), old y below] at same
      rcases serial.chained y below waiting x before same with is | chained
      · exact .inl (past x (Nat.lt_trans before below) is)
      · exact .inr chained
    · rw [SameToken, old x before, newDescriptor] at same
      rw [newPrevious]
      cases is : s.executionChains descriptor.token with
      | none => exact .inl (past x before (serial.free _ is x before same))
      | some z => exact .inr ⟨z, rfl, (serial.last _ z is).2.2 x before same⟩
  · rcases Nat.lt_succ_iff_lt_or_eq.mp (count ▸ inside) with below | rfl
    · rw [old y below] at started
      rw [SameToken, old x (Nat.lt_trans before below), old y below] at same
      exact past x (Nat.lt_trans before below) (serial.order y below started x before same)
    · exact absurd newPhase started

theorem Serial.setPhase {s : CqrsState} {x : Nat} {phase : ExecutionPhase} (serial : Serial s)
    (goes : phase ≠ .waiting) (kept : Past s x → phase.past = true)
    (start : (s.execution x).phase = .waiting → ∀ w < x, SameToken s w x → Past s w) : Serial (s.setPhase x phase) := by
  have here : (s.setPhase x phase).execution x = { s.execution x with phase } := Function.update_self _ _ _
  have other (y : Nat) (ne : y ≠ x) : (s.setPhase x phase).execution y = s.execution y := Function.update_of_ne ne _ _
  have descriptor (y : Nat) : ((s.setPhase x phase).execution y).descriptor = (s.execution y).descriptor := by
    by_cases same : y = x
    · subst same
      rw [here]
    · rw [other y same]
  have past (y : Nat) (is : Past s y) : Past (s.setPhase x phase) y := by
    by_cases same : y = x
    · subst same
      rw [Past, here]
      exact kept is
    · rw [Past, other y same]
      exact is
  have token (w y : Nat) (same : SameToken (s.setPhase x phase) w y) : SameToken s w y := by
    rw [SameToken, descriptor, descriptor] at same
    exact same
  refine ⟨fun token z is => ?_, fun token is y inside own => ?_, fun y inside z is => ?_,
    fun y inside waiting w before same => ?_, fun y inside started w before same => ?_⟩
  · obtain ⟨below, own, last⟩ := serial.last token z is
    exact ⟨below, by rw [descriptor, own], fun y inside at_ => last y inside (by rw [← descriptor, at_])⟩
  · exact past y (serial.free token is y inside (by rw [← descriptor, own]))
  · have previous : ((s.setPhase x phase).execution y).previous = (s.execution y).previous := by
      by_cases same : y = x
      · subst same
        rw [here]
      · rw [other y same]
    rw [previous] at is
    obtain ⟨between, own⟩ := serial.known y inside z is
    refine ⟨between, ?_⟩
    rw [SameToken, descriptor, descriptor]
    exact own
  · by_cases is : y = x
    · subst is
      rw [here] at waiting
      exact absurd waiting goes
    · rw [other y is] at waiting ⊢
      rcases serial.chained y inside waiting w before (token w y same) with is | chained
      · exact .inl (past w is)
      · exact .inr chained
  · have own := token w y same
    by_cases is : y = x
    · subst is
      by_cases waiting : (s.execution y).phase = .waiting
      · exact past w (start waiting w before own)
      · exact past w (serial.order y inside waiting w before own)
    · rw [other y is] at started
      exact past w (serial.order y inside started w before own)

/-- What lets an execution start: all earlier ones of its token are over. -/
theorem Serial.canStart {s : CqrsState} {x : Nat} (serial : Serial s) (can : canStart s x = true) :
    x < s.executionCount ∧ (s.execution x).phase = .waiting ∧ ∀ w < x, SameToken s w x → Past s w := by
  simp only [Fluo.Cqrs.canStart, Bool.and_eq_true, decide_eq_true_eq] at can
  obtain ⟨⟨inside, waiting⟩, settled⟩ := can
  refine ⟨inside, waiting, fun w before same => ?_⟩
  rcases serial.chained x inside waiting w before same with past | ⟨z, previous, le⟩
  · exact past
  · obtain ⟨below, own⟩ := serial.known x inside z previous
    rw [previous] at settled
    have settled : Past s z := settled
    rcases Nat.lt_or_eq_of_le le with less | rfl
    · refine serial.order z (Nat.lt_trans below inside) ?_ w less (same.trans own.symm)
      intro waiting
      rw [Past, waiting] at settled
      cases settled
    · exact settled

theorem Serial.free_to_start {s : CqrsState} {x : Nat} (serial : Serial s) (inside : x < s.executionCount)
    (waiting : (s.execution x).phase = .waiting) (past : ∀ w < x, SameToken s w x → Past s w) : Fluo.Cqrs.canStart s x = true := by
  simp only [Fluo.Cqrs.canStart, Bool.and_eq_true, decide_eq_true_eq]
  refine ⟨⟨inside, waiting⟩, ?_⟩
  cases previous : (s.execution x).previous with
  | none => rfl
  | some z =>
    obtain ⟨below, own⟩ := serial.known x inside z previous
    exact past z below own

/-! ## Steps -/

def clears (s : CqrsState) : CqrsEvent → Bool
  | .untrackDispatch d =>
    s.sagaLifecycle = .stopped && s.pendingDispatches.erase d = [] && s.authorizedPipelineLeaseCount = 0
  | .releasePipeline _ =>
    s.sagaLifecycle = .stopped && s.pendingDispatches = [] && s.authorizedPipelineLeaseCount - 1 = 0
  | .finishSagaHook => s.pendingDispatches = [] && s.authorizedPipelineLeaseCount = 0
  | _ => false

/-- A step that clears the chains finds every execution behind its `handle`. -/
def ClearsIdle (s : CqrsState) (e : CqrsEvent) : Prop := clears s e = true → ∀ x < s.executionCount, Past s x

instance (s : CqrsState) (e : CqrsEvent) : Decidable (ClearsIdle s e) := inferInstanceAs (Decidable (_ → _))

theorem Serial.clear {s : CqrsState} (serial : Serial s)
    (idle : s.sagaLifecycle = .stopped → s.pendingDispatches = [] → s.authorizedPipelineLeaseCount = 0 →
      ∀ x < s.executionCount, Past s x) : Serial (clearStoppedSagaGraphIfQuiescent s) := by
  unfold clearStoppedSagaGraphIfQuiescent
  split
  · exact serial
  · next quiet =>
    simp only [not_or, ne_eq, not_not, Nat.not_lt, Nat.le_zero] at quiet
    exact ⟨nofun, fun _ _ x inside _ => idle quiet.1 quiet.2.1 quiet.2.2 x inside, serial.known, serial.chained,
      serial.order⟩

theorem Serial.afterSagas {s : CqrsState} (serial : Serial s) (d : Nat) : Serial (afterSagas s d) := by
  unfold Fluo.Cqrs.afterSagas
  split
  · exact serial.congr rfl rfl rfl
  · exact serial.congr rfl rfl rfl

theorem Serial.admitEntries {immediate : SagaTopologyEntry → Bool} {event d : Nat}
    {entries : List (SagaDescriptor × SagaTopologyEntry)} {s t : CqrsState} (serial : Serial s)
    (admitted : (admitEntries immediate event d entries s).1 = t) : Serial t := by
  subst admitted
  induction entries generalizing s with
  | nil => exact serial
  | cons entry rest ih =>
    rw [Fluo.Cqrs.admitEntries]
    split
    · exact ih (serial.append _ _ _ _)
    · exact ih serial

/-- The end of an execution cuts the chain of its token behind itself. -/
theorem Serial.settle {s : CqrsState} {x : Nat} {ok : Bool} (serial : Serial s) (inside : x < s.executionCount)
    (at_ : (s.execution x).phase = .handled ok) {chains : Nat → Option Nat}
    (cut : ∀ token, chains token = s.executionChains token ∨
      chains token = none ∧ s.executionChains token = some x) :
    Serial { s.setPhase x (.done ok) with executionChains := chains } := by
  have started : (s.execution x).phase ≠ .waiting := by
    rw [at_]
    nofun
  have done : Serial (s.setPhase x (.done ok)) :=
    serial.setPhase nofun (fun _ => rfl) fun waiting => absurd waiting started
  have here : ((s.setPhase x (.done ok)).execution x) = { s.execution x with phase := .done ok } :=
    Function.update_self _ _ _
  refine ⟨fun token z is => ?_, fun token is w inside' own => ?_, done.known, done.chained, done.order⟩
  · rcases cut token with same | ⟨none, -⟩
    · exact done.last token z (same.symm.trans is)
    · dsimp only at is
      rw [none] at is
      cases is
  · rcases cut token with same | ⟨-, was⟩
    · exact done.free token (same.symm.trans is) w inside' own
    · obtain ⟨-, token', last⟩ := done.last token x was
      rcases Nat.lt_or_eq_of_le (last w inside' own) with before | rfl
      · exact done.order x inside (by rw [here]; nofun) w before (own.trans token'.symm)
      · show ((s.setPhase w (.done ok)).execution w).phase.past = true
        rw [here]
        rfl

theorem Serial.step {graph : CqrsGraph} {s t : CqrsState} {e : CqrsEvent} (serial : Serial s)
    (outcome : Outcome graph s e t) (idle : ClearsIdle s e) : Serial t := by
  have congr {u : CqrsState} (execution : u.execution = s.execution) (count : u.executionCount = s.executionCount)
      (chains : u.executionChains = s.executionChains) : Serial u := serial.congr execution count chains
  have goes {x : Nat} {phase : ExecutionPhase} (on : phase ≠ .waiting) (past : phase.past = true)
      (started : (s.execution x).phase ≠ .waiting) : Serial (s.setPhase x phase) :=
    serial.setPhase on (fun _ => past) fun waiting => absurd waiting started
  cases outcome with
  | refused | refusedDispatch => exact serial
  | emptyDispatch | joinedDispatch => exact serial.afterSagas _
  | enteredReentrant _ _ _ _ admitted =>
    have entered := serial.admitEntries (congrArg Prod.fst admitted)
    exact entered.congr rfl rfl rfl
  | enteredDispatch _ _ _ _ _ admitted =>
    have entered := serial.admitEntries (congrArg Prod.fst admitted)
    exact entered.congr rfl rfl rfl
  | untrackedDispatch at_ tracked =>
    refine Serial.clear (congr rfl rfl rfl) fun stopped pending lease => idle ?_
    simp only [clears, Bool.and_eq_true, decide_eq_true_eq]
    exact ⟨⟨stopped, pending⟩, lease⟩
  | releasedPipeline inside at_ =>
    refine Serial.clear (congr rfl rfl rfl) fun stopped pending lease => idle ?_
    simp only [clears, Bool.and_eq_true, decide_eq_true_eq]
    exact ⟨⟨stopped, pending⟩, lease⟩
  | finishedSagaHook drained =>
    refine Serial.clear (congr rfl rfl rfl) fun stopped pending lease => idle ?_
    simp only [clears, Bool.and_eq_true, decide_eq_true_eq]
    exact ⟨pending, lease⟩
  | startedSaga can =>
    obtain ⟨inside, waiting, past⟩ := serial.canStart can
    have started : Serial (s.setPhase _ .handling) :=
      serial.setPhase nofun (fun is => by rw [Past, waiting] at is; cases is) fun _ => past
    exact started.congr rfl rfl rfl
  | failedSaga can =>
    obtain ⟨inside, waiting, past⟩ := serial.canStart can
    exact serial.setPhase nofun (fun _ => rfl) fun _ => past
  | finishedSaga inside at_ => exact goes nofun rfl (at_ ▸ nofun)
  | @settledExecution x _ inside at_ drained =>
    refine serial.settle inside at_ fun token => ?_
    split
    · next last =>
      by_cases here : token = (s.execution x).descriptor.token
      · subst here
        exact .inr ⟨Function.update_self _ _ _, last⟩
      · exact .inl (Function.update_of_ne here _ _)
    · exact .inl rfl
  | @shifted x d _ inside at_ owns queued =>
    have on : Serial (s.setPhase x (.continuing d)) := goes nofun rfl (at_ ▸ nofun)
    exact on.congr rfl rfl rfl
  | ranTask inside at_ here idle unscheduled => exact (serial.append _ _ _ _).congr rfl rfl rfl
  | resumed inside at_ done => exact goes nofun rfl (at_ ▸ nofun)
  | @droppedRest x _ inside at_ done =>
    have on : Serial (s.setPhase x (.handled false)) := goes nofun rfl (at_ ▸ nofun)
    exact on.congr rfl rfl rfl
  | _ => exact congr rfl rfl rfl

theorem serial_initial : Serial initial := ⟨nofun, nofun, nofun, nofun, nofun⟩

theorem serial_run {graph : CqrsGraph} {es : List CqrsEvent} {s : CqrsState}
    (idle : Throughout (step graph) ClearsIdle initial es) (reached : run (step graph) initial es = some s) : Serial s :=
  keeps_throughout (fun _ _ _ idle serial is => serial.step (step_outcome is) idle) serial_initial idle reached

/-! ## Order -/

/-- The executions of a token do not overlap, start in the order of their admission, and are held up by nothing but the
ones before them. -/
structure InOrder (graph : CqrsGraph) (s : CqrsState) : Prop where
  alone : ∀ x < s.executionCount, ∀ y < s.executionCount, SameToken s x y → (s.execution x).phase = .handling →
    (s.execution y).phase = .handling → x = y
  admitted : ∀ y < s.executionCount, (s.execution y).phase ≠ .waiting → ∀ x < y, SameToken s x y → Past s x
  free : ∀ y < s.executionCount, (s.execution y).phase = .waiting → (∀ x < y, SameToken s x y → Past s x) →
    (step graph s (.startSaga y)).isSome = true

theorem Serial.inOrder {s : CqrsState} (serial : Serial s) (graph : CqrsGraph) : InOrder graph s := by
  refine ⟨fun x inside y inside' same handling handling' => ?_, serial.order, fun y inside waiting past => ?_⟩
  · have running (z : Nat) (is : (s.execution z).phase = .handling) : ¬ Past s z := by
      rw [Past, is]
      nofun
    rcases Nat.lt_trichotomy x y with before | rfl | behind
    · exact absurd (serial.order y inside' (handling' ▸ nofun) x before same) (running x handling)
    · rfl
    · exact absurd (serial.order x inside (handling ▸ nofun) y behind same.symm) (running y handling')
  · have can := serial.free_to_start inside waiting past
    simp only [Fluo.Cqrs.step, startSaga, can, if_true, Option.isSome_some]

/-- Sagas are serialized by token in every run that clears the chains only when no `handle` is before its end. -/
theorem sagas_serialized (graph : CqrsGraph) (es : List CqrsEvent) (s : CqrsState)
    (idle : Throughout (step graph) ClearsIdle initial es) (reached : run (step graph) initial es = some s) :
    InOrder graph s :=
  (serial_run idle reached).inOrder graph

/-- Three sagas of an event; two of them have a second one. -/
def fanoutGraph : CqrsGraph where
  sagas := [⟨0, 0⟩, ⟨1, 0⟩, ⟨2, 0⟩, ⟨1, 1⟩, ⟨2, 1⟩]
  handlers := []
  instanceOf event eventType := event = eventType
  sagasDistinct := by decide
  handlersDistinct := by decide

/-- A saga publishes its second event and goes on, while another one of the first event has not come to its end. -/
def nestedPublish : List CqrsEvent :=
  [.publish [0] .external false, .enterPipeline 0 true, .dispatchPipeline 0, .enterDispatch 0 true, .startSaga 0,
    .startSaga 1, .startSaga 2, .publish [1] (.saga 1) true, .enterPipeline 1 true, .dispatchPipeline 1,
    .enterDispatch 1 true, .untrackDispatch 1, .finishEvent 1, .untrackPipeline 1, .releasePipeline 1]

/-- One saga fails, so that nothing is tracked any more when the application shuts down. -/
def abandonedRun : List CqrsEvent :=
  nestedPublish ++ [CqrsEvent.finishSaga 0 false, .settleExecution 0, .joinDispatch 0, .untrackDispatch 0, .finishEvent 0,
    .untrackPipeline 0, .releasePipeline 0, .startEventShutdown, .startSagaShutdown, .beginEventHook, .finishEventHook,
    .beginSagaHook, .endSagaDrain false, .finishSagaHook, .finishSaga 1 true, .shiftContinuation 1, .runTask 1 0,
    .runTask 1 1, .startSaga 4]

/-- The same sagas come to their ends before the shutdown. -/
def awaitedRun : List CqrsEvent :=
  nestedPublish ++ [CqrsEvent.finishSaga 0 false, .finishSaga 1 true, .settleExecution 0, .shiftContinuation 1, .runTask 1 0,
    .runTask 1 1, .startSaga 3, .finishSaga 2 true, .startSaga 4]

theorem sagas_serialized_awaited :
    ∃ s, run (step fanoutGraph) initial awaitedRun = some s ∧ (s.execution 4).phase = .handling ∧
      InOrder fanoutGraph s := by
  have reached : ((run (step fanoutGraph) initial awaitedRun).map fun s => (s.execution 4).phase) = some .handling := by
    decide
  obtain ⟨s, reached, handling⟩ := Option.map_eq_some_iff.mp reached
  exact ⟨s, reached, handling, sagas_serialized fanoutGraph awaitedRun s (by decide) reached⟩

/-- The chains are cleared while a saga is handling, and the next of its token overtakes it. -/
theorem cleared_saga_overlaps : ¬ ∀ graph es s, run (step graph) initial es = some s → InOrder graph s := by
  intro always
  have reached : ((run (step fanoutGraph) initial abandonedRun).map fun s =>
      (s.executionCount, (s.execution 2).descriptor.token, (s.execution 4).descriptor.token, (s.execution 2).phase,
        (s.execution 4).phase)) = some (5, 2, 2, .handling, .handling) := by decide
  obtain ⟨s, reached, facts⟩ := Option.map_eq_some_iff.mp reached
  simp only [Prod.mk.injEq] at facts
  obtain ⟨count, token, token', handling, handling'⟩ := facts
  have alone := (always fanoutGraph abandonedRun s reached).alone 2 (by omega) 4 (by omega)
    (token.trans token'.symm) handling handling'
  cases alone

end Fluo.Cqrs
