import Fluo.Runtime.ApplicationClose

/-!
# Closing converges

Failures of the microservices and of the signal registration are kept for good.
Without them there are at most as many failed attempts as failed teardown steps,
and an attempt ends when everything it waits for has settled.
-/

namespace Fluo.Runtime.Application

/-! ## What later states keep -/

def State.Accounts (s : State) (caller : Caller) : Prop :=
  caller ∈ s.waiting ∨ ∃ error, (caller, error) ∈ s.settled

structure Later (s t : State) : Prop where
  signals : s.signalCleanupErrors <+: t.signalCleanupErrors
  rejected : ∀ (i : Nat) (error : CloseError), s.connectedMicroservices[i]?.map Microservice.closingPromise = some (.rejected error) →
    t.connectedMicroservices[i]?.map Microservice.closingPromise = some (.rejected error)
  accounted : ∀ caller, s.Accounts caller → t.Accounts caller

theorem Later.refl (s : State) : Later s s := ⟨List.prefix_rfl, fun _ _ => id, fun _ => id⟩

theorem Later.trans {s t u : State} (h : Later s t) (h' : Later t u) : Later s u :=
  ⟨h.signals.trans h'.signals, fun i error rejected => h'.rejected i error (h.rejected i error rejected),
    fun caller accounted => h'.accounted caller (h.accounted caller accounted)⟩

structure State.Healthy (s : State) : Prop where
  signals : s.signalCleanupErrors = []
  microservices : ∀ (i : Nat) (error : CloseError),
    s.connectedMicroservices[i]?.map Microservice.closingPromise ≠ some (.rejected error)

theorem Later.healthy {s t : State} (h : Later s t) (healthy : t.Healthy) : s.Healthy where
  signals := by simpa [healthy.signals] using h.signals
  microservices i error rejected := healthy.microservices i error (h.rejected i error rejected)

section

variable {instances : List LifecycleInstance} {s t : State} {c : Closing}

/-- What an attempt never changes behind the microservices. -/
structure Frame (s t : State) : Prop where
  signals : t.signalCleanupErrors = s.signalCleanupErrors
  microservices : t.connectedMicroservices = s.connectedMicroservices
  startup : t.startup = s.startup
  cleanups : t.runtimeCleanup = s.runtimeCleanup
  accounted : ∀ caller, s.Accounts caller → t.Accounts caller

theorem Frame.later (h : Frame s t) : Later s t :=
  ⟨h.signals ▸ List.prefix_rfl, fun i error => by rw [h.microservices]; exact id, h.accounted⟩

theorem Frame.settle (s : State) (c : Closing) (error : Option CloseError) : Frame s (s.settle c error) where
  signals := rfl
  microservices := rfl
  startup := rfl
  cleanups := rfl
  accounted caller h := by
    rcases h with waiting | ⟨error', settled⟩
    · exact .inr ⟨error, List.mem_append_left _ (List.mem_map.mpr ⟨caller, waiting, rfl⟩)⟩
    · exact .inr ⟨error', List.mem_append_right _ settled⟩

theorem Frame.finish (s : State) (c : Closing) : Frame s (s.finish c) := by
  unfold State.finish
  dsimp only
  split
  next => exact { Frame.settle { s with closed := true } c s.closedOutcome with }
  next => exact .settle ..

theorem Frame.complete (s : State) (phase : RuntimeShutdownPhase) (errors : List CloseError) :
    Frame s (s.complete phase errors) := by
  rw [complete_eq]
  exact ⟨rfl, rfl, rfl, rfl, fun _ => id⟩

theorem Frame.trans {u : State} (h : Frame s t) (h' : Frame t u) : Frame s u :=
  ⟨h'.signals.trans h.signals, h'.microservices.trans h.microservices, h'.startup.trans h.startup,
    h'.cleanups.trans h.cleanups, fun caller accounted => h'.accounted caller (h.accounted caller accounted)⟩

theorem Proceeds.frame {k : Nat} (h : Proceeds instances k s c t) : Frame s t := by
  induction h with
  | skip _ _ _ ih => exact ih
  | noCleanup _ _ _ ih | noHook _ _ _ ih => exact (Frame.complete ..).trans ih
  | readiness | cleanup | hook | adapter | container => exact ⟨rfl, rfl, rfl, rfl, fun _ => id⟩
  | finish => exact .finish ..

theorem rejected_modify {l : List Microservice} {index i : Nat} {error : CloseError}
    (h : l[i]?.map Microservice.closingPromise = some (.rejected error)) :
    (l.modify index Microservice.close)[i]?.map Microservice.closingPromise = some (.rejected error) := by
  obtain ⟨m, here, rejected⟩ := Option.map_eq_some_iff.mp h
  rw [List.getElem?_modify, here]
  by_cases this : index = i
  · simp [this, Microservice.close, rejected]
  · simp [this, rejected]

theorem microservicesNext_later {errors : List CloseError} {rest : List Nat} :
    Later s (s.microservicesNext instances c errors rest) := by
  cases rest with
  | nil =>
    rw [State.microservicesNext]
    split
    next =>
      have later := (closeRuntimeResources_proceeds instances { s with connectedMicroservicesClosed := true } c).frame.later
      exact { later with }
    next => exact (closeRuntimeResources_proceeds ..).frame.later
  | cons index rest => exact ⟨List.prefix_rfl, fun i error => rejected_modify, fun _ => id⟩

theorem closeConnectedMicroservices_later : Later s (s.closeConnectedMicroservices instances c) := by
  unfold State.closeConnectedMicroservices
  split
  · exact (closeRuntimeResources_proceeds ..).frame.later
  · exact microservicesNext_later

theorem unregister_later : Later s (s.unregister instances c) := by
  unfold State.unregister
  split
  · exact ⟨List.prefix_rfl, fun _ _ => id, fun _ => id⟩
  · exact closeConnectedMicroservices_later

theorem startClosing_later : Later s (s.startClosing instances) := by
  unfold State.startClosing
  dsimp only
  split
  · exact ⟨List.prefix_rfl, fun _ _ => id, fun _ => id⟩
  · exact { unregister_later (s := { s with closeStarted := true }) with }

theorem answer_later (caller : Caller) (error : Option CloseError) : Later s (s.answer caller error) :=
  ⟨List.prefix_rfl, fun _ _ => id, fun _ => Or.imp_right fun ⟨error, mem⟩ => ⟨error, List.mem_cons_of_mem _ mem⟩⟩

theorem close_later (caller : Caller) : Later s (s.close instances caller) := by
  have waits : Later s { s with waiting := caller :: s.waiting } :=
    ⟨List.prefix_rfl, fun _ _ => id, fun _ => Or.imp_left (List.mem_cons_of_mem _)⟩
  unfold State.close
  split
  next => exact answer_later ..
  next =>
    split
    next => exact { waits with }
    next => exact answer_later ..
    next => exact answer_later ..
    next => exact waits.trans startClosing_later

theorem cleanupNext_frame {errors : List CloseError} {next : Nat} : Frame s (s.cleanupNext instances c errors next) := by
  unfold State.cleanupNext
  split
  · exact ⟨rfl, rfl, rfl, rfl, fun _ => id⟩
  · exact (Frame.complete ..).trans (runShutdownHooks_proceeds ..).frame

theorem hooksNext_frame {errors : List CloseError} {rest : List HookCall} : Frame s (s.hooksNext c errors rest) := by
  cases rest with
  | nil => exact (Frame.complete ..).trans (closeAdapter_proceeds [] _ _).frame
  | cons call rest => exact ⟨rfl, rfl, rfl, rfl, fun _ => id⟩

theorem closeStep_later {a : CloseAwait} {error : Option Nat} (step : s.closeStep instances c error a = some t) :
    Later s t := by
  cases a with
  | listen | microservice => cases step
  | unregisterShutdownSignals =>
    cases step
    have recorded : Later s (s.unregistered error) :=
      ⟨List.prefix_append .., fun _ _ => id, fun _ => id⟩
    exact recorded.trans closeConnectedMicroservices_later
  | readiness =>
    cases error with
    | some value => cases step; exact (Frame.finish ..).later
    | none => cases step; exact ((Frame.complete ..).trans (runCleanupCallbacks_proceeds ..).frame).later
  | cleanup next errors => cases step; exact cleanupNext_frame.later
  | hook rest errors => cases step; exact hooksNext_frame.later
  | adapter => cases step; exact ((Frame.complete ..).trans (disposeContainer_proceeds [] _ _).frame).later
  | container => cases step; exact ((Frame.complete ..).trans (.finish ..)).later

theorem microservice_later {index : Nat} {m m' : Microservice} {e : MicroserviceEvent}
    (here : s.connectedMicroservices[index]? = some m) (step : m.step e = some m') :
    Later s { s with connectedMicroservices := s.connectedMicroservices.set index m' } := by
  refine ⟨List.prefix_rfl, fun i error rejected => ?_, fun _ => id⟩
  by_cases this : index = i
  · subst this
    rw [here] at rejected
    rw [List.getElem?_set_self (List.getElem?_eq_some_iff.mp here).1]
    exact congrArg some ((Microservice.step_closing step).2.2.2 error (Option.some.inj rejected))
  · rwa [List.getElem?_set_ne this]

theorem step_later {hasHttpAdapter : Bool} {e : Event} (h : step hasHttpAdapter instances s e = some t) :
    Later s t := by
  cases e with
  | listen =>
    cases h
    unfold State.listen
    split
    · exact .refl s
    · exact ⟨List.prefix_rfl, fun _ _ => id, fun _ => id⟩
  | started error =>
    simp only [step] at h
    split at h <;> cases h <;> exact ⟨List.prefix_rfl, fun _ _ => id, fun _ => id⟩
  | shutdownRegistered unregister =>
    simp only [step] at h
    split at h <;> cases h
    exact ⟨List.prefix_rfl, fun _ _ => id, fun _ => id⟩
  | startupFailed =>
    simp only [step] at h
    split at h <;> cases h
    have later : Later { s with startup := .settled } (State.close instances { s with startup := .settled } .failedStartup) :=
      close_later _
    exact { later with }
  | connected =>
    simp only [step] at h
    split at h <;> cases h
    refine ⟨List.prefix_rfl, fun i error rejected => ?_, fun _ => id⟩
    obtain ⟨m, here, _⟩ := Option.map_eq_some_iff.mp rejected
    rwa [List.getElem?_append_left (List.getElem?_eq_some_iff.mp here).1]
  | registerCleanup cleanup => cases h; exact ⟨List.prefix_rfl, fun _ _ => id, fun _ => id⟩
  | unregisterCleanup cleanup =>
    cases h
    unfold State.unregisterCleanup
    dsimp only
    split <;> exact ⟨List.prefix_rfl, fun _ _ => id, fun _ => id⟩
  | microservice index event =>
    obtain ⟨m', step, rfl⟩ := Option.map_eq_some_iff.mp h
    obtain ⟨m, here, step⟩ := Option.bind_eq_some_iff.mp step
    exact microservice_later here step
  | close call => cases h; exact close_later _
  | listenAwaited =>
    simp only [step] at h
    split at h <;> cases h
    exact unregister_later
  | microserviceAwaited =>
    simp only [step] at h
    split at h
    next => split at h <;> cases h <;> exact microservicesNext_later
    next => cases h
  | closeStep error =>
    simp only [step] at h
    split at h
    next => exact closeStep_later h
    next => cases h
  | reset =>
    simp only [step] at h
    split at h <;> cases h
    exact ⟨List.prefix_rfl, fun _ _ => id, fun _ => id⟩

theorem run_later {hasHttpAdapter : Bool} {es : List Event}
    (run : Run.run (step hasHttpAdapter instances) s es = some t) : Later s t :=
  Run.keeps (I := Later s) (fun _ _ _ later h => later.trans (step_later h)) (.refl s) run

/-- A call to `close()` waits from then on or has been answered. -/
theorem close_accounted {hasHttpAdapter : Bool} {call : Nat} (h : step hasHttpAdapter instances s (.close call) = some t) :
    t.Accounts (.host call) := by
  cases h
  unfold State.close
  split
  next => exact .inr ⟨_, List.mem_cons_self⟩
  next =>
    split
    next => exact .inl List.mem_cons_self
    next => exact .inr ⟨_, List.mem_cons_self⟩
    next => exact .inr ⟨_, List.mem_cons_self⟩
    next => exact startClosing_later.accounted _ (.inl List.mem_cons_self)

/-! ## Failed attempts and failed steps -/

def CloseAwait.errors : CloseAwait → List CloseError
  | .microservice _ _ errors | .cleanup _ errors | .hook _ errors => errors
  | _ => []

/-- Whether an attempt has met an error, as a count. -/
def Closing.spoiled (c : Closing) (errors : List CloseError) : Nat :=
  if (c.errors ++ c.resourceErrors ++ errors).isEmpty then 0 else 1

def State.rejections (s : State) : Nat := s.attempts.countP (·.2.isSome)

/-- The attempts that have failed or are going to. -/
def State.weight (s : State) : Nat :=
  s.rejections + match s.closingPromise with
    | some (.pending c a) => c.spoiled a.errors
    | _ => 0

def Event.fails : Event → Bool
  | .closeStep error => error.isSome
  | _ => false

theorem Proceeds.weight {k : Nat} (h : Proceeds instances k s c t) (healthy : s.signalCleanupErrors = []) :
    t.weight ≤ s.rejections + c.spoiled [] := by
  induction h with
  | skip _ _ _ ih => exact ih healthy
  | noCleanup _ _ _ ih | noHook _ _ _ ih =>
    rw [complete_eq] at ih
    simpa [Closing.spoiled, Closing.attempt, Closing.loopEnds, State.rejections] using ih healthy
  | readiness | cleanup | hook | adapter | container => exact Nat.le_refl _
  | @finish s c =>
    unfold State.finish
    dsimp only
    split
    next none =>
      have none : s.closedOutcome = Option.none := (closedOutcome_eq_none s).mpr healthy
      simp [State.settle, State.weight, State.rejections, none]
    next some =>
      have spoiled : c.spoiled [] = 1 := by
        unfold Closing.spoiled
        rw [if_neg]
        simpa [thrownBy_eq_nil] using some
      rw [spoiled]
      simp [State.settle, State.weight, State.rejections]

theorem spoiled_le (c : Closing) (errors : List CloseError) : c.spoiled errors ≤ 1 := by
  unfold Closing.spoiled
  split <;> omega

theorem spoiled_of_ne {c : Closing} {errors : List CloseError} (h : errors ≠ []) : c.spoiled errors = 1 := by
  simp [Closing.spoiled, h]

theorem spoiled_reason (c : Closing) (errors : List CloseError) (error : Option Nat) :
    c.spoiled (errors ++ reason error) ≤ c.spoiled errors + if error.isSome then 1 else 0 := by
  cases error with
  | none => simp [reason]
  | some value =>
    have := spoiled_le c (errors ++ reason (some value))
    simpa using Nat.le_add_left_of_le this

theorem spoiled_attempt (c : Closing) (phase : RuntimeShutdownPhase) (errors : List CloseError) :
    (c.attempt phase errors).spoiled [] = c.spoiled errors := by
  simp [Closing.spoiled, Closing.attempt]

theorem spoiled_thrownBy (c : Closing) (errors : List CloseError) : c.spoiled (thrownBy errors) = c.spoiled errors := by
  simp [Closing.spoiled, thrownBy_eq_nil]

theorem complete_weight {k : Nat} {phase : RuntimeShutdownPhase} {errors errors' : List CloseError}
    (h : Proceeds instances k (s.complete phase errors) (c.attempt phase errors') t)
    (healthy : s.signalCleanupErrors = []) : t.weight ≤ s.rejections + c.spoiled errors' := by
  rw [complete_eq] at h
  have weight := h.weight healthy
  rwa [spoiled_attempt] at weight

theorem microservicesNext_weight {errors : List CloseError} {rest : List Nat} (healthy : s.signalCleanupErrors = []) :
    (s.microservicesNext instances c errors rest).weight ≤ s.rejections + c.spoiled errors := by
  cases rest with
  | nil =>
    rw [State.microservicesNext]
    split
    next none =>
      obtain rfl : errors = [] := by simpa using none
      exact (closeRuntimeResources_proceeds instances { s with connectedMicroservicesClosed := true } c).weight healthy
    next some =>
      have bound := (closeRuntimeResources_proceeds instances s
        { c with errors := c.errors ++ thrownBy errors }).weight healthy
      have failed : c.spoiled errors = 1 := spoiled_of_ne (by simpa using some)
      have := spoiled_le { c with errors := c.errors ++ thrownBy errors } []
      omega
  | cons index rest => exact Nat.le_refl _

theorem closeConnectedMicroservices_weight (healthy : s.signalCleanupErrors = []) :
    (s.closeConnectedMicroservices instances c).weight ≤ s.rejections + c.spoiled [] := by
  unfold State.closeConnectedMicroservices
  split
  · exact (closeRuntimeResources_proceeds ..).weight healthy
  · exact microservicesNext_weight healthy

theorem unregister_weight (healthy : s.signalCleanupErrors = []) :
    (s.unregister instances c).weight ≤ s.rejections + c.spoiled [] := by
  unfold State.unregister
  split
  · exact Nat.le_refl _
  · exact closeConnectedMicroservices_weight healthy

theorem close_weight (caller : Caller) (healthy : s.signalCleanupErrors = []) :
    (s.close instances caller).weight ≤ s.weight := by
  unfold State.close
  split
  next => exact Nat.le_refl _
  next =>
    split
    next promise => simp [State.weight, State.rejections, promise]
    next => exact Nat.le_refl _
    next => exact Nat.le_refl _
    next promise =>
      have idle : s.weight = s.rejections := by simp [State.weight, promise]
      rw [idle]
      unfold State.startClosing
      dsimp only
      split
      · exact Nat.le_refl _
      · exact unregister_weight healthy

theorem cleanupNext_weight {errors : List CloseError} {next : Nat} (healthy : s.signalCleanupErrors = []) :
    (s.cleanupNext instances c errors next).weight ≤ s.rejections + c.spoiled errors := by
  unfold State.cleanupNext
  split
  · exact Nat.le_refl _
  · have proceeds := runShutdownHooks_proceeds instances (s.complete .runtimeCleanup errors)
      ((c.loopEnds s.runtimeCleanup).attempt .runtimeCleanup errors)
    have bound : _ ≤ _ + (c.loopEnds s.runtimeCleanup).spoiled errors := complete_weight proceeds healthy
    exact bound

theorem hooksNext_weight {errors : List CloseError} {rest : List HookCall} (healthy : s.signalCleanupErrors = []) :
    (s.hooksNext c errors rest).weight ≤ s.rejections + c.spoiled errors := by
  cases rest with
  | nil =>
    rw [State.hooksNext, ← spoiled_thrownBy]
    exact complete_weight (closeAdapter_proceeds [] _ _) healthy
  | cons call rest => exact Nat.le_refl _

theorem closeStep_weight {a : CloseAwait} {error : Option Nat} (step : s.closeStep instances c error a = some t)
    (healthy : s.signalCleanupErrors = []) (healthy' : t.signalCleanupErrors = []) :
    t.weight ≤ s.rejections + c.spoiled a.errors + if error.isSome then 1 else 0 := by
  have failed : c.spoiled (reason error) ≤ c.spoiled [] + if error.isSome then 1 else 0 := by
    simpa using spoiled_reason c [] error
  cases a with
  | listen | microservice => cases step
  | unregisterShutdownSignals =>
    cases step
    have later : Later (s.unregistered error) ((s.unregistered error).closeConnectedMicroservices instances c) :=
      closeConnectedMicroservices_later
    have recorded := later.signals
    rw [healthy', List.prefix_nil] at recorded
    exact Nat.le_add_right_of_le (closeConnectedMicroservices_weight recorded)
  | readiness =>
    cases error with
    | some value =>
      cases step
      have ends : Proceeds [] 5 s (c.attempt .readiness [.thrown value]) _ := .finish
      have ends := ends.weight healthy
      have := spoiled_le (c.attempt .readiness [.thrown value]) []
      simp only [Option.isSome_some, ↓reduceIte]
      omega
    | none => cases step; exact complete_weight (runCleanupCallbacks_proceeds ..) healthy
  | cleanup next errors =>
    cases step
    have bound : (s.cleanupNext instances c (errors ++ reason error) next).weight ≤ _ := cleanupNext_weight healthy
    have := spoiled_reason c errors error
    simp only [CloseAwait.errors]
    omega
  | hook rest errors =>
    cases step
    have bound : (s.hooksNext c (errors ++ reason error) rest).weight ≤ _ := hooksNext_weight healthy
    have := spoiled_reason c errors error
    simp only [CloseAwait.errors]
    omega
  | adapter =>
    cases step
    have proceeds := disposeContainer_proceeds [] (s.complete .adapter (reason error)) (c.attempt .adapter (reason error))
    have := complete_weight proceeds healthy
    simp only [CloseAwait.errors]
    omega
  | container =>
    cases step
    have ends : Proceeds [] 5 (s.complete .container (reason error)) (c.attempt .container (reason error)) _ := .finish
    have := complete_weight ends healthy
    simp only [CloseAwait.errors]
    omega

theorem step_weight {hasHttpAdapter : Bool} {e : Event} (h : step hasHttpAdapter instances s e = some t)
    (healthy' : t.Healthy) : t.weight ≤ s.weight + if e.fails then 1 else 0 := by
  have healthy := (step_later h).healthy healthy'
  cases e with
  | closeStep error =>
    simp only [step] at h
    split at h
    next c a promise =>
      have now : s.weight = s.rejections + c.spoiled a.errors := by simp [State.weight, promise]
      exact now ▸ closeStep_weight h healthy.signals healthy'.signals
    next => cases h
  | microserviceAwaited =>
    simp only [step] at h
    split at h
    next c index rest errors promise =>
      have now : s.weight = s.rejections + c.spoiled errors := by simp [State.weight, promise, CloseAwait.errors]
      split at h
      next => cases h; exact now ▸ microservicesNext_weight healthy.signals
      next error rejected => exact absurd rejected (healthy.microservices index error)
      next => cases h
    next => cases h
  | listenAwaited =>
    simp only [step] at h
    split at h
    next => cases h
    next c promise _ =>
      cases h
      have now : s.weight = s.rejections + c.spoiled [] := by simp [State.weight, promise, CloseAwait.errors]
      exact now ▸ unregister_weight healthy.signals
    next => cases h
  | close call => cases h; exact close_weight _ healthy.signals
  | startupFailed =>
    simp only [step] at h
    split at h <;> cases h
    exact close_weight (s := { s with startup := .settled }) _ healthy.signals
  | unregisterCleanup cleanup =>
    cases h
    unfold State.unregisterCleanup
    dsimp only
    split
    next c next errors promise =>
      simp [State.weight, State.await, State.rejections, Closing.spoiled, Closing.displace, promise, CloseAwait.errors]
    next => exact Nat.le_refl _
  | listen =>
    cases h
    unfold State.listen
    split <;> exact Nat.le_refl _
  | started error =>
    simp only [step] at h
    split at h <;> cases h <;> exact Nat.le_refl _
  | shutdownRegistered unregister =>
    simp only [step] at h
    split at h <;> cases h
    exact Nat.le_refl _
  | connected =>
    simp only [step] at h
    split at h <;> cases h
    exact Nat.le_refl _
  | registerCleanup cleanup => cases h; exact Nat.le_refl _
  | microservice index event =>
    obtain ⟨m', _, rfl⟩ := Option.map_eq_some_iff.mp h
    exact Nat.le_refl _
  | reset =>
    simp only [step] at h
    split at h
    next promise => cases h; simp [State.weight, State.rejections, promise]
    next => cases h

theorem run_weight {hasHttpAdapter : Bool} {es : List Event} (run : Run.run (step hasHttpAdapter instances) s es = some t)
    (healthy : t.Healthy) : t.weight ≤ s.weight + es.countP Event.fails := by
  induction es generalizing s with
  | nil => cases run; exact Nat.le_refl _
  | cons e rest ih =>
    obtain ⟨u, hu, run⟩ := Run.run_cons run
    have now := step_weight hu ((run_later run).healthy healthy)
    have later := ih run
    rw [List.countP_cons]
    omega

/-! ## Attempts end -/

/-- Something that was waited for settles, or the runtime notices that it has. -/
def Event.settles : Event → Bool
  | .started _ | .shutdownRegistered _ | .listenAwaited | .microserviceAwaited | .closeStep _ | .reset => true
  | .microservice _ (.listenSettled _) | .microservice _ (.marked _) | .microservice _ .listenAwaited
  | .microservice _ (.runtimeClosed _) => true
  | _ => false

/-- What a microservice can still do by itself, and its `close()` if nobody has
called it. -/
def Microservice.work (m : Microservice) : Nat :=
  (match m.closingPromise with
    | .undefined => 4
    | .pending .markShutdownStarted => 3
    | .pending .listen => 2
    | .pending .runtimeClose => 1
    | _ => 0) + if m.listening then 1 else 0

def Startup.work : Startup → Nat
  | .starting .readiness => 3
  | .starting .adapter => 2
  | .starting .shutdownRegistration => 1
  | _ => 0

/-- What is left of an attempt behind the first `k` phases. -/
def phasesWork (calls cleanups : Nat) : Nat → Nat
  | 0 => 4 + calls + cleanups
  | 1 => 3 + calls + cleanups
  | 2 => 3 + calls
  | 3 => 3
  | 4 => 2
  | _ => 1

def CloseAwait.work (calls cleanups microservices : Nat) : CloseAwait → Nat
  | .listen => 6 + calls + cleanups + microservices
  | .unregisterShutdownSignals => 5 + calls + cleanups + microservices
  | .microservice _ rest _ => 5 + calls + cleanups + rest.length
  | .readiness => 4 + calls + cleanups
  | .cleanup next _ => 4 + calls + (cleanups - next)
  | .hook rest _ => 4 + rest.length
  | .adapter => 3
  | .container => 2

def State.closingWork (instances : List LifecycleInstance) (s : State) : Nat :=
  match s.closingPromise with
  | some (.pending _ a) =>
    a.work (hookCalls instances).length s.runtimeCleanup.length s.connectedMicroservices.length
  | some (.rejected _) => 1
  | _ => 0

def State.microservicesWork (s : State) : Nat := (s.connectedMicroservices.map Microservice.work).sum

def State.work (instances : List LifecycleInstance) (s : State) : Nat :=
  s.closingWork instances + s.startup.work + s.microservicesWork

theorem finish_closingWork : (s.finish c).closingWork instances ≤ 1 := by
  unfold State.finish
  dsimp only
  split
  next =>
    simp only [State.settle, State.closingWork]
    cases s.closedOutcome <;> simp
  next => exact Nat.le_refl _

theorem phasesWork_succ (calls cleanups k : Nat) : phasesWork calls cleanups (k + 1) ≤ phasesWork calls cleanups k := by
  match k with
  | 0 | 1 | 2 | 3 | 4 | _ + 5 => simp only [phasesWork]; omega

theorem Proceeds.closingWork {k : Nat} (h : Proceeds instances k s c t) :
    t.closingWork instances ≤ phasesWork (hookCalls instances).length s.runtimeCleanup.length k := by
  induction h with
  | skip _ _ _ ih => exact Nat.le_trans ih (phasesWork_succ ..)
  | noCleanup _ none _ ih =>
    rw [complete_eq] at ih
    exact Nat.le_trans ih (phasesWork_succ ..)
  | noHook _ none _ ih =>
    rw [complete_eq] at ih
    exact Nat.le_trans ih (phasesWork_succ ..)
  | readiness | adapter | container => exact Nat.le_refl _
  | cleanup due first =>
    have some := (List.getElem?_eq_some_iff.mp first).1
    simp only [State.closingWork, State.await, CloseAwait.work, phasesWork]
    omega
  | hook due calls =>
    simp only [State.closingWork, State.await, CloseAwait.work, phasesWork, calls, List.length_cons]
    omega
  | finish => exact finish_closingWork

theorem microservicesNext_closingWork {errors : List CloseError} {rest : List Nat} :
    (s.microservicesNext instances c errors rest).closingWork instances ≤
      4 + (hookCalls instances).length + s.runtimeCleanup.length + rest.length := by
  cases rest with
  | nil =>
    rw [State.microservicesNext]
    split
    next => exact (closeRuntimeResources_proceeds instances { s with connectedMicroservicesClosed := true } c).closingWork
    next => exact (closeRuntimeResources_proceeds ..).closingWork
  | cons index rest =>
    simp only [State.microservicesNext, State.closingWork, State.await, CloseAwait.work, List.length_cons]
    omega

theorem Microservice.close_work (m : Microservice) : m.close.work ≤ m.work := by
  unfold Microservice.close
  split
  next h => simp [Microservice.work, h]
  next => exact Nat.le_refl _

theorem sum_modify_le (l : List Microservice) (index : Nat) :
    ((l.modify index Microservice.close).map Microservice.work).sum ≤ (l.map Microservice.work).sum := by
  induction l generalizing index with
  | nil => simp
  | cons m rest ih =>
    cases index with
    | zero => simpa using m.close_work
    | succ index => simpa using ih index

theorem sum_set_lt {l : List Microservice} {index : Nat} {m m' : Microservice} (here : l[index]? = some m)
    (less : m'.work < m.work) : ((l.set index m').map Microservice.work).sum < (l.map Microservice.work).sum := by
  induction l generalizing index with
  | nil => simp at here
  | cons x rest ih =>
    cases index with
    | zero =>
      obtain rfl : x = m := by simpa using here
      simpa using less
    | succ index => simpa using ih (by simpa using here)

/-- The rest of the work when an attempt goes on in one way or another. -/
structure Lighter (s t : State) : Prop where
  startup : t.startup = s.startup
  microservices : t.microservicesWork ≤ s.microservicesWork

theorem Frame.lighter (h : Frame s t) : Lighter s t :=
  ⟨h.startup, by rw [State.microservicesWork, h.microservices]; exact Nat.le_refl _⟩

theorem microservicesNext_lighter {errors : List CloseError} {rest : List Nat} :
    Lighter s (s.microservicesNext instances c errors rest) := by
  cases rest with
  | nil =>
    rw [State.microservicesNext]
    split
    next =>
      have lighter := (closeRuntimeResources_proceeds instances
        { s with connectedMicroservicesClosed := true } c).frame.lighter
      exact { lighter with }
    next => exact (closeRuntimeResources_proceeds ..).frame.lighter
  | cons index rest => exact ⟨rfl, sum_modify_le ..⟩

theorem closeConnectedMicroservices_lighter : Lighter s (s.closeConnectedMicroservices instances c) := by
  unfold State.closeConnectedMicroservices
  split
  · exact (closeRuntimeResources_proceeds ..).frame.lighter
  · exact microservicesNext_lighter

theorem closeConnectedMicroservices_closingWork :
    (s.closeConnectedMicroservices instances c).closingWork instances ≤
      4 + (hookCalls instances).length + s.runtimeCleanup.length + s.connectedMicroservices.length := by
  unfold State.closeConnectedMicroservices
  split
  · exact Nat.le_trans (closeRuntimeResources_proceeds ..).closingWork (Nat.le_add_right _ _)
  · have bound : (s.microservicesNext instances c [] (List.range s.connectedMicroservices.length).reverse).closingWork
        instances ≤ _ := microservicesNext_closingWork
    simpa using bound

theorem work_lt {a : CloseAwait} (promise : s.closingPromise = some (.pending c a)) (lighter : Lighter s t)
    (less : t.closingWork instances <
      a.work (hookCalls instances).length s.runtimeCleanup.length s.connectedMicroservices.length) :
    t.work instances < s.work instances := by
  have now : s.closingWork instances =
      a.work (hookCalls instances).length s.runtimeCleanup.length s.connectedMicroservices.length := by
    simp [State.closingWork, promise]
  have := lighter.microservices
  unfold State.work
  rw [lighter.startup]
  omega

theorem closeStep_work {a : CloseAwait} {error : Option Nat} (promise : s.closingPromise = some (.pending c a))
    (h : s.closeStep instances c error a = some t) : t.work instances < s.work instances := by
  cases a with
  | listen | microservice => cases h
  | unregisterShutdownSignals =>
    cases h
    have lighter : Lighter (s.unregistered error) ((s.unregistered error).closeConnectedMicroservices instances c) :=
      closeConnectedMicroservices_lighter
    have bound : ((s.unregistered error).closeConnectedMicroservices instances c).closingWork instances ≤ _ :=
      closeConnectedMicroservices_closingWork
    refine work_lt promise { lighter with } ?_
    simp only [CloseAwait.work]
    exact Nat.lt_of_le_of_lt bound (by simp only [State.unregistered]; omega)
  | readiness =>
    cases error with
    | some value =>
      cases h
      refine work_lt promise (Frame.finish ..).lighter (Nat.lt_of_le_of_lt finish_closingWork ?_)
      simp only [CloseAwait.work]
      omega
    | none =>
      cases h
      have proceeds := runCleanupCallbacks_proceeds instances (s.complete .readiness []) (c.attempt .readiness [])
      refine work_lt promise ((Frame.complete ..).trans proceeds.frame).lighter (Nat.lt_of_le_of_lt proceeds.closingWork ?_)
      rw [(Frame.complete ..).cleanups]
      simp only [phasesWork, CloseAwait.work]
      omega
  | cleanup next errors =>
    cases h
    refine work_lt promise cleanupNext_frame.lighter ?_
    unfold State.cleanupNext
    split
    next here =>
      have bound := (List.getElem?_eq_some_iff.mp here).1
      simp only [State.closingWork, State.await, CloseAwait.work]
      omega
    next =>
      refine Nat.lt_of_le_of_lt (runShutdownHooks_proceeds ..).closingWork ?_
      simp only [phasesWork, CloseAwait.work]
      omega
  | hook rest errors =>
    cases h
    refine work_lt promise hooksNext_frame.lighter ?_
    cases rest with
    | nil =>
      refine Nat.lt_of_le_of_lt (closeAdapter_proceeds instances _ _).closingWork ?_
      simp only [phasesWork, CloseAwait.work]
      omega
    | cons call rest =>
      simp only [State.hooksNext, State.closingWork, State.await, CloseAwait.work, List.length_cons]
      omega
  | adapter =>
    cases h
    have proceeds := disposeContainer_proceeds instances (s.complete .adapter (reason error)) (c.attempt .adapter (reason error))
    refine work_lt promise ((Frame.complete ..).trans proceeds.frame).lighter (Nat.lt_of_le_of_lt proceeds.closingWork ?_)
    simp only [phasesWork, CloseAwait.work]
    omega
  | container =>
    cases h
    exact work_lt promise ((Frame.complete ..).trans (.finish ..)).lighter (Nat.lt_succ_of_le finish_closingWork)

theorem microservice_work {m m' : Microservice} {index : Nat} {e : MicroserviceEvent}
    (settles : (Event.microservice index e).settles = true) (h : m.step e = some m') : m'.work < m.work := by
  cases e with
  | listen | close => cases settles
  | listenSettled error =>
    simp only [Microservice.step, Option.ite_none_right_eq_some, Option.some.injEq] at h
    obtain ⟨listening, rfl⟩ := h
    simp only [Microservice.work, listening]
    simp
  | marked error =>
    simp only [Microservice.step] at h
    split at h
    next pending =>
      cases error <;> cases h
      · simp only [Microservice.work, pending]
        cases m.listening <;> simp
      · cases listening : m.listening <;> simp [Microservice.reject, Microservice.work, pending, listening]
    next => cases h
  | listenAwaited =>
    simp only [Microservice.step] at h
    split at h
    next pending =>
      split at h <;> cases h
      simp only [Microservice.work, pending]
      omega
    next => cases h
  | runtimeClosed error =>
    simp only [Microservice.step] at h
    split at h
    next pending =>
      cases error <;> cases h
      · simp only [Microservice.work, pending]
        omega
      · cases listening : m.listening <;> simp [Microservice.reject, Microservice.work, pending, listening]
    next => cases h

theorem startup_lt {startup : Startup} (signals : Bool) (less : startup.work < s.startup.work) :
    State.work instances { s with startup := startup, unregisterShutdownSignals := signals } < s.work instances := by
  change s.closingWork instances + startup.work + s.microservicesWork < _
  unfold State.work
  omega

theorem step_work {hasHttpAdapter : Bool} {e : Event} (h : step hasHttpAdapter instances s e = some t)
    (settles : e.settles = true) : t.work instances < s.work instances := by
  cases e with
  | listen | startupFailed | connected | registerCleanup | unregisterCleanup | close => cases settles
  | started error =>
    simp only [step] at h
    split at h <;> cases h
    next await _ here =>
      refine startup_lt _ ?_
      rw [here]
      cases await <;> decide
    next here => exact startup_lt _ (by rw [here]; decide)
    next here =>
      refine startup_lt _ ?_
      rw [here]
      split <;> decide
  | shutdownRegistered unregister =>
    simp only [step] at h
    split at h <;> cases h
    next here =>
      refine startup_lt _ ?_
      rw [here]
      split <;> decide
  | microservice index event =>
    obtain ⟨m', step, rfl⟩ := Option.map_eq_some_iff.mp h
    obtain ⟨m, here, step⟩ := Option.bind_eq_some_iff.mp step
    have less := sum_set_lt here (microservice_work settles step)
    simpa [State.work, State.closingWork, State.microservicesWork] using less
  | listenAwaited =>
    simp only [step] at h
    split at h
    next => cases h
    next c promise _ =>
      cases h
      unfold State.unregister
      split
      next =>
        refine work_lt promise ⟨rfl, Nat.le_refl _⟩ ?_
        simp only [State.closingWork, State.await, CloseAwait.work]
        omega
      next =>
        refine work_lt promise closeConnectedMicroservices_lighter ?_
        refine Nat.lt_of_le_of_lt closeConnectedMicroservices_closingWork ?_
        simp only [CloseAwait.work]
        omega
    next => cases h
  | microserviceAwaited =>
    simp only [step] at h
    split at h
    next c index rest errors promise =>
      have goesOn : ∀ errors, (s.microservicesNext instances c errors rest).work instances < s.work instances := by
        intro errors
        refine work_lt promise microservicesNext_lighter (Nat.lt_of_le_of_lt microservicesNext_closingWork ?_)
        simp only [CloseAwait.work]
        omega
      split at h <;> cases h <;> exact goesOn _
    next => cases h
  | closeStep error =>
    simp only [step] at h
    split at h
    next c a promise => exact closeStep_work promise h
    next => cases h
  | reset =>
    simp only [step] at h
    split at h
    next promise =>
      cases h
      simp only [State.work, State.closingWork, State.microservicesWork, promise]
      omega
    next => cases h

theorem settling_bounded {hasHttpAdapter : Bool} {es : List Event}
    (run : Run.run (step hasHttpAdapter instances) s es = some t) (settles : ∀ e ∈ es, e.settles = true) :
    es.length + t.work instances ≤ s.work instances := by
  induction es generalizing s with
  | nil => cases run; simp
  | cons e rest ih =>
    obtain ⟨u, hu, run⟩ := Run.run_cons run
    have now := step_work hu (settles e List.mem_cons_self)
    have later := ih run fun e mem => settles e (List.mem_cons_of_mem _ mem)
    rw [List.length_cons]
    omega

/-- While an attempt is in progress there is something it waits for. -/
theorem settles_enabled {hasHttpAdapter : Bool} {a : CloseAwait} (inv : Inv s)
    (promise : s.closingPromise = some (.pending c a)) :
    ∃ e, e.settles = true ∧ ∃ t, step hasHttpAdapter instances s e = some t := by
  have h := inv.attempt c a promise
  cases a with
  | listen =>
    cases startup : s.startup with
    | starting await =>
      cases await with
      | readiness | adapter => exact ⟨.started none, rfl, by simp [step, startup]⟩
      | shutdownRegistration => exact ⟨.shutdownRegistered false, rfl, by simp [step, startup]⟩
    | undefined | failed | settled => exact ⟨.listenAwaited, rfl, by simp [step, startup, promise]⟩
  | microservice index rest errors =>
    obtain ⟨m, here, started⟩ := h.2.closing
    cases closing : m.closingPromise with
    | undefined => exact absurd closing started
    | pending await =>
      cases await with
      | markShutdownStarted =>
        exact ⟨.microservice index (.marked none), rfl, by simp [step, here, Microservice.step, closing]⟩
      | listen =>
        cases listening : m.listening with
        | true => exact ⟨.microservice index (.listenSettled none), rfl, by simp [step, here, Microservice.step, listening]⟩
        | false =>
          exact ⟨.microservice index .listenAwaited, rfl, by simp [step, here, Microservice.step, closing, listening]⟩
      | runtimeClose =>
        exact ⟨.microservice index (.runtimeClosed none), rfl, by simp [step, here, Microservice.step, closing]⟩
    | fulfilled | rejected => exact ⟨.microserviceAwaited, rfl, by simp [step, promise, here, closing]⟩
  | unregisterShutdownSignals | readiness | cleanup | hook | adapter | container =>
    exact ⟨.closeStep none, rfl, by simp [step, promise, State.closeStep]⟩

theorem InProgress.through {a : CloseAwait} (h : InProgress s c a) : ∃ k, Through s c k := by
  cases a with
  | listen | unregisterShutdownSignals => exact ⟨0, h.toThrough⟩
  | microservice => exact ⟨0, h.1.toThrough⟩
  | readiness => exact ⟨0, h.1.toThrough⟩
  | cleanup => exact ⟨1, h.1.toThrough⟩
  | hook => exact ⟨2, h.1.toThrough⟩
  | adapter => exact ⟨3, h.1.toThrough⟩
  | container => exact ⟨4, h.1.toThrough⟩

theorem Inv.apart_pending {a : CloseAwait} (inv : Inv s) (promise : s.closingPromise = some (.pending c a)) :
    ∀ earlier ∈ s.attempts, ∀ phase, (phase, true) ∈ earlier.1.attempted →
      phase ∉ c.record.attempted.map Prod.fst := by
  intro earlier mem phase done again
  obtain ⟨k, through⟩ := (inv.attempt c a promise).through
  rw [through.attempted] at again
  have before := (through.earlier phase).mpr ⟨earlier, mem, done⟩
  simpa [before] using (List.mem_filter.mp again).2

/-- A call is fulfilled only when everything is down, and nothing has failed for
good. -/
theorem Inv.fulfilled_down {caller : Caller} (inv : Inv s) (fulfilled : (caller, none) ∈ s.settled) :
    s.Down ∧ s.Healthy := by
  obtain ⟨closed, signals⟩ := inv.fulfilled (caller, none) fulfilled rfl
  have finished := inv.closed closed
  have all := (inv.microservicesClosed finished.2).2
  have idle : ∀ c a, s.closingPromise ≠ some (.pending c a) := by
    intro c a promise
    obtain ⟨k, through⟩ := (inv.attempt c a promise).through
    rw [through.closed] at closed
    cases closed
  refine ⟨⟨fun phase => inv.idle idle phase (finished.1 phase (phase_mem phase)), all⟩, signals, fun i error rejected => ?_⟩
  obtain ⟨m, here, rejected⟩ := Option.map_eq_some_iff.mp rejected
  have mem := List.mem_of_getElem? here
  rw [((inv.microservices m mem).closed).mp (all m mem)] at rejected
  cases rejected

theorem never_fulfils {hasHttpAdapter : Bool} {es : List Event} {caller : Caller} (inv : Inv s) (failed : ¬s.Healthy)
    (run : Run.run (step hasHttpAdapter instances) s es = some t) : (caller, none) ∉ t.settled := by
  intro fulfilled
  have inv' : Inv t := Run.keeps (fun _ _ _ => step_inv) inv run
  exact failed ((run_later run).healthy (inv'.fulfilled_down fulfilled).2)

theorem run_accounts {hasHttpAdapter : Bool} {es : List Event} {call : Nat}
    (run : Run.run (step hasHttpAdapter instances) s es = some t) (called : .close call ∈ es) :
    t.Accounts (.host call) := by
  induction es generalizing s with
  | nil => cases called
  | cons e rest ih =>
    obtain ⟨u, hu, after⟩ := Run.run_cons run
    rcases List.mem_cons.mp called with rfl | called
    · exact (run_later after).accounted _ (close_accounted hu)
    · exact ih after called

end

end Fluo.Runtime.Application
