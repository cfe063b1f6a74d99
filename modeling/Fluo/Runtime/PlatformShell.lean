import Fluo.Lib.Run
import Fluo.Runtime.PlatformComponents

/-!
# The platform shell

`start()` and `stop()` of the shell over components that may fail to validate,
start and stop. A step is what runs between two awaits of a component. Awaits of
the shell's own promises are no steps: only calls that the active transition
rejects can fall there.
-/

namespace Fluo.Runtime

open Js

inductive PlatformLifecycleOperation where
  | start
  | stop
  deriving DecidableEq

inductive PlatformIssueSeverity where
  | error
  | warning
  | info
  deriving DecidableEq

structure PlatformDiagnosticIssue where
  code : JsString
  severity : PlatformIssueSeverity
  componentId : JsString
  deriving DecidableEq

structure PlatformValidationResult where
  ok : Bool
  issues : List PlatformDiagnosticIssue

def createPlatformFailureIssue (componentId : JsString) : PlatformDiagnosticIssue :=
  ⟨text "RUNTIME_PLATFORM_COMPONENT_FAILURE", .error, componentId⟩

def createPlatformValidationFailureIssue (componentId : JsString) : PlatformDiagnosticIssue :=
  ⟨text "RUNTIME_PLATFORM_VALIDATION_FAILED", .error, componentId⟩

/-- Errors of the shell's promises with the data of their messages. -/
inductive PlatformShellError where
  | graph (error : PlatformGraphError)
  | validationFailed (issues : List (JsString × JsString))
  | componentFailedToStart (id message : JsString)
  /-- The `AggregateError` of a stop. -/
  | failedToStop (errors : List JsString)
  deriving DecidableEq

namespace Platform

/-- Why components are being stopped. -/
inductive StopPurpose where
  | stop
  /-- `start()` first stops what an earlier rollback has left. -/
  | beforeStart
  | startRollback (id message : JsString)
  deriving DecidableEq

def StopPurpose.operation : StopPurpose → PlatformLifecycleOperation
  | .stop => .stop
  | .beforeStart | .startRollback .. => .start

/-- A failed rollback does not hide the failure of the start. -/
def StopPurpose.error (errors : List JsString) : StopPurpose → PlatformShellError
  | .stop | .beforeStart => .failedToStop errors
  | .startRollback id message => .componentFailedToStart id message

/-- What a transition waits for. -/
inductive Await where
  | validate (component : RegisteredPlatformComponent) (rest : List RegisteredPlatformComponent)
      (failures : List PlatformDiagnosticIssue)
  | start (component : RegisteredPlatformComponent) (startedComponents rest : List RegisteredPlatformComponent)
  | stop (component : RegisteredPlatformComponent) (rest : List RegisteredPlatformComponent) (errors : List JsString)
      (pendingComponents : List RegisteredPlatformComponent) (purpose : StopPurpose)
  /-- The promise is settled, its reaction has not run yet. -/
  | settled

structure PlatformLifecycleTransition where
  operation : PlatformLifecycleOperation
  await : Await

structure RuntimePlatformShell where
  started : Bool
  orderedComponents : List RegisteredPlatformComponent
  rollbackPendingComponents : List RegisteredPlatformComponent
  activeLifecycleTransition : Option PlatformLifecycleTransition

/-- What can be seen of the shell; a list of actions has the latest first. -/
inductive Action where
  | called (operation : PlatformLifecycleOperation)
  /-- A call that is rejected with a `PlatformLifecycleConflictError`. -/
  | conflict (activeOperation requestedOperation : PlatformLifecycleOperation)
  | startComponent (id : JsString)
  | componentStarted (id : JsString) (fulfilled : Bool)
  | stopComponent (id : JsString)
  | componentStopped (id : JsString) (fulfilled : Bool)
  | settled (operation : PlatformLifecycleOperation) (outcome : Except PlatformShellError Unit)

structure System where
  shell : RuntimePlatformShell
  log : List Action

namespace System

def initial : System := ⟨⟨false, [], [], none⟩, []⟩

def await (s : System) (operation : PlatformLifecycleOperation) (await : Await) (action : List Action) : System :=
  ⟨{ s.shell with activeLifecycleTransition := some ⟨operation, await⟩ }, action ++ s.log⟩

def settle (s : System) (operation : PlatformLifecycleOperation) (outcome : Except PlatformShellError Unit) : System :=
  s.await operation .settled [.settled operation outcome]

def withPending (s : System) (pendingComponents : List RegisteredPlatformComponent) : System :=
  { s with shell := { s.shell with rollbackPendingComponents := pendingComponents } }

def withStarted (s : System) (started : Bool) : System := { s with shell := { s.shell with started := started } }

def withOrdered (s : System) (ordered : List RegisteredPlatformComponent) : System :=
  { s with shell := { s.shell with orderedComponents := ordered } }

def record (s : System) (action : Action) : System := { s with log := action :: s.log }

def startNext (s : System) (startedComponents : List RegisteredPlatformComponent) :
    List RegisteredPlatformComponent → System
  | [] => ((s.withStarted true).withPending []).settle .start (.ok ())
  | component :: rest => s.await .start (.start component startedComponents rest) [.startComponent component.id]

variable (components : List RegisteredPlatformComponent)

/-- The loop of `validateComponents`, and what `startComponents` does next. -/
def validateNext (s : System) (failures : List PlatformDiagnosticIssue) : List RegisteredPlatformComponent → System
  | [] =>
    if failures.length > 0 then
      s.settle .start (.error (.validationFailed (failures.map fun issue => (issue.componentId, issue.code))))
    else
      match orderPlatformComponents components with
      | .error error => s.settle .start (.error (.graph error))
      | .ok ordered => (s.withOrdered ordered).startNext [] ordered
  | component :: rest => s.await .start (.validate component rest failures) []

def checkGraph (s : System) : System :=
  match assertValidPlatformComponentGraph components with
  | .error error => s.settle .start (.error (.graph error))
  | .ok () => s.validateNext components [] components

/-- What follows when all components are stopped. -/
def afterStop (s : System) : StopPurpose → System
  | .stop => s.settle .stop (.ok ())
  | .beforeStart => s.checkGraph components
  | .startRollback id message => s.settle .start (.error (.componentFailedToStart id message))

/-- The loop of `stopStartedComponents`; each error is that of one pending
component. -/
def stopNext (s : System) (purpose : StopPurpose) (errors : List JsString)
    (pendingComponents : List RegisteredPlatformComponent) : List RegisteredPlatformComponent → System
  | [] =>
    if errors.length > 0 then
      (s.withPending pendingComponents).settle purpose.operation (.error (purpose.error errors))
    else (s.withPending []).afterStop components purpose
  | component :: rest =>
    s.await purpose.operation (.stop component rest errors pendingComponents purpose) [.stopComponent component.id]

def stopComponents (s : System) (purpose : StopPurpose) : System :=
  if s.shell.started = false ∧ s.shell.rollbackPendingComponents = [] then s.afterStop components purpose
  else
    let toStop :=
      if s.shell.rollbackPendingComponents.length > 0 then s.shell.rollbackPendingComponents
      else if s.shell.orderedComponents.length > 0 then s.shell.orderedComponents
      else components
    (s.withStarted false).stopNext components purpose [] [] toStop.reverse

def startComponents (s : System) : System :=
  if components = [] ∨ s.shell.started = true then s.settle .start (.ok ())
  else if s.shell.rollbackPendingComponents.length > 0 then s.stopComponents components .beforeStart
  else s.checkGraph components

def runLifecycleTransition (s : System) (operation : PlatformLifecycleOperation) : System :=
  match s.shell.activeLifecycleTransition with
  | some transition => s.record (.conflict transition.operation operation)
  | none =>
    match operation with
    | .start => (s.record (.called .start)).startComponents components
    | .stop => (s.record (.called .stop)).stopComponents components .stop

end System

/-- The issues that make a validation fail; the result is `none` where
`validate()` has thrown. -/
def validationFailures (component : RegisteredPlatformComponent) :
    Option PlatformValidationResult → List PlatformDiagnosticIssue
  | none => [createPlatformFailureIssue component.id]
  | some result =>
    if result.ok = false ∨ result.issues.any (·.severity = .error) then
      if result.issues.length > 0 then result.issues else [createPlatformValidationFailureIssue component.id]
    else []

inductive Event where
  | call (operation : PlatformLifecycleOperation)
  | validated (result : Option PlatformValidationResult)
  /-- The awaited `start()` or `stop()` of a component fulfils, or rejects with
  an error of this message. -/
  | componentSettled (failure : Option JsString)
  | reaction

def step (components : List RegisteredPlatformComponent) (s : System) : Event → Option System
  | .call operation => some (s.runLifecycleTransition components operation)
  | .validated result =>
    match s.shell.activeLifecycleTransition with
    | some ⟨_, .validate component rest failures⟩ =>
      some (s.validateNext components (failures ++ validationFailures component result) rest)
    | _ => none
  | .componentSettled failure =>
    match s.shell.activeLifecycleTransition with
    | some ⟨_, .start component startedComponents rest⟩ =>
      let s := s.record (.componentStarted component.id failure.isNone)
      match failure with
      | none => some (s.startNext (startedComponents ++ [component]) rest)
      | some message =>
        some (s.stopNext components (.startRollback component.id message) [] [] startedComponents.reverse)
    | some ⟨_, .stop component rest errors pendingComponents purpose⟩ =>
      let s := s.record (.componentStopped component.id failure.isNone)
      match failure with
      | none => some (s.stopNext components purpose errors pendingComponents rest)
      | some message =>
        some (s.stopNext components purpose (errors ++ [message]) (component :: pendingComponents) rest)
    | _ => none
  | .reaction =>
    match s.shell.activeLifecycleTransition with
    | some ⟨_, .settled⟩ => some { s with shell := { s.shell with activeLifecycleTransition := none } }
    | _ => none

end Platform

end Fluo.Runtime
