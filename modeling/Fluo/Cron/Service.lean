import Fluo.Lib.JsString
import Fluo.Lib.OrderedMap
import Fluo.Lib.Run
import Mathlib.Logic.Function.Basic

/-!
# The cron service

`CronLifecycleService` with its registry operations, ticks, task completions,
bootstrap and shutdown. Whether a handle can be created or stopped is up to the
scheduler, so each operation is given what happens.
-/

namespace Fluo.Cron

open Fluo.Js

inductive SchedulingTaskKind
  | cron
  | interval
  | timeout
  deriving DecidableEq, Repr

structure CronTaskDescriptor where
  taskName : JsString
  kind : SchedulingTaskKind
  expression : Option JsString
  ms : Option Nat
  distributed : Bool
  lockTtlMs : Nat
  deriving DecidableEq, Repr

/-- A handle's place stands for the handle and for its token, which no other handle has. -/
structure RuntimeScheduledTask where
  task : Nat
  taskName : JsString
  kind : SchedulingTaskKind
  stopped : Bool
  fired : Bool
  deriving DecidableEq, Repr

structure RuntimeTaskState where
  activeScheduleToken : Option Nat
  descriptor : CronTaskDescriptor
  enabled : Bool
  pendingStopHandles : List Nat
  running : Bool
  scheduledHandle : Option Nat
  deriving DecidableEq, Repr

inductive LifecycleState
  | created
  | starting
  | ready
  | stopping
  | stopped
  | failed
  deriving DecidableEq, Repr

/-- How far a tick is: in `executeTask`, behind it, or behind `handleTaskTick`. -/
inductive RunPhase
  | executing
  | executed
  | left
  | completed
  deriving DecidableEq, Repr

structure TaskRun where
  task : Nat
  token : Nat
  phase : RunPhase
  deriving DecidableEq, Repr

/-- How far a bootstrap is; `cleaning` says whether the registry is to be cleared. -/
inductive Bootstrap
  | resolving
  | succeeded
  | failing
  | cleaning (clear : Bool)
  | settled
  deriving DecidableEq, Repr

structure CronOptions where
  validExpression : JsString → Bool
  distributedEnabled : Bool
  decorators : List CronTaskDescriptor

structure CronState where
  task : Nat → RuntimeTaskState
  taskCount : Nat
  tasks : OrderedMap JsString Nat
  handle : Nat → RuntimeScheduledTask
  handleCount : Nat
  run : Nat → TaskRun
  runCount : Nat
  bootstrap : Nat → Bootstrap
  bootstrapCount : Nat
  lifecycleState : LifecycleState
  started : Bool
  shutdownPromise : Option Bool

def newTask (descriptor : CronTaskDescriptor) : RuntimeTaskState := ⟨none, descriptor, true, [], false, none⟩

def initial : CronState where
  task := fun _ => newTask ⟨[], .cron, none, none, false, 0⟩
  taskCount := 0
  tasks := OrderedMap.empty
  handle := fun _ => ⟨0, [], .cron, false, false⟩
  handleCount := 0
  run := fun _ => ⟨0, 0, .completed⟩
  runCount := 0
  bootstrap := fun _ => .settled
  bootstrapCount := 0
  lifecycleState := .created
  started := false
  shutdownPromise := none

def CronState.modify (s : CronState) (i : Nat) (f : RuntimeTaskState → RuntimeTaskState) : CronState :=
  { s with task := Function.update s.task i (f (s.task i)) }

def CronState.stop (s : CronState) (h : Nat) : CronState :=
  { s with handle := Function.update s.handle h { s.handle h with stopped := true } }

def RuntimeTaskState.schedule (h : Nat) (task : RuntimeTaskState) : RuntimeTaskState :=
  { task with scheduledHandle := some h, activeScheduleToken := some h }

def RuntimeTaskState.unschedule (task : RuntimeTaskState) : RuntimeTaskState :=
  { task with scheduledHandle := none, activeScheduleToken := none }

def RuntimeTaskState.finish (task : RuntimeTaskState) : RuntimeTaskState := { task.unschedule with enabled := false }

/-! ## Handles -/

def createScheduledHandle (s : CronState) (i : Nat) (creates : Bool) : Option CronState :=
  let descriptor := (s.task i).descriptor
  let complete := match descriptor.kind with
    | .cron => descriptor.expression.any (· ≠ [])
    | .interval | .timeout => descriptor.ms.any (· ≠ 0)
  if complete && creates then
    some { s with
      handle := Function.update s.handle s.handleCount ⟨i, descriptor.taskName, descriptor.kind, false, false⟩
      handleCount := s.handleCount + 1 }
  else none

def scheduleTask (s : CronState) (i : Nat) (creates : Bool) : Option CronState :=
  if (s.task i).enabled = false ∨ (s.task i).scheduledHandle.isSome then some s
  else (createScheduledHandle s i creates).map fun t => t.modify i (·.schedule s.handleCount)

/-- Stops the pending handles that can be stopped. -/
def stopPending (s : CronState) (i : Nat) (stops : Nat → Bool) : CronState :=
  let pending := (s.task i).pendingStopHandles
  { s with
    handle := fun h => if h ∈ pending ∧ stops h = true then { s.handle h with stopped := true } else s.handle h
    task := Function.update s.task i { s.task i with pendingStopHandles := pending.filter (!stops ·) } }

def unscheduleTask (s : CronState) (i : Nat) (stops : Nat → Bool) : Bool × CronState :=
  let (stopped, t) := match (s.task i).scheduledHandle with
    | none => (true, s)
    | some h => if stops h then (true, (s.stop h).modify i (·.unschedule)) else (false, s)
  (stopped && (s.task i).pendingStopHandles.all stops, stopPending t i stops)

def stopAll (stops : Nat → Bool) : List Nat → CronState → Bool × CronState
  | [], s => (true, s)
  | i :: rest, s =>
    let (stopped, t) := unscheduleTask s i stops
    let (stopped', t) := stopAll stops rest t
    (stopped && stopped', t)

def stopAllScheduledTasks (s : CronState) (stops : Nat → Bool) : Bool × CronState := stopAll stops s.tasks.values s

/-! ## The registry -/

def assertValidSchedulingTaskName (name : JsString) : Bool := trim name ≠ []

def registerTask (options : CronOptions) (s : CronState) (descriptor : CronTaskDescriptor) (creates : Bool) :
    Option CronState :=
  if !assertValidSchedulingTaskName descriptor.taskName || s.tasks.has descriptor.taskName ||
      (options.distributedEnabled && descriptor.distributed && descriptor.lockTtlMs < 1000) then none
  else
    let i := s.taskCount
    let t := { s with task := Function.update s.task i (newTask descriptor), taskCount := i + 1 }
    (if s.started then scheduleTask t i creates else some t).map fun t =>
      { t with tasks := t.tasks.set descriptor.taskName i }

def addCron (options : CronOptions) (s : CronState) (name expression : JsString) (distributed : Bool) (lockTtlMs : Nat)
    (creates : Bool) : Option CronState :=
  if options.validExpression expression then
    registerTask options s ⟨name, .cron, some expression, none, distributed, lockTtlMs⟩ creates
  else none

def addInterval (options : CronOptions) (s : CronState) (name : JsString) (ms : Nat) (distributed : Bool)
    (lockTtlMs : Nat) (creates : Bool) : Option CronState :=
  if 0 < ms then registerTask options s ⟨name, .interval, none, some ms, distributed, lockTtlMs⟩ creates else none

def addTimeout (options : CronOptions) (s : CronState) (name : JsString) (ms : Nat) (distributed : Bool)
    (lockTtlMs : Nat) (creates : Bool) : Option CronState :=
  if 0 < ms then registerTask options s ⟨name, .timeout, none, some ms, distributed, lockTtlMs⟩ creates else none

def remove (s : CronState) (name : JsString) (stops : Nat → Bool) : Bool × CronState :=
  match s.tasks.get name with
  | none => (false, s)
  | some i =>
    match unscheduleTask s i stops with
    | (true, t) => (true, { t with tasks := t.tasks.erase name })
    | (false, t) => (false, t)

/-- Nothing when scheduling throws, which leaves the task disabled. -/
def enable (s : CronState) (name : JsString) (creates : Bool) : Option CronState :=
  match s.tasks.get name with
  | none => some s
  | some i =>
    if (s.task i).enabled then some s
    else
      let t := s.modify i ({ · with enabled := true })
      if s.started then scheduleTask t i creates else some t

def disable (s : CronState) (name : JsString) (stops : Nat → Bool) : Bool × CronState :=
  match s.tasks.get name with
  | none => (false, s)
  | some i =>
    let task := s.task i
    if !task.enabled && task.scheduledHandle.isNone && task.pendingStopHandles.isEmpty then (true, s)
    else unscheduleTask (s.modify i ({ · with enabled := false })) i stops

/-- Replaces the schedule of a task, and says whether that throws. -/
def updateSchedule (s : CronState) (name : JsString) (kind : SchedulingTaskKind)
    (change : CronTaskDescriptor → CronTaskDescriptor) (creates : Bool) (stops : Nat → Bool) : Bool × CronState :=
  match s.tasks.get name with
  | none => (true, s)
  | some i =>
    let previous := s.task i
    if previous.descriptor.kind ≠ kind then (true, s)
    else
      let changed := s.modify i fun task => { task with descriptor := change task.descriptor }
      if !previous.enabled || !s.started then (false, changed)
      else
        match createScheduledHandle changed i creates with
        | none => (true, s)
        | some t =>
          let next := s.handleCount
          match previous.scheduledHandle with
          | none => (false, t.modify i (·.schedule next))
          | some h =>
            if stops h then (false, (t.stop h).modify i (·.schedule next))
            else
              -- The replacement is stopped, or kept to be stopped later.
              let t := t.modify i fun _ => previous
              if stops next then (true, t.stop next)
              else (true, t.modify i fun task => { task with pendingStopHandles := task.pendingStopHandles ++ [next] })

def updateCronExpression (options : CronOptions) (s : CronState) (name expression : JsString) (creates : Bool)
    (stops : Nat → Bool) : Bool × CronState :=
  if options.validExpression expression then
    updateSchedule s name .cron (fun descriptor => { descriptor with expression := some expression }) creates stops
  else (true, s)

def updateIntervalMs (s : CronState) (name : JsString) (ms : Nat) (creates : Bool) (stops : Nat → Bool) :
    Bool × CronState :=
  if 0 < ms then updateSchedule s name .interval (fun descriptor => { descriptor with ms := some ms }) creates stops
  else (true, s)

/-! ## Ticks -/

def completeTimeoutTask (s : CronState) (taskName : JsString) (token : Nat) : CronState :=
  match s.tasks.get taskName with
  | none => s
  | some i =>
    if (s.task i).descriptor.kind = .timeout ∧ (s.task i).activeScheduleToken = some token then s.modify i (·.finish)
    else s

def isTaskTickCurrent (s : CronState) (token i : Nat) : Bool :=
  s.lifecycleState ≠ .stopping && s.lifecycleState ≠ .stopped && (s.task i).enabled &&
    (s.task i).activeScheduleToken = some token

/-- The task that a tick of a handle runs, if it is not ignored. -/
def acceptedTask (s : CronState) (h : Nat) : Option Nat :=
  (s.tasks.get (s.handle h).taskName).filter fun i => s.started && isTaskTickCurrent s h i && !(s.task i).running

/-- A handle ticks, a timeout only once and not when it is stopped. -/
def tick (s : CronState) (h : Nat) : Option CronState :=
  let handle := s.handle h
  if s.handleCount ≤ h ∨ handle.kind = .timeout ∧ (handle.stopped ∨ handle.fired) then none
  else
    let t := if handle.kind = .timeout then
      { s with handle := Function.update s.handle h { handle with fired := true } } else s
    match acceptedTask s h with
    | some i =>
      some { t with
        run := Function.update s.run s.runCount ⟨i, h, .executing⟩
        runCount := s.runCount + 1
        task := Function.update s.task i { s.task i with running := true } }
    | none => some (if handle.kind = .timeout then completeTimeoutTask t handle.taskName h else t)

def CronState.setPhase (s : CronState) (r : Nat) (phase : RunPhase) : CronState :=
  { s with run := Function.update s.run r { s.run r with phase } }

/-- The end of `executeTask`. A tick that gets no lock does not come here. -/
def endExecution (s : CronState) (r : Nat) : Option CronState :=
  if s.runCount ≤ r ∨ (s.run r).phase ≠ .executing then none
  else
    let i := (s.run r).task
    let t := s.setPhase r .executed
    some (if (s.task i).descriptor.kind = .timeout then t.modify i (·.finish) else t)

/-- The end of `handleTaskTick`. -/
def leaveTick (s : CronState) (r : Nat) : Option CronState :=
  if s.runCount ≤ r ∨ (s.run r).phase ≠ .executing ∧ (s.run r).phase ≠ .executed then none
  else
    let i := (s.run r).task
    let phase := if (s.handle (s.run r).token).kind = .timeout then .left else .completed
    some ((s.setPhase r phase).modify i ({ · with running := false }))

def completeRun (s : CronState) (r : Nat) : Option CronState :=
  if s.runCount ≤ r ∨ (s.run r).phase ≠ .left then none
  else
    let token := (s.run r).token
    some (completeTimeoutTask (s.setPhase r .completed) (s.handle token).taskName token)

/-! ## Bootstrap and shutdown -/

/-- The state that is reached, and whether all went well. -/
def registerAll (options : CronOptions) (creates : Nat → Bool) : List CronTaskDescriptor → CronState → Bool × CronState
  | [], s => (true, s)
  | descriptor :: rest, s =>
    match registerTask options s descriptor (creates s.taskCount) with
    | none => (false, s)
    | some t => registerAll options creates rest t

def scheduleAll (creates : Nat → Bool) : List Nat → CronState → Bool × CronState
  | [], s => (true, s)
  | i :: rest, s =>
    match scheduleTask s i (creates i) with
    | none => (false, s)
    | some t => scheduleAll creates rest t

/-- `startLifecycle` behind the resolution of its client. -/
def startLifecycle (options : CronOptions) (s : CronState) (creates : Nat → Bool) : Bool × CronState :=
  match registerAll options creates options.decorators s with
  | (false, t) => (false, t)
  | (true, t) => scheduleAll creates t.tasks.values { t with started := true }

def CronState.setBootstrap (s : CronState) (b : Nat) (phase : Bootstrap) : CronState :=
  { s with bootstrap := Function.update s.bootstrap b phase }

def beginBootstrap (s : CronState) : CronState :=
  if s.started then s
  else { s.setBootstrap s.bootstrapCount .resolving with
    bootstrapCount := s.bootstrapCount + 1, lifecycleState := .starting }

def resolveBootstrap (options : CronOptions) (s : CronState) (b : Nat) (resolves : Bool) (creates : Nat → Bool) :
    Option CronState :=
  if s.bootstrapCount ≤ b ∨ s.bootstrap b ≠ .resolving then none
  else if resolves then
    match startLifecycle options s creates with
    | (true, t) => some (t.setBootstrap b .succeeded)
    | (false, t) => some (t.setBootstrap b .failing)
  else some (s.setBootstrap b .failing)

def settleBootstrap (s : CronState) (b : Nat) (stops : Nat → Bool) : Option CronState :=
  if s.bootstrapCount ≤ b then none
  else
    match s.bootstrap b with
    | .succeeded => some { s.setBootstrap b .settled with lifecycleState := .ready }
    | .failing =>
      let (stopped, t) := stopAllScheduledTasks { s with lifecycleState := .failed, started := false } stops
      some (t.setBootstrap b (.cleaning stopped))
    | .cleaning true => some { s.setBootstrap b .settled with tasks := OrderedMap.empty }
    | .cleaning false => some (s.setBootstrap b .settled)
    | .resolving | .settled => none

def shutdown (s : CronState) (stops : Nat → Bool) : Option CronState :=
  match s.shutdownPromise with
  | none =>
    some (stopAllScheduledTasks
      { s with shutdownPromise := some false, lifecycleState := .stopping, started := false } stops).2
  | some false => none
  | some true => some (stopAllScheduledTasks s stops).2

def settleShutdown (s : CronState) : Option CronState :=
  match s.shutdownPromise with
  | some false => some { s with shutdownPromise := some true, lifecycleState := .stopped }
  | _ => none

/-! ## Events -/

inductive CronEvent
  | addCron (name expression : JsString) (distributed : Bool) (lockTtlMs : Nat) (creates : Bool)
  | addInterval (name : JsString) (ms : Nat) (distributed : Bool) (lockTtlMs : Nat) (creates : Bool)
  | addTimeout (name : JsString) (ms : Nat) (distributed : Bool) (lockTtlMs : Nat) (creates : Bool)
  | remove (name : JsString) (stops : Nat → Bool)
  | enable (name : JsString) (creates : Bool)
  | disable (name : JsString) (stops : Nat → Bool)
  | updateCronExpression (name expression : JsString) (creates : Bool) (stops : Nat → Bool)
  | updateIntervalMs (name : JsString) (ms : Nat) (creates : Bool) (stops : Nat → Bool)
  | tick (handle : Nat)
  | endExecution (run : Nat)
  | leaveTick (run : Nat)
  | completeRun (run : Nat)
  | beginBootstrap
  | resolveBootstrap (bootstrap : Nat) (resolves : Bool) (creates : Nat → Bool)
  | settleBootstrap (bootstrap : Nat) (stops : Nat → Bool)
  | shutdown (stops : Nat → Bool)
  | settleShutdown

/-- An operation that throws leaves the state it returns; one that is not enabled has none. -/
def step (options : CronOptions) (s : CronState) : CronEvent → Option CronState
  | .addCron name expression distributed lockTtlMs creates =>
    some ((addCron options s name expression distributed lockTtlMs creates).getD s)
  | .addInterval name ms distributed lockTtlMs creates =>
    some ((addInterval options s name ms distributed lockTtlMs creates).getD s)
  | .addTimeout name ms distributed lockTtlMs creates =>
    some ((addTimeout options s name ms distributed lockTtlMs creates).getD s)
  | .remove name stops => some (remove s name stops).2
  | .enable name creates => some ((enable s name creates).getD s)
  | .disable name stops => some (disable s name stops).2
  | .updateCronExpression name expression creates stops =>
    some (updateCronExpression options s name expression creates stops).2
  | .updateIntervalMs name ms creates stops => some (updateIntervalMs s name ms creates stops).2
  | .tick h => tick s h
  | .endExecution r => endExecution s r
  | .leaveTick r => leaveTick s r
  | .completeRun r => completeRun s r
  | .beginBootstrap => some (beginBootstrap s)
  | .resolveBootstrap b resolves creates => resolveBootstrap options s b resolves creates
  | .settleBootstrap b stops => settleBootstrap s b stops
  | .shutdown stops => shutdown s stops
  | .settleShutdown => settleShutdown s

end Fluo.Cron
