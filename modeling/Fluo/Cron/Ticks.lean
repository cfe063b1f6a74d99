import Fluo.Cron.Schedule

/-!
# Ticks and locks

A tick in the steps that its lock makes of it: `handleTaskTick`, the answer of
`tryAcquireLock`, `executeTask`, and the release of the lock. The rest of the
service goes on in between.
-/

namespace Fluo.Cron

open Fluo.Run

/-- How far a tick that has been accepted is. -/
inductive TickStage
  | acquiring
  | executing
  | leaving
  | over
  deriving DecidableEq, Repr

/-- What the service says when a tick enters `executeTask`. -/
structure Entry where
  run : Nat
  locked : Bool
  shutDown : Bool
  lifecycleState : LifecycleState
  enabled : Bool
  registered : Bool
  active : Bool
  deriving DecidableEq, Repr

/-- The token is the active one of an enabled task that is registered. -/
def Entry.current (entry : Entry) : Bool := entry.enabled && entry.registered && entry.active

structure TickState where
  cron : CronState
  stage : Nat → TickStage
  entries : List Entry

/-- A shutdown has begun, and no bootstrap has gone on since. -/
def LifecycleState.closed (state : LifecycleState) : Bool := state = .stopping || state = .stopped

def TickState.initial : TickState := ⟨Cron.initial, fun _ => .over, []⟩

def isRegistered (s : CronState) (i : Nat) : Bool := s.tasks.get (s.task i).descriptor.taskName = some i

def observe (s : CronState) (r i token : Nat) (locked : Bool) : Entry where
  run := r
  locked
  shutDown := s.shutdownPromise.isSome
  lifecycleState := s.lifecycleState
  enabled := (s.task i).enabled
  registered := i ∈ s.tasks.values
  active := (s.task i).activeScheduleToken = some token

/-- A run enters `executeTask`, as the service is in `now`. -/
def TickState.execute (s : TickState) (now : CronState) (r i token : Nat) (locked : Bool) : TickState :=
  { s with stage := Function.update s.stage r .executing, entries := s.entries ++ [observe now r i token locked] }

/-- `client` says whether the client of the locks is resolved. -/
def shouldUseDistributedExecution (options : CronOptions) (descriptor : CronTaskDescriptor) (client : Bool) : Bool :=
  options.distributedEnabled && descriptor.distributed && client

/-- A tick that has been accepted in `now` begins with its lock, if it needs one. -/
def TickState.beginRun (options : CronOptions) (s : TickState) (now : CronState) (r i token : Nat) (client : Bool) :
    TickState :=
  if shouldUseDistributedExecution options (now.task i).descriptor client then
    { s with stage := Function.update s.stage r .acquiring }
  else s.execute now r i token false

def tickTask (options : CronOptions) (s : TickState) (h : Nat) (client : Bool) : Option TickState :=
  (tick s.cron h).map fun t =>
    match acceptedTask s.cron h with
    | some i => { s with cron := t }.beginRun options s.cron s.cron.runCount i h client
    | none => { s with cron := t }

/-- A task for which the scheduler is asked for a handle, which is ticking already. -/
def scheduling (s : CronState) (i : Nat) : CronState :=
  { s with
    handle := Function.update s.handle s.handleCount ⟨i, (s.task i).descriptor.taskName, .cron, true, false⟩
    handleCount := s.handleCount + 1
    task := Function.update s.task i
      { s.task i with enabled := true, activeScheduleToken := some s.handleCount } }

/-- What is left of such a handle is its tick, for task `j`. -/
def lose (s now : CronState) (j : Nat) : CronState :=
  { now with
    run := Function.update s.run s.runCount ⟨j, s.handleCount, .executing⟩
    runCount := s.runCount + 1
    task := Function.update s.task j { s.task j with running := true } }

/-- The scheduler calls a callback and then throws, so that the handle is never known. -/
def tickLost (options : CronOptions) (s : TickState) (name : Js.JsString) (client : Bool) : Option TickState :=
  match s.cron.tasks.get name with
  | none => none
  | some i =>
    let task := s.cron.task i
    if task.descriptor.kind ≠ .cron ∨ task.scheduledHandle.isSome then none
    else
      let now := scheduling s.cron i
      let h := s.cron.handleCount
      match acceptedTask now h with
      | none => none
      | some j =>
        some ({ s with cron := lose s.cron now j }.beginRun options now s.cron.runCount j h client)

/-- The answer of `tryAcquireLock`. Startup rollback lets a tick with a lease go on. -/
def acquired (s : TickState) (r : Nat) (lease : Bool) : Option TickState :=
  if s.cron.runCount ≤ r ∨ s.stage r ≠ .acquiring then none
  else
    let token := (s.cron.run r).token
    let i := (s.cron.run r).task
    if !lease || (s.cron.lifecycleState ≠ .failed && !(isTaskTickCurrent s.cron token i && isRegistered s.cron i)) then
      some { s with stage := Function.update s.stage r .leaving }
    else some (s.execute s.cron r i token true)

def endRun (s : TickState) (r : Nat) : Option TickState :=
  if s.stage r ≠ .executing then none
  else (endExecution s.cron r).map fun t => { s with cron := t, stage := Function.update s.stage r .leaving }

def leaveRun (s : TickState) (r : Nat) : Option TickState :=
  if s.stage r ≠ .leaving then none
  else (leaveTick s.cron r).map fun t => { s with cron := t, stage := Function.update s.stage r .over }

inductive TickEvent
  | tick (handle : Nat) (client : Bool)
  | tickLost (name : Js.JsString) (client : Bool)
  | acquired (run : Nat) (lease : Bool)
  | endExecution (run : Nat)
  | leaveTick (run : Nat)
  | service (event : CronEvent)

def CronEvent.ticks : CronEvent → Bool
  | .tick _ | .endExecution _ | .leaveTick _ => true
  | _ => false

def tickStep (options : CronOptions) (s : TickState) : TickEvent → Option TickState
  | .tick h client => tickTask options s h client
  | .tickLost name client => tickLost options s name client
  | .acquired r lease => acquired s r lease
  | .endExecution r => endRun s r
  | .leaveTick r => leaveRun s r
  | .service event =>
    if event.ticks then none else (step options s.cron event).map fun t => { s with cron := t }

def TickEvent.bootstraps : TickEvent → Bool
  | .service .beginBootstrap | .service (.settleBootstrap _ _) => true
  | _ => false

def TickEvent.schedules : TickEvent → Bool
  | .service (.resolveBootstrap _ _ _) => true
  | _ => false

end Fluo.Cron
