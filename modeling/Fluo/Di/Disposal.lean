import Fluo.Di.Container

/-!
# Evicting and disposing cached instances

`override` evicts cached promises; each becomes a stale task that destroys the
instance once it is there. `dispose` runs one attempt at a time on a
container: children first, then stale tasks, then the container's own
instances in reverse order of materialization.
-/

namespace Fluo.Di

namespace Sys

variable (w : World) (s : Sys)

def modifyTask (τ : Nat) (f : StaleTask → StaleTask) : Sys := { s with tasks := s.tasks.modify τ f }

def modifyAttempt (α : Nat) (f : Attempt → Attempt) : Sys := { s with attempts := s.attempts.modify α f }

def pushTask (task : StaleTask) : Sys := { s with tasks := s.tasks.push task }

def pushAttempt (a : Attempt) : Sys := { s with attempts := s.attempts.push a }

def pushCall (call : DisposeCall) : Sys := { s with calls := s.calls.push call }

def setCall (κ : Nat) (call : DisposeCall) : Sys := { s with calls := s.calls.set κ call }

def log (e : HookEvent) : Sys := { s with hooks := s.hooks ++ [e] }

/-- A container and its tracked descendants. -/
def subtree : Nat → Nat → List Nat
  | 0, _ => []
  | n + 1, c => c :: (s.containers.get c).childScopes.flatMap (subtree n)

def tracked (c : Nat) : List Nat := s.subtree s.containers.size c

/-! ## Stale tasks -/

/-- `observer.staleDisposalTasks.delete(task)` for each of them. -/
def dropTask (τ : Nat) (observers : List Nat) : Sys :=
  observers.foldl (fun s c => s.modifyContainer c fun x => { x with staleTasks := x.staleTasks.erase τ }) s

def scheduleStaleDisposal (c : Nat) (promise : Nat) (staleDisposalOwner : Nat) : Sys :=
  let observers := if staleDisposalOwner = c then [c] else [c, staleDisposalOwner]
  let τ := s.tasks.size
  observers.foldl (fun s d => s.modifyContainer d fun x => { x with staleTasks := x.staleTasks ++ [τ] })
    (s.pushTask ⟨promise, c, observers, .waiting, false, [], false, none⟩)

/-- Cached entries in the order the two maps are iterated. -/
def cacheEntries (c : Nat) : List (CacheKey × Nat) :=
  let entries := (s.containers.get c).cache.entries
  let single (e : CacheKey × Nat) : Bool := match e.1 with
    | .token _ => true
    | .contribution _ => false
  entries.filter single ++ entries.filter (fun e => !single e)

def shouldInvalidate (c : Nat) (overridden : Token) (e : CacheKey × Nat) : Bool :=
  match e.1 with
  | .token t => (s.queries w c).shouldInvalidateCachedToken t overridden
  | .contribution _ =>
    (s.queries w c).shouldInvalidateCachedProvider (s.promises.get e.2).provider overridden

def evict (c : Nat) (staleDisposalOwner : Nat) (e : CacheKey × Nat) : Sys :=
  (s.scheduleStaleDisposal c e.2 staleDisposalOwner).modifyContainer c fun x =>
    { x with cache := x.cache.erase e.1 }

def invalidateAffectedCachedEntries (c : Nat) (t : Token) (staleDisposalOwner : Nat) : Sys :=
  ((s.cacheEntries c).filter (s.shouldInvalidate w c t)).foldl (fun s e => s.evict c staleDisposalOwner e) s

def invalidateInHierarchy (c : Nat) (t : Token) : Sys :=
  (s.tracked c).foldl (fun s d => s.invalidateAffectedCachedEntries w d t c) s

/-- What a stale task does next; `none` while it waits. -/
def advanceTask (τ : Nat) : Option Sys :=
  let task := s.tasks.get τ
  match task.stage with
  | .waiting =>
    match (s.promises.get task.promise).status with
    | .pending => none
    | .rejected e => some (s.modifyTask τ fun x => { x with stage := .finishing, failed := true, error := e })
    | .fulfilled v =>
      if s.isDisposable w v then
        some ((s.modifyTask τ fun x => { x with stage := .destroying v }).log (.invoked v))
      else some (s.modifyTask τ fun x => { x with stage := .finishing })
  | .finishing =>
    let s := s.modifyContainer task.retryOwner fun x =>
      { x with materialized := x.materialized.filter (· ≠ task.promise) }
    let s := if task.failed then s else s.dropTask τ task.observers
    some (s.modifyTask τ fun x => { x with stage := .settled })
  | .destroying _ | .settled => none

/-- The `onDestroy` a task called returns, or throws. -/
def taskHook (τ : Nat) (thrown : Option Nat) : Option Sys :=
  match (s.tasks.get τ).stage, thrown with
  | .destroying v, none => some ((s.modifyTask τ fun x => { x with stage := .finishing }).log (.completed v))
  | .destroying v, some n =>
    some ((s.modifyTask τ fun x =>
      { x with stage := .finishing, failed := true, error := [.thrown n], retryInstance := some v }).log
        (.failed v))
  | _, _ => none

/-! ## assertStaleDisposalsSettled -/

def staleRound (c : Nat) (settled : List Nat) : List Nat :=
  (s.containers.get c).staleTasks.filter (· ∉ settled)

def beginStaleWait (c : Nat) : StaleWait := ⟨[], s.staleRound c [], []⟩

/-- One settled task: drop it, or deliver its error once. -/
def settleTask (c : Nat) (acc : Sys × Rejection) (τ : Nat) : Sys × Rejection :=
  let task := acc.1.tasks.get τ
  if !task.failed then
    (acc.1.modifyContainer c fun x => { x with staleTasks := x.staleTasks.erase τ }, acc.2)
  else
    let s := acc.1.modifyTask τ fun x => { x with errorConsumed := true }
    let s := if task.retryInstance.isNone then s.dropTask τ task.observers else s
    (s, if task.errorConsumed then acc.2 else acc.2 ++ task.error)

def isSettled (τ : Nat) : Bool := (s.tasks.get τ).stage = .settled

def nextStaleRound (c : Nat) (wait : StaleWait) : Option (Sys × StaleWait) :=
  if wait.round.all s.isSettled then
    let acc := wait.round.foldl (settleTask c) (s, wait.errors)
    let settled := wait.settled ++ wait.round
    some (acc.1, ⟨settled, acc.1.staleRound c settled, acc.2⟩)
  else none

/-! ## Disposal attempts -/

def retainedStaleDisposalTasks (c : Nat) : List Nat :=
  (s.containers.get c).staleTasks.filter fun τ =>
    let task := s.tasks.get τ
    task.retryOwner = c && task.failed && task.errorConsumed

def hasRetainedInSubtree (c : Nat) : Bool :=
  (s.tracked c).any fun d => !(s.retainedStaleDisposalTasks d).isEmpty

def releaseNonOwnerObservers (c : Nat) : Sys :=
  (s.containers.get c).staleTasks.foldl (fun s τ =>
    let task := s.tasks.get τ
    if task.retryOwner = c then s.dropTask τ (task.observers.filter (· ≠ c)) else s) s

def releaseNonOwnerObserversInSubtree (c : Nat) : Sys :=
  (s.tracked c).foldl (fun s d => s.releaseNonOwnerObservers d) s

/-- `disposeCache` begins: its snapshots are taken. -/
def beginDisposeCache (c : Nat) : AttemptStage :=
  .stale ((s.cacheEntries c).map Prod.snd) (s.retainedStaleDisposalTasks c) (s.beginStaleWait c)

/-- `disposeWithOrigin` up to its first `await`: the children are started in
the same go. The second component is the new call. -/
def startDispose : Nat → Origin → Nat → Sys → Sys × Nat
  | 0, _, _, s => (s, 0)
  | n + 1, origin, c, s =>
    match (s.containers.get c).disposePromise with
    | some α => (s.pushCall ⟨c, α, false, none⟩, s.calls.size)
    | none =>
      let s := s.modifyContainer c fun x => { x with disposed := true }
      let children := (s.containers.get c).childScopes
      let started := children.foldl (fun (acc : Sys × List Nat) child =>
        let r := startDispose n .parent child acc.1
        (r.1, acc.2 ++ [r.2])) (s, [])
      let s := started.1
      let stage := if children.isEmpty then s.beginDisposeCache c else .children started.2
      let α := s.attempts.size
      let s := (s.pushAttempt ⟨c, origin, stage, []⟩).modifyContainer c fun x =>
        { x with disposePromise := some α }
      (s.pushCall ⟨c, α, true, none⟩, s.calls.size)

def rejectionOf : Option (Except Rejection Unit) → Rejection
  | some (.error e) => e
  | _ => []

def rejectionReason (promise : Nat) : Rejection :=
  match (s.promises.get promise).status with
  | .rejected e => e
  | _ => []

def setStage (α : Nat) (stage : AttemptStage) (errors : Rejection) : Sys :=
  s.modifyAttempt α fun a => { a with stage, errors := a.errors ++ errors }

/-- One turn of the loop of `collectDisposableInstances` over the live list. -/
def collectStage (c : Nat) (entries : List Nat) (attempted : List Val) (index : Nat) (found : List Val) :
    AttemptStage :=
  match (s.containers.get c).materialized[index]? with
  | none =>
    let pending := (s.containers.get c).pendingDisposables
    let candidates := if pending.isEmpty then found else pending
    .destroy (candidates.filter (· ∉ attempted)).reverse []
  | some promise =>
    match (s.promises.get promise).status with
    | .fulfilled v =>
      if promise ∈ entries ∧ s.isDisposable w v ∧ v ∉ found then
        .collect entries attempted (index + 1) (found ++ [v])
      else .collect entries attempted (index + 1) found
    | _ => .collect entries attempted (index + 1) found

def clearDisposalCaches (c : Nat) (pending : List Val) : Sys :=
  s.modifyContainer c fun x =>
    { x with materialized := [], cache := OrderedMap.empty, pendingDisposables := pending }

/-- The `finally` of `disposeAll`. -/
def detach (c : Nat) (origin : Origin) (completed : Bool) : Sys :=
  match (s.containers.get c).ancestors with
  | [] => s
  | parent :: _ =>
    let retainsStaleRetries := s.hasRetainedInSubtree c
    if (origin = .direct || (completed && !retainsStaleRetries)) && (s.containers.get c).trackedByParent then
      let s := if origin = .direct then s.releaseNonOwnerObserversInSubtree c else s
      let s := s.modifyContainer parent fun x => { x with childScopes := x.childScopes.erase c }
      s.modifyContainer c fun x => { x with trackedByParent := false }
    else s

/-- What an attempt does next; `none` while it waits. -/
def advanceAttempt (α : Nat) : Option Sys :=
  let a := s.attempts.get α
  let c := a.container
  match a.stage with
  | .children calls =>
    let results := calls.map fun κ => (s.calls.get κ).result
    if results.all Option.isSome then
      some (s.setStage α (s.beginDisposeCache c) (results.flatMap rejectionOf))
    else none
  | .stale entries retryable wait =>
    if wait.round = [] then some (s.setStage α (.retry entries retryable []) wait.errors)
    else (s.nextStaleRound c wait).map fun r => r.1.setStage α (.stale entries retryable r.2) []
  | .retry entries [] attempted => some (s.setStage α (.gather entries attempted) [])
  | .retry entries (τ :: rest) attempted =>
    let task := s.tasks.get τ
    match task.failed, task.retryInstance with
    | true, some v =>
      some ((s.setStage α (.retrying entries τ v rest (attempted ++ [v])) []).log (.invoked v))
    | _, _ => some (s.setStage α (.retry entries rest attempted) [])
  | .gather entries attempted =>
    if entries.all fun promise => (s.promises.get promise).status ≠ .pending then
      some (s.setStage α (.collect entries attempted 0 []) (entries.flatMap s.rejectionReason))
    else none
  | .collect entries attempted index found =>
    some (s.setStage α (s.collectStage w c entries attempted index found) [])
  | .destroy [] failed => some ((s.clearDisposalCaches c failed).setStage α .finish [])
  | .destroy (v :: todo) failed => some ((s.setStage α (.destroying v todo failed) []).log (.invoked v))
  | .finish =>
    let result : Except Rejection Unit := if a.errors.isEmpty then .ok () else .error a.errors
    some ((s.detach c a.origin a.errors.isEmpty).setStage α (.settled result) [])
  | .retrying .. | .destroying .. | .settled _ => none

/-- The `onDestroy` an attempt called returns, or throws. -/
def attemptHook (α : Nat) (thrown : Option Nat) : Option Sys :=
  match (s.attempts.get α).stage, thrown with
  | .retrying entries τ v rest attempted, none =>
    let s := s.modifyTask τ fun x => { x with failed := false, retryInstance := none }
    let s := s.dropTask τ (s.tasks.get τ).observers
    some ((s.setStage α (.retry entries rest attempted) []).log (.completed v))
  | .retrying entries τ v rest attempted, some n =>
    let s := s.modifyTask τ fun x => { x with error := [.thrown n], errorConsumed := true }
    some ((s.setStage α (.retry entries rest attempted) [.thrown n]).log (.failed v))
  | .destroying v todo failed, none => some ((s.setStage α (.destroy todo failed) []).log (.completed v))
  | .destroying v todo failed, some n =>
    some ((s.setStage α (.destroy todo (v :: failed)) [.thrown n]).log (.failed v))
  | _, _ => none

/-- A `dispose` call goes on once its attempt is settled; the call that started
the attempt first makes room for a later one. -/
def advanceCall (κ : Nat) : Option Sys :=
  let call := s.calls.get κ
  match call.result, (s.attempts.get call.attempt).stage with
  | none, .settled result =>
    let retry := call.starter && (match result with
      | .error _ => true
      | .ok () => (s.containers.get call.container).disposePromise = some call.attempt &&
        s.hasRetainedInSubtree call.container)
    let s := if retry then s.modifyContainer call.container fun x => { x with disposePromise := none } else s
    some (s.setCall κ { call with result := some result })
  | _, _ => none

end Sys

end Fluo.Di
