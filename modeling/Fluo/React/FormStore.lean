import Fluo.Lib.Run

/-!
# The client form store

One progressive form: submissions, the read that follows a save, cancellation
and session leases. Listeners, abort handlers and the environment run in the
middle of an operation and may call the store again, so the state holds a stack
of operations that wait for such a call, besides those that wait for a promise.
A step is what runs between two such points. Such calls return, only promises
and decoders fail.
-/

namespace Fluo.React.FormStore

inductive Mode where
  | navigation
  | background
  deriving DecidableEq

inductive FailureReason where
  | transport
  | server
  | protocol
  | redirect
  | cancelled
  | input
  deriving DecidableEq

inductive SavedFollowUp where
  | refresh
  | navigate
  deriving DecidableEq

/-- `ReactFormMutation`; `Data` are values that the store only passes on. -/
inductive Mutation (Data : Type) where
  | read (data : Data)
  | error (reason : FailureReason)
  | saved (destination : Data) (followUp : SavedFollowUp) (data : Option Data) (session : Option Data)
  | validation (errors : Data)
  | auth (reason : Data)
  | rejected
  | uncertain (reason : FailureReason)

/-- `ReactRevalidationResult`, and the rejection of a destination. -/
inductive FollowUp where
  | pending
  | complete
  | error
  | cancelled
  | document
  | rejected
  deriving DecidableEq

structure Snapshot (Data : Type) where
  pending : Bool
  dirty : Bool
  skipped : Nat
  mutation : Option (Mutation Data)
  followUp : Option FollowUp

/-- Which operations of `FormEnvironment` are defined; a decoder that throws
returns `none`. -/
structure Environment (Data : Type) where
  lease : Bool
  sessionChanged : Bool
  authRejected : Bool
  decodeSaved : Option (Option Data → Option Data)
  decodeRead : Option (Data → Option Data)

variable {Data : Type}

/-- The server's result as the decoders of the environment read it. -/
def Environment.decode (environment : Environment Data) : Mutation Data → Mutation Data
  | .saved destination followUp data session =>
    match environment.decodeSaved with
    | none => .saved destination followUp data session
    | some decodeSaved =>
      match decodeSaved data with
      | some data => .saved destination followUp (some data) session
      | none => .uncertain .protocol
  | .read data =>
    match environment.decodeRead with
    | some decodeRead => (decodeRead data).elim (.error .protocol) .read
    | none => if environment.decodeSaved.isSome then .error .protocol else .read data
  | mutation => mutation

/-- A call of `submit`, with what `lease().current()` answers. -/
structure Call (Data : Type) where
  reading : Bool
  environment : Environment Data
  leaseCurrent : Bool

/-- A submission that was accepted: its `expected` generation and its lease. -/
structure Submission (Data : Type) where
  id : Nat
  reading : Bool
  environment : Environment Data
  lease : Option Nat

/-- A call of `read`, from `retryRead` or at the end of a submission. -/
structure Reading where
  id : Nat
  navigate : Bool
  afterSubmit : Bool

/-- Where an operation waits: for a call it has made to return, or for a promise. -/
inductive Point (Data : Type) where
  -- calls in `submit`
  | superseding (call : Call Data) (cancelling : Nat)
  | pendingPublished (x : Submission Data)
  | invalidated (x : Submission Data)
  | sessionChanging (x : Submission Data) (mutation : Mutation Data)
  | sessionPublished (x : Submission Data) (mutation : Mutation Data)
  | sessionCancelled
  | authRejecting (x : Submission Data) (mutation : Mutation Data)
  | published (x : Submission Data) (mutation : Mutation Data)
  | savedInvalidated (x : Submission Data) (navigate : Bool)
  -- promises in `submit`
  | response (x : Submission Data)
  | session (x : Submission Data) (mutation : Mutation Data)
  | auth (x : Submission Data) (mutation : Mutation Data)
  | readDone
  -- calls in `read`
  | readPublished (r : Reading)
  | allowing (r : Reading)
  | approving (r : Reading)
  | readSettled (r : Reading)
  -- promises in `read`
  | allow (r : Reading)
  | approve (r : Reading)
  -- calls in `cancel` and `revoke`
  | cancelReleasing (controller : Option Nat)
  | cancelAborting
  | revokeCancelling
  | done

/-- The store's variables, and what can be seen of the world around it. -/
structure Store (Data : Type) where
  snapshot : Snapshot Data
  /-- The generation that `active` was created for. -/
  active : Option Nat
  generation : Nat
  inputRevision : Nat
  submittedRevision : Nat
  readEnvironment : Option (Environment Data)
  /-- The lease that `releaseLease` releases. -/
  releaseLease : Option Nat
  readingRequest : Bool
  revoking : Bool
  transferred : Bool
  aborted : List Nat
  /-- How many leases have been acquired; they are numbered in order. -/
  leases : Nat
  released : List Nat
  /-- Leases that have been acquired and not released listen for their abort. -/
  held : List Nat
  abortedLeases : List Nat
  /-- The submissions that have been sent as a POST. -/
  posts : List Nat
  /-- What arrived for a submission before it was cancelled, decoded. -/
  answers : List (Nat × Mutation Data)
  records : List (Nat × Mutation Data)

structure System (Data : Type) where
  store : Store Data
  /-- The innermost call is the first. -/
  stack : List (Point Data)
  promises : List (Point Data)

namespace Store

def initial : Store Data :=
  ⟨⟨false, false, 0, none, none⟩, none, 0, 0, 0, none, none, false, false, false, [], 0, [], [], [], [], [], []⟩

def publish (s : Store Data) (snapshot : Snapshot Data) : Store Data := { s with snapshot := snapshot }

def followUp (s : Store Data) (followUp : FollowUp) : Store Data :=
  s.publish { s.snapshot with followUp := some followUp }

/-- `releaseLease?.(); releaseLease = undefined`. -/
def release (s : Store Data) : Store Data :=
  { s with
    releaseLease := none
    released := s.releaseLease.toList ++ s.released
    held := s.held.filter (some · ≠ s.releaseLease) }

/-- `lease?.()` and its `release()` at once. -/
def borrow (s : Store Data) (environment : Environment Data) : Store Data :=
  if environment.lease then { s with leases := s.leases + 1, released := s.leases :: s.released } else s

/-- `expected === generation && !controller.signal.aborted && lease.current()`. -/
def Current (s : Store Data) (x : Submission Data) : Prop :=
  x.id = s.generation ∧ x.id ∉ s.aborted ∧ ∀ lease ∈ x.lease, lease ∉ s.abortedLeases

instance (s : Store Data) (x : Submission Data) : Decidable (s.Current x) := by
  unfold Current
  infer_instance

def cancelledMutation (s : Store Data) : Mutation Data :=
  if s.readingRequest then .error .cancelled else .uncertain .cancelled

/-- `cancel` up to the call of `releaseSession`. -/
def cancel (s : Store Data) : Store Data :=
  let released := s.release
  { released with
    generation := s.generation + 1
    active := none
    revoking := true
    records := if s.snapshot.pending then (s.generation, s.cancelledMutation) :: s.records else s.records
    snapshot := { s.snapshot with
      pending := false
      mutation := if s.snapshot.pending then some s.cancelledMutation else s.snapshot.mutation
      followUp := if s.snapshot.followUp = some .pending then some .cancelled else s.snapshot.followUp } }

/-- The rest of `revoke` behind `cancel`. -/
def revoked (s : Store Data) : Store Data :=
  { s with
    readEnvironment := none
    snapshot := { s.snapshot with
      dirty := false
      mutation := match s.snapshot.mutation with
        | some (.uncertain reason) => some (.uncertain reason)
        | some (.auth reason) => some (.auth reason)
        | _ => none } }

/-- `submit` behind its first checks, with a lease that is current or with none. -/
def accept (s : Store Data) (call : Call Data) : Store Data :=
  let lease := if call.environment.lease then some s.leases else none
  { s with
    generation := s.generation + 1
    leases := if call.environment.lease then s.leases + 1 else s.leases
    held := lease.toList ++ s.held
    submittedRevision := s.inputRevision
    readingRequest := call.reading
    active := some (s.generation + 1)
    readEnvironment := some call.environment
    releaseLease := lease
    snapshot := { s.snapshot with pending := true, mutation := none, followUp := none } }

def accepted (s : Store Data) (call : Call Data) : Submission Data :=
  ⟨s.generation + 1, call.reading, call.environment, if call.environment.lease then some s.leases else none⟩

/-- A result that arrives for the current submission is recorded. -/
def record (s : Store Data) (x : Submission Data) (mutation : Mutation Data) : Store Data :=
  { s with
    answers := (x.id, mutation) :: s.answers
    records := (x.id, mutation) :: s.records
    snapshot := { s.snapshot with
      pending := false
      mutation := some mutation
      followUp := match mutation with | .saved _ _ _ (some _) => some .pending | _ => none
      dirty := match mutation with
        | .saved .. => if s.inputRevision = s.submittedRevision then false else s.snapshot.dirty
        | _ => s.snapshot.dirty } }

/-- `read` up to its first call of the listeners. -/
def startRead (s : Store Data) : Store Data :=
  { s with
    generation := s.generation + 1
    active := some (s.generation + 1)
    snapshot := { s.snapshot with followUp := some .pending } }

def settleRead (s : Store Data) (followUp : FollowUp) : Store Data := { s with active := none }.followUp followUp

end Store

namespace System

def initial : System Data := ⟨.initial, [], []⟩

def push (s : System Data) (p : Point Data) : System Data := { s with stack := p :: s.stack }

def wait (s : System Data) (p : Point Data) : System Data := { s with promises := p :: s.promises }

def update (s : System Data) (f : Store Data → Store Data) : System Data := { s with store := f s.store }

def cancel (s : System Data) : System Data :=
  (s.update .cancel).push (.cancelReleasing s.store.active)

def revoke (s : System Data) (keepSaved : Bool) : System Data :=
  let s := s.update fun store => { store with transferred := keepSaved }
  if keepSaved then s else (s.push .revokeCancelling).cancel

/-- `submit` behind the check for work in progress. -/
def accept (s : System Data) (call : Call Data) : System Data :=
  if call.environment.lease ∧ call.leaseCurrent = false then
    s.update fun store => { store.borrow call.environment with generation := store.generation + 1 }
  else (s.update (·.accept call)).push (.pendingPublished (s.store.accepted call))

def submit (mode : Mode) (s : System Data) (call : Call Data) : System Data :=
  let store := s.store
  if store.revoking then s
  else if store.snapshot.pending ∨ store.snapshot.followUp = some .pending then
    match mode with
    | .navigation =>
      (s.update fun store => store.publish { store.snapshot with skipped := store.snapshot.skipped + 1 }).push .done
    | .background => (s.push (.superseding call store.generation)).cancel
  else s.accept call

def dispatch (s : System Data) (x : Submission Data) : System Data :=
  if s.store.Current x then
    (s.update fun store => if x.reading then store else { store with posts := x.id :: store.posts }).wait (.response x)
  else s

/-- The common end of a submission behind its session continuation. -/
def finish (s : System Data) (x : Submission Data) (mutation : Mutation Data) : System Data :=
  if x.id = s.store.generation then
    (s.update fun store => { store.release with active := none }).push (.published x mutation)
  else s

/-- `submit` behind its response. -/
def respond (s : System Data) (x : Submission Data) (mutation : Mutation Data) : System Data :=
  let s := s.update (·.record x mutation)
  match mutation with
  | .saved _ _ _ (some _) =>
    if x.environment.sessionChanged then (s.update .release).push (.sessionChanging x mutation)
    else s.finish x mutation
  | .auth _ => if x.environment.authRejected then s.push (.authRejecting x mutation) else s.finish x mutation
  | _ => s.finish x mutation

def read (s : System Data) (navigate afterSubmit : Bool) : System Data :=
  (s.update .startRead).push (.readPublished ⟨s.store.generation + 1, navigate, afterSubmit⟩)

/-- `read` returns; a submission awaits it. -/
def endRead (s : System Data) (r : Reading) : System Data := if r.afterSubmit then s.wait .readDone else s

def settleRead (s : System Data) (r : Reading) (followUp : FollowUp) : System Data :=
  (s.update (·.settleRead followUp)).push (.readSettled r)

def retryRead (s : System Data) (leaseCurrent : Bool) : System Data :=
  match s.store.snapshot.mutation, s.store.readEnvironment with
  | some (.saved _ followUp _ _), some environment =>
    if s.store.snapshot.followUp = some .pending then s
    else
      let s := s.update (·.borrow environment)
      if environment.lease ∧ leaseCurrent = false then s else s.read (decide (followUp = .navigate)) false
  | _, _ => s

def leave (s : System Data) : System Data :=
  (s.update fun store => { store with transferred := false }).push .done

end System

/-- How an awaited promise settles. -/
inductive Outcome (Data : Type) where
  | response (mutation : Mutation Data)
  | fulfilled (value : Bool)
  | approved (result : FollowUp)
  | rejected
  | aborted

inductive Event (Data : Type) where
  | submit (call : Call Data)
  | retryRead (leaseCurrent : Bool)
  | cancel
  | revoke (keepSaved : Bool)
  /-- The owner of the form departs. -/
  | release
  | changed
  | abortLease (lease : Nat)
  /-- The innermost call returns; `navigationCurrent` is what the lease answers. -/
  | return (navigationCurrent : Bool)
  | settle (index : Nat) (outcome : Outcome Data) (navigationCurrent : Bool)

/-- A listener or the environment is running, or nothing is. -/
def System.mayCall (s : System Data) : Bool :=
  match s.stack with
  | .superseding .. :: _ | .revokeCancelling :: _ => false
  | _ => true

/-- Whether a navigation that the lease no longer allows is given up. -/
def Reading.givenUp (mode : Mode) (navigationCurrent : Bool) (r : Reading) : Bool :=
  decide (mode = .navigation) && r.navigate && !navigationCurrent

/-- An operation goes on when the call it has made returns. -/
def System.resume (mode : Mode) (navigationCurrent : Bool) (s : System Data) : Point Data → Option (System Data)
  | .superseding call cancelling =>
    some (if s.store.generation = cancelling + 1 then s.accept call else s)
  | .pendingPublished x =>
    if x.id = s.store.generation ∧ x.id ∉ s.store.aborted then
      some (if x.reading then s.dispatch x else s.push (.invalidated x))
    else some s
  | .invalidated x => some (s.dispatch x)
  | .sessionChanging x mutation => some (s.push (.sessionPublished x mutation))
  | .sessionPublished x mutation => some (s.wait (.session x mutation))
  | .sessionCancelled => some s.leave
  | .authRejecting x mutation => some (s.wait (.auth x mutation))
  | .published x (.saved _ followUp _ _) => some (s.push (.savedInvalidated x (decide (followUp = .navigate))))
  | .published _ _ => some s
  | .savedInvalidated x navigate => some (if x.id = s.store.generation then s.read navigate true else s)
  | .readPublished r =>
    some (if r.id ≠ s.store.generation ∨ r.id ∈ s.store.aborted then s.endRead r
      else if r.givenUp mode navigationCurrent then s.settleRead r .cancelled
      else match mode with
        | .navigation => s.push (.allowing r)
        | .background => s.push (.approving r))
  | .allowing r => some (s.wait (.allow r))
  | .approving r => some (s.wait (.approve r))
  | .readSettled r => some (s.endRead r)
  | .cancelReleasing controller =>
    some ((s.update fun store => { store with aborted := controller.toList ++ store.aborted }).push .cancelAborting)
  | .cancelAborting => some ((s.update fun store => { store with revoking := false }).push .done)
  | .revokeCancelling => some ((s.update .revoked).push .done)
  | .done => some s
  | .response _ | .session .. | .auth .. | .allow _ | .approve _ | .readDone => none

/-- `submit` behind a session continuation that does not transfer. -/
def System.refuseSession (s : System Data) (x : Submission Data) : System Data :=
  if x.id = s.store.generation then (s.update (·.followUp .cancelled)).push .sessionCancelled else s.leave

/-- `read` behind `approve`, or behind an operation that has failed. -/
def System.approved (s : System Data) (r : Reading) (result : FollowUp) : System Data :=
  if r.id ≠ s.store.generation then s.endRead r else s.settleRead r result

/-- `read` behind `allowDestination`. -/
def System.allowed (mode : Mode) (navigationCurrent : Bool) (s : System Data) (r : Reading) (allowed : Bool) :
    System Data :=
  if r.id ≠ s.store.generation then s.endRead r
  else if r.givenUp mode navigationCurrent then s.settleRead r .cancelled
  else if allowed then s.push (.approving r)
  else s.settleRead r .rejected

/-- An operation goes on when the promise it awaits has settled. -/
def System.continue (mode : Mode) (navigationCurrent : Bool) (s : System Data) :
    Point Data → Outcome Data → Option (System Data)
  | .response x, .response mutation =>
    some (if s.store.Current x then s.respond x (x.environment.decode mutation) else s)
  | .response x, .aborted => if x.id ∈ s.store.aborted then some s else none
  | .session x mutation, .fulfilled true =>
    some (if x.id = s.store.generation then (s.update (·.borrow x.environment)).finish x mutation else s.leave)
  | .session x _, .fulfilled false => some (s.refuseSession x)
  | .session x _, .aborted => if x.id ∈ s.store.aborted then some (s.refuseSession x) else none
  | .session .., .rejected => some s
  | .auth x mutation, .fulfilled _ => some (s.finish x mutation)
  | .auth x mutation, .aborted => if x.id ∈ s.store.aborted then some (s.finish x mutation) else none
  | .auth .., .rejected => some s
  | .readDone, .fulfilled _ => some s.leave
  | .allow r, .fulfilled allowed => some (s.allowed mode navigationCurrent r allowed)
  | .allow r, .aborted =>
    if r.id ∈ s.store.aborted then some (s.allowed mode navigationCurrent r false) else none
  | .allow r, .rejected => some (s.approved r .error)
  | .approve r, .approved result =>
    if result = .pending ∨ result = .rejected then none else some (s.approved r result)
  | .approve r, .rejected => some (s.approved r .error)
  | .approve r, .aborted => if r.id ∈ s.store.aborted then some (s.approved r .cancelled) else none
  | _, _ => none

def step (mode : Mode) (s : System Data) : Event Data → Option (System Data)
  | .submit call => if s.mayCall then some (s.submit mode call) else none
  | .retryRead leaseCurrent => if s.mayCall then some (s.retryRead leaseCurrent) else none
  | .cancel => if s.mayCall then some s.cancel else none
  | .revoke keepSaved => if s.mayCall then some (s.revoke keepSaved) else none
  | .release => if s.mayCall then some (if s.store.transferred then s else s.cancel) else none
  | .changed =>
    if s.mayCall then
      some ((s.update fun store => { store with
        inputRevision := store.inputRevision + 1
        snapshot := { store.snapshot with dirty := true } }).push .done)
    else none
  | .abortLease lease =>
    if s.mayCall ∧ lease < s.store.leases ∧ lease ∉ s.store.abortedLeases then
      let aborted := s.update fun store => { store with abortedLeases := lease :: store.abortedLeases }
      some (if lease ∈ s.store.held then aborted.revoke false else aborted)
    else none
  | .return navigationCurrent =>
    match s.stack with
    | [] => none
    | p :: rest => { s with stack := rest }.resume mode navigationCurrent p
  | .settle index outcome navigationCurrent =>
    match s.stack, s.promises[index]? with
    | [], some p => { s with promises := s.promises.eraseIdx index }.continue mode navigationCurrent p outcome
    | _, _ => none

end Fluo.React.FormStore
