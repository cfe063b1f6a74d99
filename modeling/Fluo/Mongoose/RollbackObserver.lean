import Mathlib.Logic.Function.Basic
import Mathlib.Data.List.Basic

/-!
# The rollback observer

What the observer notes of the commands that a client reports, in every scope
that is open, and when an attempt confirms its rollback. Beside it stand the
requests that are outstanding and the log of what was reported.
-/

namespace Fluo.Mongoose.RollbackObserver

structure RequestKey where
  connectionId : String
  serviceId : Option String
  requestId : Nat
  deriving DecidableEq

/-- A command that has started; `session` is the key of its `lsid`. -/
structure Command where
  session : Option String
  request : RequestKey
  commandName : String
  txnNumber : Option String
  autocommit : Option Bool
  startTransaction : Bool
  deriving DecidableEq

structure Reply where
  ok : Nat
  writeConcernError : Bool
  deriving DecidableEq

/-- What is reported of a request that is over. -/
structure Completion where
  succeeded : Bool
  reply : Option Reply
  failure : Option String
  deriving DecidableEq

def Completion.acknowledged (completion : Completion) : Bool :=
  completion.succeeded && completion.reply.any fun reply => reply.ok == 1 && !reply.writeConcernError

inductive RollbackError where
  | unconfirmed (cause : Option Reply)
  | native (failure : String)
  deriving DecidableEq

structure Attempt where
  transactionNumber : Option String
  pending : List RequestKey
  abortSucceeded : Bool
  abortFailure : Option RollbackError
  committed : Bool

structure Request where
  attempt : Nat
  commandName : String

/-- One call of `run`. All its attempts are kept, `current` has one per session. -/
structure Scope where
  running : Bool
  attempts : List Attempt
  current : String → Option Nat
  requests : RequestKey → Option Request

structure Observer where
  scopes : List Scope
  activeSessions : String → Option Nat

namespace Attempt

def initial : Attempt := ⟨none, [], false, none, false⟩

def track (attempt : Attempt) (number : String) (request : RequestKey) : Attempt :=
  { attempt with transactionNumber := some number, pending := attempt.pending.insert request }

def completed (attempt : Attempt) (request : RequestKey) (commandName : String) (completion : Completion) : Attempt :=
  { attempt with
    pending := attempt.pending.filter (· ≠ request)
    committed := attempt.committed || (commandName == "commitTransaction" && completion.acknowledged)
    abortSucceeded := if commandName = "abortTransaction" then completion.acknowledged else attempt.abortSucceeded
    abortFailure :=
      if commandName = "abortTransaction" then
        if completion.acknowledged then none
        else if completion.succeeded then some (.unconfirmed completion.reply)
        else completion.failure.map .native
      else attempt.abortFailure }

def confirmRollback (attempt : Attempt) : Except RollbackError Bool :=
  match attempt.abortFailure with
  | some failure => .error failure
  | none =>
    if attempt.transactionNumber = none ∨ attempt.pending ≠ [] ∨ attempt.abortSucceeded = false ∨
        attempt.committed = true then .error (.unconfirmed none)
    else .ok true

end Attempt

namespace Scope

def initial : Scope := ⟨true, [], fun _ => none, fun _ => none⟩

/-- `started` of a scope. The first command that starts a transaction gives its
attempt the number, commands of another number are not its own. -/
def started (scope : Scope) (command : Command) : Scope :=
  match command.session.bind scope.current, command.txnNumber with
  | some index, some number =>
    match scope.attempts[index]? with
    | some attempt =>
      if command.autocommit = some false ∧ (attempt.transactionNumber = some number ∨
          command.startTransaction = true ∧ attempt.transactionNumber = none) then
        { scope with
          attempts := scope.attempts.set index (attempt.track number command.request)
          requests := Function.update scope.requests command.request (some ⟨index, command.commandName⟩) }
      else scope
    | none => scope
  | _, _ => scope

/-- `succeeded` and `failed` of a scope. -/
def completed (scope : Scope) (request : RequestKey) (commandName : String) (completion : Completion) : Scope :=
  match scope.requests request with
  | some entry =>
    if commandName = entry.commandName then
      { scope with
        requests := Function.update scope.requests request none
        attempts := scope.attempts.modify entry.attempt (·.completed request entry.commandName completion) }
    else scope
  | none => scope

/-- The attempt that `beginAttempt` adds. -/
def begin (scope : Scope) (session : String) : Scope :=
  { scope with
    attempts := scope.attempts ++ [Attempt.initial]
    current := Function.update scope.current session (some scope.attempts.length) }

/-- Whether the previous attempt of a session has requests that are not over. -/
def unsettled (scope : Scope) (session : String) : Bool :=
  ((scope.current session).bind (scope.attempts[·]?)).any fun attempt => !attempt.pending.isEmpty

end Scope

namespace Observer

def initial : Observer := ⟨[], fun _ => none⟩

def dispatch (observer : Observer) (f : Scope → Scope) : Observer :=
  { observer with scopes := observer.scopes.map fun scope => if scope.running then f scope else scope }

def run (observer : Observer) : Observer := { observer with scopes := observer.scopes ++ [Scope.initial] }

/-- The end of `run`. -/
def finish (observer : Observer) (index : Nat) (scope : Scope) : Observer where
  scopes := observer.scopes.set index { scope with running := false }
  activeSessions session :=
    if (scope.current session).isSome ∧ observer.activeSessions session = some index then none
    else observer.activeSessions session

/-- `beginAttempt` in the context of a scope; `none` where it throws. -/
def beginAttempt (observer : Observer) (index : Nat) (session : String) : Option Observer :=
  match observer.scopes[index]? with
  | some scope =>
    if (observer.activeSessions session).all (· = index) ∧ scope.unsettled session = false then
      some ⟨observer.scopes.set index (scope.begin session), Function.update observer.activeSessions session (some index)⟩
    else none
  | none => none

def confirmRollback (observer : Observer) (scope attempt : Nat) : Option (Except RollbackError Bool) :=
  ((observer.scopes[scope]?).bind (·.attempts[attempt]?)).map Attempt.confirmRollback

end Observer

/-! ## Reports -/

inductive Entry where
  | closed (scope : Nat)
  | began (scope attempt : Nat) (session : String)
  | started (command : Command)
  | completed (request : RequestKey) (acknowledged : Bool)
  deriving DecidableEq

structure System where
  observer : Observer
  /-- Requests that have started and are not over, with their commands' names. -/
  outstanding : List (RequestKey × String)
  log : List Entry

inductive Event where
  | run
  | finish (scope : Nat)
  /-- A call in the context of a scope or of none, for a session with or without
  a key; `ownClient` when the connection's client is the observer's. -/
  | beginAttempt (scope : Option Nat) (session : Option String) (ownClient : Bool)
  | started (command : Command)
  | completed (request : RequestKey) (completion : Completion)

def initial : System := ⟨.initial, [], []⟩

def step (s : System) : Event → Option System
  | .run => some { s with observer := s.observer.run }
  | .finish index =>
    match s.observer.scopes[index]? with
    | some scope =>
      if scope.running then
        some { s with observer := s.observer.finish index scope, log := s.log ++ [Entry.closed index] }
      else none
    | none => none
  | .beginAttempt (some index) (some session) true =>
    match s.observer.scopes[index]? with
    | some scope =>
      match s.observer.beginAttempt index session with
      | some observer => some { s with observer, log := s.log ++ [Entry.began index scope.attempts.length session] }
      | none => some s
    | none => none
  | .beginAttempt .. => some s
  | .started command =>
    if command.request ∈ s.outstanding.map Prod.fst then none
    else some ⟨s.observer.dispatch (·.started command), (command.request, command.commandName) :: s.outstanding,
      s.log ++ [Entry.started command]⟩
  | .completed request completion =>
    match s.outstanding.find? (·.1 = request) with
    | some (_, commandName) =>
      some ⟨s.observer.dispatch (·.completed request commandName completion), s.outstanding.filter (·.1 ≠ request),
        s.log ++ [Entry.completed request completion.acknowledged]⟩
    | none => none

end Fluo.Mongoose.RollbackObserver
