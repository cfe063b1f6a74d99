import Mathlib.Data.List.Basic
import Fluo.Lib.Run

/-!
# Transaction boundaries of a connection

`transaction` and `requestTransaction` of `MongooseConnection` in any interleaving,
with the three sets that shutdown waits for. A step is what runs between two calls
that the boundary awaits; how these end is given with the step.
-/

namespace Fluo.Mongoose.Boundaries

/-- What the connection offers: `connection.transaction`, `startSession`, or neither. -/
inductive Native where
  | connection
  | session
  | none
  deriving DecidableEq

structure Options where
  native : Native
  strictTransactions : Bool

/-- How the callback of a boundary runs; a nested one in the scope of a root boundary. -/
inductive Mode where
  | manual
  | connection
  | direct
  | nested (scope : Nat)
  deriving DecidableEq

inductive Work where
  | starting
  /-- `endSession` of a session that has come after the abort. -/
  | closing
  | beginning
  | running
  | committing
  | aborting
  | ending
  /-- `connection.transaction`, but not the callback of an attempt. -/
  | native
  /-- `recover`, or the hooks after the commit. -/
  | finishing
  | done
  deriving DecidableEq

inductive Transaction where
  | unstarted
  | started
  | committed
  | aborted
  | failed
  deriving DecidableEq

/-- A call of `transaction` or `requestTransaction`. -/
structure Call where
  request : Bool
  mode : Mode
  awaitedBy : Option Nat
  work : Work
  aborted : Bool
  settled : Bool
  /-- `connection.transaction` has called its callback. -/
  started : Bool
  obtained : Bool
  transaction : Transaction
  ended : Nat
  /-- The requests that the active session is to untrack. -/
  retained : List Nat

inductive Lifecycle where
  | ready
  | shuttingDown
  | stopped
  deriving DecidableEq

structure Waits where
  requests : List Nat
  sessions : List Nat
  callbacks : List Nat

structure System where
  lifecycle : Lifecycle
  calls : List Call
  activeRequestTransactions : List Nat
  activeSessions : List Nat
  activeTransactionCallbacks : List Nat
  shutdown : Option Waits

namespace System

def initial : System := ⟨.ready, [], [], [], [], none⟩

def modify (s : System) (index : Nat) (f : Call → Call) : System := { s with calls := s.calls.modify index f }

def untrackActiveRequestTransaction (s : System) (index : Nat) : System :=
  { s with activeRequestTransactions := s.activeRequestTransactions.filter (· ≠ index) }

def settleSession (s : System) (index : Nat) (c : Call) : System :=
  { s with
    activeRequestTransactions := s.activeRequestTransactions.filter (· ∉ c.retained)
    activeSessions := s.activeSessions.filter (· ≠ index) }

/-- The `finally` blocks of a boundary that is not nested. -/
def finish (s : System) (index : Nat) (c : Call) : System :=
  let s := (s.settleSession index c).untrackActiveRequestTransaction index
  { s with activeTransactionCallbacks := s.activeTransactionCallbacks.filter (· ≠ index) }.modify index fun c =>
    { c with work := .done, settled := true, retained := [] }

/-- A nested boundary ends; a request is handed over to the active session. -/
def finishNested (s : System) (index : Nat) (c : Call) (scope : Nat) : System :=
  let s := s.modify index fun c => { c with work := .done, settled := true }
  if c.request then s.modify scope fun root => { root with retained := index :: root.retained } else s

/-- A request is aborted. A request whose session has not come, or whose native
transaction has not called back, rejects at once. -/
def abort (s : System) (index : Nat) (c : Call) : System :=
  let s := s.modify index fun c => { c with aborted := true }
  if c.work = .starting then s.modify index fun c => { c with settled := true }
  else if c.mode = .connection ∧ c.started = false then
    (s.modify index fun c => { c with settled := true }).untrackActiveRequestTransaction index
  else s

def trackActiveSession (s : System) (index : Nat) : System := { s with activeSessions := index :: s.activeSessions }

/-- A boundary outside of any open scope, before it awaits anything else. -/
def rootCall (options : Options) (request : Bool) : Call :=
  let (mode, work) := match options.native with
    | .connection => (.connection, .native)
    | .session => (.manual, .starting)
    | .none => (.direct, .starting)
  ⟨request, mode, none, work, false, false, false, false, .unstarted, 0, []⟩

def openRoot (options : Options) (s : System) (request aborted : Bool) : System :=
  let index := s.calls.length
  let c := rootCall options request
  let s := { s with
    calls := s.calls ++ [c]
    activeRequestTransactions :=
      if request then index :: s.activeRequestTransactions else s.activeRequestTransactions
    activeSessions := if options.native = .connection then index :: s.activeSessions else s.activeSessions
    activeTransactionCallbacks :=
      if request || options.native = .connection then s.activeTransactionCallbacks
      else index :: s.activeTransactionCallbacks }
  if request && aborted then s.abort index c else s

/-- A boundary in the scope of an open owner. -/
def openNested (s : System) (request aborted : Bool) (scope : Nat) (awaitedBy : Option Nat) : System :=
  let index := s.calls.length
  let c : Call := ⟨request, .nested scope, awaitedBy, .running, false, false, false, false, .unstarted, 0, []⟩
  let s := { s with
    calls := s.calls ++ [c]
    activeRequestTransactions :=
      if request then index :: s.activeRequestTransactions else s.activeRequestTransactions }
  if request && aborted then s.finishNested index c scope else s

/-- The owner of a scope is open while the callback of an attempt runs. -/
def isOpen (s : System) (scope : Nat) : Bool :=
  s.calls[scope]?.any fun c => c.work = .running && (c.mode = .manual || c.mode = .connection)

def runsIn (s : System) (scope index : Nat) : Bool :=
  s.calls[index]?.any fun c => c.work = .running && (index = scope || c.mode = .nested scope)

end System

inductive CallEvent where
  | session (fulfilled : Bool)
  | unsupported
  | begun (fulfilled : Bool)
  /-- `connection.transaction` calls back. -/
  | attempt
  | callback (fulfilled : Bool)
  | committed (fulfilled : Bool)
  | rolledBack (fulfilled : Bool)
  /-- `endSession` ends, one way or the other. -/
  | ended
  /-- `connection.transaction` ends, one way or the other. -/
  | native
  | finished
  | abort

inductive Event where
  | opened (request aborted : Bool) (scope awaitedBy : Option Nat)
  | call (index : Nat) (e : CallEvent)
  | shutdown
  | disposed

def System.resolved (s : System) (index : Nat) : Bool :=
  s.calls.all fun c => c.awaitedBy ≠ some index || c.settled

/-- A step of a call; its request has been aborted or not. -/
def callStep (options : Options) (s : System) (index : Nat) (c : Call) : CallEvent → Option System
  | .session fulfilled =>
    if c.work = .starting then
      match c.mode with
      | .manual =>
        if fulfilled then
          if c.settled then
            some (s.modify index fun c => { c with obtained := true, ended := c.ended + 1, work := .closing })
          else some ((s.modify index fun c => { c with obtained := true, work := .beginning }).trackActiveSession index)
        else some (s.finish index c)
      | _ =>
        if options.strictTransactions || c.settled then some (s.finish index c)
        else some (s.modify index fun c => { c with work := .running })
    else none
  | .unsupported =>
    if c.work = .beginning then some (s.modify index fun c => { c with work := .ending, ended := c.ended + 1 }) else none
  | .begun fulfilled =>
    if c.work = .beginning then
      some (s.modify index fun c =>
        if fulfilled then { c with transaction := .started, work := if c.aborted then .aborting else .running }
        else { c with work := .aborting })
    else none
  | .attempt =>
    if c.work = .native then
      some (s.modify index fun c => { c with started := true, work := if c.aborted then .native else .running })
    else none
  | .callback fulfilled =>
    if c.work = .running ∧ s.resolved index = true then
      match c.mode with
      | .manual =>
        some (s.modify index fun c => { c with work := if fulfilled && !c.aborted then .committing else .aborting })
      | .connection => some (s.modify index fun c => { c with work := .native })
      | .direct => some (s.finish index c)
      | .nested scope => some (s.finishNested index c scope)
    else none
  | .committed fulfilled =>
    if c.work = .committing then
      some (s.modify index fun c =>
        if fulfilled then { c with transaction := .committed, work := .ending, ended := c.ended + 1 }
        else { c with work := .aborting })
    else none
  | .rolledBack fulfilled =>
    if c.work = .aborting then
      some (s.modify index fun c =>
        { c with
          transaction := if fulfilled then .aborted else .failed
          work := .ending
          ended := c.ended + 1 })
    else none
  | .ended =>
    if c.work = .ending then some (s.modify index fun c => { c with work := .finishing })
    else if c.work = .closing then some (s.finish index c)
    else none
  | .native => if c.work = .native then some (s.modify index fun c => { c with work := .finishing }) else none
  | .finished => if c.work = .finishing then some (s.finish index c) else none
  | .abort => if c.request = true ∧ c.settled = false then some (s.abort index c) else none

def System.abortActive (s : System) (index : Nat) : System :=
  match s.calls[index]? with
  | some c => s.abort index c
  | none => s

/-- `onApplicationShutdown` aborts the requests and notes what is active. -/
def System.beginShutdown (s : System) : System :=
  let s := s.activeRequestTransactions.foldl System.abortActive { s with lifecycle := .shuttingDown }
  { s with shutdown := some ⟨s.activeRequestTransactions, s.activeSessions, s.activeTransactionCallbacks⟩ }

def System.drained (s : System) (waits : Waits) : Bool :=
  waits.requests.all (· ∉ s.activeRequestTransactions) && waits.sessions.all (· ∉ s.activeSessions) &&
    waits.callbacks.all (· ∉ s.activeTransactionCallbacks)

def step (options : Options) (s : System) : Event → Option System
  | .opened request aborted scope awaitedBy =>
    if s.lifecycle ≠ .ready then some s
    else
      match scope with
      | none => if awaitedBy = none then some (s.openRoot options request aborted) else none
      | some scope =>
        if s.isOpen scope = true ∧ awaitedBy.all (s.runsIn scope) = true then
          some (s.openNested request aborted scope awaitedBy)
        else none
  | .call index e => (s.calls[index]?).bind fun c => callStep options s index c e
  | .shutdown => some s.beginShutdown
  | .disposed =>
    match s.shutdown with
    | some waits => if s.drained waits then some { s with lifecycle := .stopped, shutdown := none } else none
    | none => none

end Fluo.Mongoose.Boundaries
