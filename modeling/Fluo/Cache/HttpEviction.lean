import Mathlib.Logic.Function.Basic
import Mathlib.Data.List.Dedup
import Fluo.Lib.Run

/-!
# Cached reads and evicting writes

`CacheInterceptor` for requests in any interleaving: reads that fill the store,
writes that evict keys once their response is committed. A step is what runs
between two points at which other requests may go on; store operations take
effect at once and do not fail.
-/

namespace Fluo.Cache.HttpEviction

variable {V : Type}

/-- A value in the store, with the time at which its handler started. -/
structure Entry (V : Type) where
  value : V
  start : Nat
  deriving DecidableEq

/-- Where `interceptGet` waits: for the store, for the handler, or for its value
to be stored. -/
inductive ReadStage (V : Type) where
  | reading
  | computing (start : Nat)
  | storing (entry : Entry V)
  | done

/-- A `GET`; `storable` when its TTL is valid and its route is cacheable. -/
structure Read (V : Type) where
  key : String
  storable : Bool
  stage : ReadStage V

inductive Handler where
  | running
  | failed
  | fulfilled (time : Nat)
  deriving DecidableEq

/-- A call of `send` or `sendSimpleJson`, through the wrapper or not. -/
inductive Send where
  | unsent
  | sending (wrapped : Bool)
  | settled (wrapped : Bool) (fulfilled : Bool)
  deriving DecidableEq

structure Deferred where
  restored : Bool
  completed : Bool
  responseWriteStarted : Bool
  deriving DecidableEq

/-- Where `runEviction` waits: for its keys, or for the deletes it has issued. -/
inductive Eviction where
  | none
  | resolving
  | deleting (keys : List String)
  deriving DecidableEq

structure Write where
  /-- What the evict metadata names, `none` without metadata. -/
  evict : Option (List String)
  signal : Bool
  handler : Handler
  aborted : Bool
  committed : Bool
  send : Send
  deferred : Option Deferred
  eviction : Eviction
  evictions : Nat
  deleted : List String
  /-- The response was written without error, committed and not aborted. -/
  published : Bool
  /-- The request was aborted before its response was committed. -/
  abortedBeforeCommit : Bool
  /-- The fallback fired before the response was written or committed. -/
  expired : Bool

structure System (V : Type) where
  store : String → Option (Entry V)
  reads : List (Read V)
  writes : List Write
  time : Nat

def normalizeEvictKeys (keys : List String) : List String := keys.filter (· ≠ "")

def Write.keys (w : Write) : List String := ((w.evict.map normalizeEvictKeys).getD []).dedup

namespace Write

def initial (evict : Option (List String)) (signal : Bool) : Write :=
  ⟨evict, signal, .running, false, false, .unsent, none, .none, 0, [], false, false, false⟩

def startEviction (w : Write) : Write := { w with eviction := .resolving, evictions := w.evictions + 1 }

def runEviction (w : Write) (d : Deferred) : Write :=
  if d.completed then w else { w with deferred := some { d with completed := true } }.startEviction

/-- The writers are restored, the timer and the listener are gone. -/
def restore (w : Write) : Write := { w with deferred := w.deferred.map fun d => { d with restored := true } }

def cancel (w : Write) : Write := { w with deferred := w.deferred.map fun d => { d with restored := true, completed := true } }

def installDeferredEviction (w : Write) : Write :=
  let installed := { w with deferred := some ⟨false, false, false⟩ }
  if w.aborted then installed.cancel else installed

def evictAfterWrite (w : Write) : Write :=
  if w.evict = none then w
  else if w.committed then if w.aborted then w else w.startEviction
  else w.installDeferredEviction

def handled (w : Write) (fulfilled : Bool) (time : Nat) : Write :=
  if fulfilled then { w with handler := .fulfilled time }.evictAfterWrite else { w with handler := .failed }

/-- The response is sent, through the wrapper while it is installed. -/
def sendResponse (w : Write) : Write :=
  match w.deferred with
  | some d =>
    if d.restored then { w with send := .sending false }
    else { w with send := .sending true, deferred := some { d with responseWriteStarted := true } }
  | none => { w with send := .sending false }

/-- The response writer settles; `runResponseWrite` goes on. -/
def settled (w : Write) (wrapped fulfilled : Bool) : Write :=
  let w := { w with
    send := .settled wrapped fulfilled
    published := fulfilled && w.committed && !w.aborted }
  match w.deferred with
  | some d =>
    if wrapped then
      if fulfilled && w.committed && !w.aborted then (w.runEviction d).restore else w.cancel
    else w
  | none => w

/-- The abort listener is gone once the writers are restored. -/
def abort (w : Write) : Write :=
  let aborted := { w with aborted := true, abortedBeforeCommit := !w.committed }
  match w.deferred with
  | some d => if w.signal && !d.restored then aborted.cancel else aborted
  | none => aborted

def fallback (w : Write) (d : Deferred) : Write :=
  let w := { w with expired := !d.responseWriteStarted && !w.aborted && !w.committed }
  (if !d.responseWriteStarted && !w.aborted && w.committed then w.runEviction d else w).restore

end Write

inductive ReadEvent (V : Type) where
  | read
  /-- The handler ends, with a value that may be cached or without. -/
  | computed (value : Option V)
  | store

inductive WriteEvent where
  | handled (fulfilled : Bool)
  | send
  | commit
  | settle (fulfilled : Bool)
  | abort
  | fallback
  | resolved
  | delete (key : String)

inductive Event (V : Type) where
  | get (key : String) (storable : Bool)
  | write (evict : Option (List String)) (signal : Bool)
  | expire (key : String)
  | ofRead (index : Nat) (e : ReadEvent V)
  | ofWrite (index : Nat) (e : WriteEvent)

/-- A step of a read, and what it does to the store. -/
def Read.step (r : Read V) (store : String → Option (Entry V)) (time : Nat) :
    ReadEvent V → Option (Read V × (String → Option (Entry V)))
  | .read =>
    match r.stage with
    | .reading =>
      some ({ r with
        stage := if r.storable = true ∧ (store r.key).isSome = true then .done else .computing time }, store)
    | _ => none
  | .computed value =>
    match r.stage with
    | .computing start =>
      some ({ r with
        stage := match value with
          | some value => if r.storable then .storing ⟨value, start⟩ else .done
          | none => .done }, store)
    | _ => none
  | .store =>
    match r.stage with
    | .storing entry => some ({ r with stage := .done }, Function.update store r.key (some entry))
    | _ => none

/-- A step of a write, but for the deletes of its eviction. -/
def Write.step (w : Write) (time : Nat) : WriteEvent → Option Write
  | .handled fulfilled => if w.handler = .running then some (w.handled fulfilled time) else none
  | .send => if w.send = .unsent then some w.sendResponse else none
  | .commit => if w.committed then none else some { w with committed := true }
  | .settle fulfilled =>
    match w.send with
    | .sending wrapped => some (w.settled wrapped fulfilled)
    | _ => none
  | .abort => if w.aborted then none else some w.abort
  | .fallback =>
    match w.deferred with
    | some d => if d.restored then none else some (w.fallback d)
    | none => none
  | .resolved => if w.eviction = .resolving then some { w with eviction := .deleting w.keys } else none
  | .delete key =>
    match w.eviction with
    | .deleting keys =>
      if key ∈ keys then some { w with eviction := .deleting (keys.erase key), deleted := key :: w.deleted } else none
    | _ => none

def initial : System V := ⟨fun _ => none, [], [], 0⟩

/-- A step of the interceptor. It takes time, so that no two things happen at once. -/
def step (s : System V) : Event V → Option (System V)
  | .get key storable => some { s with reads := s.reads ++ [⟨key, storable, .reading⟩], time := s.time + 1 }
  | .write evict signal => some { s with writes := s.writes ++ [Write.initial evict signal], time := s.time + 1 }
  | .expire key => some { s with store := Function.update s.store key none, time := s.time + 1 }
  | .ofRead index e =>
    match s.reads[index]? with
    | some r => (r.step s.store s.time e).map fun (r, store) =>
      { s with reads := s.reads.set index r, store := store, time := s.time + 1 }
    | none => none
  | .ofWrite index e =>
    match s.writes[index]? with
    | some w => (w.step s.time e).map fun w =>
      { s with
        writes := s.writes.set index w
        store := match e with | .delete key => Function.update s.store key none | _ => s.store
        time := s.time + 1 }
    | none => none

end Fluo.Cache.HttpEviction
