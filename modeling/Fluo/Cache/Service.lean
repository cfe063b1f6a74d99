import Fluo.Lib.Groups
import Fluo.Lib.Run

/-!
# The cache service

`CacheService` over a store whose operations take effect at once, at some time
between their call and their completion. Every `await` of the source is a
boundary between two events, so a run is an interleaving of calls and of the
jobs of the operations they started; the scheduler in front of the store only
leaves some of these orders out.
-/

namespace Fluo.Cache

inductive Source
  | load (e : Nat)
  | other
  deriving DecidableEq, Repr

/-- An entry of the store; its value may be `undefined`. -/
structure Stored (V : Type) where
  value : Option V
  source : Source
  deriving DecidableEq, Repr

/-- The jobs of a load: the loader, the reaction to it with the write and the
compensating delete, and the `finally` handler. -/
inductive LoadStage
  | loading
  | loaded
  | writing
  | written
  | deleting
  | returning
  | finished
  deriving DecidableEq, Repr

/-- An in-flight load. `storable` says that its TTL is a finite number that is
not negative; `wrote` that its write has taken effect, and `registeredIn` how
many calls of `reset` came before it was put in flight. -/
structure InflightLoad (V : Type) where
  key : String
  generation : Nat
  invalidated : Bool
  storable : Bool
  startedAt : Nat
  stage : LoadStage
  result : Option (Option V)
  wrote : Bool
  registeredIn : Nat
  deriving DecidableEq, Repr

inductive RememberStage (V : Type)
  | reading
  | read (cached : Option V)
  | bypass
  | awaiting (e : Nat)
  | hit (value : V)
  | missed (e : Option Nat)
  | threw
  deriving DecidableEq, Repr

def RememberStage.isEnded {V : Type} : RememberStage V → Bool
  | .hit _ | .missed _ | .threw => true
  | _ => false

def RememberStage.isAwaiting {V : Type} : RememberStage V → Bool
  | .awaiting _ => true
  | _ => false

/-- A call of `remember`; `version` is the `resetVersion` it read. -/
structure Remember (V : Type) where
  key : String
  version : Nat
  storable : Bool
  startedAt : Nat
  stage : RememberStage V
  deriving DecidableEq, Repr

inductive WriteKind (V : Type)
  | set (key : String) (value : Option V)
  | del (key : String)
  | reset
  deriving DecidableEq, Repr

inductive WriteStage
  | pending
  | effected
  | ended
  deriving DecidableEq, Repr

/-- A call of `set`, `del` or `reset`. -/
structure Write (V : Type) where
  kind : WriteKind V
  stage : WriteStage
  deriving DecidableEq, Repr

/-- A call of `update`, with the controller set it put itself into. -/
structure Update where
  key : String
  controllers : Nat
  running : Bool
  deriving DecidableEq, Repr

variable {V : Type}

instance : Inhabited (InflightLoad V) := ⟨"", 0, false, false, 0, .finished, none, false, 0⟩
instance : Inhabited (Remember V) := ⟨"", 0, false, 0, .threw⟩
instance : Inhabited (Write V) := ⟨.reset, .ended⟩
instance : Inhabited Update := ⟨"", 0, false⟩

/-- The numbers of pending loads, by key and generation. -/
abbrev PendingLoads := OrderedMap String (OrderedMap Nat Nat)

/-- The service with its store. Controllers are named by their update.
`clock` counts the calls of `del` and `reset`, and `invalidatedAt` has the last
of them for each key. -/
structure CacheService (V : Type) where
  store : OrderedMap String (Stored V)
  inflight : OrderedMap String Nat
  pendingLoads : PendingLoads
  pendingInvalidations : OrderedMap String Nat
  invalidatedInflight : OrderedSet String
  resetVersion : Nat
  updates : Groups String
  aborted : List Nat
  loads : Heap (InflightLoad V)
  remembers : Heap (Remember V)
  writes : Heap (Write V)
  updateCalls : Heap Update
  clock : Nat
  invalidatedAt : String → Nat

inductive Call (V : Type)
  | remember (key : String) (storable : Bool)
  | set (key : String) (value : Option V) (storable : Bool)
  | del (key : String)
  | reset
  | update (key : String)
  deriving DecidableEq, Repr

inductive ServiceEvent (V : Type)
  | call (c : Call V)
  /-- The store's `get` for a `remember` takes effect. -/
  | read (i : Nat)
  /-- A `remember` goes on after its read. If that calls the loader, the loader
  makes `calls` before it returns its promise, or throws. -/
  | proceed (i : Nat) (calls : List (Call V)) (throws : Bool)
  /-- The promise of a loader settles, without a value when it is rejected. -/
  | loaderSettles (e : Nat) (result : Option (Option V))
  | loadContinues (e : Nat)
  /-- The write or the delete of a load takes effect. -/
  | loadEffect (e : Nat)
  | rememberEnds (i : Nat)
  | writeEffect (i : Nat)
  | writeEnds (i : Nat)
  /-- The store commits an update: a value, or a deletion. -/
  | commit (i : Nat) (decision : Option (Option V))
  | updateSettles (i : Nat)
  /-- An entry reaches the end of its TTL or is evicted. -/
  | expire (key : String)
  deriving DecidableEq, Repr

namespace CacheService

/-! ## The calls -/

def beginPendingLoad (pendingLoads : PendingLoads) (key : String) (generation : Nat) : PendingLoads :=
  let generations := (pendingLoads.get key).getD OrderedMap.empty
  pendingLoads.set key (generations.set generation ((generations.get generation).getD 0 + 1))

def endPendingLoad (pendingLoads : PendingLoads) (key : String) (generation : Nat) : PendingLoads :=
  match pendingLoads.get key with
  | none => pendingLoads
  | some generations =>
    let count := (generations.get generation).getD 0
    if 1 < count then pendingLoads.set key (generations.set generation (count - 1))
    else if (generations.erase generation).entries = [] then pendingLoads.erase key
    else pendingLoads.set key (generations.erase generation)

def callRemember (s : CacheService V) (key : String) (storable : Bool) : CacheService V :=
  { s with
    pendingLoads := beginPendingLoad s.pendingLoads key s.resetVersion
    remembers := s.remembers.push ⟨key, s.resetVersion, storable, s.clock, .reading⟩ }

/-- A `set` with a TTL that cannot be used returns at once. -/
def callSet (s : CacheService V) (key : String) (value : Option V) (storable : Bool) : CacheService V :=
  { s with writes := s.writes.push ⟨.set key value, if storable then .pending else .ended⟩ }

def invalidateUpdates (s : CacheService V) (key : Option String) : CacheService V :=
  { s with aborted := s.aborted ++ match key with
      | some key => s.updates.members key
      | none => s.updates.all }

/-- What `del` marks: the load in flight, or the loads that may begin. -/
def markInvalidated (s : CacheService V) (key : String) : CacheService V :=
  match s.inflight.get key with
  | some e =>
    { s with
      loads := s.loads.modify e fun x => { x with invalidated := true }
      invalidatedInflight := s.invalidatedInflight.set key () }
  | none =>
    if s.pendingLoads.has key then
      { s with
        pendingInvalidations := s.pendingInvalidations.set key s.resetVersion
        invalidatedInflight := s.invalidatedInflight.set key () }
    else s

def callDel (s : CacheService V) (key : String) : CacheService V :=
  { (s.invalidateUpdates (some key)).markInvalidated key with
    writes := s.writes.push ⟨.del key, .pending⟩
    clock := s.clock + 1
    invalidatedAt := fun k => if k = key then s.clock + 1 else s.invalidatedAt k }

def callReset (s : CacheService V) : CacheService V :=
  { s.invalidateUpdates none with
    resetVersion := s.resetVersion + 1
    inflight := OrderedMap.empty
    pendingLoads := OrderedMap.empty
    pendingInvalidations := OrderedMap.empty
    invalidatedInflight := OrderedMap.empty
    writes := s.writes.push ⟨.reset, .pending⟩
    clock := s.clock + 1
    invalidatedAt := fun _ => s.clock + 1 }

def callUpdate (s : CacheService V) (key : String) : CacheService V :=
  { s with
    updates := s.updates.join key s.updateCalls.size
    updateCalls := s.updateCalls.push ⟨key, s.updates.target key, true⟩ }

def call (s : CacheService V) : Call V → CacheService V
  | .remember key storable => s.callRemember key storable
  | .set key value storable => s.callSet key value storable
  | .del key => s.callDel key
  | .reset => s.callReset
  | .update key => s.callUpdate key

/-! ## The jobs of a call -/

def setRemember (s : CacheService V) (i : Nat) (stage : RememberStage V) : CacheService V :=
  { s with remembers := s.remembers.modify i fun r => { r with stage } }

theorem setRemember_ne (s : CacheService V) {i j : Nat} (stage : RememberStage V) (h : j ≠ i) :
    (s.setRemember i stage).remembers.get j = s.remembers.get j := by
  simp only [setRemember, Heap.get_modify, if_neg h]

@[simp] theorem setRemember_self (s : CacheService V) (i : Nat) (stage : RememberStage V) :
    (s.setRemember i stage).remembers.get i = { s.remembers.get i with stage } := by
  simp only [setRemember, Heap.get_modify_self]

/-- The `finally` block of `rememberThroughStore`. -/
def endRemember (s : CacheService V) (i : Nat) (stage : RememberStage V) : CacheService V :=
  let r := s.remembers.get i
  { s with pendingLoads := endPendingLoad s.pendingLoads r.key r.version }.setRemember i stage

/-- The loader of a `remember` is called, and its promise put in flight. -/
def startLoad (s : CacheService V) (i : Nat) (calls : List (Call V)) (throws : Bool) : CacheService V :=
  let r := s.remembers.get i
  let invalidated := decide (s.pendingInvalidations.get r.key = some r.version)
  let t := calls.foldl call { s with inflight := s.inflight.erase r.key }
  if throws then t.endRemember i .threw
  else
    { t with
      loads := t.loads.push
        ⟨r.key, r.version, invalidated, r.storable, s.clock, .loading, none, false, t.resetVersion⟩
      inflight := t.inflight.set r.key t.loads.size }.setRemember i (.awaiting t.loads.size)

/-- A loader that is called after a `reset` is not registered. -/
def startBypass (s : CacheService V) (i : Nat) (calls : List (Call V)) (throws : Bool) : CacheService V :=
  if throws then (calls.foldl call s).endRemember i .threw else (calls.foldl call s).setRemember i .bypass

/-- `rememberThroughStore` after a read that found nothing. -/
def miss (s : CacheService V) (i : Nat) (calls : List (Call V)) (throws : Bool) : CacheService V :=
  let r := s.remembers.get i
  if r.version = s.resetVersion then
    match s.inflight.get r.key with
    | some e => if (s.loads.get e).generation = r.version then s.setRemember i (.awaiting e) else s.startLoad i calls throws
    | none => s.startLoad i calls throws
  else s.startBypass i calls throws

def setLoad (s : CacheService V) (e : Nat) (stage : LoadStage) : CacheService V :=
  { s with loads := s.loads.modify e fun x => { x with stage } }

theorem setLoad_ne (s : CacheService V) {e d : Nat} (stage : LoadStage) (h : d ≠ e) :
    (s.setLoad e stage).loads.get d = s.loads.get d := by
  simp only [setLoad, Heap.get_modify, if_neg h]

@[simp] theorem setLoad_self (s : CacheService V) (e : Nat) (stage : LoadStage) :
    (s.setLoad e stage).loads.get e = { s.loads.get e with stage } := by
  simp only [setLoad, Heap.get_modify_self]

def isStale (s : CacheService V) (e : Nat) : Bool :=
  (s.loads.get e).invalidated || (s.loads.get e).generation ≠ s.resetVersion

/-- The `finally` handler of a load. -/
def finishLoad (s : CacheService V) (e : Nat) : CacheService V :=
  let x := s.loads.get e
  let own := decide (s.inflight.get x.key = some e)
  { s with
    inflight := if own then s.inflight.erase x.key else s.inflight
    invalidatedInflight := if own then s.invalidatedInflight.erase x.key else s.invalidatedInflight
    pendingInvalidations :=
      if s.pendingInvalidations.get x.key = some x.generation then s.pendingInvalidations.erase x.key
      else s.pendingInvalidations }.setLoad e .finished

theorem finishLoad_self (s : CacheService V) (e : Nat) :
    (s.finishLoad e).loads.get e = { s.loads.get e with stage := .finished } := by
  rw [finishLoad, setLoad_self]

theorem finishLoad_ne (s : CacheService V) {e d : Nat} (h : d ≠ e) :
    (s.finishLoad e).loads.get d = s.loads.get d := by
  rw [finishLoad, setLoad_ne _ _ h]

/-- The next reaction in the promise chain of a load. -/
def continueLoad (s : CacheService V) (e : Nat) : Option (CacheService V) :=
  let x := s.loads.get e
  match x.stage with
  | .loaded =>
    if x.result = none ∨ s.isStale e = true then some (s.setLoad e .returning)
    else some (s.setLoad e (if x.storable then .writing else .written))
  | .written => some (s.setLoad e (if s.isStale e then .deleting else .returning))
  | .returning => some (s.finishLoad e)
  | _ => none

def effectOfLoad (s : CacheService V) (e : Nat) : Option (CacheService V) :=
  let x := s.loads.get e
  match x.stage, x.result with
  | .writing, some value =>
    some { s with
      store := s.store.set x.key ⟨value, .load e⟩
      loads := s.loads.modify e fun x => { x with wrote := true, stage := .written } }
  | .deleting, _ => some ({ s with store := s.store.erase x.key }.setLoad e .returning)
  | _, _ => none

def effectOfWrite (s : CacheService V) (i : Nat) : CacheService V :=
  { s with
    store := match (s.writes.get i).kind with
      | .set key value => s.store.set key ⟨value, .other⟩
      | .del key => s.store.erase key
      | .reset => OrderedMap.empty
    writes := s.writes.modify i fun w => { w with stage := .effected } }

/-- The `finally` block of `update`. -/
def endUpdate (s : CacheService V) (i : Nat) : CacheService V :=
  let u := s.updateCalls.get i
  { s with
    updates := s.updates.leave u.key u.controllers i
    updateCalls := s.updateCalls.modify i fun u => { u with running := false } }

/-- `none` when the event is not enabled. -/
def step (s : CacheService V) : ServiceEvent V → Option (CacheService V)
  | .call c => some (s.call c)
  | .read i =>
    match (s.remembers.get i).stage with
    | .reading => some (s.setRemember i (.read ((s.store.get (s.remembers.get i).key).bind (·.value))))
    | _ => none
  | .proceed i calls throws =>
    match (s.remembers.get i).stage with
    | .read (some value) => some (s.endRemember i (.hit value))
    | .read none => some (s.miss i calls throws)
    | _ => none
  | .loaderSettles e result =>
    if (s.loads.get e).stage = .loading then
      some { s with loads := s.loads.modify e fun x => { x with stage := .loaded, result } }
    else none
  | .loadContinues e => s.continueLoad e
  | .loadEffect e => s.effectOfLoad e
  | .rememberEnds i =>
    match (s.remembers.get i).stage with
    | .bypass => some (s.endRemember i (.missed none))
    | .awaiting e => if (s.loads.get e).stage = .finished then some (s.endRemember i (.missed (some e))) else none
    | _ => none
  | .writeEffect i => if (s.writes.get i).stage = .pending then some (s.effectOfWrite i) else none
  | .writeEnds i =>
    if (s.writes.get i).stage = .effected then
      some { s with writes := s.writes.modify i fun w => { w with stage := .ended } }
    else none
  | .commit i decision =>
    if (s.updateCalls.get i).running = true then
      let key := (s.updateCalls.get i).key
      some { s with store := match decision with
        | some value => s.store.set key ⟨value, .other⟩
        | none => s.store.erase key }
    else none
  | .updateSettles i =>
    if i < s.updateCalls.size ∧ (s.updateCalls.get i).running = true then some (s.endUpdate i) else none
  | .expire key => some { s with store := s.store.erase key }

def initial : CacheService V :=
  ⟨OrderedMap.empty, OrderedMap.empty, OrderedMap.empty, OrderedMap.empty, OrderedMap.empty, 0, Groups.empty,
    [], Heap.empty, Heap.empty, Heap.empty, Heap.empty, 0, fun _ => 0⟩

structure Quiet (s : CacheService V) : Prop where
  remembers : ∀ i, i < s.remembers.size → (s.remembers.get i).stage.isEnded = true
  writes : ∀ i, i < s.writes.size → (s.writes.get i).stage = .ended
  updates : ∀ i, i < s.updateCalls.size → (s.updateCalls.get i).running = false

instance (s : CacheService V) : Decidable s.Quiet :=
  decidable_of_iff
    ((∀ i, i < s.remembers.size → (s.remembers.get i).stage.isEnded = true) ∧
      (∀ i, i < s.writes.size → (s.writes.get i).stage = .ended) ∧
      ∀ i, i < s.updateCalls.size → (s.updateCalls.get i).running = false)
    ⟨fun h => ⟨h.1, h.2.1, h.2.2⟩, fun h => ⟨h.remembers, h.writes, h.updates⟩⟩

end CacheService

end Fluo.Cache
