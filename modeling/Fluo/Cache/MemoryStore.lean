import Fluo.Lib.Groups
import Fluo.Lib.Run

/-!
# Atomic updates of the memory store

`MemoryStore` with its update queue. Between two `await`s an operation runs to
its end, so a run is an interleaving of calls and of the jobs of the updates.
Clock readings come with the events, in no particular order.
-/

namespace Fluo.Cache

variable {V : Type}

structure MemoryCacheEntry (V : Type) where
  value : V
  expiresAt : Option Nat
  deriving DecidableEq, Repr

/-- A TTL in seconds: one that is not finite or negative, or the milliseconds
it is rounded to, zero for an entry without expiry. -/
inductive Ttl
  | invalid
  | milliseconds (n : Nat)
  deriving DecidableEq, Repr

inductive CacheUpdate (V : Type)
  | set (value : V) (ttl : Option Ttl)
  | delete
  deriving DecidableEq, Repr

/-- Where an update is: behind others of its key, at the `await` of its
snapshot or of its reducer, with a decision, or settled. -/
inductive UpdateStage (V : Type)
  | queued
  | reading
  | reducing
  | decided (decision : CacheUpdate V)
  | fulfilled (value : Option V)
  | rejected
  deriving DecidableEq, Repr

def UpdateStage.isSettled : UpdateStage V → Bool
  | .fulfilled _ | .rejected => true
  | _ => false

/-- An admitted update. `entry` is the object its attempt found and `given` the
value its reducer got; `after` is the update whose tail it hangs on. -/
structure AtomicUpdate (V : Type) where
  key : String
  maxAttempts : Nat
  defaultTtl : Ttl
  after : Option Nat
  controllers : Nat
  aborted : Bool
  attempt : Nat
  entry : Option Nat
  given : Option V
  stage : UpdateStage V
  finished : Bool

/-- What a commit found and did: the object its attempt had read and the one that
was present, the clock readings at which it looked for expiry and counted a TTL,
and the entry it put in. `floor` is the number of updates admitted before the
last `del` of the key or `reset`. -/
structure Commit (V : Type) where
  update : Nat
  key : String
  defaultTtl : Ttl
  decision : CacheUpdate V
  entry : Option Nat
  given : Option V
  present : Option Nat
  checkedAt : Nat
  countedFrom : Nat
  placed : Option (MemoryCacheEntry V)
  floor : Nat
  deriving DecidableEq, Repr

instance [Inhabited V] : Inhabited (MemoryCacheEntry V) := ⟨default, none⟩
instance : Inhabited (AtomicUpdate V) := ⟨"", 0, .invalid, none, 0, false, 0, none, none, .rejected, true⟩

/-- The store. Entries are objects; `tails` names a tail by its update. -/
structure MemoryStore (V : Type) where
  entries : OrderedMap String Nat
  objects : Heap (MemoryCacheEntry V)
  nextSweepAt : Nat
  tails : OrderedMap String Nat
  active : Groups String
  updates : Heap (AtomicUpdate V)
  log : List (Commit V)
  admittedBefore : String → Nat

/-- The calls of the store. The TTL of a `set` is in milliseconds if positive. -/
inductive StoreCall (V : Type)
  | get (key : String) (now : Nat)
  | set (key : String) (value : V) (ttl : Option Nat) (now : Nat) (clones : Bool)
  | del (key : String)
  | reset
  /-- `maxAttempts` is missing if it is no positive safe integer. -/
  | update (key : String) (maxAttempts : Option Nat) (defaultTtl : Ttl) (aborted : Bool)

inductive StoreEvent (V : Type)
  | call (c : StoreCall V)
  | cancel (i : Nat)
  | begin (i : Nat) (now : Nat)
  | snapshotRead (i : Nat)
  /-- The reducer's promise settles, without a decision when it is rejected. -/
  | reduced (i : Nat) (decision : Option (CacheUpdate V))
  /-- An update goes on with its decision. If it clones a value, `getters` are
  the calls that reading the value makes, and the clones may fail. -/
  | conclude (i : Nat) (now now' : Nat) (getters : List (StoreCall V)) (clones clonesAgain : Bool)
  | finish (i : Nat)

namespace MemoryStore

def maxSafeInteger : Nat := 2 ^ 53 - 1

/-- `DEFAULT_MAX_MEMORY_CACHE_ENTRIES`. -/
def maxEntries : Nat := 1000

def expired (entry : MemoryCacheEntry V) (now : Nat) : Bool :=
  match entry.expiresAt with
  | some expiresAt => expiresAt ≤ now
  | none => false

def sweepExpiredEntries (s : MemoryStore V) (now : Nat) : MemoryStore V :=
  let rest := s.entries.filter fun _ id => !expired (s.objects.get id) now
  { s with
    entries := rest
    nextSweepAt := ((rest.values.filterMap fun id => (s.objects.get id).expiresAt).min?).getD 0 }

def sweepIfDue (s : MemoryStore V) (now : Nat) : MemoryStore V :=
  if s.nextSweepAt ≤ now then s.sweepExpiredEntries now else s

def enforceEntryLimit {α : Type} (limit : Nat) : List α → List α
  | [] => []
  | a :: rest => if limit < (a :: rest).length then enforceEntryLimit limit rest else a :: rest

theorem enforceEntryLimit_suffix {α : Type} (limit : Nat) (l : List α) : enforceEntryLimit limit l <:+ l := by
  induction l with
  | nil => exact List.suffix_rfl
  | cons a rest ih =>
    rw [enforceEntryLimit]
    split
    · exact ih.trans (List.suffix_cons a rest)
    · exact List.suffix_rfl

def limited (m : OrderedMap String Nat) : OrderedMap String Nat :=
  ⟨enforceEntryLimit maxEntries m.entries, m.distinct.sublist ((enforceEntryLimit_suffix _ _).sublist.map _)⟩

/-- A new object takes the place of the key at the end of the map. -/
def insertEntry (s : MemoryStore V) (key : String) (entry : MemoryCacheEntry V) : MemoryStore V :=
  { s with
    objects := s.objects.push entry
    entries := limited ((s.entries.erase key).set key s.objects.size)
    nextSweepAt := match entry.expiresAt with
      | none => s.nextSweepAt
      | some expiresAt => if s.nextSweepAt = 0 then expiresAt else min s.nextSweepAt expiresAt }

/-- The store after a `get`, and the value it found. -/
def get (s : MemoryStore V) (key : String) (now : Nat) : MemoryStore V × Option V :=
  let swept := s.sweepIfDue now
  match swept.entries.get key with
  | none => (swept, none)
  | some id =>
    if expired (s.objects.get id) now then
      ({ swept with entries := swept.entries.erase key }.sweepExpiredEntries now, none)
    else (swept, some (s.objects.get id).value)

def set (s : MemoryStore V) (key : String) (value : V) (ttl : Option Nat) (now : Nat) (clones : Bool) : MemoryStore V :=
  let swept := s.sweepIfDue now
  if clones then
    swept.insertEntry key ⟨value, ttl.map fun n => now + min (maxSafeInteger - now) (max 1 n)⟩
  else swept

/-- `CacheUpdateQueue.invalidate`: the updates named are aborted. -/
def abort (s : MemoryStore V) (members : List Nat) : MemoryStore V :=
  { s with updates := ⟨s.updates.size, fun i =>
      { s.updates.get i with aborted := (s.updates.get i).aborted || decide (i ∈ members) }⟩ }

def del (s : MemoryStore V) (key : String) : MemoryStore V :=
  { s.abort (s.active.members key) with
    entries := s.entries.erase key
    admittedBefore := fun k => if k = key then s.updates.size else s.admittedBefore k }

def reset (s : MemoryStore V) : MemoryStore V :=
  { s.abort s.active.all with
    entries := OrderedMap.empty
    nextSweepAt := 0
    admittedBefore := fun _ => s.updates.size }

/-- `CacheUpdateQueue.run`; an attempt limit out of range only yields a rejected
promise. -/
def update (s : MemoryStore V) (key : String) (maxAttempts : Option Nat) (defaultTtl : Ttl) (aborted : Bool) :
    MemoryStore V :=
  match maxAttempts with
  | none => s
  | some maxAttempts =>
    { s with
      updates := s.updates.push
        ⟨key, maxAttempts, defaultTtl, s.tails.get key, s.active.target key, aborted, 0, none, none, .queued, false⟩
      active := s.active.join key s.updates.size
      tails := s.tails.set key s.updates.size }

def call (s : MemoryStore V) : StoreCall V → MemoryStore V
  | .get key now => (s.get key now).1
  | .set key value ttl now clones => s.set key value ttl now clones
  | .del key => s.del key
  | .reset => s.reset
  | .update key maxAttempts defaultTtl aborted => s.update key maxAttempts defaultTtl aborted

/-! ## The jobs of an update -/

def stage (s : MemoryStore V) (i : Nat) : UpdateStage V := (s.updates.get i).stage

def setStage (s : MemoryStore V) (i : Nat) (stage : UpdateStage V) : MemoryStore V :=
  { s with updates := s.updates.modify i fun u => { u with stage } }

/-- An attempt up to the `await` of its snapshot. -/
def startAttempt (s : MemoryStore V) (i : Nat) (now : Nat) : MemoryStore V :=
  let found := s.get (s.updates.get i).key now
  { found.1 with
    updates := found.1.updates.modify i fun u =>
      { u with
        attempt := u.attempt + 1
        entry := found.1.entries.get u.key
        given := found.2
        stage := .reading } }

def resolveUpdateExpiry (ttl : Option Ttl) (previous : Option (Option Nat)) (defaultTtl : Ttl) (now : Nat) :
    Option (Option Nat) :=
  match ttl, previous with
  | none, some expiresAt => some expiresAt
  | _, _ =>
    match ttl.getD defaultTtl with
    | .invalid => none
    | .milliseconds 0 => some none
    | .milliseconds n => some (some (min maxSafeInteger (now + max 1 n)))

inductive Verdict (V : Type)
  | reject
  | retry
  | delete
  | replace (value : V) (expiresAt : Option Nat)

def verdict (s : MemoryStore V) (i : Nat) (decision : CacheUpdate V) (now now' : Nat) : Verdict V :=
  let u := s.updates.get i
  let entry := u.entry.map s.objects.get
  if u.aborted then .reject
  else if (entry.map fun e => expired e now).getD false then .reject
  else if s.entries.get u.key = u.entry then
    match decision with
    | .delete => .delete
    | .set value ttl =>
      match resolveUpdateExpiry ttl (entry.map (·.expiresAt)) u.defaultTtl now' with
      | none => .reject
      | some expiresAt => .replace value expiresAt
  else if u.attempt < u.maxAttempts then .retry
  else .reject

def commitOf (s : MemoryStore V) (i : Nat) (decision : CacheUpdate V) (now now' : Nat)
    (placed : Option (MemoryCacheEntry V)) : Commit V :=
  let u := s.updates.get i
  ⟨i, u.key, u.defaultTtl, decision, u.entry, u.given, s.entries.get u.key, now, now', placed, s.admittedBefore u.key⟩

def conclude (s : MemoryStore V) (i : Nat) (decision : CacheUpdate V) (now now' : Nat) (getters : List (StoreCall V))
    (clones clonesAgain : Bool) : MemoryStore V :=
  match s.verdict i decision now now' with
  | .reject => s.setStage i .rejected
  | .retry => s.startAttempt i now'
  | .delete =>
    { s with
      entries := s.entries.erase (s.updates.get i).key
      log := s.log ++ [s.commitOf i decision now now' none] }.setStage i (.fulfilled none)
  | .replace value expiresAt =>
    let t := getters.foldl call s
    if clones then
      { t.insertEntry (t.updates.get i).key ⟨value, expiresAt⟩ with
        log := t.log ++ [t.commitOf i decision now now' (some ⟨value, expiresAt⟩)] }.setStage i
          (if clonesAgain then .fulfilled (some value) else .rejected)
    else t.setStage i .rejected

/-- `finish` of the queue. -/
def finishUpdate (s : MemoryStore V) (i : Nat) : MemoryStore V :=
  let u := s.updates.get i
  { s with
    active := s.active.leave u.key u.controllers i
    tails := if s.tails.get u.key = some i then s.tails.erase u.key else s.tails
    updates := s.updates.modify i fun u => { u with finished := true } }

def tailSettled (s : MemoryStore V) (i : Nat) : Bool :=
  match (s.updates.get i).after with
  | none => true
  | some p => (s.updates.get p).finished

/-- `none` when the event is not enabled. -/
def step (s : MemoryStore V) : StoreEvent V → Option (MemoryStore V)
  | .call c => some (s.call c)
  | .cancel i =>
    if i < s.updates.size ∧ (s.updates.get i).finished = false then some (s.abort [i]) else none
  | .begin i now =>
    match s.stage i with
    | .queued =>
      if s.tailSettled i = true then
        some (if (s.updates.get i).aborted then s.setStage i .rejected else s.startAttempt i now)
      else none
    | _ => none
  | .snapshotRead i =>
    match s.stage i with
    | .reading => some (s.setStage i (if (s.updates.get i).aborted then .rejected else .reducing))
    | _ => none
  | .reduced i decision =>
    match s.stage i, decision with
    | .reducing, none => some (s.setStage i .rejected)
    | .reducing, some decision => some (s.setStage i (.decided decision))
    | _, _ => none
  | .conclude i now now' getters clones clonesAgain =>
    match s.stage i with
    | .decided decision => some (s.conclude i decision now now' getters clones clonesAgain)
    | _ => none
  | .finish i =>
    if i < s.updates.size ∧ (s.stage i).isSettled = true ∧ (s.updates.get i).finished = false then
      some (s.finishUpdate i)
    else none

def initial [Inhabited V] : MemoryStore V :=
  ⟨OrderedMap.empty, Heap.empty, 0, OrderedMap.empty, Groups.empty, Heap.empty, [], fun _ => 0⟩

end MemoryStore

end Fluo.Cache
