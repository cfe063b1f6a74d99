import Fluo.Lib.Heap
import Fluo.Lib.Numerals
import Fluo.Lib.OrderedMap

/-!
# Prefetched navigation results

Speculative loads are registered under the session generation, the scope and
the destination they are made for. A load that completes in time is cached until
a navigation takes its result or the session is revoked.
-/

namespace Fluo.React.Prefetch

open Js

/-- A parsed URL; the parser leaves no NUL in what it returns. -/
structure Url where
  protocol : JsString
  origin : JsString
  pathname : JsString
  search : JsString
  clean : 0 ∉ origin ++ pathname ++ search

def Url.address (url : Url) : JsString := url.origin ++ url.pathname ++ url.search

/-- The browser of a connected store; `prefetch` says whether it can prefetch. -/
structure PrefetchEnvironment where
  current : Url
  prefetch : Bool
  prefetchScope : Option JsString

/-- What `getEnvironment` and `getSessionGeneration` return. -/
structure Boundary where
  environment : Option PrefetchEnvironment
  sessionGeneration : Nat

/-- A load by `environment.prefetch`. Its `generation`, `scope` and `destination` are
what it was made for; `discarded` says that the store let go of it before it was
through, `stored` that its result entered the cache, `handed` how often it was
taken from there, and `through` that the callback for its promise ran. -/
structure Load where
  key : JsString
  generation : Nat
  scope : JsString
  destination : Url
  owners : List Nat
  adopted : Bool := false
  aborted : Bool := false
  discarded : Bool := false
  stored : Bool := false
  handed : Nat := 0
  through : Bool := false

instance : Inhabited Load := ⟨{ key := [], generation := 0, scope := [], destination := ⟨[], [], [], [], nofun⟩, owners := [] }⟩

variable {Time : Type}

structure CompletedPrefetch (Time : Type) where
  result : Nat
  expiresAt : Time

/-- The maps of the store over all loads ever made. -/
structure Store (Time : Type) where
  cached : OrderedMap JsString (CompletedPrefetch Time)
  prefetched : OrderedMap JsString Nat
  loads : Heap Load

def Store.initial : Store Time := ⟨.empty, .empty, .empty⟩

/-- What a load resolves with; `ok` carries `prefetchExpiresAt`. -/
inductive Outcome (Time : Type)
  | ok (prefetchExpiresAt : Option Time)
  | failed
  | rejected

/-! ## Keys -/

def colon : UInt16 := unit ':'

def keyText (generation : Nat) (scope address : JsString) : JsString :=
  digitsIn 10 generation ++ colon :: (scope ++ 0 :: (address ++ 0 :: text "v2"))

/-- The key of a destination with the scope that stands in it. -/
def scopedKey (boundary : Boundary) (destination : Url) : Option (JsString × JsString) :=
  match boundary.environment with
  | none => none
  | some environment =>
    match environment.prefetchScope with
    | none => none
    | some scope =>
      if !environment.prefetch then none
      else if destination.protocol ≠ text "http:" ∧ destination.protocol ≠ text "https:" ∨
          destination.origin ≠ environment.current.origin ∨
          destination.pathname = environment.current.pathname ∧ destination.search = environment.current.search then none
      else some (keyText boundary.sessionGeneration scope destination.address, scope)

def keyFor (boundary : Boundary) (destination : Url) : Option JsString := (scopedKey boundary destination).map Prod.fst

namespace Store

variable (s : Store Time)

/-! ## Operations -/

/-- Takes a load out of the map and aborts it. -/
def drop (key : JsString) (i : Nat) : Store Time :=
  { s with
    prefetched := s.prefetched.erase key
    loads := s.loads.modify i fun load => { load with aborted := true, discarded := true } }

def discardEntry (except : Option JsString) (s : Store Time) (entry : JsString × Nat) : Store Time :=
  if some entry.1 = except then s else s.drop entry.1 entry.2

def discard (except : Option JsString) : Store Time := s.prefetched.entries.foldl (discardEntry except) s

def invalidate : Store Time := { s with cached := .empty }.discard none

/-- The caller aborts the controllers of the loads that the store let go of. -/
def detach : Store Time where
  cached := .empty
  prefetched := .empty
  loads := s.prefetched.values.foldl (fun loads i => loads.modify i fun load => { load with discarded := true }) s.loads

/-- A registered load is left registered, a cached result is taken. -/
def adopt [LT Time] [DecidableLT Time] (key : Option JsString) (now : Time) : Store Time :=
  match key with
  | none => s
  | some key =>
    match s.prefetched.get key with
    | some i => { s with loads := s.loads.modify i fun load => { load with adopted := true } }
    | none =>
      match s.cached.get key with
      | none => s
      | some completed =>
        let s := { s with cached := s.cached.erase key }
        if now < completed.expiresAt then
          { s with loads := s.loads.modify completed.result fun load => { load with handed := load.handed + 1 } }
        else s

def addOwner (owner : Nat) (owners : List Nat) : List Nat := if owner ∈ owners then owners else owners ++ [owner]

/-- The part of `prefetch` behind the look into the cache; `throws` says that
the call of `environment.prefetch` throws. -/
def register (load : Load) (owner : Nat) (throws : Bool) : Store Time :=
  match s.prefetched.get load.key with
  | some i => { s with loads := s.loads.modify i fun load => { load with owners := addOwner owner load.owners } }
  | none =>
    if 4 ≤ s.prefetched.entries.length then s
    else if throws then s
    else { s with prefetched := s.prefetched.set load.key s.loads.size, loads := s.loads.push load }

def prefetch [LT Time] [DecidableLT Time] (boundary : Boundary) (destination : Url) (owner : Nat) (now : Time)
    (throws : Bool) : Store Time :=
  match scopedKey boundary destination with
  | none => s
  | some (key, scope) =>
    let load : Load :=
      { key, generation := boundary.sessionGeneration, scope := scope, destination := destination, owners := [owner] }
    match s.cached.get key with
    | none => s.register load owner throws
    | some completed =>
      if now < completed.expiresAt then { s with cached := (s.cached.erase key).set key completed }
      else { s with cached := s.cached.erase key }.register load owner throws

/-- The cache after its oldest result had to make room. -/
def trimmed (cached : OrderedMap JsString (CompletedPrefetch Time)) : OrderedMap JsString (CompletedPrefetch Time) :=
  if 32 < cached.entries.length then cached.erase (cached.keys.headD []) else cached

/-- The callback of `prefetch` for its own entry. -/
def complete [LT Time] [DecidableLT Time] (i : Nat) (outcome : Outcome Time) (now : Time) : Store Time :=
  let load := s.loads.get i
  if load.through ∨ s.loads.size ≤ i then s
  else
    let s := { s with loads := s.loads.modify i fun load => { load with through := true } }
    if s.prefetched.get load.key ≠ some i then s
    else
      let s := { s with prefetched := s.prefetched.erase load.key }
      match outcome with
      | .ok (some prefetchExpiresAt) =>
        if !load.adopted ∧ !load.aborted ∧ now < prefetchExpiresAt then
          { s with
            cached := trimmed ((s.cached.erase load.key).set load.key ⟨i, prefetchExpiresAt⟩)
            loads := s.loads.modify i fun load => { load with stored := true } }
        else s
      | _ => s

def cancel (boundary : Boundary) (destination : Url) (owner : Nat) : Store Time :=
  match keyFor boundary destination with
  | none => s
  | some key =>
    match s.prefetched.get key with
    | none => s
    | some i =>
      if (s.loads.get i).adopted then s
      else
        let s := { s with loads := s.loads.modify i fun load => { load with owners := load.owners.erase owner } }
        if (s.loads.get i).owners = [] then s.drop key i else s

/-- The navigation that adopted a load, or the session change that detached it,
aborts its controller. -/
def abort (i : Nat) : Store Time :=
  if (s.loads.get i).adopted ∨ (s.loads.get i).discarded then
    { s with loads := s.loads.modify i fun load => { load with aborted := true } }
  else s

end Store

/-- The calls of the store with what they read from outside, and what its loads
and their holders do. -/
inductive Action (Time : Type)
  | prefetch (boundary : Boundary) (destination : Url) (owner : Nat) (now : Time) (throws : Bool)
  | cancel (boundary : Boundary) (destination : Url) (owner : Nat)
  | adopt (key : Option JsString) (now : Time)
  | discard (except : Option JsString)
  | invalidate
  | detach
  | abort (i : Nat)
  | complete (i : Nat) (outcome : Outcome Time) (now : Time)

variable [LT Time] [DecidableLT Time]

def step (s : Store Time) : Action Time → Store Time
  | .prefetch boundary destination owner now throws => s.prefetch boundary destination owner now throws
  | .cancel boundary destination owner => s.cancel boundary destination owner
  | .adopt key now => s.adopt key now
  | .discard except => s.discard except
  | .invalidate => s.invalidate
  | .detach => s.detach
  | .abort i => s.abort i
  | .complete i outcome now => s.complete i outcome now

def run (actions : List (Action Time)) : Store Time := actions.foldl step .initial

end Fluo.React.Prefetch
