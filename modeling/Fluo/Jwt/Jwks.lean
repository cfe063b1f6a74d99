import Fluo.Lib.Heap
import Fluo.Lib.JsString
import Fluo.Lib.OrderedMap
import Fluo.Lib.Run
import Mathlib.Order.Lattice

/-!
# The JWKS client

`JwksClient` fetches signing keys and caches each for a while. Calls run next to
each other and next to `dispose`; a step is what runs between two awaits. Time
is what the clock of the host says, in any order that its values have.
-/

namespace Fluo.Jwt.Jwks

open Fluo.Js Fluo.Run

structure Jwk where
  kid : Option JsString
  material : Nat
  deriving DecidableEq

inductive JwksError where
  | configuration (message : String)
  | invalidToken (message : String)
  deriving DecidableEq

structure JwksOptions (T : Type) where
  uri : String
  cacheTtl : T
  requestTimeoutMs : String
  cacheMaxEntries : Nat
  positive : 0 < cacheMaxEntries

structure Cached (T Key : Type) where
  expiresAt : T
  key : Key

inductive Stage (Key : Type) where
  | fetching
  | importing
  | answered (result : Except JwksError Key)

/-- A call of `getSigningKey`; `jwk` is what it has found. -/
structure Call (T Key : Type) where
  kid : JsString
  now : T
  fetchGeneration : Nat
  jwk : Option Jwk
  stage : Stage Key

structure JwksClient (T Key : Type) where
  cache : OrderedMap JsString (Cached T Key)
  activeFetchControllers : List Nat
  lifecycleGeneration : Nat
  calls : Heap (Call T Key)

/-- How `fetch` and the reading of its body end. -/
inductive FetchOutcome where
  | keys (keys : List Jwk)
  | notOk (status : Nat)
  | invalidJson
  | noKeysArray
  | aborted (timedOut : Bool)
  | failed

inductive Event (T : Type) where
  | getSigningKey (kid : JsString) (now : T)
  | fetched (call : Nat) (outcome : FetchOutcome)
  /-- `node:crypto` is there, or cannot be imported. -/
  | imported (call : Nat) (loads : Bool)
  | dispose

section Model

variable {T Key : Type} [LinearOrder T] [Add T] [Zero T]

def disposedError : JwksError := .configuration "JWKS client was disposed while fetching keys."

def fetchKeys (options : JwksOptions T) (disposed : Bool) : FetchOutcome → Except JwksError (List Jwk)
  | .keys keys => .ok keys
  | .notOk status => .error (.configuration ("JWKS endpoint returned HTTP " ++ toString status ++ "."))
  | .invalidJson => .error (.configuration "JWKS endpoint did not return valid JSON.")
  | .noKeysArray => .error (.configuration "JWKS endpoint did not return a keys array.")
  | .aborted true => .error (.configuration ("JWKS fetch timed out after " ++ options.requestTimeoutMs ++ "ms."))
  | .aborted false =>
    if disposed then .error disposedError
    else .error (.configuration ("Failed to fetch JWKS from \"" ++ options.uri ++ "\"."))
  | .failed => .error (.configuration ("Failed to fetch JWKS from \"" ++ options.uri ++ "\"."))

/-- The oldest entries go until there are not too many. -/
def evictOldest {α : Type} (max : Nat) : List α → List α
  | [] => []
  | e :: rest => if max < rest.length + 1 then evictOldest max rest else e :: rest

theorem evictOldest_sublist {α : Type} (max : Nat) (l : List α) : (evictOldest max l).Sublist l := by
  induction l with
  | nil => exact .slnil
  | cons e rest ih =>
    rw [evictOldest]
    split
    · exact ih.cons e
    · exact List.Sublist.refl _

theorem length_evictOldest {α : Type} (max : Nat) (l : List α) : (evictOldest max l).length ≤ max := by
  induction l with
  | nil => exact Nat.zero_le max
  | cons e rest ih =>
    rw [evictOldest]
    split
    · exact ih
    · next few => exact Nat.not_lt.mp few

namespace JwksClient

def initial : JwksClient T Key where
  cache := .empty
  activeFetchControllers := []
  lifecycleGeneration := 0
  calls := ⟨0, fun _ => ⟨[], 0, 0, none, .answered (.error disposedError)⟩⟩

variable (s : JwksClient T Key)

def pruneExpiredCacheEntries (now : T) : OrderedMap JsString (Cached T Key) :=
  s.cache.filter fun _ cached => !decide (cached.expiresAt ≤ now)

def evictOldestCacheEntries (max : Nat) (cache : OrderedMap JsString (Cached T Key)) :
    OrderedMap JsString (Cached T Key) where
  entries := evictOldest max cache.entries
  distinct := cache.distinct.sublist ((evictOldest_sublist max cache.entries).map Prod.fst)

def getSigningKey (kid : JsString) (now : T) : JwksClient T Key :=
  let cache := s.pruneExpiredCacheEntries now
  match (cache.get kid).filter (fun cached => now < cached.expiresAt) with
  | some cached => { s with
      cache
      calls := s.calls.push ⟨kid, now, s.lifecycleGeneration, none, .answered (.ok cached.key)⟩ }
  | none => { s with
      cache
      activeFetchControllers := s.activeFetchControllers ++ [s.calls.size]
      calls := s.calls.push ⟨kid, now, s.lifecycleGeneration, none, .fetching⟩ }

/-- What a call does with the end of its fetch: it fails, or has found a key that is to be parsed. -/
def findKey (options : JwksOptions T) (call : Call T Key) (outcome : FetchOutcome) : Except JwksError Jwk :=
  match fetchKeys options (call.fetchGeneration ≠ s.lifecycleGeneration) outcome with
  | .error e => .error e
  | .ok keys =>
    if call.fetchGeneration ≠ s.lifecycleGeneration then .error disposedError
    else
      match keys.find? (fun entry => entry.kid = some call.kid) with
      | none => .error (.invalidToken "JWT key id was not found in JWKS.")
      | some jwk => .ok jwk

def fetched (options : JwksOptions T) (i : Nat) (outcome : FetchOutcome) : Option (JwksClient T Key) :=
  match (s.calls.get i).stage with
  | .fetching =>
    let next := match s.findKey options (s.calls.get i) outcome with
      | .error e => { s.calls.get i with stage := .answered (.error e) }
      | .ok jwk => { s.calls.get i with jwk := some jwk, stage := .importing }
    some { s with
      activeFetchControllers := s.activeFetchControllers.erase i
      calls := s.calls.set i next }
  | _ => none

/-- The key is parsed and cached, unless the client was disposed meanwhile. -/
def imported (options : JwksOptions T) (createPublicKey : Jwk → Option Key) (i : Nat) (loads : Bool) :
    Option (JwksClient T Key) :=
  match (s.calls.get i).stage with
  | .importing =>
    let call := s.calls.get i
    match if loads then call.jwk.bind createPublicKey else none with
    | none => some { s with calls := s.calls.set i { call with
        stage := .answered (.error (.configuration "Unable to parse JWKS key into a public key.")) } }
    | some key =>
      let answered := s.calls.set i { call with stage := .answered (.ok key) }
      if 0 < options.cacheTtl ∧ call.fetchGeneration = s.lifecycleGeneration then
        some { s with
          calls := answered
          cache := evictOldestCacheEntries options.cacheMaxEntries
            (s.cache.set call.kid ⟨call.now + options.cacheTtl, key⟩) }
      else some { s with calls := answered }
  | _ => none

def dispose : JwksClient T Key :=
  { s with lifecycleGeneration := s.lifecycleGeneration + 1, cache := .empty, activeFetchControllers := [] }

end JwksClient

def step (options : JwksOptions T) (createPublicKey : Jwk → Option Key) (s : JwksClient T Key) :
    Event T → Option (JwksClient T Key)
  | .getSigningKey kid now => some (s.getSigningKey kid now)
  | .fetched i outcome => if i < s.calls.size then s.fetched options i outcome else none
  | .imported i loads => if i < s.calls.size then s.imported options createPublicKey i loads else none
  | .dispose => some s.dispose

end Model

/-! ## What is served -/

variable {T Key : Type}

/-- The call has fetched the key itself, under its own key id. -/
def Fetched (createPublicKey : Jwk → Option Key) (call : Call T Key) (key : Key) : Prop :=
  call.stage = .answered (.ok key) ∧
    ∃ jwk, call.jwk = some jwk ∧ jwk.kid = some call.kid ∧ createPublicKey jwk = some key

/-- The call `j` has fetched the key for the key id, in the generation. -/
structure Source (createPublicKey : Jwk → Option Key) (s : JwksClient T Key) (j : Nat) (kid : JsString)
    (generation : Nat) (key : Key) : Prop where
  fetched : Fetched createPublicKey (s.calls.get j) key
  kid : (s.calls.get j).kid = kid
  generation : (s.calls.get j).fetchGeneration = generation

variable {createPublicKey : Jwk → Option Key} {s t : JwksClient T Key}

/-- Only calls that are under way change, and not in what they were made with. -/
structure Goes (s t : JwksClient T Key) : Prop where
  size : s.calls.size ≤ t.calls.size
  call : ∀ i < s.calls.size, (t.calls.get i).kid = (s.calls.get i).kid ∧ (t.calls.get i).now = (s.calls.get i).now ∧
    (t.calls.get i).fetchGeneration = (s.calls.get i).fetchGeneration ∧
    ∀ result, (s.calls.get i).stage = .answered result → t.calls.get i = s.calls.get i

theorem Source.goes {j generation : Nat} {kid : JsString} {key : Key} (h : Source createPublicKey s j kid generation key)
    (goes : Goes s t) (inside : j < s.calls.size) :
    Source createPublicKey t j kid generation key ∧ (t.calls.get j).now = (s.calls.get j).now := by
  have same := (goes.call j inside).2.2.2 _ h.fetched.1
  exact ⟨⟨by rw [same]; exact h.fetched, by rw [same]; exact h.kid, by rw [same]; exact h.generation⟩, by rw [same]⟩

theorem goes_push (call : Call T Key) (cache : OrderedMap JsString (Cached T Key)) (controllers : List Nat) :
    Goes s { s with cache, activeFetchControllers := controllers, calls := s.calls.push call } := by
  refine ⟨Nat.le_succ _, fun i inside => ?_⟩
  have old : (s.calls.push call).get i = s.calls.get i := Heap.get_push_lt call inside
  exact ⟨congrArg Call.kid old, congrArg Call.now old, congrArg Call.fetchGeneration old, fun _ _ => old⟩

theorem goes_set {i : Nat} {call : Call T Key} (cache : OrderedMap JsString (Cached T Key)) (controllers : List Nat)
    (kid : call.kid = (s.calls.get i).kid) (now : call.now = (s.calls.get i).now)
    (generation : call.fetchGeneration = (s.calls.get i).fetchGeneration)
    (open_ : ∀ result, (s.calls.get i).stage ≠ .answered result) :
    Goes s { s with cache, activeFetchControllers := controllers, calls := s.calls.set i call } := by
  refine ⟨Nat.le_refl _, fun j inside => ?_⟩
  by_cases same : j = i
  · subst same
    have new : (s.calls.set j call).get j = call := Heap.get_set_self _ _ _
    dsimp only
    rw [new]
    exact ⟨kid, now, generation, fun result over_ => absurd over_ (open_ result)⟩
  · have old : (s.calls.set i call).get j = s.calls.get j := Heap.get_set_ne _ _ same
    dsimp only
    rw [old]
    exact ⟨rfl, rfl, rfl, fun _ _ => rfl⟩

theorem findKey_kid {call : Call T Key} {outcome : FetchOutcome} {jwk : Jwk}
    (found : s.findKey options call outcome = .ok jwk) :
    jwk.kid = some call.kid ∧ call.fetchGeneration = s.lifecycleGeneration := by
  unfold JwksClient.findKey at found
  split at found
  · cases found
  · split at found
    · cases found
    · next current =>
      split at found
      · cases found
      · next listed =>
        cases found
        exact ⟨by simpa using List.find?_some listed, not_not.mp current⟩

variable [LinearOrder T] [Add T] [Zero T] {options : JwksOptions T}

structure Inv (options : JwksOptions T) (createPublicKey : Jwk → Option Key) (s : JwksClient T Key) : Prop where
  bound : s.cache.entries.length ≤ options.cacheMaxEntries
  cached : ∀ kid cached, s.cache.get kid = some cached → 0 < options.cacheTtl ∧ ∃ j < s.calls.size,
    Source createPublicKey s j kid s.lifecycleGeneration cached.key ∧
      cached.expiresAt = (s.calls.get j).now + options.cacheTtl
  found : ∀ i jwk, (s.calls.get i).jwk = some jwk → jwk.kid = some (s.calls.get i).kid
  answered : ∀ i < s.calls.size, ∀ key, (s.calls.get i).stage = .answered (.ok key) → ∃ j ≤ i,
    Source createPublicKey s j (s.calls.get i).kid (s.calls.get i).fetchGeneration key ∧
      (j = i ∨ (s.calls.get i).now < (s.calls.get j).now + options.cacheTtl)

theorem Inv.cached_goes (h : Inv options createPublicKey s) (goes : Goes s t)
    (generation : t.lifecycleGeneration = s.lifecycleGeneration) {kid : JsString} {cached : Cached T Key}
    (found : s.cache.get kid = some cached) : 0 < options.cacheTtl ∧ ∃ j < t.calls.size,
      Source createPublicKey t j kid t.lifecycleGeneration cached.key ∧
        cached.expiresAt = (t.calls.get j).now + options.cacheTtl := by
  obtain ⟨able, j, inside, source, expires⟩ := h.cached kid cached found
  obtain ⟨source, now⟩ := source.goes goes inside
  exact ⟨able, j, Nat.lt_of_lt_of_le inside goes.size, generation ▸ source, now ▸ expires⟩

theorem Inv.answered_goes (h : Inv options createPublicKey s) (goes : Goes s t) {i : Nat} (inside : i < s.calls.size)
    {key : Key} (answered : (s.calls.get i).stage = .answered (.ok key)) : ∃ j ≤ i,
      Source createPublicKey t j (t.calls.get i).kid (t.calls.get i).fetchGeneration key ∧
        (j = i ∨ (t.calls.get i).now < (t.calls.get j).now + options.cacheTtl) := by
  obtain ⟨j, le, source, fresh⟩ := h.answered i inside key answered
  obtain ⟨source, now⟩ := source.goes goes (Nat.lt_of_le_of_lt le inside)
  obtain ⟨kid, at_, generation, -⟩ := goes.call i inside
  exact ⟨j, le, by rw [kid, generation]; exact source, by rw [now, at_]; exact fresh⟩

theorem Inv.getSigningKey (h : Inv options createPublicKey s) (kid : JsString) (now : T) :
    Inv options createPublicKey (s.getSigningKey kid now) := by
  have kept {k : JsString} {cached : Cached T Key} (found : (s.pruneExpiredCacheEntries now).get k = some cached) :
      s.cache.get k = some cached := (OrderedMap.get_filter_some.mp found).1
  have fewer : (s.pruneExpiredCacheEntries now).entries.length ≤ options.cacheMaxEntries :=
    Nat.le_trans (List.length_filter_le _ _) h.bound
  have founds (call : Call T Key) (none : call.jwk = none) (i : Nat) (jwk : Jwk)
      (found : ((s.calls.push call).get i).jwk = some jwk) : jwk.kid = some ((s.calls.push call).get i).kid := by
    rw [Heap.get_push] at found ⊢
    split at found
    · rw [none] at found
      cases found
    · next old =>
      rw [if_neg old]
      exact h.found i jwk found
  unfold JwksClient.getSigningKey
  dsimp only
  split
  · next cached found =>
    obtain ⟨found, fresh⟩ := Option.filter_eq_some_iff.mp found
    have goes := goes_push (s := s) ⟨kid, now, s.lifecycleGeneration, none, .answered (.ok cached.key)⟩
      (s.pruneExpiredCacheEntries now) s.activeFetchControllers
    refine ⟨fewer, fun k c found => h.cached_goes goes rfl (kept found), founds _ rfl, fun i inside key answered => ?_⟩
    rcases Nat.lt_succ_iff_lt_or_eq.mp inside with older | rfl
    · refine h.answered_goes goes older ?_
      rw [← answered]
      exact congrArg Call.stage (Heap.get_push_lt _ older).symm
    · have new : (s.calls.push ⟨kid, now, s.lifecycleGeneration, none, .answered (.ok cached.key)⟩).get s.calls.size = _ :=
        Heap.get_push_self _ _
      dsimp only at answered ⊢
      rw [new] at answered ⊢
      cases answered
      obtain ⟨-, j, below, source, expires⟩ := h.cached kid cached (kept found)
      obtain ⟨source, same⟩ := source.goes goes below
      refine ⟨j, Nat.le_of_lt below, source, .inr ?_⟩
      exact lt_of_lt_of_eq (of_decide_eq_true fresh) (expires.trans (congrArg (· + options.cacheTtl) same.symm))
  · have goes := goes_push (s := s) ⟨kid, now, s.lifecycleGeneration, none, .fetching⟩
      (s.pruneExpiredCacheEntries now) (s.activeFetchControllers ++ [s.calls.size])
    refine ⟨fewer, fun k c found => h.cached_goes goes rfl (kept found), founds _ rfl, fun i inside key answered => ?_⟩
    rcases Nat.lt_succ_iff_lt_or_eq.mp inside with older | rfl
    · refine h.answered_goes goes older ?_
      rw [← answered]
      exact congrArg Call.stage (Heap.get_push_lt _ older).symm
    · dsimp only at answered
      rw [Heap.get_push_self] at answered
      cases answered

/-- A call that is under way goes on; what is cached and what it answers is left to show. -/
theorem Inv.setCall (h : Inv options createPublicKey s) {i : Nat} {call : Call T Key}
    {cache : OrderedMap JsString (Cached T Key)} {controllers : List Nat} (kid : call.kid = (s.calls.get i).kid)
    (now : call.now = (s.calls.get i).now) (generation : call.fetchGeneration = (s.calls.get i).fetchGeneration)
    (open_ : ∀ result, (s.calls.get i).stage ≠ .answered result) (bound : cache.entries.length ≤ options.cacheMaxEntries)
    (jwk : ∀ jwk, call.jwk = some jwk → jwk.kid = some call.kid)
    (answers : ∀ key, call.stage = .answered (.ok key) → Fetched createPublicKey call key)
    (caches : ∀ k cached, cache.get k = some cached → s.cache.get k = some cached ∨
      i < s.calls.size ∧ 0 < options.cacheTtl ∧ k = call.kid ∧ Fetched createPublicKey call cached.key ∧
        call.fetchGeneration = s.lifecycleGeneration ∧ cached.expiresAt = call.now + options.cacheTtl) :
    Inv options createPublicKey
      { s with cache, activeFetchControllers := controllers, calls := s.calls.set i call } := by
  have goes := goes_set (s := s) cache controllers kid now generation open_
  have new : (s.calls.set i call).get i = call := Heap.get_set_self _ _ _
  refine ⟨bound, fun k c found => ?_, fun j jwk' found => ?_, fun j inside key answered => ?_⟩
  · rcases caches k c found with old | ⟨inside, able, rfl, fetched, current, expires⟩
    · exact h.cached_goes goes rfl old
    · refine ⟨able, i, inside, ⟨?_, ?_, ?_⟩, ?_⟩ <;> dsimp only <;> rw [new]
      · exact fetched
      · exact current
      · exact expires
  · dsimp only at found ⊢
    by_cases same : j = i
    · subst same
      rw [new] at found ⊢
      exact jwk jwk' found
    · rw [Heap.get_set_ne _ _ same] at found ⊢
      exact h.found j jwk' found
  · by_cases same : j = i
    · subst same
      dsimp only at answered ⊢
      rw [new] at answered ⊢
      exact ⟨j, Nat.le_refl j, ⟨by dsimp only; rw [new]; exact answers key answered, by dsimp only; rw [new],
        by dsimp only; rw [new]⟩, .inl rfl⟩
    · refine h.answered_goes goes inside ?_
      rw [← answered]
      exact congrArg Call.stage (Heap.get_set_ne _ _ same).symm

theorem Inv.step (h : Inv options createPublicKey s) {e : Event T} (is : step options createPublicKey s e = some t) :
    Inv options createPublicKey t := by
  cases e with
  | getSigningKey kid now =>
    cases is
    exact h.getSigningKey kid now
  | fetched i outcome =>
    obtain ⟨-, is⟩ := Option.ite_none_right_eq_some.mp is
    unfold JwksClient.fetched at is
    split at is
    · next fetching =>
      cases is
      have open_ (result : Except JwksError Key) : (s.calls.get i).stage ≠ .answered result := by
        rw [fetching]
        exact fun other => by cases other
      cases found : s.findKey options (s.calls.get i) outcome with
      | error e =>
        exact h.setCall rfl rfl rfl open_ h.bound (h.found i) (fun key answered => by cases answered)
          fun k c found => .inl found
      | ok jwk =>
        refine h.setCall rfl rfl rfl open_ h.bound ?_ (fun key answered => by cases answered) fun k c found => .inl found
        rintro _ ⟨⟩
        exact (findKey_kid found).1
    · cases is
  | imported i loads =>
    obtain ⟨inside, is⟩ := Option.ite_none_right_eq_some.mp is
    unfold JwksClient.imported at is
    split at is
    · next importing =>
      have open_ (result : Except JwksError Key) : (s.calls.get i).stage ≠ .answered result := by
        rw [importing]
        exact fun other => by cases other
      dsimp only at is
      split at is
      · cases is
        exact h.setCall rfl rfl rfl open_ h.bound (h.found i) (fun key answered => by cases answered)
          fun k c found => .inl found
      · next key parsed =>
        obtain ⟨-, parsed⟩ := Option.ite_none_right_eq_some.mp parsed
        obtain ⟨jwk, has, parses⟩ := Option.bind_eq_some_iff.mp parsed
        have fetched : Fetched createPublicKey { s.calls.get i with stage := .answered (.ok key) } key :=
          ⟨rfl, jwk, has, h.found i jwk has, parses⟩
        split at is
        · next able =>
          cases is
          refine h.setCall rfl rfl rfl open_ (length_evictOldest _ _) (h.found i) ?_ fun k c found => ?_
          · rintro _ ⟨⟩
            exact fetched
          · have written : (s.cache.set (s.calls.get i).kid ⟨(s.calls.get i).now + options.cacheTtl, key⟩).get k = some c :=
              OrderedMap.mem_entries.mp ((evictOldest_sublist _ _).subset (OrderedMap.mem_entries.mpr found))
            rw [OrderedMap.get_set] at written
            split at written
            · next same =>
              cases written
              exact .inr ⟨inside, able.1, same, fetched, able.2, rfl⟩
            · exact .inl written
        · cases is
          refine h.setCall rfl rfl rfl open_ h.bound (h.found i) ?_ fun k c found => .inl found
          rintro _ ⟨⟩
          exact fetched
    · cases is
  | dispose =>
    cases is
    have goes : Goes s s.dispose := ⟨Nat.le_refl _, fun i _ => ⟨rfl, rfl, rfl, fun _ _ => rfl⟩⟩
    exact ⟨Nat.zero_le _, fun k c found => (by cases found), h.found, fun i inside key => h.answered_goes goes inside⟩

theorem inv_initial : Inv options createPublicKey (JwksClient.initial : JwksClient T Key) := by
  refine ⟨Nat.zero_le _, fun k c found => (by cases found), fun i jwk found => (by cases found), fun i inside => ?_⟩
  exact absurd inside (Nat.not_lt_zero i)

/-- A call gets its entry from the answer to its own fetch. -/
theorem step_jwk {e : Event T} (is : step options createPublicKey s e = some t) {j : Nat} {jwk : Jwk}
    (has : (t.calls.get j).jwk = some jwk) :
    (s.calls.get j).jwk = some jwk ∨ ∃ keys, e = .fetched j (.keys keys) ∧ jwk ∈ keys := by
  have set_ {i : Nat} {call : Call T Key} (has : ((s.calls.set i call).get j).jwk = some jwk)
      (kept : call.jwk = (s.calls.get i).jwk) : (s.calls.get j).jwk = some jwk := by
    rw [Heap.get_set] at has
    split at has
    · next same => rwa [same, ← kept]
    · exact has
  have push_ {call : Call T Key} (none_ : call.jwk = none) (has : ((s.calls.push call).get j).jwk = some jwk) :
      (s.calls.get j).jwk = some jwk := by
    rw [Heap.get_push] at has
    split at has
    · rw [none_] at has
      cases has
    · exact has
  cases e with
  | getSigningKey kid now =>
    cases is
    unfold JwksClient.getSigningKey at has
    dsimp only at has
    split at has
    · exact .inl (push_ rfl has)
    · exact .inl (push_ rfl has)
  | fetched i outcome =>
    obtain ⟨-, is⟩ := Option.ite_none_right_eq_some.mp is
    unfold JwksClient.fetched at is
    split at is
    · cases is
      dsimp only at has
      cases found : s.findKey options (s.calls.get i) outcome with
      | error e =>
        rw [found] at has
        exact .inl (set_ has rfl)
      | ok entry =>
        rw [found, Heap.get_set] at has
        split at has
        · next same =>
          cases has
          unfold JwksClient.findKey at found
          cases outcome with
          | keys keys =>
            simp only [fetchKeys] at found
            split at found
            · cases found
            · split at found
              · cases found
              · next entry' first =>
                cases found
                exact .inr ⟨keys, by rw [same], List.mem_of_find?_eq_some first⟩
          | aborted timedOut =>
            cases timedOut with
            | true => cases found
            | false =>
              simp only [fetchKeys] at found
              split at found
              · cases found
              · next returned =>
                split at returned
                · cases returned
                · cases returned
          | _ => cases found
        · exact .inl has
    · cases is
  | imported i loads =>
    obtain ⟨-, is⟩ := Option.ite_none_right_eq_some.mp is
    unfold JwksClient.imported at is
    split at is
    · dsimp only at is
      split at is
      · cases is
        exact .inl (set_ has rfl)
      · split at is
        · cases is
          exact .inl (set_ has rfl)
        · cases is
          exact .inl (set_ has rfl)
    · cases is
  | dispose =>
    cases is
    exact .inl has

theorem run_jwk {es : List (Event T)} (reached : run (step options createPublicKey) s es = some t) {j : Nat} {jwk : Jwk}
    (has : (t.calls.get j).jwk = some jwk) :
    (s.calls.get j).jwk = some jwk ∨ ∃ keys, .fetched j (.keys keys) ∈ es ∧ jwk ∈ keys := by
  induction es generalizing s with
  | nil =>
    cases reached
    exact .inl has
  | cons e es ih =>
    obtain ⟨next, is, reached⟩ := run_cons reached
    rcases ih reached with before | ⟨keys, later, mem⟩
    · rcases step_jwk is before with old | ⟨keys, rfl, mem⟩
      · exact .inl old
      · exact .inr ⟨keys, List.mem_cons_self, mem⟩
    · exact .inr ⟨keys, List.mem_cons_of_mem _ later, mem⟩

/-- Whatever the order of calls, answers and disposals, the cache stays within its bound and holds keys of the
current generation only, and a key is answered for the id that it was fetched under, by the call itself or by an
earlier call of the same generation whose time to live is not over; its entry is one that the endpoint answered that
call with. A fetch that a disposal has overtaken gives no key. -/
theorem signing_keys_fresh {es : List (Event T)}
    (reached : run (step options createPublicKey) .initial es = some s) :
    s.cache.entries.length ≤ options.cacheMaxEntries ∧
    (∀ kid cached, s.cache.get kid = some cached → 0 < options.cacheTtl ∧ ∃ j < s.calls.size,
      Source createPublicKey s j kid s.lifecycleGeneration cached.key ∧
        cached.expiresAt = (s.calls.get j).now + options.cacheTtl) ∧
    (∀ i < s.calls.size, ∀ key, (s.calls.get i).stage = .answered (.ok key) → ∃ j ≤ i,
      Source createPublicKey s j (s.calls.get i).kid (s.calls.get i).fetchGeneration key ∧
        (j = i ∨ (s.calls.get i).now < (s.calls.get j).now + options.cacheTtl)) ∧
    (∀ j jwk, (s.calls.get j).jwk = some jwk → ∃ keys, .fetched j (.keys keys) ∈ es ∧ jwk ∈ keys) ∧
    ∀ i outcome t, (s.calls.get i).fetchGeneration ≠ s.lifecycleGeneration →
      step options createPublicKey s (.fetched i outcome) = some t →
        ∃ e, (t.calls.get i).stage = .answered (.error e) := by
  have inv : Inv options createPublicKey s := keeps (fun _ _ _ h is => h.step is) inv_initial reached
  refine ⟨inv.bound, inv.cached, inv.answered, fun j jwk has => ?_, fun i outcome t over_ is => ?_⟩
  · exact (run_jwk reached has).resolve_left (by rintro ⟨⟩)
  obtain ⟨-, is⟩ := Option.ite_none_right_eq_some.mp is
  unfold JwksClient.fetched at is
  split at is
  · cases is
    cases found : s.findKey options (s.calls.get i) outcome with
    | error e => exact ⟨e, congrArg Call.stage (Heap.get_set_self _ _ _)⟩
    | ok jwk => exact absurd (findKey_kid found).2 over_
  · cases is

/-- A key is fetched at 0 and answered again at 5 from the cache. -/
def rotation : List (Event Nat) :=
  [.getSigningKey [1] 0, .fetched 0 (.keys [⟨none, 6⟩, ⟨some [1], 7⟩]), .imported 0 true, .getSigningKey [1] 5, .dispose,
    .getSigningKey [1] 6]

theorem signing_keys_fresh_rotation :
    ∃ s, run (step ⟨"", 10, "", 1, by decide⟩ fun jwk => some jwk.material) .initial rotation = some s ∧
      s.cache.entries.length ≤ 1 ∧ ∃ j ≤ 1, Source (fun jwk => some jwk.material) s j [1] 0 7 := by
  have ran : run (step ⟨"", 10, "", 1, by decide⟩ fun jwk => some jwk.material) .initial rotation = some _ := rfl
  refine ⟨_, ran, ?_⟩
  have fresh := signing_keys_fresh ran
  obtain ⟨j, le, source, -⟩ := fresh.2.2.1 1 (by decide) 7 rfl
  exact ⟨fresh.1, j, le, source⟩

end Fluo.Jwt.Jwks
