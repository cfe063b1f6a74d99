import Fluo.Lib.FormUrlEncoded
import Fluo.Throttler.Stores

/-!
# The throttler guard

The policy and the key of a handler, and what the guard decides of a request.
With either store the decisions are those of exact counters, one for each handler
key and client key.
-/

namespace Fluo.Throttler

open Js Code FixedWindow

/-- `ThrottlerHandlerOptions` that `validateThrottleOptions` has accepted. -/
structure ThrottlerHandlerOptions where
  ttl : Nat
  limit : Nat
  ttl_pos : 0 < ttl
  limit_pos : 0 < limit
  deriving DecidableEq

/-- A handler descriptor, with the throttle metadata of its class and method. -/
structure Handler where
  moduleName : Option JsString
  controllerName : JsString
  method : JsString
  path : JsString
  version : Option JsString
  effectiveVersion : Option JsString
  methodName : JsString
  compiledRouteIdentity : Option JsString
  classSkip : Bool
  methodSkip : Bool
  classThrottle : Option ThrottlerHandlerOptions
  methodThrottle : Option ThrottlerHandlerOptions
  deriving DecidableEq

def orName (name : Option JsString) (fallback : JsString) : JsString :=
  match name with
  | none | some [] => fallback
  | some name => name

/-- `none` where `encodeURIComponent` throws. -/
def buildHandlerKey (handler : Handler) : Option JsString :=
  (encodeURIComponent (orName handler.moduleName (text "<moduleless>"))).bind fun moduleName =>
  (encodeURIComponent (orName handler.controllerName (text "<anonymous-controller>"))).bind fun controllerName =>
  (encodeURIComponent handler.path).bind fun path =>
  (encodeURIComponent ((handler.version <|> handler.effectiveVersion).getD (text "unversioned"))).bind fun version =>
  (encodeURIComponent handler.methodName).bind fun methodName =>
  (encodeURIComponent (handler.compiledRouteIdentity.getD (text "<uncompiled>"))).map fun compiled =>
    join (unit '|') [text "module:" ++ moduleName, text "controller:" ++ controllerName, text "method:" ++ handler.method,
      text "path:" ++ path, text "version:" ++ version, text "handler:" ++ methodName, text "compiled:" ++ compiled]

structure ResolvedHandlerPolicy where
  encodedHandlerKey : JsString
  limit : Nat
  skip : Bool
  ttlSeconds : Nat

def resolvedThrottle (options : ThrottlerHandlerOptions) (handler : Handler) : ThrottlerHandlerOptions :=
  (handler.methodThrottle <|> handler.classThrottle).getD options

def getResolvedPolicy (options : ThrottlerHandlerOptions) (handler : Handler) : Option ResolvedHandlerPolicy :=
  ((buildHandlerKey handler).bind encodeURIComponent).map fun encodedHandlerKey =>
    ⟨encodedHandlerKey, (resolvedThrottle options handler).limit, handler.classSkip || handler.methodSkip,
      (resolvedThrottle options handler).ttl⟩

def buildStoreKey (encodedHandlerKey clientKey : JsString) : Option JsString :=
  (encodeURIComponent clientKey).map fun encodedClientKey =>
    text "throttler:" ++ (encodedHandlerKey ++ unit ':' :: encodedClientKey)

/-- In seconds, rounded up. -/
def resolveRetryAfterSeconds (entry : ThrottlerStoreEntry) (now : Nat) : Nat :=
  match entry.retryAfterMs with
  | some retryAfterMs => max 1 ((retryAfterMs + 999) / 1000)
  | none => max 1 ((entry.resetAt - now + 999) / 1000)

/-- A request, with what the key generator has made of it and the time. -/
structure Request where
  handler : Handler
  clientKey : JsString
  now : Nat

def Request.texts (request : Request) : List JsString :=
  let handler := request.handler
  [handler.moduleName.getD [], handler.controllerName, handler.method, handler.path, handler.version.getD [],
    handler.effectiveVersion.getD [], handler.methodName, handler.compiledRouteIdentity.getD [], request.clientKey]

inductive Outcome where
  | skipped
  | uriError
  /-- Counted in a window; rejected with `Retry-After`, or admitted. -/
  | consumed (storeKey : JsString) (window : Window) (retryAfter : Option Nat)
  deriving DecidableEq

section Guard

variable {σ : Type} (store : ThrottlerStore σ) (options : ThrottlerHandlerOptions)

def canActivate (s : σ) (request : Request) : σ × Outcome :=
  match getResolvedPolicy options request.handler with
  | none => (s, .uriError)
  | some policy =>
    if policy.skip then (s, .skipped)
    else
      match buildStoreKey policy.encodedHandlerKey request.clientKey with
      | none => (s, .uriError)
      | some storeKey =>
        let (s, entry) := store.consume s storeKey ⟨request.now, policy.ttlSeconds⟩
        (s, .consumed storeKey ⟨entry.count, entry.resetAt⟩
          (if policy.limit < entry.count then some (resolveRetryAfterSeconds entry request.now) else none))

/-- The requests that the guard has seen, one after another, with its outcomes. -/
def serve (s : σ) : List Request → List (Request × Outcome)
  | [] => []
  | request :: rest => (request, (canActivate store options s request).2) :: serve (canActivate store options s request).1 rest

end Guard

/-! ## Keys -/

theorem not_mem_encoded {s t : JsString} (encoded : encodeURIComponent s = some t) {label : JsString} {d : Char}
    (small : d.toNat < 128) (reserved : isUnreserved d = false) (notPercent : d ≠ '%') (unlabelled : unit d ∉ label) :
    unit d ∉ label ++ t := by
  rw [List.mem_append, not_or]
  exact ⟨unlabelled, not_mem_encodeURIComponent encoded small reserved notPercent⟩

theorem buildHandlerKey_identity {h h' : Handler} {key a b : JsString} (hk : buildHandlerKey h = some key)
    (hk' : buildHandlerKey h' = some key) (ha : h.compiledRouteIdentity = some a)
    (hb : h'.compiledRouteIdentity = some b) : a = b := by
  simp only [buildHandlerKey, Option.bind_eq_some_iff, Option.map_eq_some_iff, ha, hb, Option.getD_some] at hk hk'
  obtain ⟨m, -, c, -, p, -, v, -, n, -, i, encoded, rfl⟩ := hk
  obtain ⟨m', -, c', -, p', -, v', -, n', -, i', encoded', same⟩ := hk'
  have last (x₁ x₂ x₃ x₄ x₅ x₆ y : JsString) : join (unit '|') [x₁, x₂, x₃, x₄, x₅, x₆, y] =
      join (unit '|') [x₁, x₂, x₃, x₄, x₅, x₆] ++ unit '|' :: y := by
    simp [join]
  rw [last, last] at same
  have bar {s t : JsString} (encoded : encodeURIComponent s = some t) : unit '|' ∉ text "compiled:" ++ t :=
    not_mem_encoded encoded (by decide) (by decide) (by decide) (by decide)
  have read := append_sep_injective (bar encoded') (bar encoded) same
  rw [List.append_cancel_left_eq] at read
  subst read
  exact encodeURIComponent_injective encoded encoded'

/-- Without lone surrogates. -/
def WellFormed (s : JsString) : Prop := ∃ cs : List Char, s = cs.flatMap utf16

theorem wellFormed_iff {s : JsString} : WellFormed s ↔ codePoints s ≠ none := by
  constructor
  · rintro ⟨cs, rfl⟩
    rw [codePoints_flatMap_utf16]
    exact Option.some_ne_none cs
  · intro some_
    obtain ⟨cs, read⟩ := Option.ne_none_iff_exists'.mp some_
    exact ⟨cs, (utf16_codePoints read).symm⟩

theorem WellFormed.append {s t : JsString} (hs : WellFormed s) (ht : WellFormed t) : WellFormed (s ++ t) := by
  obtain ⟨cs, rfl⟩ := hs
  obtain ⟨ds, rfl⟩ := ht
  exact ⟨cs ++ ds, List.flatMap_append.symm⟩

theorem WellFormed.encodes {s : JsString} (h : WellFormed s) : ∃ e, encodeURIComponent s = some e := by
  obtain ⟨cs, read⟩ := Option.ne_none_iff_exists'.mp (wellFormed_iff.mp h)
  exact ⟨_, by rw [encodeURIComponent, read]; rfl⟩

/-- The store key of a handler and a client key. -/
def storeKeyOf (handler : Handler) (clientKey : JsString) : Option JsString :=
  ((buildHandlerKey handler).bind encodeURIComponent).bind (buildStoreKey · clientKey)

theorem wellFormed_of_small {s : JsString} (small : ∀ u ∈ s, u.toNat < 128) : WellFormed s := by
  refine wellFormed_iff.mpr ?_
  induction s with
  | nil => simp [codePoints]
  | cons u s ih =>
    rw [codePoints_plain (isPlain_small (small u List.mem_cons_self))]
    simpa using ih fun v mem => small v (List.mem_cons_of_mem u mem)

theorem encoded_wellFormed {s e : JsString} (encoded : encodeURIComponent s = some e) : WellFormed e := by
  refine wellFormed_of_small fun u mem => ?_
  rcases mem_encodeURIComponent encoded mem with rfl | ⟨c, kept, rfl⟩
  · decide
  · have small := unreserved_lt kept
    rw [unit, Nat.toUInt16_eq, UInt16.toNat_ofNat']
    omega

theorem orName_wellFormed (fallback : JsString) {name : Option JsString} (h : WellFormed (name.getD []))
    (given : WellFormed fallback) : WellFormed (orName name fallback) := by
  cases name with
  | none => exact given
  | some name =>
    cases name with
    | nil => exact given
    | cons => exact h

theorem getD_wellFormed (fallback : JsString) {given : Option JsString} (h : WellFormed (given.getD []))
    (default : WellFormed fallback) : WellFormed (given.getD fallback) := by
  cases given with
  | none => exact default
  | some => exact h

/-- A request without ill-formed texts has its handler key and its store key. -/
theorem keyed_of_wellFormed {request : Request} (clean : ∀ t ∈ request.texts, codePoints t ≠ none) :
    (buildHandlerKey request.handler).bind encodeURIComponent ≠ none ∧
      storeKeyOf request.handler request.clientKey ≠ none := by
  have fine {t : JsString} (mem : t ∈ request.texts) : WellFormed t := wellFormed_iff.mpr (clean t mem)
  have plain (s : JsString) (h : (s.all fun u => u.toNat < 128) = true) : WellFormed s :=
    wellFormed_of_small fun u hu => by simpa using List.all_eq_true.mp h u hu
  obtain ⟨moduleName, hm⟩ := (orName_wellFormed (text "<moduleless>")
    (fine (t := request.handler.moduleName.getD []) (by simp [Request.texts])) (plain _ (by decide))).encodes
  obtain ⟨controllerName, hc⟩ := (orName_wellFormed (text "<anonymous-controller>")
    (fine (t := (some request.handler.controllerName).getD []) (by simp [Request.texts])) (plain _ (by decide))).encodes
  obtain ⟨path, hp⟩ := (fine (t := request.handler.path) (by simp [Request.texts])).encodes
  have version : WellFormed ((request.handler.version <|> request.handler.effectiveVersion).getD (text "unversioned")) := by
    cases own : request.handler.version with
    | some v => exact fine (by simp [Request.texts, own])
    | none => exact getD_wellFormed _ (fine (by simp [Request.texts])) (plain _ (by decide))
  obtain ⟨version, hv⟩ := version.encodes
  obtain ⟨methodName, hn⟩ := (fine (t := request.handler.methodName) (by simp [Request.texts])).encodes
  obtain ⟨compiled, hi⟩ := (getD_wellFormed (text "<uncompiled>")
    (fine (t := request.handler.compiledRouteIdentity.getD []) (by simp [Request.texts])) (plain _ (by decide))).encodes
  obtain ⟨client, hk⟩ := (fine (t := request.clientKey) (by simp [Request.texts])).encodes
  have built : buildHandlerKey request.handler = some (join (unit '|') [text "module:" ++ moduleName,
      text "controller:" ++ controllerName, text "method:" ++ request.handler.method, text "path:" ++ path,
      text "version:" ++ version, text "handler:" ++ methodName, text "compiled:" ++ compiled]) := by
    simp only [buildHandlerKey, hm, hc, hp, hv, hn, hi, Option.bind_some, Option.map_some]
  have labelled {label e : JsString} (small : (label.all fun u => u.toNat < 128) = true) (h : WellFormed e) : WellFormed (label ++ e) :=
    (plain _ small).append h
  have method : WellFormed request.handler.method := fine (by simp [Request.texts])
  have bar {a b : JsString} (ha : WellFormed a) (hb : WellFormed b) : WellFormed (a ++ unit '|' :: b) :=
    ha.append ((plain [unit '|'] (by decide)).append hb)
  have key : WellFormed (join (unit '|') [text "module:" ++ moduleName,
      text "controller:" ++ controllerName, text "method:" ++ request.handler.method, text "path:" ++ path,
      text "version:" ++ version, text "handler:" ++ methodName, text "compiled:" ++ compiled]) :=
    bar (labelled (by decide) (encoded_wellFormed hm)) <| bar (labelled (by decide) (encoded_wellFormed hc)) <|
      bar (labelled (by decide) method) <| bar (labelled (by decide) (encoded_wellFormed hp)) <|
        bar (labelled (by decide) (encoded_wellFormed hv)) <| bar (labelled (by decide) (encoded_wellFormed hn)) <|
          labelled (by decide) (encoded_wellFormed hi)
  obtain ⟨encoded, he⟩ := key.encodes
  rw [storeKeyOf, built, Option.bind_some, he, Option.bind_some, buildStoreKey, hk]
  exact ⟨Option.some_ne_none _, Option.some_ne_none _⟩

/-- A store key belongs to one handler key and one client key. -/
theorem storeKeyOf_injective {h h' : Handler} {c c' key : JsString} (hk : storeKeyOf h c = some key)
    (hk' : storeKeyOf h' c' = some key) : c = c' ∧ ∃ handlerKey, buildHandlerKey h = some handlerKey ∧
      buildHandlerKey h' = some handlerKey := by
  simp only [storeKeyOf, buildStoreKey, Option.bind_eq_some_iff, Option.map_eq_some_iff] at hk hk'
  obtain ⟨encodedHandler, ⟨handlerKey, built, encoded⟩, encodedClient, client, rfl⟩ := hk
  obtain ⟨encodedHandler', ⟨handlerKey', built', encoded'⟩, encodedClient', client', same⟩ := hk'
  rw [List.append_cancel_left_eq] at same
  have colon {s t : JsString} (encoded : encodeURIComponent s = some t) : unit ':' ∉ t :=
    not_mem_encodeURIComponent encoded (by decide) (by decide) (by decide)
  have ends (x : JsString) : Stops (· = unit ':') (unit ':' :: x) := rfl
  obtain ⟨rfl, rest⟩ := readable_word _ _ _ _ (colon encoded') (colon encoded) (ends _) (ends _) same
  obtain ⟨-, rfl⟩ := List.cons.inj rest
  obtain rfl := encodeURIComponent_injective encoded encoded'
  exact ⟨encodeURIComponent_injective client client', handlerKey, built, built'⟩

/-! ## Counting -/

def counted (options : ThrottlerHandlerOptions) (served : Request × Outcome) : Option (Counted JsString) :=
  match served.2 with
  | .consumed storeKey window _ =>
    some ⟨⟨storeKey, served.1.now, (resolvedThrottle options served.1.handler).ttl * 1000⟩, window⟩
  | _ => none

section Counting

variable {σ : Type} {store : ThrottlerStore σ} {options : ThrottlerHandlerOptions}

theorem canActivate_eq (s : σ) (request : Request) :
    canActivate store options s request =
      match (buildHandlerKey request.handler).bind encodeURIComponent, request.handler.classSkip || request.handler.methodSkip,
        storeKeyOf request.handler request.clientKey with
      | none, _, _ => (s, .uriError)
      | some _, true, _ => (s, .skipped)
      | some _, false, none => (s, .uriError)
      | some _, false, some storeKey =>
        let next := store.consume s storeKey ⟨request.now, (resolvedThrottle options request.handler).ttl⟩
        (next.1, .consumed storeKey ⟨next.2.count, next.2.resetAt⟩
          (if (resolvedThrottle options request.handler).limit < next.2.count then
            some (resolveRetryAfterSeconds next.2 request.now) else none)) := by
  rw [canActivate, getResolvedPolicy, storeKeyOf]
  cases (buildHandlerKey request.handler).bind encodeURIComponent with
  | none => rfl
  | some encodedHandlerKey =>
    dsimp only [Option.map_some, Option.bind_some]
    cases request.handler.classSkip || request.handler.methodSkip with
    | true => rfl
    | false =>
      cases buildStoreKey encodedHandlerKey request.clientKey with
      | none => rfl
      | some storeKey => rfl

theorem retryAfter_eq {entry : ThrottlerStoreEntry} {now : Nat}
    (retry : ∀ ms, entry.retryAfterMs = some ms → ms = max (entry.resetAt - now) 1) :
    resolveRetryAfterSeconds entry now = max 1 ((entry.resetAt - now + 999) / 1000) := by
  rw [resolveRetryAfterSeconds]
  cases given : entry.retryAfterMs with
  | none => rfl
  | some ms =>
    have is := retry ms given
    dsimp only
    omega

/-- A store that stands for counters decides as the counters do. -/
theorem serve_simulates {stands : Nat → σ → Windows → Prop} (simulates : Simulates store stands) {requests : List Request}
    {clock : Nat} {s : σ} {windows : Windows} (start : stands clock s windows)
    (ordered : (clock :: requests.map Request.now).Pairwise (· ≤ ·)) :
    serve store options s requests = serve windowStore options windows requests := by
  induction requests generalizing clock s windows with
  | nil => rfl
  | cons request rest ih =>
    obtain ⟨first, later⟩ := List.pairwise_cons.mp ordered
    have now : clock ≤ request.now := first _ List.mem_cons_self
    have idle : (clock :: rest.map Request.now).Pairwise (· ≤ ·) :=
      List.pairwise_cons.mpr ⟨fun t mem => first t (List.mem_cons_of_mem _ mem), (List.pairwise_cons.mp later).2⟩
    rw [serve, serve, canActivate_eq, canActivate_eq]
    cases (buildHandlerKey request.handler).bind encodeURIComponent with
    | none => exact congrArg _ (ih start idle)
    | some _ =>
      cases request.handler.classSkip || request.handler.methodSkip with
      | true => exact congrArg _ (ih start idle)
      | false =>
        cases storeKeyOf request.handler request.clientKey with
        | none => exact congrArg _ (ih start idle)
        | some storeKey =>
          obtain ⟨sameCount, sameReset⟩ := simulates.entry storeKey
            ⟨request.now, (resolvedThrottle options request.handler).ttl⟩ start now
          have left := retryAfter_eq (simulates.retry s storeKey
            ⟨request.now, (resolvedThrottle options request.handler).ttl⟩)
          have left' := @retryAfter_eq (windowStore.consume windows storeKey
            ⟨request.now, (resolvedThrottle options request.handler).ttl⟩).2 request.now nofun
          dsimp only
          rw [left, left', sameCount, sameReset]
          exact congrArg _ (ih (simulates.state storeKey _ start now) later)

/-- Whenever a request is counted, the script can read what it needs of the window of
its handler and client. -/
def Legible (options : ThrottlerHandlerOptions) : Windows → List Request → Prop
  | _, [] => True
  | windows, request :: rest =>
    (request.handler.classSkip = false → request.handler.methodSkip = false → ∀ storeKey w,
      storeKeyOf request.handler request.clientKey = some storeKey → windows storeKey = some w → ReadBack w request.now) ∧
    Legible options (canActivate windowStore options windows request).1 rest

/-- A Redis that can read its windows decides as the counters do. -/
theorem serve_redis {requests : List Request} {clock : Nat} {redis : Redis redisCjson} {windows : Windows}
    (start : redis.Stands clock windows) (ordered : (clock :: requests.map Request.now).Pairwise (· ≤ ·))
    (legible : Legible options windows requests) :
    serve (redisThrottlerStore redisCjson) options redis requests = serve windowStore options windows requests := by
  induction requests generalizing clock redis windows with
  | nil => rfl
  | cons request rest ih =>
    obtain ⟨first, later⟩ := List.pairwise_cons.mp ordered
    have now : clock ≤ request.now := first _ List.mem_cons_self
    have idle : (clock :: rest.map Request.now).Pairwise (· ≤ ·) :=
      List.pairwise_cons.mpr ⟨fun t mem => first t (List.mem_cons_of_mem _ mem), (List.pairwise_cons.mp later).2⟩
    obtain ⟨here, legible⟩ := legible
    rw [canActivate_eq] at legible
    rw [serve, serve, canActivate_eq, canActivate_eq]
    cases encoded : (buildHandlerKey request.handler).bind encodeURIComponent with
    | none =>
      rw [encoded] at legible
      exact congrArg _ (ih start idle legible)
    | some _ =>
      rw [encoded] at legible
      cases skip : request.handler.classSkip || request.handler.methodSkip with
      | true =>
        rw [skip] at legible
        exact congrArg _ (ih start idle legible)
      | false =>
        rw [skip] at legible
        obtain ⟨classSkip, methodSkip⟩ := Bool.or_eq_false_iff.mp skip
        cases key : storeKeyOf request.handler request.clientKey with
        | none =>
          rw [key] at legible
          exact congrArg _ (ih start idle legible)
        | some storeKey =>
          rw [key] at legible
          obtain ⟨sameCount, sameReset, stands⟩ := redisStore_counts start storeKey
            ⟨request.now, (resolvedThrottle options request.handler).ttl⟩ now
            fun w is => here classSkip methodSkip storeKey w key is
          have left := retryAfter_eq (redisStore_retry redis storeKey
            ⟨request.now, (resolvedThrottle options request.handler).ttl⟩)
          have left' := @retryAfter_eq (windowStore.consume windows storeKey
            ⟨request.now, (resolvedThrottle options request.handler).ttl⟩).2 request.now nofun
          dsimp only
          rw [left, left', sameCount, sameReset]
          exact congrArg _ (ih stands later legible)

/-- A Redis that gives up no key and decides as the counters do can read its windows. -/
theorem legible_of_serve {requests : List Request} {redis : Redis redisCjson} {windows : Windows} (holds : redis.Holds windows)
    (same : serve (redisThrottlerStore redisCjson) options redis requests = serve windowStore options windows requests) :
    Legible options windows requests := by
  induction requests generalizing redis windows with
  | nil => trivial
  | cons request rest ih =>
    rw [serve, serve, canActivate_eq, canActivate_eq] at same
    rw [Legible, canActivate_eq]
    cases encoded : (buildHandlerKey request.handler).bind encodeURIComponent with
    | none =>
      rw [encoded] at same
      refine ⟨fun _ _ storeKey w key => ?_, ih holds (List.cons.inj same).2⟩
      rw [storeKeyOf, encoded] at key
      cases key
    | some _ =>
      rw [encoded] at same
      cases skip : request.handler.classSkip || request.handler.methodSkip with
      | true =>
        rw [skip] at same
        refine ⟨fun classSkip methodSkip => ?_, ih holds (List.cons.inj same).2⟩
        rw [classSkip, methodSkip] at skip
        cases skip
      | false =>
        rw [skip] at same
        cases key : storeKeyOf request.handler request.clientKey with
        | none =>
          rw [key] at same
          exact ⟨fun _ _ _ _ => nofun, ih holds (List.cons.inj same).2⟩
        | some storeKey =>
          rw [key] at same
          obtain ⟨head, tail⟩ := List.cons.inj same
          injection (Prod.mk.inj head).2 with _ sameWindow _
          obtain ⟨sameCount, sameReset⟩ := Window.mk.inj sameWindow
          refine ⟨fun _ _ storeKey' w own is => ?_, ih (holds.consume storeKey _ sameCount sameReset) tail⟩
          cases own
          exact redisStore_readBack holds storeKey _ sameCount sameReset is

theorem legible_of_small {requests : List Request} {windows : Windows} {clock : Nat}
    (ordered : (clock :: requests.map Request.now).Pairwise (· ≤ ·))
    (small : ∀ request ∈ requests, request.now + (resolvedThrottle options request.handler).ttl * 1000 < 10 ^ 14)
    (written : ∀ key w, windows key = some w → w.count + requests.length < 10 ^ 14 ∧ w.resetAt < 10 ^ 14)
    (few : requests.length < 10 ^ 14) : Legible options windows requests := by
  induction requests generalizing windows clock with
  | nil => trivial
  | cons request rest ih =>
    have length : (request :: rest).length = rest.length + 1 := rfl
    rw [length] at written few
    refine ⟨fun _ _ storeKey w _ is => ?_, ?_⟩
    · obtain ⟨count, resetAt⟩ := written storeKey w is
      rw [ReadBack, significant_of_lt (by omega), significant_of_lt resetAt]
      split
      · exact ⟨rfl, rfl⟩
      · next closed => exact Nat.not_lt.mp closed
    · have idle : (request.now :: rest.map Request.now).Pairwise (· ≤ ·) := (List.pairwise_cons.mp ordered).2
      refine ih idle (fun r mem => small r (List.mem_cons_of_mem _ mem)) (fun key w is => ?_) (by omega)
      have before : ∀ w, windows key = some w → w.count + rest.length < 10 ^ 14 ∧ w.resetAt < 10 ^ 14 := fun w is => by
        obtain ⟨count, resetAt⟩ := written key w is
        exact ⟨by omega, resetAt⟩
      rw [canActivate_eq] at is
      split at is
      · exact before w is
      · exact before w is
      · exact before w is
      · next _ storeKey _ _ _ =>
        dsimp only [windowStore] at is
        by_cases here : key = storeKey
        · subst here
          rw [Function.update_self] at is
          cases is
          have fresh := small request List.mem_cons_self
          unfold FixedWindow.count
          split
          · exact ⟨by simp only; omega, fresh⟩
          · next v there =>
            obtain ⟨count, resetAt⟩ := written key v there
            split
            · exact ⟨by simp only; omega, fresh⟩
            · exact ⟨by simp only; omega, resetAt⟩
        · rw [Function.update_of_ne here] at is
          exact before w is

theorem serve_exact {requests : List Request} {clock : Nat} {windows : Windows} {log : List (Counted JsString)}
    (holds : Holds clock windows log) (all : AllExact log)
    (ordered : (clock :: requests.map Request.now).Pairwise (· ≤ ·)) :
    AllExact (log ++ (serve windowStore options windows requests).filterMap (counted options)) := by
  induction requests generalizing clock windows log with
  | nil => simpa [serve] using all
  | cons request rest ih =>
    obtain ⟨first, later⟩ := List.pairwise_cons.mp ordered
    have now : clock ≤ request.now := first _ List.mem_cons_self
    have idle : (clock :: rest.map Request.now).Pairwise (· ≤ ·) :=
      List.pairwise_cons.mpr ⟨fun t mem => first t (List.mem_cons_of_mem _ mem), (List.pairwise_cons.mp later).2⟩
    rw [serve, canActivate_eq]
    cases (buildHandlerKey request.handler).bind encodeURIComponent with
    | none => exact ih holds all idle
    | some _ =>
      cases request.handler.classSkip || request.handler.methodSkip with
      | true => exact ih holds all idle
      | false =>
        cases storeKeyOf request.handler request.clientKey with
        | none => exact ih holds all idle
        | some storeKey =>
          let hit : Hit JsString := ⟨storeKey, request.now, (resolvedThrottle options request.handler).ttl * 1000⟩
          have length : 0 < hit.length := Nat.mul_pos (resolvedThrottle options request.handler).ttl_pos (by decide)
          have next : Exact log ⟨hit, count (windows storeKey) hit⟩ := holds.exact now length
          have grown := ih (@Holds.counts _ _ clock windows log hit holds now length) (allExact_snoc all next) later
          rw [List.append_assoc] at grown
          exact grown

/-- What an outcome says of its request: it is counted under its own key, and let
through as long as the count is within the limit. -/
theorem serve_consumed {requests : List Request} {s : σ} {request : Request} {storeKey : JsString} {window : Window}
    {retryAfter : Option Nat} (mem : (request, .consumed storeKey window retryAfter) ∈ serve store options s requests) :
    storeKeyOf request.handler request.clientKey = some storeKey ∧
      (retryAfter = none ↔ window.count ≤ (resolvedThrottle options request.handler).limit) := by
  induction requests generalizing s with
  | nil => cases mem
  | cons first rest ih =>
    rw [serve, List.mem_cons, Prod.mk.injEq] at mem
    rcases mem with ⟨rfl, outcome⟩ | mem
    · rw [canActivate_eq] at outcome
      split at outcome
      · cases outcome
      · cases outcome
      · cases outcome
      · next key =>
        cases outcome
        refine ⟨key, ?_⟩
        split
        · next above => exact ⟨nofun, fun within => absurd within (Nat.not_le.mpr above)⟩
        · next within => exact ⟨fun _ => Nat.not_lt.mp within, fun _ => rfl⟩
    · exact ih mem

/-- What is not counted is marked to be skipped, or has an ill-formed text. -/
theorem serve_counts {requests : List Request} {s : σ} {x : Request × Outcome} (mem : x ∈ serve store options s requests) :
    (x.2 = .skipped → x.1.handler.classSkip = true ∨ x.1.handler.methodSkip = true) ∧
      (x.2 = .uriError → ∃ t ∈ x.1.texts, codePoints t = none) := by
  induction requests generalizing s with
  | nil => cases mem
  | cons request rest ih =>
    rw [serve, List.mem_cons] at mem
    rcases mem with rfl | mem
    · dsimp only
      have keyed := @keyed_of_wellFormed request
      rw [canActivate_eq]
      have broken (unkeyed : ¬ ((buildHandlerKey request.handler).bind encodeURIComponent ≠ none ∧
          storeKeyOf request.handler request.clientKey ≠ none)) : ∃ t ∈ request.texts, codePoints t = none := by
        by_contra whole
        exact unkeyed (keyed fun t mem ill => whole ⟨t, mem, ill⟩)
      split
      · next unkeyed => exact ⟨nofun, fun _ => broken fun h => h.1 unkeyed⟩
      · next skip => exact ⟨fun _ => Bool.or_eq_true_iff.mp skip, nofun⟩
      · next unkeyed => exact ⟨nofun, fun _ => broken fun h => h.2 unkeyed⟩
      · exact ⟨nofun, nofun⟩
    · exact ih mem

end Counting

/-! ## The guard -/

def Outcome.admittedIn (resetAt : Nat) : Outcome → Bool
  | .consumed _ window none => window.resetAt = resetAt
  | _ => false

/-- What the guard has decided is what exact and separate counters say: in a window
of a handler key and a client key at most `limit` requests of a handler are let
through. -/
structure Throttled (options : ThrottlerHandlerOptions) (served : List (Request × Outcome)) : Prop where
  /-- Only handlers that are marked to be skipped are, and only ill-formed texts fail. -/
  counts : ∀ x ∈ served, (x.2 = .skipped → x.1.handler.classSkip = true ∨ x.1.handler.methodSkip = true) ∧
    (x.2 = .uriError → ∃ t ∈ x.1.texts, codePoints t = none)
  exact_ : AllExact (served.filterMap (counted options))
  within : ∀ handler clientKey resetAt,
    served.countP (fun x => decide (x.1.handler = handler ∧ x.1.clientKey = clientKey) && x.2.admittedIn resetAt) ≤
      (resolvedThrottle options handler).limit
  separate : ∀ x ∈ served, ∀ y ∈ served, ∀ storeKey w w' retry retry',
    x.2 = .consumed storeKey w retry → y.2 = .consumed storeKey w' retry' →
      x.1.clientKey = y.1.clientKey ∧ buildHandlerKey x.1.handler = buildHandlerKey y.1.handler ∧
        ∀ a b, x.1.handler.compiledRouteIdentity = some a → y.1.handler.compiledRouteIdentity = some b → a = b

theorem throttled_of_exact {σ : Type} {store : ThrottlerStore σ} {options : ThrottlerHandlerOptions} {s : σ}
    {requests : List Request} (all : AllExact ((serve store options s requests).filterMap (counted options))) :
    Throttled options (serve store options s requests) where
  counts _ mem := serve_counts mem
  exact_ := all
  within handler clientKey resetAt := by
    cases key : storeKeyOf handler clientKey with
    | none =>
      refine Nat.le_trans (Nat.le_of_eq (List.countP_eq_zero.mpr ?_)) (Nat.zero_le _)
      rintro ⟨request, outcome⟩ mem here
      rw [Bool.and_eq_true, decide_eq_true_eq] at here
      obtain ⟨⟨rfl, rfl⟩, admitted⟩ := here
      cases outcome with
      | skipped => cases admitted
      | uriError => cases admitted
      | consumed storeKey window retryAfter =>
        cases (serve_consumed mem).1.symm.trans key
    | some storeKey =>
      have counts := countP_within (resolvedThrottle options handler).limit all storeKey resetAt
      rw [List.countP_filterMap] at counts
      refine Nat.le_trans (List.countP_mono_left ?_) counts
      rintro ⟨request, outcome⟩ mem here
      rw [Bool.and_eq_true, decide_eq_true_eq] at here
      obtain ⟨⟨rfl, rfl⟩, admitted⟩ := here
      cases outcome with
      | skipped => cases admitted
      | uriError => cases admitted
      | consumed storeKey' window retryAfter =>
        obtain ⟨own, limit⟩ := serve_consumed mem
        cases own.symm.trans key
        cases retryAfter with
        | some _ => cases admitted
        | none =>
          have ends : window.resetAt = resetAt := of_decide_eq_true admitted
          simp [counted, inWindow, ends, limit.mp rfl]
  separate := by
    rintro ⟨request, _⟩ mem ⟨request', _⟩ mem' storeKey w w' retry retry' rfl rfl
    have key := (serve_consumed mem).1
    have key' := (serve_consumed mem').1
    obtain ⟨client, handlerKey, built, built'⟩ := storeKeyOf_injective key key'
    exact ⟨client, built.trans built'.symm, fun a b => buildHandlerKey_identity built built'⟩

/-- Two handlers that only their compiled identities tell apart. -/
def twinHandler (identity : String) : Handler :=
  ⟨none, text "Items", text "GET", text "/items", none, none, text "list", some (text identity), false, false, none,
    none⟩

def twinRequests : List Request :=
  [⟨twinHandler "a", text "10.0.0.1", 0⟩, ⟨twinHandler "b", text "10.0.0.1", 5⟩, ⟨twinHandler "a", text "10.0.0.1", 1000⟩]

def Outcome.resetAt? : Outcome → Option Nat
  | .consumed _ window _ => some window.resetAt
  | .skipped | .uriError => none

end Fluo.Throttler
