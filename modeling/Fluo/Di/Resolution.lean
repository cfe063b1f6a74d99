import Fluo.Di.Container

/-!
# How a resolution context moves

A context runs until it has to wait. `Sys.move` says what it does next, branch
by branch as `container.ts` does, and `Sys.apply` does it. Waiting for a
settled promise ends in a later move, so any other context can move in
between.
-/

namespace Fluo.Di

def Frame.entered : Frame → Option Token
  | .enter t => some t
  | _ => none

/-- `chain` and `activeTokens`, oldest first. -/
def activeTokens (stack : List Frame) : List Token := (stack.filterMap Frame.entered).reverse

inductive FactoryOutcome
  | fresh (disposable : Bool)
  | shared (v : Val)
  | throws (n : Nat)
  deriving DecidableEq, Repr

/-- What a move does: to the stack, to what is run next, and to caches. -/
inductive Move
  | goto (ctl : Ctl)
  /-- New frames on the stack; `touched` is a container whose request cache was
  asked for. -/
  | push (touched : Option Nat) (frames : List Frame) (ctl : Ctl)
  | replace (frame : Frame) (ctl : Ctl)
  | pop (ctl : Ctl)
  | allocate (parts : List Val) (disposable : Bool) (uses : List Nat)
  /-- A promise goes into a cache; its frames lie between `before` and
  `frames`. -/
  | create (m : Materialization) (before frames : List Frame) (ctl : Ctl)
  | fulfil (promise : Nat) (v : Val) (uses : List Nat)
  | reject (promise : Nat) (e : Rejection)

namespace Sys

variable (w : World) (s : Sys)

def absent (c : Nat) (d : InjectionToken) : Bool := (s.queries w c).absent d

/-- What `assertSingletonDependencyScopes` throws. -/
def scopeError (c : Nat) (p : NormalizedProvider) : Option DiError :=
  (s.queries w c).assertSingletonDependencyScopes p

/-! ## Waiting for a cached promise -/

/-- The contexts a context has links to: it waits for one promise at a time. -/
def dependencies (k : Nat) : List Nat :=
  match (s.contexts.get k).ctl with
  | .await _ (some owner) => [owner]
  | _ => []

def findPendingResolutionPath : Nat → Nat → Nat → List Nat → Option (List Nat)
  | 0, _, _, _ => none
  | n + 1, start, target, visited =>
    if start = target then some [start]
    else if start ∈ visited then none
    else (s.dependencies start).findSome? fun dependency =>
      (findPendingResolutionPath n dependency target (start :: visited)).map (start :: ·)

/-- `linkPendingResolution` and the `await` after it. A promise has an owner
while it is pending. -/
def linkPendingResolution (k : Nat) (promise : Nat) (active : List Token) (t : Token) : Ctl :=
  let m := s.promises.get promise
  if m.status ≠ .pending ∨ active = [] then .await promise none
  else
    match s.findPendingResolutionPath (s.contexts.size + 1) m.context k [] with
    | some cyclePath =>
      .fail [.di (.circularDependency
        (active ++ [t] ++ cyclePath.flatMap fun c => activeTokens (s.contexts.get c).stack) false)]
    | none => .await promise (some m.context)

/-! ## Materializing -/

/-- `instantiate` up to its first dependency. An alias never gets here. -/
def instantiate (owner : Nat) (p : NormalizedProvider) : List Frame × Ctl :=
  match s.scopeError w owner p with
  | some e => ([], .fail [.di e])
  | none =>
    match p.strategy with
    | .useValue v => ([], .ret (.value v) [])
    | .useExisting _ => ([], .fail [])
    | .useFactory _ | .useClass _ => ([.deps owner p p.inject [] []], .deps)

/-- `resolveScopedOrSingletonInstance` and `resolveMultiProviderInstance` on
the cache owner: wait for the cached promise, or make it. -/
def obtain (k : Nat) (before : List Frame) (owner : Nat) (key : CacheKey) (p : NormalizedProvider) :
    Except DiError Nat → Move
  | .error e => .push none before (.fail [.di e])
  | .ok home =>
    match (s.containers.get home).cache.get key with
    | some promise =>
      .push (some home) before (s.linkPendingResolution k promise
        (activeTokens (before ++ (s.contexts.get k).stack)) p.provide)
    | none =>
      let made := s.instantiate w owner p
      .create ⟨owner, home, key, p, k, s.view owner, .pending, []⟩ before made.1 made.2

def resolveMultiProviderInstance (k : Nat) (c : Nat) (p : NormalizedProvider) : Move :=
  match p.useExisting with
  | some target => .goto (.eval c target false)
  | none =>
    if p.scope = .transient then
      let made := s.instantiate w c p
      .push none made.1 made.2
    else
      let owner := s.cacheOwnerFor c p
      s.obtain w k [] owner (.contribution p.ref) p (s.multiCacheFor owner p)

/-- The part of `resolveFromRegisteredProviders` after `requireProvider`. A
cached singleton is awaited outside of the token's own frame. -/
def resolveProvider (k : Nat) (c : Nat) (t : Token) (p : NormalizedProvider) : Move :=
  match p.useExisting with
  | some target => .push none [.enter t] (.eval c target false)
  | none =>
    if p.scope = .transient then
      let made := s.instantiate w c p
      .push none (made.1 ++ [Frame.enter t]) made.2
    else
      let owner := s.cacheOwnerFor c p
      let home := s.cacheFor owner p
      let cachedSingleton := p.scope = .singleton ∧
        (home.toOption.bind fun h => (s.containers.get h).cache.get (.token p.provide)).isSome
      s.obtain w k (if cachedSingleton then [] else [.enter t]) owner (.token p.provide) p home

def resolveFromRegisteredProviders (k : Nat) (c : Nat) (t : Token) : Move :=
  let multiProviders := (s.view c).collectMultiProviders t
  if !(s.containers.get c).registry.registrations.has t ∧ multiProviders ≠ [] then
    .push none [.contributions c multiProviders [] [], .enter t] .contributions
  else
    match (s.view c).lookupProvider t with
    | none => .goto (.fail [.di (.noProvider t)])
    | some p => s.resolveProvider w k c t p

def resolveWithChain (k : Nat) (c : Nat) (t : Token) (allowForwardRef : Bool) : Move :=
  let chain := activeTokens (s.contexts.get k).stack
  if t ∈ chain then .goto (.fail [.di (.circularDependency (chain ++ [t]) allowForwardRef)])
  else s.resolveFromRegisteredProviders w k c t

/-! ## Frames -/

def nextDependency (c : Nat) (p : NormalizedProvider) (rest : List InjectionToken) (values : List Val)
    (uses : List Nat) : Move :=
  match rest with
  | [] => .goto .running
  | d :: rest =>
    if s.absent w c d then .replace (.deps c p rest (values ++ [Val.undefined]) uses) .deps
    else .replace (.deps c p rest values uses)
      (.eval c (w.resolveProviderDependencyToken d) d.isForwardRef)

def nextContribution (c : Nat) (rest : List NormalizedProvider) (values : List Val) (uses : List Nat) :
    Move :=
  match rest with
  | [] => .allocate values false uses
  | p :: rest => .replace (.contributions c rest values uses) (.contribution c p)

def returnTo (v : Val) (uses : List Nat) : List Frame → Move
  | [] => .goto (.done (.ok v))
  | .enter _ :: _ => .pop (.ret v uses)
  | .contributions c rest values us :: _ =>
    .replace (.contributions c rest (values ++ [v]) (us ++ uses)) .contributions
  | .deps c p rest values us :: _ => .replace (.deps c p rest (values ++ [v]) (us ++ uses)) .deps
  | .settle promise :: _ => .fulfil promise v uses

def failTo (e : Rejection) : List Frame → Move
  | [] => .goto (.done (.error e))
  | .settle promise :: _ => .reject promise e
  | _ :: _ => .pop (.fail e)

/-- What a context does next; `none` while it waits. -/
def move (k : Nat) : Option Move :=
  let x := s.contexts.get k
  match x.ctl with
  | .eval c t allowForwardRef => some (s.resolveWithChain w k c t allowForwardRef)
  | .contribution c p => some (s.resolveMultiProviderInstance w k c p)
  | .contributions =>
    match x.stack with
    | .contributions c rest values uses :: _ => some (nextContribution c rest values uses)
    | _ => none
  | .deps =>
    match x.stack with
    | .deps c p rest values uses :: _ => some (s.nextDependency w c p rest values uses)
    | _ => none
  | .await promise _ =>
    match (s.promises.get promise).status with
    | .pending => none
    | .fulfilled v => some (.goto (.ret v [promise]))
    | .rejected e => some (.goto (.fail e))
  | .ret v uses => some (returnTo v uses x.stack)
  | .fail e => some (failTo e x.stack)
  | .stale .. | .running | .done _ => none

/-! ## Doing a move -/

def setContext (k : Nat) (stack : List Frame) (ctl : Ctl) : Sys :=
  { s with contexts := s.contexts.set k ⟨stack, ctl⟩ }

def touchHome (touched : Option Nat) : Sys := touched.elim s s.touch

def setStatus (promise : Nat) (status : PromiseStatus) (uses : List Nat) : Sys :=
  { s with promises := s.promises.modify promise fun m => { m with status, uses } }

def apply (k : Nat) : Move → Sys
  | .goto ctl => s.setContext k (s.contexts.get k).stack ctl
  | .push touched frames ctl => (s.touchHome touched).setContext k (frames ++ (s.contexts.get k).stack) ctl
  | .replace frame ctl => s.setContext k (frame :: (s.contexts.get k).stack.tail) ctl
  | .pop ctl => s.setContext k (s.contexts.get k).stack.tail ctl
  | .allocate parts disposable uses =>
    { s with objects := s.objects.push ⟨disposable, parts⟩ }.setContext k (s.contexts.get k).stack.tail
      (.ret (.object s.objects.size) uses)
  | .create m before frames ctl =>
    let s := s.touch m.home
    let promise := s.promises.size
    let s := { s with promises := s.promises.push m }
    let s := s.modifyContainer m.home fun x => { x with cache := x.cache.set m.key promise }
    s.setContext k (frames ++ .settle promise :: before ++ (s.contexts.get k).stack) ctl
  | .fulfil promise v uses =>
    let m := s.promises.get promise
    let s := s.setStatus promise (.fulfilled v) uses
    let s := s.modifyContainer m.owner fun x => { x with materialized := x.materialized ++ [promise] }
    s.setContext k (s.contexts.get k).stack.tail (.ret v [promise])
  | .reject promise e =>
    let m := s.promises.get promise
    let s := s.modifyContainer m.home fun x => { x with cache := x.cache.erase m.key }
    let s := s.setStatus promise (.rejected e) []
    s.setContext k (s.contexts.get k).stack.tail (.fail e)

/-- What user code does with the dependencies it got: it makes an object, or
returns one that exists already, or throws. -/
def factoryMove (outcome : FactoryOutcome) (c : Context) : Option Move :=
  match c.ctl, c.stack with
  | .running, .deps _ _ _ values uses :: _ =>
    match outcome with
    | .fresh disposable => some (.allocate values disposable uses)
    | .shared v => some (.pop (.ret v uses))
    | .throws n => some (.pop (.fail [.thrown n]))
  | _, _ => none

end Sys

end Fluo.Di
