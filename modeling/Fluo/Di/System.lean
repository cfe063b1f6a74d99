import Fluo.Di.Disposal
import Fluo.Di.Resolution

/-!
# Runs of a container tree

Calls of the public methods and moves of what is under way, one event at a
time. A run is any sequence of events that are enabled when their turn comes.
-/

namespace Fluo.Di

inductive Event
  | register (c : Nat) (ds : List Provider)
  | override (c : Nat) (ds : List Provider)
  | createRequestScope (c : Nat)
  | resolve (c : Nat) (t : Token)
  | resolveMultiContribution (c : Nat) (t : Token) (index : Nat)
  | dispose (c : Nat)
  | context (k : Nat)
  | factory (k : Nat) (outcome : FactoryOutcome)
  | task (τ : Nat)
  | taskHook (τ : Nat) (thrown : Option Nat)
  | attempt (α : Nat)
  | attemptHook (α : Nat) (thrown : Option Nat)
  | call (κ : Nat)
  deriving DecidableEq, Repr

namespace Sys

variable (w : World)

def setRegistry (c : Nat) (r : Registry) (s : Sys) : Sys := s.modifyContainer c fun x => { x with registry := r }

def setNextRef (ref : Nat) (s : Sys) : Sys := { s with nextRef := ref }

/-- The loop of `register`: a batch that throws keeps what it registered. -/
def registerAll (c : Nat) : List Provider → Sys → Sys
  | [], s => s
  | d :: rest, s =>
    let ref := s.nextRef
    let s := setNextRef (ref + 1) s
    let parent : View := (s.containers.get c).ancestors.map fun p => (s.containers.get p).registry
    match (s.containers.get c).registry.registerOne w parent ref d with
    | .error _ => s
    | .ok r => registerAll c rest (setRegistry c r s)

def register (c : Nat) (ds : List Provider) (s : Sys) : Sys :=
  if s.isDisposedInHierarchy c then s else registerAll w c ds s

/-- One token of the second loop of `override`. -/
def overrideToken (c : Nat) (s : Sys) (g : Token × List NormalizedProvider) : Sys :=
  let s := s.invalidateInHierarchy w c g.1
  setRegistry c ((s.containers.get c).registry.replace g.1 g.2) s

def validatedOverride (c : Nat) (groups : List (Token × List NormalizedProvider)) (s : Sys) :
    Except DiError Unit :=
  @validateOverride Id _ (!s.isRoot c) (s.queries w c).has groups

def override (c : Nat) (ds : List Provider) (s : Sys) : Sys :=
  if s.isDisposedInHierarchy c then s
  else
    let ref := s.nextRef
    let s := setNextRef (ref + ds.length) s
    match w.normalizeBatch ref ds with
    | .error _ => s
    | .ok ps =>
      match validatedOverride w c (groupByToken ps).entries s with
      | .error _ => s
      | .ok () => (groupByToken ps).entries.foldl (overrideToken w c) s

def createRequestScope (c : Nat) (s : Sys) : Sys :=
  if s.isDisposedInHierarchy c then s
  else { s with containers := s.containers.push { (default : Container) with ancestors := s.lineage c } }

/-- `resolve` and `resolveMultiContribution` up to their first `await`. -/
def startContext (start : Start) (s : Sys) : Sys :=
  let ctl : Ctl := if s.isDisposedInHierarchy start.container then .done (.error [.di .containerDisposed])
    else .stale start (s.beginStaleWait start.container)
  { s with contexts := s.contexts.push ⟨[], ctl⟩ }

def beginResolution (start : Start) (s : Sys) : List Frame × Ctl :=
  match start with
  | .resolve c t => ([], .eval c (w.normalizeFrameworkServiceToken t) false)
  | .contribution c t index =>
    let t' := w.normalizeFrameworkServiceToken t
    match ((s.view c).collectMultiProviders t')[index]? with
    | none => ([], .fail [.di (.noContribution t index)])
    | some p =>
      match s.scopeError w c p with
      | some e => ([], .fail [.di e])
      | none => ([.enter t'], .contribution c p)

def advanceContext (k : Nat) (s : Sys) : Option Sys :=
  match (s.contexts.get k).ctl with
  | .stale start wait =>
    if wait.round = [] then
      let next := if wait.errors = [] then beginResolution w start s else ([], .fail wait.errors)
      some (s.setContext k next.1 next.2)
    else
      (s.nextStaleRound start.container wait).map fun r => r.1.setContext k [] (.stale start r.2)
  | _ => (s.move w k).map (s.apply k)

def factoryEvent (k : Nat) (outcome : FactoryOutcome) (s : Sys) : Option Sys :=
  (factoryMove outcome (s.contexts.get k)).map (s.apply k)

def dispose (c : Nat) (s : Sys) : Sys := (startDispose s.containers.size .direct c s).1

/-- `none` when the event is not enabled. -/
def step (s : Sys) : Event → Option Sys
  | .register c ds => if c < s.containers.size then some (register w c ds s) else none
  | .override c ds => if c < s.containers.size then some (override w c ds s) else none
  | .createRequestScope c => if c < s.containers.size then some (createRequestScope c s) else none
  | .resolve c t => if c < s.containers.size then some (startContext (.resolve c t) s) else none
  | .resolveMultiContribution c t index =>
    if c < s.containers.size then some (startContext (.contribution c t index) s) else none
  | .dispose c => if c < s.containers.size then some (dispose c s) else none
  | .context k => if k < s.contexts.size then advanceContext w k s else none
  | .factory k outcome => if k < s.contexts.size then factoryEvent k outcome s else none
  | .task τ => if τ < s.tasks.size then s.advanceTask w τ else none
  | .taskHook τ thrown => if τ < s.tasks.size then s.taskHook τ thrown else none
  | .attempt α => if α < s.attempts.size then s.advanceAttempt w α else none
  | .attemptHook α thrown => if α < s.attempts.size then s.attemptHook α thrown else none
  | .call κ => if κ < s.calls.size then s.advanceCall κ else none

/-- A run: every event is enabled when its turn comes. -/
def run (s : Sys) : List Event → Option Sys
  | [] => some s
  | e :: rest => (step w s e).bind fun s => run s rest

/-- `new Container()`. -/
def initial : Sys where
  nextRef := 0
  containers := Heap.empty.push default
  promises := Heap.empty
  objects := Heap.empty
  contexts := Heap.empty
  tasks := Heap.empty
  attempts := Heap.empty
  calls := Heap.empty
  hooks := []

def Reachable (s : Sys) : Prop := ∃ es, run w initial es = some s

end Sys

end Fluo.Di
