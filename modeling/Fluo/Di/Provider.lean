import Mathlib.Data.List.Basic

/-!
# Provider declarations

Tokens, injection entries and the normalized provider records the container
keeps (`types.ts`, `provider-normalization.ts`, `errors.ts`).
-/

namespace Fluo.Di

/-- `string | symbol | class`. Two tokens are the same object when equal. -/
inductive Token
  | str (name : String)
  | sym (id : Nat)
  | cls (id : Nat)
  deriving DecidableEq, Repr

instance : Inhabited Token := ⟨.sym 0⟩

/-- The test `if (token)`: only the empty string is falsy. -/
def Token.truthy : Token → Bool
  | .str name => name ≠ ""
  | _ => true

inductive Scope
  | singleton
  | request
  | transient
  deriving DecidableEq, Repr

/-- An injection entry; a forward reference is its resolver's result. -/
inductive InjectionToken
  | token (t : Token)
  | forwardRef (t : Token)
  | optional (t : Token)
  deriving DecidableEq, Repr

def InjectionToken.isOptional : InjectionToken → Bool
  | .optional _ => true
  | _ => false

def InjectionToken.isForwardRef : InjectionToken → Bool
  | .forwardRef _ => true
  | _ => false

/-- What `getClassDiMetadata` returns for a class. -/
structure ClassDiMetadata where
  inject : Option (List InjectionToken)
  scope : Option Scope
  deriving DecidableEq, Repr

/-- What the container reads of the program around it: class metadata,
framework service identities, and which `useValue` objects have an
`onDestroy` method. -/
structure World where
  classes : List (Nat × ClassDiMetadata)
  services : List (Nat × Nat)
  disposableValue : Nat → Bool

instance : Inhabited World := ⟨[], [], fun _ => false⟩

def World.getClassDiMetadata (w : World) : Token → Option ClassDiMetadata
  | .cls c => w.classes.lookup c
  | _ => none

/-- Designated framework services are replaced by their stable symbol. -/
def World.normalizeFrameworkServiceToken (w : World) : Token → Token
  | .cls c =>
    match w.services.lookup c with
    | some s => .sym s
    | none => .cls c
  | t => t

/-- Errors of the container with the data their messages are built from. -/
inductive DiError
  | invalidProvider
  | containerDisposed
  | noProvider (token : Token)
  | noContribution (token : Token) (index : Nat)
  | requestScope (token : Token)
  | scopeMismatch (token : Token) (dependency : Token)
  | singletonOnRequestScope (token : Token)
  | circularDependency (chain : List Token) (forwardRef : Bool)
  | duplicateProvider (token : Token)
  deriving DecidableEq, Repr

inductive ErrorClass
  | InvalidProviderError
  | ContainerResolutionError
  | RequestScopeResolutionError
  | ScopeMismatchError
  | CircularDependencyError
  | DuplicateProviderError
  deriving DecidableEq, Repr

def DiError.errorClass : DiError → ErrorClass
  | .invalidProvider => .InvalidProviderError
  | .containerDisposed => .ContainerResolutionError
  | .noProvider _ => .ContainerResolutionError
  | .noContribution _ _ => .ContainerResolutionError
  | .requestScope _ => .RequestScopeResolutionError
  | .scopeMismatch _ _ => .ScopeMismatchError
  | .singletonOnRequestScope _ => .ScopeMismatchError
  | .circularDependency _ _ => .CircularDependencyError
  | .duplicateProvider _ => .DuplicateProviderError

/-- `type` with the field it selects. -/
inductive Strategy
  | useClass (c : Nat)
  | useFactory (f : Nat)
  | useValue (v : Nat)
  | useExisting (t : Token)
  deriving DecidableEq, Repr

/-- A normalized provider record. `ref` is its object identity. -/
structure NormalizedProvider where
  ref : Nat
  provide : Token
  scope : Scope
  strategy : Strategy
  inject : List InjectionToken
  multi : Bool
  deriving DecidableEq, Repr

def NormalizedProvider.useExisting (p : NormalizedProvider) : Option Token :=
  match p.strategy with
  | .useExisting t => some t
  | _ => none

/-- Public declarations. `malformed` is any declaration that the structural
checks of `normalizeProvider` reject. -/
inductive Provider
  | classType (c : Nat)
  | valueProvider (provide : Token) (useValue : Nat) (multi : Bool)
  | factoryProvider (provide : Token) (useFactory : Nat) (inject : List InjectionToken)
      (scope : Option Scope) (resolverClass : Option Nat) (multi : Bool)
  | classProvider (provide : Token) (useClass : Nat) (inject : Option (List InjectionToken))
      (scope : Option Scope) (multi : Bool)
  | existingProvider (provide : Token) (useExisting : Token)
  | malformed
  deriving DecidableEq, Repr

/-- Plain and optional entries are canonicalized at once, a forward reference
only when it is resolved. -/
def World.normalizeInjectToken (w : World) : InjectionToken → InjectionToken
  | .token t => .token (w.normalizeFrameworkServiceToken t)
  | .forwardRef t => .forwardRef t
  | .optional t => .optional (w.normalizeFrameworkServiceToken t)

def World.normalizeInject (w : World) (inject : Option (List InjectionToken)) : List InjectionToken :=
  (inject.getD []).map w.normalizeInjectToken

/-- `normalizeProvider`; the record is a new object, named `ref`. -/
def World.normalizeProvider (w : World) (ref : Nat) : Provider → Except DiError NormalizedProvider
  | .classType c =>
    let metadata := w.getClassDiMetadata (.cls c)
    .ok { ref, provide := w.normalizeFrameworkServiceToken (.cls c)
          scope := (metadata.bind (·.scope)).getD .singleton
          strategy := .useClass c
          inject := w.normalizeInject (metadata.bind (·.inject)), multi := false }
  | .valueProvider provide v multi =>
    .ok { ref, provide := w.normalizeFrameworkServiceToken provide, scope := .singleton
          strategy := .useValue v, inject := [], multi }
  | .factoryProvider provide f inject scope resolverClass multi =>
    let metadata := resolverClass.bind fun c => w.getClassDiMetadata (.cls c)
    .ok { ref, provide := w.normalizeFrameworkServiceToken provide
          scope := (scope.or (metadata.bind (·.scope))).getD .singleton
          strategy := .useFactory f, inject := w.normalizeInject (some inject), multi }
  | .classProvider provide c inject scope multi =>
    let metadata := w.getClassDiMetadata (.cls c)
    .ok { ref, provide := w.normalizeFrameworkServiceToken provide
          scope := (scope.or (metadata.bind (·.scope))).getD .singleton
          strategy := .useClass c
          inject := w.normalizeInject (inject.or (metadata.bind (·.inject))), multi }
  | .existingProvider provide target =>
    .ok { ref, provide := w.normalizeFrameworkServiceToken provide, scope := .singleton
          strategy := .useExisting (w.normalizeFrameworkServiceToken target), inject := []
          multi := false }
  | .malformed => .error .invalidProvider

/-- Aliases are never contributions, and aliases and values have no
dependencies of their own and singleton scope. -/
structure NormalizedProvider.WellFormed (p : NormalizedProvider) : Prop where
  existing : ∀ t, p.strategy = .useExisting t → p.multi = false ∧ p.scope = .singleton ∧ p.inject = []
  value : ∀ v, p.strategy = .useValue v → p.scope = .singleton ∧ p.inject = []

theorem World.normalizeProvider_wellFormed {w : World} {ref : Nat} {d : Provider}
    {p : NormalizedProvider} (h : w.normalizeProvider ref d = .ok p) : p.WellFormed := by
  cases d <;> simp only [World.normalizeProvider, Except.ok.injEq, reduceCtorEq] at h <;>
    subst h <;> constructor <;> simp

theorem World.normalizeProvider_ref {w : World} {ref : Nat} {d : Provider} {p : NormalizedProvider}
    (h : w.normalizeProvider ref d = .ok p) : p.ref = ref := by
  cases d <;> simp only [World.normalizeProvider, Except.ok.injEq, reduceCtorEq] at h <;> subst h <;> rfl

end Fluo.Di
