import Fluo.Lib.OrderedMap
import Fluo.Di.Provider

/-!
# Compiling a module graph

`compileModuleGraph` of `module-graph.ts`, with the compile cache left off.
Modules, controllers and class providers are classes, named by numbers.
-/

namespace Fluo.Runtime

open Fluo.Di

abbrev ModuleType := Nat

/-- `getRuntimeModuleMetadata`; fields may be missing. -/
structure ModuleMetadata where
  global : Option Bool
  imports : Option (List ModuleType)
  providers : Option (List Provider)
  controllers : Option (List Nat)
  exports : Option (List Token)

structure ModuleDefinition where
  global : Bool
  imports : List ModuleType
  providers : List Provider
  controllers : List Nat
  exports : List Token

/-- The classes of the program: DI metadata, whether a class has an own
`inject`, the `length` of its constructor, and module metadata. -/
structure Program where
  world : World
  ownInject : Nat → Bool
  length : Nat → Nat
  modules : OrderedMap ModuleType ModuleMetadata

structure BootstrapModuleOptions where
  providers : List Provider
  validationTokens : List Token
  moduleReplacements : OrderedMap ModuleType ModuleType

structure CompiledModule where
  type : ModuleType
  definition : ModuleDefinition
  accessibleTokens : OrderedSet Token
  exportedTokens : OrderedSet Token
  importedExportedTokens : OrderedSet Token
  providerTokens : OrderedSet Token

/-- Whose constructor lacks injection tokens, as the message names it. -/
inductive Subject
  | classProvider (c : Nat)
  | providerFor (provide : Token) (useClass : Nat)
  | controller (c : Nat)
  deriving DecidableEq, Repr

inductive Remedy
  | injectMetadata
  | providerInject
  | injectMetadataOrProviderInject
  deriving DecidableEq, Repr

inductive ValidationScope
  | bootstrapRuntime
  | moduleScope (m : ModuleType)
  deriving DecidableEq, Repr

/-- Errors of the compiler with the data of their messages. -/
inductive GraphError
  | circularReplacement (cycle : List ModuleType)
  | circularImport (m : ModuleType)
  | importNotCompiled (m : ModuleType)
  | invalidProvider (e : DiError)
  | injectionMetadata (subject : Subject) (scope : ValidationScope) (required configured : Nat)
      (remedy : Remedy)
  | providerVisibility (m : ModuleType) (provider token : Token)
  | controllerVisibility (m : ModuleType) (controller : Nat) (token : Token)
  | exportVisibility (m : ModuleType) (token : Token)
  deriving DecidableEq, Repr

inductive GraphErrorClass
  | ModuleGraphError
  | ModuleInjectionMetadataError
  | ModuleVisibilityError
  | InvalidProviderError
  deriving DecidableEq, Repr

def GraphError.errorClass : GraphError → GraphErrorClass
  | .circularReplacement _ | .circularImport _ | .importNotCompiled _ => .ModuleGraphError
  | .invalidProvider _ => .InvalidProviderError
  | .injectionMetadata .. => .ModuleInjectionMetadataError
  | .providerVisibility .. | .controllerVisibility .. | .exportVisibility .. => .ModuleVisibilityError

namespace Program

variable (P : Program)

/-! ## Tokens of a declaration -/

def providerToken : Provider → Token
  | .classType c => P.world.normalizeFrameworkServiceToken (.cls c)
  | .valueProvider provide _ _ | .factoryProvider provide _ _ _ _ _ | .classProvider provide _ _ _ _
  | .existingProvider provide _ => P.world.normalizeFrameworkServiceToken provide
  | .malformed => default

/-- `getEffectiveClassDiMetadata(c)?.inject ?? []`. -/
def classInject (c : Nat) : List InjectionToken :=
  ((P.world.getClassDiMetadata (.cls c)).bind (·.inject)).getD []

def resolveInjectionToken : InjectionToken → Token
  | .token t | .forwardRef t | .optional t => P.world.normalizeFrameworkServiceToken t

def providerDependencies : Provider → List InjectionToken
  | .classType c => P.classInject c
  | .factoryProvider _ _ inject _ _ _ => inject
  | .classProvider _ c inject _ _ => inject.getD (P.classInject c)
  | .existingProvider _ useExisting => [.token useExisting]
  | .valueProvider .. | .malformed => []

def controllerDependencies (c : Nat) : List InjectionToken := P.classInject c

def createRuntimeTokenSet (providers : List Provider) : OrderedSet Token :=
  OrderedSet.ofList (providers.map P.providerToken)

def mergeRuntimeTokenSets (providers : List Provider) (validationTokens : List Token) :
    OrderedSet Token :=
  OrderedSet.ofList ((P.createRuntimeTokenSet providers).keys ++
    validationTokens.map P.world.normalizeFrameworkServiceToken)

/-! ## Injection metadata -/

def requiredConstructorParameters (c : Nat) : Nat := if P.ownInject c then 0 else P.length c

def validateClassInjectionMetadata (subject : Subject) (implementation : Nat)
    (inject : List InjectionToken) (scope : ValidationScope) (remedy : Remedy) :
    Except GraphError Unit :=
  let required := P.requiredConstructorParameters implementation
  if required = 0 ∨ inject.length ≥ required then .ok ()
  else .error (.injectionMetadata subject scope required inject.length remedy)

def validateProviderInjectionMetadata (provider : Provider) (scope : ValidationScope) :
    Except GraphError Unit :=
  match provider with
  | .classType c =>
    P.validateClassInjectionMetadata (.classProvider c) c (P.classInject c) scope .injectMetadata
  | .classProvider provide c inject _ _ =>
    P.validateClassInjectionMetadata
      (if provide = .cls c then .classProvider c else .providerFor provide c) c
      (inject.getD (P.classInject c)) scope
      (if inject.isSome then .providerInject else .injectMetadataOrProviderInject)
  | _ => .ok ()

def validateControllerInjectionMetadata (controller : Nat) (scope : ValidationScope) :
    Except GraphError Unit :=
  P.validateClassInjectionMetadata (.controller controller) controller (P.classInject controller) scope
    .injectMetadata

/-! ## Definitions -/

/-- `validateProviderInputs`: every declaration normalizes. -/
def validateProviderInputs : List Provider → Except GraphError Unit
  | [] => .ok ()
  | p :: rest =>
    match P.world.normalizeProvider 0 p with
    | .error e => .error (.invalidProvider e)
    | .ok _ => validateProviderInputs rest

def normalizeModuleDefinition (raw : Option ModuleMetadata) : Except GraphError ModuleDefinition :=
  match raw with
  | none => .ok ⟨false, [], [], [], []⟩
  | some raw => do
    P.validateProviderInputs (raw.providers.getD [])
    .ok {
      global := raw.global.getD false
      imports := raw.imports.getD []
      providers := raw.providers.getD []
      controllers := raw.controllers.getD []
      exports := (raw.exports.getD []).map P.world.normalizeFrameworkServiceToken }

end Program

/-- Follow a chain of replacements; `path` is the chain so far. Only keys of
the map are on the path, so one more step than the map has keys is enough. -/
def resolveReplacementMetadataSource (replacements : OrderedMap ModuleType ModuleType) :
    Nat → List ModuleType → ModuleType → Except GraphError ModuleType
  | 0, path, m => .error (.circularReplacement (path ++ [m]))
  | n + 1, path, m =>
    match replacements.get m with
    | none => .ok m
    | some replacement =>
      if m ∈ path then .error (.circularReplacement (path.dropWhile (· ≠ m) ++ [m]))
      else resolveReplacementMetadataSource replacements n (path ++ [m]) replacement

/-! ## compileModule -/

/-- The maps `compileModule` fills in. -/
structure Compilation where
  compiled : OrderedMap ModuleType CompiledModule
  ordered : List CompiledModule

namespace Program

variable (P : Program) (replacements : OrderedMap ModuleType ModuleType)

def definitionOf (m : ModuleType) : Except GraphError ModuleDefinition := do
  let metadataSource ← resolveReplacementMetadataSource replacements (replacements.keys.length + 1) [] m
  P.normalizeModuleDefinition (P.modules.get metadataSource)

def compiledModule (m : ModuleType) (definition : ModuleDefinition) : CompiledModule where
  type := m
  definition := definition
  accessibleTokens := OrderedMap.empty
  exportedTokens := OrderedMap.empty
  importedExportedTokens := OrderedMap.empty
  providerTokens := OrderedSet.ofList (definition.providers.map P.providerToken)

/-- `fuel` bounds the depth: a module on the path has metadata or a
replacement, and is there once. -/
def compileModule : Nat → List ModuleType → Compilation → ModuleType → Except GraphError Compilation
  | 0, _, _, m => .error (.circularImport m)
  | n + 1, visiting, st, m =>
    if st.compiled.has m then .ok st
    else if m ∈ visiting then .error (.circularImport m)
    else do
      let definition ← P.definitionOf replacements m
      let st ← definition.imports.foldlM (compileModule n (m :: visiting)) st
      let compiledModule := P.compiledModule m definition
      .ok ⟨st.compiled.set m compiledModule, st.ordered ++ [compiledModule]⟩

def candidates : List ModuleType := P.modules.keys ++ replacements.keys

end Program

/-! ## validateCompiledModules -/

abbrev CompiledByType := OrderedMap ModuleType CompiledModule

def resolveImportedModules (m : CompiledModule) (compiledByType : CompiledByType) :
    Except GraphError (List CompiledModule) :=
  m.definition.imports.mapM fun imported =>
    match compiledByType.get imported with
    | none => .error (.importNotCompiled imported)
    | some importedModule => .ok importedModule

def createImportedExportedTokenSet (importedModules : List CompiledModule) : OrderedSet Token :=
  OrderedSet.ofList (importedModules.flatMap fun m => m.exportedTokens.keys)

def createAccessibleTokenSet (runtimeProviderTokens moduleProviderTokens importedExportedTokens
    globalExportedTokens : OrderedSet Token) : OrderedSet Token :=
  OrderedSet.ofList (runtimeProviderTokens.keys ++ moduleProviderTokens.keys ++
    importedExportedTokens.keys ++ globalExportedTokens.keys)

def memoizeAccessibleTokenSet (m : CompiledModule) (importedModules : List CompiledModule)
    (runtimeProviderTokens globalExportedTokens : OrderedSet Token) : CompiledModule :=
  let importedExportedTokens := createImportedExportedTokenSet importedModules
  { m with
    importedExportedTokens
    accessibleTokens := createAccessibleTokenSet runtimeProviderTokens m.providerTokens
      importedExportedTokens globalExportedTokens }

namespace Program

variable (P : Program)

/-- The loop over the dependencies of one provider or controller. -/
def validateDependencies (invisible : Token → GraphError)
    (accessibleTokens registeredTokens : OrderedSet Token) :
    List InjectionToken → Except GraphError Unit
  | [] => .ok ()
  | rawToken :: rest =>
    let token := P.resolveInjectionToken rawToken
    if rawToken.isOptional && !accessibleTokens.has token && !registeredTokens.has token then
      validateDependencies invisible accessibleTokens registeredTokens rest
    else if !accessibleTokens.has token then .error (invisible token)
    else validateDependencies invisible accessibleTokens registeredTokens rest

def validateProviderVisibility (m : CompiledModule) (accessibleTokens registeredTokens : OrderedSet Token) :
    Except GraphError Unit :=
  m.definition.providers.forM fun provider => do
    P.validateProviderInjectionMetadata provider (.moduleScope m.type)
    P.validateDependencies (.providerVisibility m.type (P.providerToken provider)) accessibleTokens
      registeredTokens (P.providerDependencies provider)

def validateControllerVisibility (m : CompiledModule)
    (accessibleTokens registeredTokens : OrderedSet Token) : Except GraphError Unit :=
  m.definition.controllers.forM fun controller => do
    P.validateControllerInjectionMetadata controller (.moduleScope m.type)
    P.validateDependencies (.controllerVisibility m.type controller) accessibleTokens
      registeredTokens (P.controllerDependencies controller)

end Program

/-- The loop of `createExportedTokenSet`. -/
def addExports (m : CompiledModule) (importedExportedTokens : OrderedSet Token) :
    List Token → OrderedSet Token → Except GraphError (OrderedSet Token)
  | [], exportedTokens => .ok exportedTokens
  | token :: rest, exportedTokens =>
    if !m.providerTokens.has token && !importedExportedTokens.has token then
      .error (.exportVisibility m.type token)
    else addExports m importedExportedTokens rest (exportedTokens.set token ())

def createExportedTokenSet (m : CompiledModule) (importedExportedTokens : OrderedSet Token) :
    Except GraphError (OrderedSet Token) :=
  addExports m importedExportedTokens m.definition.exports OrderedMap.empty

namespace Program

variable (P : Program)

/-- One turn of the last loop: the module with its token sets filled in. -/
def validateModule (runtimeProviderTokens globalExportedTokens registeredTokens : OrderedSet Token)
    (compiledByType : CompiledByType) (m : CompiledModule) : Except GraphError CompiledModule := do
  let importedModules ← resolveImportedModules m compiledByType
  let m := memoizeAccessibleTokenSet m importedModules runtimeProviderTokens globalExportedTokens
  P.validateProviderVisibility m m.accessibleTokens registeredTokens
  P.validateControllerVisibility m m.accessibleTokens registeredTokens
  let exportedTokens ← createExportedTokenSet m m.importedExportedTokens
  .ok { m with exportedTokens }

/-- `compiledByType` holds the module objects, so it is what the loop writes. -/
def validateModules (runtimeProviderTokens globalExportedTokens registeredTokens : OrderedSet Token) :
    List CompiledModule → CompiledByType → Except GraphError CompiledByType
  | [], compiledByType => .ok compiledByType
  | m :: rest, compiledByType => do
    let m ← P.validateModule runtimeProviderTokens globalExportedTokens registeredTokens compiledByType m
    validateModules runtimeProviderTokens globalExportedTokens registeredTokens rest
      (compiledByType.set m.type m)

def globalExportedTokens (modules : List CompiledModule) : OrderedSet Token :=
  OrderedSet.ofList (modules.flatMap fun m => if m.definition.global then m.definition.exports else [])

def registeredTokens (runtimeProviderTokens : OrderedSet Token) (modules : List CompiledModule) :
    OrderedSet Token :=
  OrderedSet.ofList (runtimeProviderTokens.keys ++ modules.flatMap fun m => m.providerTokens.keys)

def validateCompiledModules (modules : List CompiledModule) (runtimeProviders : List Provider)
    (runtimeProviderTokens : OrderedSet Token) : Except GraphError (List CompiledModule) := do
  let compiledByType := modules.foldl (fun byType m => byType.set m.type m) OrderedMap.empty
  runtimeProviders.forM fun provider => P.validateProviderInjectionMetadata provider .bootstrapRuntime
  let validated ← P.validateModules runtimeProviderTokens (globalExportedTokens modules)
    (registeredTokens runtimeProviderTokens modules) modules compiledByType
  .ok validated.values

def compileModuleGraph (rootModule : ModuleType) (options : BootstrapModuleOptions) :
    Except GraphError (List CompiledModule) := do
  P.validateProviderInputs options.providers
  let runtimeProviderTokens := P.mergeRuntimeTokenSets options.providers options.validationTokens
  let st ← P.compileModule options.moduleReplacements
    ((P.candidates options.moduleReplacements).length + 2) [] ⟨OrderedMap.empty, []⟩ rootModule
  P.validateCompiledModules st.ordered options.providers runtimeProviderTokens

end Program

end Fluo.Runtime
