import Fluo.Runtime.ModuleGraphCorrect

/-!
# The rules of a module graph

The rules are stated on the declarations alone, as relations: what a module is
compiled as, what a declaration provides and injects, and which token is meant.
The compiler accepts exactly the graphs that follow them.
-/

namespace Fluo.Runtime

open Fluo.Di Fluo.Search

/-! ## Tokens and entries -/

/-- The token that is meant by one: the identity of a framework service for its
class, and any other token for itself. -/
inductive Means (world : World) : Token → Token → Prop
  | service {c identity} : world.services.lookup c = some identity → Means world (.cls c) (.sym identity)
  | plainClass {c} : world.services.lookup c = none → Means world (.cls c) (.cls c)
  | symbol {id} : Means world (.sym id) (.sym id)
  | string {name} : Means world (.str name) (.str name)

inductive AsksFor (world : World) : InjectionToken → Token → Prop
  | token {t t'} : Means world t t' → AsksFor world (.token t) t'
  | forwardRef {t t'} : Means world t t' → AsksFor world (.forwardRef t) t'
  | optional {t t'} : Means world t t' → AsksFor world (.optional t) t'

/-- The injection entries of a class: those of its metadata, if it has any. -/
inductive ClassInjects (world : World) (c : Nat) : List InjectionToken → Prop
  | decorated {metadata inject} : world.classes.lookup c = some metadata → metadata.inject = some inject →
      ClassInjects world c inject
  | plain : (∀ metadata, world.classes.lookup c = some metadata → metadata.inject = none) → ClassInjects world c []

/-- The injection entries of a provider: its own, those of its class, or the
target of an alias. -/
inductive Injects (world : World) : Provider → List InjectionToken → Prop
  | classType {c inject} : ClassInjects world c inject → Injects world (.classType c) inject
  | factory {provide f inject scope resolverClass multi} :
      Injects world (.factoryProvider provide f inject scope resolverClass multi) inject
  | configured {provide c inject scope multi} : Injects world (.classProvider provide c (some inject) scope multi) inject
  | implementation {provide c inject scope multi} : ClassInjects world c inject →
      Injects world (.classProvider provide c none scope multi) inject
  | existing {provide target} : Injects world (.existingProvider provide target) [.token target]
  | value {provide v multi} : Injects world (.valueProvider provide v multi) []

inductive Provides (world : World) : Provider → Token → Prop
  | classType {c t} : Means world (.cls c) t → Provides world (.classType c) t
  | factory {provide f inject scope resolverClass multi t} : Means world provide t →
      Provides world (.factoryProvider provide f inject scope resolverClass multi) t
  | classProvider {provide c inject scope multi t} : Means world provide t →
      Provides world (.classProvider provide c inject scope multi) t
  | existing {provide target t} : Means world provide t → Provides world (.existingProvider provide target) t
  | value {provide v multi t} : Means world provide t → Provides world (.valueProvider provide v multi) t

theorem means_iff {world : World} {t t' : Token} : Means world t t' ↔ world.normalizeFrameworkServiceToken t = t' := by
  constructor
  · intro h
    cases h with
    | service found => simp only [World.normalizeFrameworkServiceToken, found]
    | plainClass absent => simp only [World.normalizeFrameworkServiceToken, absent]
    | symbol | string => rfl
  · rintro rfl
    cases t with
    | str name => exact .string
    | sym id => exact .symbol
    | cls c =>
      cases found : world.services.lookup c with
      | some identity =>
        simp only [World.normalizeFrameworkServiceToken, found]
        exact .service found
      | none =>
        simp only [World.normalizeFrameworkServiceToken, found]
        exact .plainClass found

namespace Program

variable {P : Program} {options : BootstrapModuleOptions}

theorem asksFor_iff {d : InjectionToken} {t : Token} : AsksFor P.world d t ↔ P.resolveInjectionToken d = t := by
  constructor
  · intro h
    cases h with
    | token means | forwardRef means | optional means => exact means_iff.mp means
  · intro h
    cases d with
    | token => exact .token (means_iff.mpr h)
    | forwardRef => exact .forwardRef (means_iff.mpr h)
    | optional => exact .optional (means_iff.mpr h)

theorem classInjects_iff {c : Nat} {inject : List InjectionToken} :
    ClassInjects P.world c inject ↔ P.classInject c = inject := by
  constructor
  · intro h
    cases h with
    | decorated found entries => simp only [classInject, World.getClassDiMetadata, found, Option.bind_some, entries, Option.getD_some]
    | plain none =>
      cases found : P.world.classes.lookup c with
      | none => simp only [classInject, World.getClassDiMetadata, found, Option.bind_none, Option.getD_none]
      | some metadata =>
        simp only [classInject, World.getClassDiMetadata, found, Option.bind_some, none metadata found, Option.getD_none]
  · rintro rfl
    cases found : P.world.classes.lookup c with
    | none =>
      simp only [classInject, World.getClassDiMetadata, found, Option.bind_none, Option.getD_none]
      exact .plain fun metadata has => by rw [found] at has; cases has
    | some metadata =>
      cases entries : metadata.inject with
      | none =>
        simp only [classInject, World.getClassDiMetadata, found, Option.bind_some, entries, Option.getD_none]
        refine .plain fun metadata' has => ?_
        rw [found] at has
        cases has
        exact entries
      | some inject =>
        simp only [classInject, World.getClassDiMetadata, found, Option.bind_some, entries, Option.getD_some]
        exact .decorated found entries

theorem injects_iff {p : Provider} {inject : List InjectionToken} :
    Injects P.world p inject ↔ p ≠ .malformed ∧ P.providerDependencies p = inject := by
  constructor
  · intro h
    cases h with
    | classType entries => exact ⟨nofun, classInjects_iff.mp entries⟩
    | implementation entries => exact ⟨nofun, classInjects_iff.mp entries⟩
    | factory | configured | existing | value => exact ⟨nofun, rfl⟩
  · rintro ⟨formed, rfl⟩
    cases p with
    | classType c => exact .classType (classInjects_iff.mpr rfl)
    | valueProvider => exact .value
    | factoryProvider => exact .factory
    | classProvider provide c inject =>
      cases inject with
      | none => exact .implementation (classInjects_iff.mpr rfl)
      | some inject => exact .configured
    | existingProvider => exact .existing
    | malformed => exact absurd rfl formed

theorem provides_iff {p : Provider} {t : Token} : Provides P.world p t ↔ p ≠ .malformed ∧ P.providerToken p = t := by
  constructor
  · intro h
    cases h with
    | classType means | factory means | classProvider means | existing means | value means =>
      exact ⟨nofun, means_iff.mp means⟩
  · rintro ⟨formed, rfl⟩
    cases p with
    | classType => exact .classType (means_iff.mpr rfl)
    | valueProvider => exact .value (means_iff.mpr rfl)
    | factoryProvider => exact .factory (means_iff.mpr rfl)
    | classProvider => exact .classProvider (means_iff.mpr rfl)
    | existingProvider => exact .existing (means_iff.mpr rfl)
    | malformed => exact absurd rfl formed

/-! ## The rules -/

section Rules

variable (P : Program) (options : BootstrapModuleOptions)

/-- The module that another one is compiled as is the end of its replacements. -/
def CompiledAs (m source : ModuleType) : Prop :=
  Relation.ReflTransGen (fun x y => options.moduleReplacements.get x = some y) m source ∧
    options.moduleReplacements.get source = none

def Declares (m : ModuleType) (raw : ModuleMetadata) : Prop :=
  ∃ source, CompiledAs options m source ∧ P.modules.get source = some raw

def Imports (m i : ModuleType) : Prop := ∃ raw l, P.Declares options m raw ∧ raw.imports = some l ∧ i ∈ l

def HasProvider (m : ModuleType) (p : Provider) : Prop := ∃ raw l, P.Declares options m raw ∧ raw.providers = some l ∧ p ∈ l

def HasController (m : ModuleType) (c : Nat) : Prop := ∃ raw l, P.Declares options m raw ∧ raw.controllers = some l ∧ c ∈ l

def Exports (m : ModuleType) (t : Token) : Prop :=
  ∃ raw l t₀, P.Declares options m raw ∧ raw.exports = some l ∧ t₀ ∈ l ∧ Means P.world t₀ t

def IsGlobal (m : ModuleType) : Prop := ∃ raw, P.Declares options m raw ∧ raw.global = some true

def Reaches (root m : ModuleType) : Prop := Relation.ReflTransGen (P.Imports options) root m

def ImportsFirst (l : List ModuleType) : Prop := ∀ before m after, l = before ++ m :: after → ∀ i, P.Imports options m i → i ∈ before

/-- A token of a runtime provider, or a validation token. -/
def AtRuntime (t : Token) : Prop :=
  (∃ p ∈ options.providers, Provides P.world p t) ∨ ∃ t₀ ∈ options.validationTokens, Means P.world t₀ t

def IsLocal (m : ModuleType) (t : Token) : Prop := ∃ p, P.HasProvider options m p ∧ Provides P.world p t

/-- A provider or a controller of the module has this injection entry. -/
def Needs (m : ModuleType) (d : InjectionToken) : Prop :=
  (∃ p inject, P.HasProvider options m p ∧ Injects P.world p inject ∧ d ∈ inject) ∨
    ∃ c inject, P.HasController options m c ∧ ClassInjects P.world c inject ∧ d ∈ inject

def IsRegistered (root : ModuleType) (t : Token) : Prop :=
  P.AtRuntime options t ∨ ∃ m, P.Reaches options root m ∧ P.IsLocal options m t

/-- A token that the module needs: what an entry asks for, if that is not optional
or if it is registered somewhere. -/
def Requires (root m : ModuleType) (t : Token) : Prop :=
  ∃ d, P.Needs options m d ∧ AsksFor P.world d t ∧ ∀ t₀, d = .optional t₀ → P.IsRegistered options root t

def IsVisible (root m : ModuleType) (t : Token) : Prop :=
  P.IsLocal options m t ∨ (∃ i, P.Imports options m i ∧ P.Exports options i t) ∨
    (∃ g, P.Reaches options root g ∧ P.IsGlobal options g ∧ P.Exports options g t) ∨ P.AtRuntime options t

/-- A provider's class has injection entries for the parameters of its constructor. -/
def Covers (p : Provider) : Prop :=
  ∀ c inject, (p = .classType c ∨ ∃ provide own scope multi, p = .classProvider provide c own scope multi) →
    Injects P.world p inject → P.ClassCovered c inject

structure Accepts (root : ModuleType) : Prop where
  acyclic : ∀ m, P.Reaches options root m → ¬ Relation.TransGen (P.Imports options) m m
  exports : ∀ m, P.Reaches options root m → ∀ t, P.Exports options m t →
    P.IsLocal options m t ∨ ∃ i, P.Imports options m i ∧ P.Exports options i t
  visible : ∀ m, P.Reaches options root m → ∀ t, P.Requires options root m t → P.IsVisible options root m t
  covered : (∀ p ∈ options.providers, P.Covers p) ∧
    ∀ m, P.Reaches options root m → (∀ p, P.HasProvider options m p → P.Covers p) ∧
      ∀ c, P.HasController options m c → ∀ inject, ClassInjects P.world c inject → P.ClassCovered c inject
  wellFormed : (∀ p ∈ options.providers, p ≠ .malformed) ∧
    ∀ m, P.Reaches options root m → ∀ p, P.HasProvider options m p → p ≠ .malformed

end Rules

/-! ## What the compiler reads -/

theorem compiledAs_iff (hr : ReplacementsAcyclic options.moduleReplacements) {m source : ModuleType} :
    CompiledAs options m source ↔ metadataSource options.moduleReplacements m = source := by
  obtain ⟨-, chain, last⟩ := metadataSource_spec hr m
  refine ⟨fun h => ?_, fun h => h ▸ ⟨chain, last⟩⟩
  obtain ⟨chain', last'⟩ := h
  have unique {x y z : ModuleType} (toY : Relation.ReflTransGen (fun x y => options.moduleReplacements.get x = some y) x y)
      (toZ : Relation.ReflTransGen (fun x y => options.moduleReplacements.get x = some y) x z)
      (endY : options.moduleReplacements.get y = none) (endZ : options.moduleReplacements.get z = none) : y = z := by
    induction toY using Relation.ReflTransGen.head_induction_on with
    | refl =>
      rcases Relation.ReflTransGen.cases_head toZ with same | ⟨w, step, -⟩
      · exact same
      · rw [endY] at step
        cases step
    | head step _ ih =>
      rcases Relation.ReflTransGen.cases_head toZ with rfl | ⟨w, step', rest⟩
      · rw [endZ] at step
        cases step
      · rw [step] at step'
        cases step'
        exact ih rest
  exact unique chain chain' last last'

theorem declares_iff (hr : ReplacementsAcyclic options.moduleReplacements) {m : ModuleType} {raw : ModuleMetadata} :
    P.Declares options m raw ↔ P.modules.get (metadataSource options.moduleReplacements m) = some raw := by
  simp only [Declares, compiledAs_iff hr, exists_eq_left']

/-- A field of the declaration is the one of the definition, empty where it is missing. -/
theorem declared_iff {α : Type} (hr : ReplacementsAcyclic options.moduleReplacements) {m : ModuleType}
    (field : ModuleMetadata → Option (List α)) {a : α} :
    (∃ raw l, P.Declares options m raw ∧ field raw = some l ∧ a ∈ l) ↔
      a ∈ ((P.modules.get (metadataSource options.moduleReplacements m)).bind field).getD [] := by
  simp only [declares_iff hr]
  cases P.modules.get (metadataSource options.moduleReplacements m) with
  | none => simp
  | some raw =>
    cases has : field raw with
    | none => simp [has]
    | some l => simp [has]

theorem imports_iff (hr : ReplacementsAcyclic options.moduleReplacements) {m i : ModuleType} :
    P.Imports options m i ↔ i ∈ P.imports options m := declared_iff hr (·.imports)

theorem hasProvider_iff (hr : ReplacementsAcyclic options.moduleReplacements) {m : ModuleType} {p : Provider} :
    P.HasProvider options m p ↔ p ∈ (P.definition options m).providers := declared_iff hr (·.providers)

theorem hasController_iff (hr : ReplacementsAcyclic options.moduleReplacements) {m : ModuleType} {c : Nat} :
    P.HasController options m c ↔ c ∈ (P.definition options m).controllers := declared_iff hr (·.controllers)

theorem exports_iff (hr : ReplacementsAcyclic options.moduleReplacements) {m : ModuleType} {t : Token} :
    P.Exports options m t ↔ t ∈ (P.definition options m).exports := by
  change _ ↔ t ∈ List.map _ _
  rw [List.mem_map]
  constructor
  · rintro ⟨raw, l, t₀, declares, has, mem, means⟩
    exact ⟨t₀, (declared_iff hr (·.exports)).mp ⟨raw, l, declares, has, mem⟩, means_iff.mp means⟩
  · rintro ⟨t₀, mem, means⟩
    obtain ⟨raw, l, declares, has, mem⟩ := (declared_iff hr (·.exports)).mpr mem
    exact ⟨raw, l, t₀, declares, has, mem, means_iff.mpr means⟩

theorem isGlobal_iff (hr : ReplacementsAcyclic options.moduleReplacements) {m : ModuleType} :
    P.IsGlobal options m ↔ (P.definition options m).global = true := by
  simp only [IsGlobal, declares_iff hr, Program.definition, declared]
  cases P.modules.get (metadataSource options.moduleReplacements m) with
  | none => simp
  | some raw => simp [Option.getD_eq_iff]

theorem reaches_iff (hr : ReplacementsAcyclic options.moduleReplacements) {root m : ModuleType} :
    P.Reaches options root m ↔ P.Reachable options root m := by
  have same : P.Imports options = fun x y => y ∈ P.imports options x := by
    funext x y
    exact propext (imports_iff hr)
  rw [Reaches, same]
  rfl

theorem needs_iff (hr : ReplacementsAcyclic options.moduleReplacements) {m : ModuleType} {d : InjectionToken} :
    P.Needs options m d ↔ d ∈ P.dependencies options m := by
  simp only [Needs, dependencies, List.mem_append, List.mem_flatMap, hasProvider_iff hr, hasController_iff hr, injects_iff,
    classInjects_iff, controllerDependencies]
  constructor
  · rintro (⟨p, inject, mem, ⟨-, rfl⟩, has⟩ | ⟨c, inject, mem, rfl, has⟩)
    · exact .inl ⟨p, mem, has⟩
    · exact .inr ⟨c, mem, has⟩
  · rintro (⟨p, mem, has⟩ | ⟨c, mem, has⟩)
    · refine .inl ⟨p, _, mem, ⟨?_, rfl⟩, has⟩
      rintro rfl
      cases has
    · exact .inr ⟨c, _, mem, rfl, has⟩

theorem covers_iff {p : Provider} : P.Covers p ↔ P.ProviderCovered p := by
  constructor
  · intro h
    cases p with
    | classType c => exact h c _ (.inl rfl) (injects_iff.mpr ⟨nofun, rfl⟩)
    | classProvider provide c inject scope multi =>
      exact h c _ (.inr ⟨provide, inject, scope, multi, rfl⟩) (injects_iff.mpr ⟨nofun, rfl⟩)
    | valueProvider | factoryProvider | existingProvider | malformed => trivial
  · rintro covered c inject (rfl | ⟨provide, own, scope, multi, rfl⟩) injects
    · rw [← (injects_iff.mp injects).2]
      exact covered
    · rw [← (injects_iff.mp injects).2]
      exact covered

/-- No declaration of the graph is malformed, so each provides a token. -/
def Formed (P : Program) (options : BootstrapModuleOptions) (root : ModuleType) : Prop :=
  (∀ p ∈ options.providers, p ≠ .malformed) ∧
    ∀ m, P.Reachable options root m → ∀ p ∈ (P.definition options m).providers, p ≠ .malformed

theorem provided_iff {l : List Provider} (formed : ∀ p ∈ l, p ≠ .malformed) {t : Token} :
    (∃ p ∈ l, Provides P.world p t) ↔ t ∈ l.map P.providerToken := by
  simp only [List.mem_map, provides_iff]
  constructor
  · rintro ⟨p, mem, -, rfl⟩
    exact ⟨p, mem, rfl⟩
  · rintro ⟨p, mem, rfl⟩
    exact ⟨p, mem, formed p mem, rfl⟩

variable {root : ModuleType}

theorem Formed.atRuntime (formed : Formed P options root) {t : Token} :
    P.AtRuntime options t ↔ t ∈ P.runtimeTokens options := by
  rw [AtRuntime, provided_iff formed.1, runtimeTokens, List.mem_append]
  simp only [means_iff, List.mem_map]

theorem Formed.isLocal (formed : Formed P options root) (hr : ReplacementsAcyclic options.moduleReplacements)
    {m : ModuleType} (reachable : P.Reachable options root m) {t : Token} :
    P.IsLocal options m t ↔ t ∈ P.providedTokens options m := by
  simp only [IsLocal, hasProvider_iff hr]
  exact provided_iff (formed.2 m reachable)

theorem Formed.isRegistered (formed : Formed P options root) (hr : ReplacementsAcyclic options.moduleReplacements)
    {t : Token} : P.IsRegistered options root t ↔ P.Registered options root t := by
  rw [IsRegistered, Registered, formed.atRuntime]
  refine or_congr_right ⟨?_, ?_⟩
  · rintro ⟨m, reaches, provided⟩
    have reachable := (reaches_iff hr).mp reaches
    exact ⟨m, reachable, (formed.isLocal hr reachable).mp provided⟩
  · rintro ⟨m, reachable, provided⟩
    exact ⟨m, (reaches_iff hr).mpr reachable, (formed.isLocal hr reachable).mpr provided⟩

theorem Formed.isVisible (formed : Formed P options root) (hr : ReplacementsAcyclic options.moduleReplacements)
    {m : ModuleType} (reachable : P.Reachable options root m) {t : Token} :
    P.IsVisible options root m t ↔ P.Visible options root m t := by
  simp only [IsVisible, Visible, formed.isLocal hr reachable, imports_iff hr, exports_iff hr, reaches_iff hr,
    isGlobal_iff hr, formed.atRuntime]

/-- A token that the module needs is what one of its entries is resolved to. -/
theorem Formed.requires (formed : Formed P options root) (hr : ReplacementsAcyclic options.moduleReplacements)
    {m : ModuleType} {t : Token} : P.Requires options root m t ↔
      ∃ d ∈ P.dependencies options m, P.Required options root d ∧ P.resolveInjectionToken d = t := by
  constructor
  · rintro ⟨d, needs, asks, optional⟩
    obtain rfl := asksFor_iff.mp asks
    refine ⟨d, (needs_iff hr).mp needs, fun isOptional => ?_, rfl⟩
    cases d with
    | token | forwardRef => cases isOptional
    | optional t₀ => exact (formed.isRegistered hr).mp (optional t₀ rfl)
  · rintro ⟨d, needs, optional, rfl⟩
    refine ⟨d, (needs_iff hr).mpr needs, asksFor_iff.mpr rfl, ?_⟩
    rintro t₀ rfl
    exact (formed.isRegistered hr).mpr (optional rfl)

theorem accepts_iff (hr : ReplacementsAcyclic options.moduleReplacements) :
    P.Accepts options root ↔ P.Checked options root := by
  have relation : P.Imports options = fun x y => y ∈ P.imports options x := by
    funext x y
    exact propext (imports_iff hr)
  constructor
  · intro h
    have formed : Formed P options root :=
      ⟨h.wellFormed.1, fun m reachable p mem => h.wellFormed.2 m ((reaches_iff hr).mpr reachable) p ((hasProvider_iff hr).mpr mem)⟩
    refine ⟨fun m reachable => ?_, fun m reachable t mem => ?_, fun m reachable d mem required => ?_,
      ⟨fun p mem => covers_iff.mp (h.covered.1 p mem), fun m reachable => ⟨fun p mem => ?_, fun c mem => ?_⟩⟩, formed⟩
    · rw [← relation]
      exact h.acyclic m ((reaches_iff hr).mpr reachable)
    · rw [← formed.isLocal hr reachable]
      simp only [← imports_iff hr, ← exports_iff hr]
      exact h.exports m ((reaches_iff hr).mpr reachable) t ((exports_iff hr).mpr mem)
    · exact (formed.isVisible hr reachable).mp
        (h.visible m ((reaches_iff hr).mpr reachable) _ ((formed.requires hr).mpr ⟨d, mem, required, rfl⟩))
    · exact covers_iff.mp ((h.covered.2 m ((reaches_iff hr).mpr reachable)).1 p ((hasProvider_iff hr).mpr mem))
    · exact (h.covered.2 m ((reaches_iff hr).mpr reachable)).2 c ((hasController_iff hr).mpr mem) _
        (classInjects_iff.mpr rfl)
  · intro h
    have formed : Formed P options root := h.wellFormed
    refine ⟨fun m reaches => ?_, fun m reaches t exported => ?_, fun m reaches t requires => ?_,
      ⟨fun p mem => covers_iff.mpr (h.covered.1 p mem), fun m reaches => ⟨fun p has => ?_, fun c has inject injects => ?_⟩⟩,
      ⟨h.wellFormed.1, fun m reaches p has => h.wellFormed.2 m ((reaches_iff hr).mp reaches) p ((hasProvider_iff hr).mp has)⟩⟩
    · rw [relation]
      exact h.acyclic m ((reaches_iff hr).mp reaches)
    · rw [formed.isLocal hr ((reaches_iff hr).mp reaches)]
      simp only [imports_iff hr, exports_iff hr]
      exact h.exports m ((reaches_iff hr).mp reaches) t ((exports_iff hr).mp exported)
    · obtain ⟨d, mem, required, rfl⟩ := (formed.requires hr).mp requires
      exact (formed.isVisible hr ((reaches_iff hr).mp reaches)).mpr (h.visible m ((reaches_iff hr).mp reaches) d mem required)
    · exact covers_iff.mpr ((h.covered.2 m ((reaches_iff hr).mp reaches)).1 p ((hasProvider_iff hr).mp has))
    · rw [← classInjects_iff.mp injects]
      exact (h.covered.2 m ((reaches_iff hr).mp reaches)).2 c ((hasController_iff hr).mp has)

/-- The compiler accepts exactly the graphs that follow the rules. What it
returns are the reachable modules, each once and after its imports, and every
token that one of them needs is provided by one of them or by the runtime. -/
theorem compileModuleGraph_accepts (P : Program) (options : BootstrapModuleOptions)
    (hr : ReplacementsAcyclic options.moduleReplacements) (root : ModuleType) :
    ((∃ modules, P.compileModuleGraph root options = .ok modules) ↔ P.Accepts options root) ∧
      ∀ modules, P.compileModuleGraph root options = .ok modules →
        (types modules).Nodup ∧ (∀ m, m ∈ types modules ↔ P.Reaches options root m) ∧
        P.ImportsFirst options (types modules) ∧
        ∀ m ∈ types modules, ∀ t, P.Requires options root m t →
          (∃ g ∈ modules, ∃ p ∈ g.definition.providers, Provides P.world p t) ∨ P.AtRuntime options t := by
  obtain ⟨accepts, result⟩ := compileModuleGraph_checked P options hr root
  refine ⟨accepts.trans (accepts_iff hr).symm, fun modules compiled => ?_⟩
  have checked := accepts.mp ⟨modules, compiled⟩
  have formed : Formed P options root := checked.wellFormed
  obtain ⟨nodup, reachable, first, definitions, provided⟩ := result modules compiled
  refine ⟨nodup, fun m => (reachable m).trans (reaches_iff hr).symm, ?_, fun m mem t requires => ?_⟩
  · intro before m after split i imported
    exact first before m after split i ((imports_iff hr).mp imported)
  · obtain ⟨d, needed, required, rfl⟩ := (formed.requires hr).mp requires
    rcases provided m mem d needed required with ⟨g, listed, own⟩ | atRuntime
    · obtain ⟨c, hc, rfl⟩ := List.mem_map.mp listed
      obtain ⟨p, declared, provides⟩ := (provided_iff (formed.2 c.type ((reachable _).mp listed))).mpr own
      exact .inl ⟨c, hc, p, (definitions c hc).symm ▸ declared, provides⟩
    · exact .inr (formed.atRuntime.mpr atRuntime)

/-- Module 0 injects `"T"`, which its import 1, compiled as module 2, provides. -/
def replacedImport : Program where
  world := default
  ownInject _ := false
  length _ := 1
  modules := ⟨[(0, ⟨none, some [1], some [.classProvider (.str "app") 7 (some [.token (.str "T")]) none false],
      none, none⟩),
    (2, ⟨none, none, some [.valueProvider (.str "T") 0 false], none, some [.str "T"]⟩)], by decide⟩

def replacedImportOptions : BootstrapModuleOptions := ⟨[], [], ⟨[(1, 2)], by decide⟩⟩

theorem replacedImport_acyclic : ReplacementsAcyclic replacedImportOptions.moduleReplacements := by
  have up : ∀ x y, Relation.TransGen
      (fun x y => replacedImportOptions.moduleReplacements.get x = some y) x y → x < y := by
    have edge : ∀ x y, replacedImportOptions.moduleReplacements.get x = some y → x < y := by
      intro x y h
      have := OrderedMap.mem_entries.mpr h
      obtain ⟨rfl, rfl⟩ : x = 1 ∧ y = 2 := by simpa [replacedImportOptions] using this
      exact Nat.lt_succ_self 1
    intro x y h
    induction h with
    | single h => exact edge _ _ h
    | tail _ h ih => exact Nat.lt_trans ih (edge _ _ h)
  exact fun m h => Nat.lt_irrefl m (up m m h)

theorem replacedImport_accepted :
    replacedImport.Accepts replacedImportOptions 0 ∧
      (replacedImport.compileModuleGraph 0 replacedImportOptions).toOption.map types = some [1, 0] :=
  ⟨(compileModuleGraph_accepts replacedImport replacedImportOptions replacedImport_acyclic 0).1.mp ⟨_, rfl⟩,
    rfl⟩

end Program

end Fluo.Runtime
