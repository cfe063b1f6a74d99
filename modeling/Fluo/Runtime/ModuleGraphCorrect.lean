import Mathlib.Data.List.Induction
import Fluo.Lib.Checks
import Fluo.Lib.PostOrder
import Fluo.Runtime.ModuleGraph

/-!
# What the module compiler checks

The conditions that the compiler checks, with the tokens it reads off the
declarations (`Checked`); it is shown to accept exactly the graphs that meet them.
-/

namespace Fluo.Runtime

open Fluo.Di Fluo.Search

/-! ## Replacements -/

def ReplacementsAcyclic (replacements : OrderedMap ModuleType ModuleType) : Prop :=
  ∀ m, ¬ Relation.TransGen (fun x y => replacements.get x = some y) m m

/-- The module whose metadata another one is compiled with. -/
def metadataSource (replacements : OrderedMap ModuleType ModuleType) (m : ModuleType) : ModuleType :=
  match resolveReplacementMetadataSource replacements (replacements.keys.length + 1) [] m with
  | .ok source => source
  | .error _ => m

theorem resolveReplacement_ok {replacements : OrderedMap ModuleType ModuleType}
    (hr : ReplacementsAcyclic replacements) (n : Nat) (path : List ModuleType) (m : ModuleType)
    (hpath : ∀ x ∈ path, Relation.TransGen (fun x y => replacements.get x = some y) x m)
    (hn : remaining replacements.keys path < n) :
    ∃ source, resolveReplacementMetadataSource replacements n path m = .ok source ∧
      Relation.ReflTransGen (fun x y => replacements.get x = some y) m source ∧
      replacements.get source = none := by
  induction n generalizing path m with
  | zero => omega
  | succ n ih =>
    unfold resolveReplacementMetadataSource
    cases hm : replacements.get m with
    | none => exact ⟨m, rfl, .refl, hm⟩
    | some replacement =>
      have fresh : m ∉ path := fun h => hr m (hpath m h)
      have key : m ∈ replacements.keys := OrderedMap.mem_keys.mpr (by simp [OrderedMap.has, hm])
      have lt := remaining_lt key fresh
      have eq : remaining replacements.keys (path ++ [m]) = remaining replacements.keys (m :: path) := by
        unfold remaining
        simp [or_comm]
      obtain ⟨source, h, hs, hend⟩ := ih (path ++ [m]) replacement
        (by
          intro x hx
          rcases List.mem_append.mp hx with hx | hx
          · exact (hpath x hx).tail hm
          · obtain rfl : x = m := by simpa using hx
            exact .single hm)
        (by omega)
      exact ⟨source, by simpa [fresh] using h, .head hm hs, hend⟩

theorem metadataSource_spec {replacements : OrderedMap ModuleType ModuleType}
    (hr : ReplacementsAcyclic replacements) (m : ModuleType) :
    resolveReplacementMetadataSource replacements (replacements.keys.length + 1) [] m =
        .ok (metadataSource replacements m) ∧
      Relation.ReflTransGen (fun x y => replacements.get x = some y) m (metadataSource replacements m) ∧
      replacements.get (metadataSource replacements m) = none := by
  have hn : remaining replacements.keys [] < replacements.keys.length + 1 :=
    Nat.lt_succ_of_le (remaining_le _ _)
  obtain ⟨source, h, hs⟩ := resolveReplacement_ok hr _ [] m (by simp) hn
  have e : metadataSource replacements m = source := by simp [metadataSource, h]
  rw [e]
  exact ⟨h, hs⟩

namespace Program

variable (P : Program)

/-! ## The rules -/

/-- A module's declarations, with the defaults for missing fields. -/
def declared (raw : Option ModuleMetadata) : ModuleDefinition where
  global := (raw.bind (·.global)).getD false
  imports := (raw.bind (·.imports)).getD []
  providers := (raw.bind (·.providers)).getD []
  controllers := (raw.bind (·.controllers)).getD []
  exports := ((raw.bind (·.exports)).getD []).map P.world.normalizeFrameworkServiceToken

section Rules

variable (options : BootstrapModuleOptions)

def definition (m : ModuleType) : ModuleDefinition :=
  P.declared (P.modules.get (metadataSource options.moduleReplacements m))

def imports (m : ModuleType) : List ModuleType := (P.definition options m).imports

def Reachable (root m : ModuleType) : Prop := Reach (P.imports options) root m

/-- Tokens of the runtime providers, and validation tokens. -/
def runtimeTokens : List Token :=
  options.providers.map P.providerToken ++ options.validationTokens.map P.world.normalizeFrameworkServiceToken

def providedTokens (m : ModuleType) : List Token :=
  (P.definition options m).providers.map P.providerToken

/-- What the providers and controllers of a module inject. -/
def dependencies (m : ModuleType) : List InjectionToken :=
  (P.definition options m).providers.flatMap P.providerDependencies ++
    (P.definition options m).controllers.flatMap P.controllerDependencies

def Registered (root : ModuleType) (t : Token) : Prop :=
  t ∈ P.runtimeTokens options ∨ ∃ m, P.Reachable options root m ∧ t ∈ P.providedTokens options m

/-- An optional token need be there only when it is registered somewhere. -/
def Required (root : ModuleType) (d : InjectionToken) : Prop :=
  d.isOptional = true → P.Registered options root (P.resolveInjectionToken d)

def Visible (root m : ModuleType) (t : Token) : Prop :=
  t ∈ P.providedTokens options m ∨ (∃ i ∈ P.imports options m, t ∈ (P.definition options i).exports) ∨
    (∃ g, P.Reachable options root g ∧ (P.definition options g).global = true ∧
      t ∈ (P.definition options g).exports) ∨
    t ∈ P.runtimeTokens options

/-- The constructor's parameters have injection tokens, or the class says
itself what it injects. -/
def ClassCovered (c : Nat) (inject : List InjectionToken) : Prop :=
  P.ownInject c = true ∨ P.length c ≤ inject.length

def ProviderCovered : Provider → Prop
  | .classType c => P.ClassCovered c (P.classInject c)
  | .classProvider _ c inject _ _ => P.ClassCovered c (inject.getD (P.classInject c))
  | _ => True

structure Checked (root : ModuleType) : Prop where
  acyclic : ∀ m, P.Reachable options root m →
    ¬ Relation.TransGen (fun x y => y ∈ P.imports options x) m m
  exports : ∀ m, P.Reachable options root m → ∀ t ∈ (P.definition options m).exports,
    t ∈ P.providedTokens options m ∨ ∃ i ∈ P.imports options m, t ∈ (P.definition options i).exports
  visible : ∀ m, P.Reachable options root m → ∀ d ∈ P.dependencies options m,
    P.Required options root d → P.Visible options root m (P.resolveInjectionToken d)
  covered : (∀ p ∈ options.providers, P.ProviderCovered p) ∧
    ∀ m, P.Reachable options root m → (∀ p ∈ (P.definition options m).providers, P.ProviderCovered p) ∧
      ∀ c ∈ (P.definition options m).controllers, P.ClassCovered c (P.classInject c)
  wellFormed : (∀ p ∈ options.providers, p ≠ .malformed) ∧
    ∀ m, P.Reachable options root m → ∀ p ∈ (P.definition options m).providers, p ≠ .malformed

end Rules

variable {P} {options : BootstrapModuleOptions}

/-! ## Definitions -/

theorem validateProviderInputs_ok {ps : List Provider} :
    P.validateProviderInputs ps = .ok () ↔ ∀ p ∈ ps, p ≠ .malformed := by
  induction ps with
  | nil => simp [validateProviderInputs]
  | cons p rest ih =>
    rw [List.forall_mem_cons, ← ih]
    cases p <;> simp [validateProviderInputs, World.normalizeProvider]

theorem definitionOf_ok (hr : ReplacementsAcyclic options.moduleReplacements) {m : ModuleType}
    {definition : ModuleDefinition} :
    P.definitionOf options.moduleReplacements m = .ok definition ↔
      definition = P.definition options m ∧ ∀ p ∈ (P.definition options m).providers, p ≠ .malformed := by
  unfold definitionOf
  rw [(metadataSource_spec hr m).1]
  change P.normalizeModuleDefinition (P.modules.get (metadataSource options.moduleReplacements m)) = _ ↔ _
  unfold Program.definition
  cases P.modules.get (metadataSource options.moduleReplacements m) with
  | none => simp [normalizeModuleDefinition, declared, eq_comm]
  | some raw =>
    simp only [normalizeModuleDefinition, declared, Option.bind_some]
    rw [bind_eq_ok, ← validateProviderInputs_ok (P := P)]
    constructor
    · rintro ⟨_, h, h'⟩
      exact ⟨(Except.ok.inj h').symm, h⟩
    · rintro ⟨rfl, h⟩
      exact ⟨(), h, rfl⟩

/-! ## compileModule -/

def types (modules : List CompiledModule) : List ModuleType := modules.map (·.type)

/-- A compilation under way: what is compiled is listed once, after its
imports, with its own definition. -/
structure Compiling (P : Program) (options : BootstrapModuleOptions) (st : Compilation) : Prop where
  nodup : (types st.ordered).Nodup
  listed : ∀ m, st.compiled.has m = true ↔ m ∈ types st.ordered
  definition : ∀ c ∈ st.ordered,
    P.definitionOf options.moduleReplacements c.type = .ok c.definition ∧
      c = P.compiledModule c.type c.definition
  first : SuccessorsFirst (P.imports options) (types st.ordered)

theorem compiling_initial : Compiling P options ⟨OrderedMap.empty, []⟩ where
  nodup := List.nodup_nil
  listed m := by simp [OrderedMap.has, types]
  definition c h := by cases h
  first := .nil

/-- What one call adds: modules reachable from `m` that are not being visited. -/
def Extends (P : Program) (options : BootstrapModuleOptions) (visiting : List ModuleType)
    (m : ModuleType) (st st' : Compilation) : Prop :=
  ∃ new, st'.ordered = st.ordered ++ new ∧
    ∀ c ∈ new, P.Reachable options m c.type ∧ c.type ∉ visiting

theorem Extends.refl {visiting : List ModuleType} {m : ModuleType} (st : Compilation) :
    Extends P options visiting m st st := ⟨[], by simp, by simp⟩

theorem Extends.trans {visiting : List ModuleType} {m : ModuleType} {st₁ st₂ st₃ : Compilation}
    (h : Extends P options visiting m st₁ st₂) (h' : Extends P options visiting m st₂ st₃) :
    Extends P options visiting m st₁ st₃ := by
  obtain ⟨new, e, hn⟩ := h
  obtain ⟨new', e', hn'⟩ := h'
  refine ⟨new ++ new', by rw [e', e, List.append_assoc], ?_⟩
  intro c hc
  rcases List.mem_append.mp hc with hc | hc
  · exact hn c hc
  · exact hn' c hc

theorem Extends.mem {visiting : List ModuleType} {m : ModuleType} {st st' : Compilation}
    (h : Extends P options visiting m st st') {t : ModuleType} (ht : t ∈ types st.ordered) :
    t ∈ types st'.ordered := by
  obtain ⟨new, e, -⟩ := h
  rw [e, types, List.map_append]
  exact List.mem_append_left _ ht

theorem compiledModule_step (hr : ReplacementsAcyclic options.moduleReplacements) {st : Compilation}
    (h : Compiling P options st) {m : ModuleType} {definition : ModuleDefinition}
    (hd : P.definitionOf options.moduleReplacements m = .ok definition)
    (himports : ∀ i ∈ definition.imports, i ∈ types st.ordered) (hm : m ∉ types st.ordered) :
    Compiling P options ⟨st.compiled.set m (P.compiledModule m definition),
      st.ordered ++ [P.compiledModule m definition]⟩ where
  nodup := by
    simp only [types, List.map_append, List.map_cons, List.map_nil]
    refine List.nodup_append.mpr ⟨h.nodup, List.nodup_singleton _, ?_⟩
    intro a ha b hb e
    simp only [List.mem_singleton] at hb
    subst hb
    exact hm (e ▸ ha)
  listed t := by
    simp only [types, List.map_append, List.map_cons, List.map_nil, List.mem_append, List.mem_singleton,
      OrderedMap.has_set, Bool.or_eq_true, decide_eq_true_eq, h.listed]
    exact or_comm
  definition c hc := by
    rcases List.mem_append.mp hc with hc | hc
    · exact h.definition c hc
    · obtain rfl : c = P.compiledModule m definition := by simpa using hc
      exact ⟨hd, rfl⟩
  first := by
    simp only [types, List.map_append, List.map_cons, List.map_nil]
    refine h.first.snoc ?_
    obtain ⟨rfl, -⟩ := (definitionOf_ok hr).mp hd
    exact himports

theorem compileModule_sound (hr : ReplacementsAcyclic options.moduleReplacements) (n : Nat)
    (visiting : List ModuleType) (st st' : Compilation) (m : ModuleType) (h : Compiling P options st)
    (hc : P.compileModule options.moduleReplacements n visiting st m = .ok st') :
    Compiling P options st' ∧ Extends P options visiting m st st' ∧ m ∈ types st'.ordered := by
  induction n generalizing visiting st st' m with
  | zero => cases hc
  | succ n ih =>
    unfold compileModule at hc
    split at hc
    · rename_i listed
      cases hc
      exact ⟨h, .refl st, (h.listed m).mp listed⟩
    · rename_i unlisted
      split at hc
      · cases hc
      rename_i hvis
      obtain ⟨definition, hd, hc⟩ := bind_eq_ok.mp hc
      obtain ⟨st₁, hfold, hc⟩ := bind_eq_ok.mp hc
      cases hc
      obtain ⟨hdef, -⟩ := (definitionOf_ok hr).mp hd
      -- the imports loop: each import is compiled and stays listed
      have loop : ∀ (l : List ModuleType) (s s' : Compilation), (∀ i ∈ l, i ∈ definition.imports) →
          Compiling P options s →
          l.foldlM (P.compileModule options.moduleReplacements n (m :: visiting)) s = .ok s' →
          Compiling P options s' ∧ Extends P options (m :: visiting) m s s' ∧
            ∀ i ∈ l, i ∈ types s'.ordered := by
        intro l
        induction l with
        | nil => intro s s' _ hs e; cases e; exact ⟨hs, .refl s, by simp⟩
        | cons i rest ihl =>
          intro s s' hsub hs e
          rw [List.foldlM_cons] at e
          obtain ⟨s₁, e₁, e⟩ := bind_eq_ok.mp e
          obtain ⟨hs₁, ⟨new, enew, hnew⟩, hi⟩ := ih (m :: visiting) s s₁ i hs e₁
          obtain ⟨hs', hext, hrest⟩ := ihl s₁ s' (fun j hj => hsub j (List.mem_cons_of_mem i hj)) hs₁ e
          have hmi : i ∈ P.imports options m := by
            simpa [imports, hdef] using hsub i List.mem_cons_self
          have hext₁ : Extends P options (m :: visiting) m s s₁ :=
            ⟨new, enew, fun c hc => ⟨.head hmi (hnew c hc).1, (hnew c hc).2⟩⟩
          refine ⟨hs', hext₁.trans hext, ?_⟩
          intro j hj
          rcases List.mem_cons.mp hj with rfl | hj
          · exact hext.mem hi
          · exact hrest j hj
      obtain ⟨h₁, ⟨new, enew, hnew⟩, himports⟩ := loop definition.imports st st₁ (fun _ hi => hi) h hfold
      have hm : m ∉ types st₁.ordered := by
        rw [enew, types, List.map_append, List.mem_append, not_or]
        refine ⟨fun hmem => unlisted ((h.listed m).mpr hmem), ?_⟩
        intro hmem
        obtain ⟨c, hc, e⟩ := List.mem_map.mp hmem
        exact (hnew c hc).2 (e ▸ List.mem_cons_self)
      refine ⟨compiledModule_step hr h₁ hd himports hm, ?_, by simp [types, compiledModule]⟩
      refine ⟨new ++ [P.compiledModule m definition], by rw [enew, List.append_assoc], ?_⟩
      intro c hc
      rcases List.mem_append.mp hc with hc | hc
      · exact ⟨(hnew c hc).1, fun hv => (hnew c hc).2 (List.mem_cons_of_mem m hv)⟩
      · obtain rfl : c = P.compiledModule m definition := by simpa using hc
        exact ⟨.refl, hvis⟩

/-- A module that is not listed in any map has no imports. -/
theorem imports_eq_nil {m : ModuleType}
    (hm : m ∉ P.candidates options.moduleReplacements) : P.imports options m = [] := by
  simp only [candidates, List.mem_append, OrderedMap.mem_keys, not_or, OrderedMap.has,
    Bool.not_eq_true, Option.isSome_eq_false_iff, Option.isNone_iff_eq_none] at hm
  have source : metadataSource options.moduleReplacements m = m := by
    simp [metadataSource, resolveReplacementMetadataSource, hm.2]
  simp [imports, Program.definition, source, hm.1, declared]

/-- From an acyclic part of the graph whose declarations are well formed the
search returns; `visiting` leads to `m`, and the fuel covers what is left. -/
theorem compileModule_complete (hr : ReplacementsAcyclic options.moduleReplacements) (n : Nat)
    (visiting : List ModuleType) (st : Compilation) (m : ModuleType) (h : Compiling P options st)
    (hacyclic : AcyclicFrom (P.imports options) m)
    (hwf : ∀ x, P.Reachable options m x → ∀ p ∈ (P.definition options x).providers, p ≠ .malformed)
    (hvis : ∀ x ∈ visiting, Relation.TransGen (fun x y => y ∈ P.imports options x) x m)
    (hn : remaining (P.candidates options.moduleReplacements) visiting + 1 < n) :
    ∃ st', P.compileModule options.moduleReplacements n visiting st m = .ok st' := by
  induction n generalizing visiting st m with
  | zero => omega
  | succ n ih =>
    unfold compileModule
    split
    · exact ⟨st, rfl⟩
    rw [if_neg fun hv => hacyclic m .refl (hvis m hv)]
    have hd := (definitionOf_ok (P := P) hr).mpr ⟨rfl, hwf m .refl⟩
    -- the imports loop
    have loop : ∀ (l : List ModuleType) (s : Compilation), (∀ i ∈ l, i ∈ P.imports options m) →
        Compiling P options s →
        ∃ s', l.foldlM (P.compileModule options.moduleReplacements n (m :: visiting)) s = .ok s' := by
      intro l
      induction l with
      | nil => intro s _ _; exact ⟨s, rfl⟩
      | cons i rest ihl =>
        intro s hsub hs
        have hmi := hsub i List.mem_cons_self
        have candidate : m ∈ P.candidates options.moduleReplacements := by
          by_contra hm
          rw [imports_eq_nil hm] at hmi
          cases hmi
        have fresh : m ∉ visiting := fun hv => hacyclic m .refl (hvis m hv)
        have lt := remaining_lt candidate fresh
        obtain ⟨s₁, h₁⟩ := ih (m :: visiting) s i hs (hacyclic.tail hmi)
          (fun x hx => hwf x (.head hmi hx))
          (by
            intro x hx
            rcases List.mem_cons.mp hx with rfl | hx
            · exact .single hmi
            · exact (hvis x hx).tail hmi)
          (by omega)
        obtain ⟨s', h'⟩ := ihl s₁ (fun j hj => hsub j (List.mem_cons_of_mem i hj))
          (compileModule_sound hr n _ s s₁ i hs h₁).1
        exact ⟨s', by rw [List.foldlM_cons]; exact bind_eq_ok.mpr ⟨s₁, h₁, h'⟩⟩
    obtain ⟨st₁, h₁⟩ := loop (P.definition options m).imports st (fun _ hi => hi) h
    exact ⟨_, bind_eq_ok.mpr ⟨_, hd, bind_eq_ok.mpr ⟨st₁, h₁, rfl⟩⟩⟩

/-! ## Checks of one module -/

theorem validateClassInjectionMetadata_ok {subject : Subject} {c : Nat} {inject : List InjectionToken}
    {scope : ValidationScope} {remedy : Remedy} :
    P.validateClassInjectionMetadata subject c inject scope remedy = .ok () ↔ P.ClassCovered c inject := by
  unfold validateClassInjectionMetadata requiredConstructorParameters ClassCovered
  cases hown : P.ownInject c with
  | true => simp
  | false =>
    simp only [Bool.false_eq_true, ↓reduceIte, ge_iff_le, false_or]
    by_cases hlen : P.length c ≤ inject.length
    · simp [hlen]
    · simp [hlen, show P.length c ≠ 0 by omega]

theorem validateProviderInjectionMetadata_ok {p : Provider} {scope : ValidationScope} :
    P.validateProviderInjectionMetadata p scope = .ok () ↔ P.ProviderCovered p := by
  cases p <;>
    simp only [validateProviderInjectionMetadata, ProviderCovered, validateClassInjectionMetadata_ok]

theorem validateDependencies_ok {invisible : Token → GraphError} {accessible registered : OrderedSet Token}
    {ds : List InjectionToken} :
    P.validateDependencies invisible accessible registered ds = .ok () ↔
      ∀ d ∈ ds, (d.isOptional = true → registered.has (P.resolveInjectionToken d) = true) →
        accessible.has (P.resolveInjectionToken d) = true := by
  induction ds with
  | nil => simp [validateDependencies]
  | cons d rest ih =>
    rw [List.forall_mem_cons, ← ih, validateDependencies]
    cases accessible.has (P.resolveInjectionToken d) <;> cases registered.has (P.resolveInjectionToken d) <;>
      cases d.isOptional <;> simp

theorem addExports_ok {m : CompiledModule} {imported : OrderedSet Token} {l : List Token}
    (s : OrderedSet Token) :
    (∃ s', addExports m imported l s = .ok s') ↔
      ∀ t ∈ l, m.providerTokens.has t = true ∨ imported.has t = true := by
  induction l generalizing s with
  | nil => exact ⟨fun _ _ h => (nomatch h), fun _ => ⟨s, rfl⟩⟩
  | cons a rest ih =>
    rw [List.forall_mem_cons, ← ih (s.set a ()), addExports]
    cases m.providerTokens.has a <;> cases imported.has a <;> simp

theorem has_addExports {m : CompiledModule} {imported : OrderedSet Token} {l : List Token}
    {s s' : OrderedSet Token} (h : addExports m imported l s = .ok s') (t : Token) :
    s'.has t = true ↔ s.has t = true ∨ t ∈ l := by
  induction l generalizing s with
  | nil => cases h; simp
  | cons a rest ih =>
    rw [addExports] at h
    split at h
    · cases h
    · rw [ih h, OrderedMap.has_set, Bool.or_eq_true, decide_eq_true_eq, List.mem_cons]
      tauto

/-! ## validateCompiledModules -/

/-- What `compileModule` hands over: the reachable modules, each once and after
its imports, with empty token sets. -/
structure Compiled (P : Program) (options : BootstrapModuleOptions) (root : ModuleType)
    (modules : List CompiledModule) : Prop where
  nodup : (types modules).Nodup
  reachable : ∀ m, m ∈ types modules ↔ P.Reachable options root m
  blank : ∀ c ∈ modules, c = P.compiledModule c.type (P.definition options c.type)
  first : SuccessorsFirst (P.imports options) (types modules)

structure ModuleOk (P : Program) (options : BootstrapModuleOptions) (root m : ModuleType) : Prop where
  exports : ∀ t ∈ (P.definition options m).exports,
    t ∈ P.providedTokens options m ∨ ∃ i ∈ P.imports options m, t ∈ (P.definition options i).exports
  visible : ∀ d ∈ P.dependencies options m,
    P.Required options root d → P.Visible options root m (P.resolveInjectionToken d)
  providers : ∀ p ∈ (P.definition options m).providers, P.ProviderCovered p
  controllers : ∀ c ∈ (P.definition options m).controllers, P.ClassCovered c (P.classInject c)

/-- The module objects while the last loop runs: those in `validated` have
their export sets. -/
structure Validating (P : Program) (options : BootstrapModuleOptions) (modules : List CompiledModule)
    (validated : List ModuleType) (byType : CompiledByType) : Prop where
  keys : byType.keys = types modules
  entry : ∀ t c, byType.get t = some c → c.type = t ∧ c.definition = P.definition options t ∧
    c.providerTokens = OrderedSet.ofList (P.providedTokens options t)
  exported : ∀ t ∈ validated, ∀ c, byType.get t = some c → ∀ x,
    c.exportedTokens.has x = true ↔ x ∈ (P.definition options t).exports

theorem has_mergeRuntimeTokenSets (t : Token) :
    (P.mergeRuntimeTokenSets options.providers options.validationTokens).has t = true ↔
      t ∈ P.runtimeTokens options := by
  simp [mergeRuntimeTokenSets, createRuntimeTokenSet, runtimeTokens, OrderedSet.mem_ofList_keys]

section Validation

variable {root : ModuleType} {modules : List CompiledModule} (hm : Compiled P options root modules)

include hm

theorem has_globalExportedTokens (t : Token) :
    (globalExportedTokens modules).has t = true ↔
      ∃ g, P.Reachable options root g ∧ (P.definition options g).global = true ∧
        t ∈ (P.definition options g).exports := by
  simp only [globalExportedTokens, OrderedSet.has_ofList, decide_eq_true_eq, List.mem_flatMap]
  constructor
  · rintro ⟨c, hc, ht⟩
    have hdef := congrArg CompiledModule.definition (hm.blank c hc)
    rw [hdef] at ht
    change t ∈ if (P.definition options c.type).global then _ else _ at ht
    split at ht
    · rename_i hg
      exact ⟨c.type, (hm.reachable _).mp (List.mem_map_of_mem hc), hg, ht⟩
    · cases ht
  · rintro ⟨g, hreach, hg, ht⟩
    obtain ⟨c, hc, rfl⟩ := List.mem_map.mp ((hm.reachable g).mpr hreach)
    refine ⟨c, hc, ?_⟩
    rw [congrArg CompiledModule.definition (hm.blank c hc)]
    change t ∈ if (P.definition options c.type).global then _ else _
    rw [if_pos hg]
    exact ht

theorem has_registeredTokens (t : Token) :
    (registeredTokens (P.mergeRuntimeTokenSets options.providers options.validationTokens) modules).has t
        = true ↔ P.Registered options root t := by
  simp only [registeredTokens, OrderedSet.has_ofList, decide_eq_true_eq, List.mem_append, List.mem_flatMap,
    OrderedMap.mem_keys, has_mergeRuntimeTokenSets, Registered]
  refine or_congr_right ?_
  constructor
  · rintro ⟨c, hc, ht⟩
    refine ⟨c.type, (hm.reachable _).mp (List.mem_map_of_mem hc), ?_⟩
    rw [congrArg CompiledModule.providerTokens (hm.blank c hc)] at ht
    exact of_decide_eq_true ((OrderedSet.has_ofList _ t).symm.trans ht)
  · rintro ⟨g, hreach, ht⟩
    obtain ⟨c, hc, rfl⟩ := List.mem_map.mp ((hm.reachable g).mpr hreach)
    refine ⟨c, hc, ?_⟩
    rw [congrArg CompiledModule.providerTokens (hm.blank c hc)]
    exact (OrderedSet.has_ofList _ t).trans (decide_eq_true ht)

end Validation

/-- A module object with its visible tokens filled in. -/
structure Memoized (P : Program) (options : BootstrapModuleOptions) (root t : ModuleType)
    (m : CompiledModule) : Prop where
  type : m.type = t
  definition : m.definition = P.definition options t
  providerTokens : m.providerTokens = OrderedSet.ofList (P.providedTokens options t)
  imported : ∀ x, m.importedExportedTokens.has x = true ↔
    ∃ i ∈ P.imports options t, x ∈ (P.definition options i).exports
  accessible : ∀ x, m.accessibleTokens.has x = true ↔ P.Visible options root t x

/-- The imports of a module are validated before it, so their export sets are
what they declare. -/
theorem memoize_spec {root : ModuleType} {modules : List CompiledModule}
    (hm : Compiled P options root modules) {validated : List ModuleType} {byType : CompiledByType}
    (hv : Validating P options modules validated byType) {c : CompiledModule} (hc : c ∈ modules)
    (himports : ∀ i ∈ P.imports options c.type, i ∈ validated ∧ i ∈ types modules) :
    ∃ importedModules, resolveImportedModules c byType = .ok importedModules ∧
      Memoized P options root c.type (memoizeAccessibleTokenSet c importedModules
        (P.mergeRuntimeTokenSets options.providers options.validationTokens)
        (globalExportedTokens modules)) := by
  have hblank := hm.blank c hc
  have hdef : c.definition = P.definition options c.type := congrArg CompiledModule.definition hblank
  have hprov : c.providerTokens = OrderedSet.ofList (P.providedTokens options c.type) :=
    congrArg CompiledModule.providerTokens hblank
  have found : ∀ i ∈ c.definition.imports, ∃ e, byType.get i = some e ∧
      ∀ x, e.exportedTokens.has x = true ↔ x ∈ (P.definition options i).exports := by
    intro i hi
    rw [hdef] at hi
    obtain ⟨hval, htypes⟩ := himports i hi
    rw [← hv.keys, OrderedMap.mem_keys, OrderedMap.has, Option.isSome_iff_exists] at htypes
    obtain ⟨e, he⟩ := htypes
    exact ⟨e, he, hv.exported i hval e he⟩
  let importedModule (i : ModuleType) : CompiledModule := (byType.get i).getD c
  have imported : ∀ x, (createImportedExportedTokenSet (c.definition.imports.map importedModule)).has x
      = true ↔ ∃ i ∈ P.imports options c.type, x ∈ (P.definition options i).exports := by
    intro x
    simp only [createImportedExportedTokenSet, OrderedSet.has_ofList, decide_eq_true_eq,
      List.mem_flatMap, List.mem_map, OrderedMap.mem_keys]
    constructor
    · rintro ⟨e, ⟨i, hi, rfl⟩, hx⟩
      obtain ⟨e, he, hexp⟩ := found i hi
      refine ⟨i, by rw [imports, ← hdef]; exact hi, (hexp x).mp ?_⟩
      simpa [importedModule, he] using hx
    · rintro ⟨i, hi, hx⟩
      rw [imports, ← hdef] at hi
      obtain ⟨e, he, hexp⟩ := found i hi
      exact ⟨importedModule i, ⟨i, hi, rfl⟩, by simpa [importedModule, he] using (hexp x).mpr hx⟩
  refine ⟨c.definition.imports.map importedModule, ?_, rfl, hdef, hprov, imported, ?_⟩
  · refine mapM_eq_ok fun i hi => ?_
    obtain ⟨e, he, -⟩ := found i hi
    simp [importedModule, he]
  · intro x
    simp only [memoizeAccessibleTokenSet, createAccessibleTokenSet, OrderedSet.has_ofList,
      decide_eq_true_eq, List.mem_append, OrderedMap.mem_keys, imported, has_mergeRuntimeTokenSets,
      has_globalExportedTokens hm, hprov, Visible]
    constructor
    · rintro (((h | h) | h) | h)
      · exact .inr (.inr (.inr h))
      · exact .inl h
      · exact .inr (.inl h)
      · exact .inr (.inr (.inl h))
    · rintro (h | h | h | h)
      · exact .inl (.inl (.inr h))
      · exact .inl (.inr h)
      · exact .inr h
      · exact .inl (.inl (.inl h))

section Checks

variable {root t : ModuleType} {modules : List CompiledModule} {m : CompiledModule}
  (hm : Compiled P options root modules) (h : Memoized P options root t m)

include hm h

theorem validateDependencies_visible {invisible : Token → GraphError} {ds : List InjectionToken} :
    P.validateDependencies invisible m.accessibleTokens
        (registeredTokens (P.mergeRuntimeTokenSets options.providers options.validationTokens) modules) ds
          = .ok () ↔
      ∀ d ∈ ds, P.Required options root d → P.Visible options root t (P.resolveInjectionToken d) := by
  rw [validateDependencies_ok]
  simp only [has_registeredTokens hm, h.accessible, Required]

theorem validateProviderVisibility_ok :
    P.validateProviderVisibility m m.accessibleTokens
        (registeredTokens (P.mergeRuntimeTokenSets options.providers options.validationTokens) modules)
          = .ok () ↔
      ∀ p ∈ (P.definition options t).providers, P.ProviderCovered p ∧
        ∀ d ∈ P.providerDependencies p, P.Required options root d →
          P.Visible options root t (P.resolveInjectionToken d) := by
  unfold validateProviderVisibility
  rw [forM_eq_ok, h.definition]
  refine forall₂_congr fun p _ => ?_
  rw [check_eq_ok, validateProviderInjectionMetadata_ok, validateDependencies_visible hm h]

theorem validateControllerVisibility_ok :
    P.validateControllerVisibility m m.accessibleTokens
        (registeredTokens (P.mergeRuntimeTokenSets options.providers options.validationTokens) modules)
          = .ok () ↔
      ∀ c ∈ (P.definition options t).controllers, P.ClassCovered c (P.classInject c) ∧
        ∀ d ∈ P.controllerDependencies c, P.Required options root d →
          P.Visible options root t (P.resolveInjectionToken d) := by
  unfold validateControllerVisibility validateControllerInjectionMetadata
  rw [forM_eq_ok, h.definition]
  refine forall₂_congr fun c _ => ?_
  rw [check_eq_ok, validateClassInjectionMetadata_ok, validateDependencies_visible hm h]

omit hm in
theorem createExportedTokenSet_ok :
    (∃ e, createExportedTokenSet m m.importedExportedTokens = .ok e) ↔
      ∀ x ∈ (P.definition options t).exports, x ∈ P.providedTokens options t ∨
        ∃ i ∈ P.imports options t, x ∈ (P.definition options i).exports := by
  unfold createExportedTokenSet
  rw [addExports_ok, h.definition]
  simp only [h.providerTokens, h.imported, OrderedSet.has_ofList, decide_eq_true_eq]

theorem moduleOk_iff :
    ModuleOk P options root t ↔
      P.validateProviderVisibility m m.accessibleTokens
          (registeredTokens (P.mergeRuntimeTokenSets options.providers options.validationTokens) modules)
            = .ok () ∧
        P.validateControllerVisibility m m.accessibleTokens
          (registeredTokens (P.mergeRuntimeTokenSets options.providers options.validationTokens) modules)
            = .ok () ∧
        ∃ e, createExportedTokenSet m m.importedExportedTokens = .ok e := by
  rw [validateProviderVisibility_ok hm h, validateControllerVisibility_ok hm h, createExportedTokenSet_ok h]
  constructor
  · intro ok
    refine ⟨fun p hp => ⟨ok.providers p hp, fun d hd => ok.visible d ?_⟩,
      fun c hc => ⟨ok.controllers c hc, fun d hd => ok.visible d ?_⟩, ok.exports⟩
    · exact List.mem_append_left _ (List.mem_flatMap.mpr ⟨p, hp, hd⟩)
    · exact List.mem_append_right _ (List.mem_flatMap.mpr ⟨c, hc, hd⟩)
  · rintro ⟨hp, hc, he⟩
    refine ⟨he, fun d hd => ?_, fun p h => (hp p h).1, fun c h => (hc c h).1⟩
    rcases List.mem_append.mp hd with hd | hd <;> obtain ⟨x, hx, hd⟩ := List.mem_flatMap.mp hd
    · exact (hp x hx).2 d hd
    · exact (hc x hx).2 d hd

end Checks

/-- What one turn of the loop leaves in a module object. -/
structure Validated (P : Program) (options : BootstrapModuleOptions) (t : ModuleType)
    (m : CompiledModule) : Prop where
  type : m.type = t
  definition : m.definition = P.definition options t
  providerTokens : m.providerTokens = OrderedSet.ofList (P.providedTokens options t)
  exported : ∀ x, m.exportedTokens.has x = true ↔ x ∈ (P.definition options t).exports

theorem validateModule_ok {root : ModuleType} {modules : List CompiledModule}
    (hm : Compiled P options root modules) {validated : List ModuleType} {byType : CompiledByType}
    (hv : Validating P options modules validated byType) {c : CompiledModule} (hc : c ∈ modules)
    (himports : ∀ i ∈ P.imports options c.type, i ∈ validated ∧ i ∈ types modules) :
    ((∃ c', P.validateModule (P.mergeRuntimeTokenSets options.providers options.validationTokens)
        (globalExportedTokens modules)
        (registeredTokens (P.mergeRuntimeTokenSets options.providers options.validationTokens) modules)
        byType c = .ok c') ↔ ModuleOk P options root c.type) ∧
      ∀ c', P.validateModule (P.mergeRuntimeTokenSets options.providers options.validationTokens)
        (globalExportedTokens modules)
        (registeredTokens (P.mergeRuntimeTokenSets options.providers options.validationTokens) modules)
        byType c = .ok c' → Validated P options c.type c' := by
  obtain ⟨importedModules, resolved, h⟩ := memoize_spec hm hv hc himports
  set m := memoizeAccessibleTokenSet c importedModules
    (P.mergeRuntimeTokenSets options.providers options.validationTokens) (globalExportedTokens modules)
  unfold validateModule
  rw [resolved]
  refine ⟨?_, ?_⟩
  · rw [moduleOk_iff hm h]
    constructor
    · rintro ⟨c', e⟩
      obtain ⟨_, e₀, e⟩ := bind_eq_ok.mp e
      cases e₀
      obtain ⟨e₁, e⟩ := check_eq_ok.mp e
      obtain ⟨e₂, e⟩ := check_eq_ok.mp e
      obtain ⟨exported, e₃, -⟩ := bind_eq_ok.mp e
      exact ⟨e₁, e₂, exported, e₃⟩
    · rintro ⟨e₁, e₂, exported, e₃⟩
      exact ⟨{ m with exportedTokens := exported }, bind_eq_ok.mpr ⟨_, rfl, check_eq_ok.mpr ⟨e₁,
        check_eq_ok.mpr ⟨e₂, bind_eq_ok.mpr ⟨exported, e₃, rfl⟩⟩⟩⟩⟩
  · intro c' e
    obtain ⟨_, e₀, e⟩ := bind_eq_ok.mp e
    cases e₀
    obtain ⟨-, e⟩ := check_eq_ok.mp e
    obtain ⟨-, e⟩ := check_eq_ok.mp e
    obtain ⟨exported, e₃, e⟩ := bind_eq_ok.mp e
    cases e
    refine ⟨h.type, h.definition, h.providerTokens, fun x => ?_⟩
    rw [has_addExports e₃, show m.definition = _ from h.definition]
    simp [OrderedMap.has]

theorem Validating.step {modules : List CompiledModule} {validated : List ModuleType}
    {byType : CompiledByType} (hv : Validating P options modules validated byType) {t : ModuleType}
    (ht : t ∈ types modules) {c : CompiledModule} (h : Validated P options t c) :
    Validating P options modules (validated ++ [t]) (byType.set c.type c) := by
  rw [h.type]
  refine ⟨(OrderedMap.keys_set_of_mem c (hv.keys ▸ ht)).trans hv.keys, ?_, ?_⟩
  · intro u e he
    rw [OrderedMap.get_set] at he
    split at he
    · rename_i hu
      cases he
      subst hu
      exact ⟨h.type, h.definition, h.providerTokens⟩
    · exact hv.entry u e he
  · intro u hu e he
    rw [OrderedMap.get_set] at he
    split at he
    · rename_i hut
      cases he
      subst hut
      exact h.exported
    · rename_i hut
      rcases List.mem_append.mp hu with hu | hu
      · exact hv.exported u hu e he
      · exact absurd (by simpa using hu) hut

/-- The last loop gets through exactly when every module passes its checks. -/
theorem validateModules_ok {root : ModuleType} {modules : List CompiledModule}
    (hm : Compiled P options root modules) (done rest : List CompiledModule)
    (hsplit : modules = done ++ rest) {byType : CompiledByType}
    (hv : Validating P options modules (types done) byType) :
    ((∃ byType', P.validateModules (P.mergeRuntimeTokenSets options.providers options.validationTokens)
        (globalExportedTokens modules)
        (registeredTokens (P.mergeRuntimeTokenSets options.providers options.validationTokens) modules)
        rest byType = .ok byType') ↔ ∀ c ∈ rest, ModuleOk P options root c.type) ∧
      ∀ byType', P.validateModules (P.mergeRuntimeTokenSets options.providers options.validationTokens)
        (globalExportedTokens modules)
        (registeredTokens (P.mergeRuntimeTokenSets options.providers options.validationTokens) modules)
        rest byType = .ok byType' → Validating P options modules (types modules) byType' := by
  induction rest generalizing done byType with
  | nil =>
    refine ⟨⟨fun _ _ h => (nomatch h), fun _ => ⟨byType, rfl⟩⟩, ?_⟩
    intro byType' h
    cases h
    rw [hsplit, List.append_nil]
    rwa [hsplit, List.append_nil] at hv
  | cons c rest ih =>
    have hc : c ∈ modules := by simp [hsplit]
    have htypes : types modules = types done ++ c.type :: types rest := by simp [types, hsplit]
    have himports : ∀ i ∈ P.imports options c.type, i ∈ types done ∧ i ∈ types modules := by
      intro i hi
      have := hm.first (types done) c.type (types rest) htypes i hi
      exact ⟨this, htypes ▸ List.mem_append_left _ this⟩
    obtain ⟨hiff, hval⟩ := validateModule_ok hm hv hc himports
    have next : ∀ c', Validated P options c.type c' →
        Validating P options modules (types (done ++ [c])) (byType.set c'.type c') := by
      intro c' h
      simpa [types] using hv.step (List.mem_map_of_mem hc) h
    have hsplit' : modules = (done ++ [c]) ++ rest := by simp [hsplit]
    rw [List.forall_mem_cons, ← hiff]
    simp only [validateModules, bind_eq_ok]
    refine ⟨⟨?_, ?_⟩, ?_⟩
    · rintro ⟨byType', c', e, h⟩
      exact ⟨⟨c', e⟩, (ih _ hsplit' (next c' (hval c' e))).1.mp ⟨byType', h⟩⟩
    · rintro ⟨⟨c', e⟩, h⟩
      obtain ⟨byType', h'⟩ := (ih _ hsplit' (next c' (hval c' e))).1.mpr h
      exact ⟨byType', c', e, h'⟩
    · rintro byType' ⟨c', e, h⟩
      exact (ih _ hsplit' (next c' (hval c' e))).2 byType' h

theorem compiledByType_validating {root : ModuleType} {modules : List CompiledModule}
    (hm : Compiled P options root modules) :
    Validating P options modules []
      (modules.foldl (fun byType m => byType.set m.type m) OrderedMap.empty) := by
  have fold : ∀ (l : List CompiledModule) (m : CompiledByType), (∀ c ∈ l, m.get c.type = none) →
      (types l).Nodup →
      (l.foldl (fun byType c => byType.set c.type c) m).entries =
        m.entries ++ l.map fun c => (c.type, c) := by
    intro l
    induction l with
    | nil => intro m _ _; simp
    | cons c rest ih =>
      intro m hfresh hn
      obtain ⟨hc, hn⟩ := List.nodup_cons.mp hn
      rw [List.foldl_cons, ih _ ?_ hn, OrderedMap.entries_set_of_absent c (hfresh c List.mem_cons_self)]
      · simp
      · intro d hd
        have hne : d.type ≠ c.type := by
          intro e
          exact hc (List.mem_map.mpr ⟨d, hd, e⟩)
        rw [OrderedMap.get_set, if_neg hne]
        exact hfresh d (List.mem_cons_of_mem c hd)
  have entries : (modules.foldl (fun byType m => byType.set m.type m)
      (OrderedMap.empty : CompiledByType)).entries = modules.map fun c => (c.type, c) :=
    fold modules OrderedMap.empty (by simp) hm.nodup
  refine ⟨by simp [OrderedMap.keys, entries, types], ?_, by simp⟩
  intro t c h
  rw [← OrderedMap.mem_entries, entries] at h
  obtain ⟨_, hd, e⟩ := List.mem_map.mp h
  cases e
  have hblank := hm.blank c hd
  exact ⟨rfl, congrArg CompiledModule.definition hblank, congrArg CompiledModule.providerTokens hblank⟩

theorem validateCompiledModules_ok {root : ModuleType} {modules : List CompiledModule}
    (hm : Compiled P options root modules) :
    ((∃ result, P.validateCompiledModules modules options.providers
        (P.mergeRuntimeTokenSets options.providers options.validationTokens) = .ok result) ↔
      (∀ p ∈ options.providers, P.ProviderCovered p) ∧ ∀ c ∈ modules, ModuleOk P options root c.type) ∧
    ∀ result, P.validateCompiledModules modules options.providers
        (P.mergeRuntimeTokenSets options.providers options.validationTokens) = .ok result →
      types result = types modules ∧ ∀ c ∈ result, c.definition = P.definition options c.type := by
  obtain ⟨hiff, hval⟩ := validateModules_ok hm [] modules rfl (compiledByType_validating hm)
  have unfolded : ∀ result, P.validateCompiledModules modules options.providers
        (P.mergeRuntimeTokenSets options.providers options.validationTokens) = .ok result ↔
      (∀ p ∈ options.providers, P.ProviderCovered p) ∧ ∃ byType,
        P.validateModules (P.mergeRuntimeTokenSets options.providers options.validationTokens)
          (globalExportedTokens modules)
          (registeredTokens (P.mergeRuntimeTokenSets options.providers options.validationTokens) modules)
          modules (modules.foldl (fun byType m => byType.set m.type m) OrderedMap.empty) = .ok byType ∧
        .ok byType.values = (.ok result : Except GraphError (List CompiledModule)) := by
    intro result
    unfold validateCompiledModules
    rw [check_eq_ok, forM_eq_ok, bind_eq_ok]
    simp only [validateProviderInjectionMetadata_ok]
  simp only [unfolded]
  rw [← hiff]
  refine ⟨⟨?_, ?_⟩, ?_⟩
  · rintro ⟨_, hp, byType, h, -⟩
    exact ⟨hp, byType, h⟩
  · rintro ⟨hp, byType, h⟩
    exact ⟨byType.values, hp, byType, h, rfl⟩
  · rintro result ⟨-, byType, h, e⟩
    cases e
    have hv := hval byType h
    have entry : ∀ e ∈ byType.entries, e.2.type = e.1 ∧ e.2.definition = P.definition options e.1 :=
      fun e he => ⟨(hv.entry e.1 e.2 (OrderedMap.mem_entries.mp he)).1,
        (hv.entry e.1 e.2 (OrderedMap.mem_entries.mp he)).2.1⟩
    refine ⟨?_, ?_⟩
    · rw [← hv.keys, types, OrderedMap.values, OrderedMap.keys, List.map_map]
      exact List.map_congr_left fun e he => (entry e he).1
    · intro c hc
      obtain ⟨e, he, rfl⟩ := List.mem_map.mp hc
      rw [(entry e he).1]
      exact (entry e he).2

/-! ## compileModuleGraph -/

theorem compiled_of_compileModule (hr : ReplacementsAcyclic options.moduleReplacements) {n : Nat}
    {root : ModuleType} {st : Compilation}
    (h : P.compileModule options.moduleReplacements n [] ⟨OrderedMap.empty, []⟩ root = .ok st) :
    Compiled P options root st.ordered ∧
      ∀ m, P.Reachable options root m → ∀ p ∈ (P.definition options m).providers, p ≠ .malformed := by
  obtain ⟨hst, ⟨new, enew, hnew⟩, hroot⟩ := compileModule_sound hr n [] _ st root compiling_initial h
  have reachable : ∀ m, m ∈ types st.ordered ↔ P.Reachable options root m := by
    intro m
    refine ⟨fun hm => ?_, fun hm => hst.first.reach_mem hroot hm⟩
    obtain ⟨c, hc, rfl⟩ := List.mem_map.mp hm
    rw [enew, List.nil_append] at hc
    exact (hnew c hc).1
  refine ⟨⟨hst.nodup, reachable, fun c hc => ?_, hst.first⟩, fun m hm => ?_⟩
  · obtain ⟨hd, hblank⟩ := hst.definition c hc
    rwa [((definitionOf_ok hr).mp hd).1] at hblank
  · obtain ⟨c, hc, rfl⟩ := List.mem_map.mp ((reachable m).mpr hm)
    exact ((definitionOf_ok hr).mp (hst.definition c hc).1).2

theorem checked_iff_modules {root : ModuleType} {modules : List CompiledModule}
    (hm : Compiled P options root modules)
    (hwf : ∀ m, P.Reachable options root m → ∀ p ∈ (P.definition options m).providers, p ≠ .malformed) :
    P.Checked options root ↔ (∀ p ∈ options.providers, p ≠ .malformed) ∧
      (∀ p ∈ options.providers, P.ProviderCovered p) ∧ ∀ c ∈ modules, ModuleOk P options root c.type := by
  constructor
  · intro h
    refine ⟨h.wellFormed.1, h.covered.1, fun c hc => ?_⟩
    have hreach := (hm.reachable _).mp (List.mem_map_of_mem hc)
    exact ⟨h.exports _ hreach, h.visible _ hreach, (h.covered.2 _ hreach).1, (h.covered.2 _ hreach).2⟩
  · rintro ⟨hp, hcov, hmod⟩
    have ok : ∀ m, P.Reachable options root m → ModuleOk P options root m := by
      intro m hreach
      obtain ⟨c, hc, rfl⟩ := List.mem_map.mp ((hm.reachable m).mpr hreach)
      exact hmod c hc
    exact ⟨fun m hreach => hm.first.acyclicFrom hm.nodup ((hm.reachable m).mpr hreach) m .refl,
      fun m hreach => (ok m hreach).exports, fun m hreach => (ok m hreach).visible,
      ⟨hcov, fun m hreach => ⟨(ok m hreach).providers, (ok m hreach).controllers⟩⟩, hp, hwf⟩

theorem exports_provided {root : ModuleType} {modules : List CompiledModule}
    (hm : Compiled P options root modules) (hok : P.Checked options root) :
    ∀ m ∈ types modules, ∀ t ∈ (P.definition options m).exports,
      ∃ g ∈ types modules, t ∈ P.providedTokens options g := by
  refine hm.first.induct fun m hmem himports t ht => ?_
  rcases hok.exports m ((hm.reachable m).mp hmem) t ht with ht | ⟨i, hi, ht⟩
  · exact ⟨m, hmem, ht⟩
  · exact himports i hi t ht

theorem visible_provided {root : ModuleType} {modules : List CompiledModule}
    (hm : Compiled P options root modules) (hok : P.Checked options root) {m : ModuleType}
    (hmem : m ∈ types modules) {t : Token} (ht : P.Visible options root m t) :
    (∃ g ∈ types modules, t ∈ P.providedTokens options g) ∨ t ∈ P.runtimeTokens options := by
  rcases ht with ht | ⟨i, hi, ht⟩ | ⟨g, hg, -, ht⟩ | ht
  · exact .inl ⟨m, hmem, ht⟩
  · exact .inl (exports_provided hm hok i (hm.first.closed hmem hi) t ht)
  · exact .inl (exports_provided hm hok g ((hm.reachable g).mpr hg) t ht)
  · exact .inr ht

/-- The compiler accepts exactly the graphs that meet the conditions. What it
returns are the reachable modules, each once and after its imports, and what
they need is provided by one of them or by the runtime. -/
theorem compileModuleGraph_checked (P : Program) (options : BootstrapModuleOptions)
    (hr : ReplacementsAcyclic options.moduleReplacements) (root : ModuleType) :
    ((∃ modules, P.compileModuleGraph root options = .ok modules) ↔ P.Checked options root) ∧
      ∀ modules, P.compileModuleGraph root options = .ok modules →
        (types modules).Nodup ∧ (∀ m, m ∈ types modules ↔ P.Reachable options root m) ∧
        SuccessorsFirst (P.imports options) (types modules) ∧
        (∀ c ∈ modules, c.definition = P.definition options c.type) ∧
        ∀ m ∈ types modules, ∀ d ∈ P.dependencies options m, P.Required options root d →
          (∃ g ∈ types modules, P.resolveInjectionToken d ∈ P.providedTokens options g) ∨
            P.resolveInjectionToken d ∈ P.runtimeTokens options := by
  have unfolded : ∀ modules, P.compileModuleGraph root options = .ok modules ↔
      (∀ p ∈ options.providers, p ≠ .malformed) ∧ ∃ st,
        P.compileModule options.moduleReplacements ((P.candidates options.moduleReplacements).length + 2) []
          ⟨OrderedMap.empty, []⟩ root = .ok st ∧
        P.validateCompiledModules st.ordered options.providers
          (P.mergeRuntimeTokenSets options.providers options.validationTokens) = .ok modules := by
    intro modules
    unfold compileModuleGraph
    rw [check_eq_ok, validateProviderInputs_ok, bind_eq_ok]
  refine ⟨⟨?_, ?_⟩, ?_⟩
  · rintro ⟨modules, h⟩
    obtain ⟨hp, st, hst, hv⟩ := (unfolded modules).mp h
    obtain ⟨hm, hwf⟩ := compiled_of_compileModule hr hst
    exact (checked_iff_modules hm hwf).mpr ⟨hp, (validateCompiledModules_ok hm).1.mp ⟨modules, hv⟩⟩
  · intro hok
    obtain ⟨st, hst⟩ := compileModule_complete hr ((P.candidates options.moduleReplacements).length + 2) []
      ⟨OrderedMap.empty, []⟩ root compiling_initial hok.acyclic hok.wellFormed.2 (by simp)
      (by have := remaining_le (P.candidates options.moduleReplacements) []; omega)
    obtain ⟨hm, hwf⟩ := compiled_of_compileModule hr hst
    obtain ⟨hp, hcov, hmod⟩ := (checked_iff_modules hm hwf).mp hok
    obtain ⟨modules, hv⟩ := (validateCompiledModules_ok hm).1.mpr ⟨hcov, hmod⟩
    exact ⟨modules, (unfolded modules).mpr ⟨hp, st, hst, hv⟩⟩
  · intro modules h
    obtain ⟨hp, st, hst, hv⟩ := (unfolded modules).mp h
    obtain ⟨hm, hwf⟩ := compiled_of_compileModule hr hst
    have hok := (checked_iff_modules hm hwf).mpr ⟨hp, (validateCompiledModules_ok hm).1.mp ⟨modules, hv⟩⟩
    obtain ⟨htypes, hdef⟩ := (validateCompiledModules_ok hm).2 modules hv
    rw [htypes]
    refine ⟨hm.nodup, hm.reachable, hm.first, hdef, fun m hmem d hd hreq => ?_⟩
    exact visible_provided hm hok hmem (hok.visible m ((hm.reachable _).mp hmem) d hd hreq)

end Program

end Fluo.Runtime
