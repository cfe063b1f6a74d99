import Fluo.Graphql.Guardrails

/-!
# The limits measure the operation that runs

On a validated document the walker computes the measures of the selected operation
with its fragments substituted, so an operation is stopped exactly if one of these
measures is beyond its limit.
-/

namespace Fluo.Graphql

/-! ## Validated documents -/

/-- The spreads of a selection set, without those of the fragments it spreads. -/
def spreads : List Selection → List String
  | [] => []
  | .field _ inner :: rest => spreads inner ++ spreads rest
  | .inlineFragment inner :: rest => spreads inner ++ spreads rest
  | .fragmentSpread name :: rest => name :: spreads rest

/-- A selection set spreads a fragment, or one of its fragments does. -/
inductive Uses (fragments : Fragments) : List Selection → String → Prop
  | here {selections : List Selection} {name : String} (mem : name ∈ spreads selections) : Uses fragments selections name
  | through {selections : List Selection} {name used : String} {fragment : FragmentDefinition}
      (mem : name ∈ spreads selections) (found : fragments.get name = some fragment)
      (uses : Uses fragments fragment.selectionSet used) : Uses fragments selections used

def Definition.selections : Definition → List Selection
  | .fragment f => f.selectionSet
  | .operation o => o.selectionSet
  | .schema => []

/-- What the validation of GraphQL promises of names and spreads. -/
structure Validated (document : Document) : Prop where
  operationNames : ((operationsOf document).filterMap (·.name)).Nodup
  fragmentNames : ((document.filterMap Definition.fragment?).map (·.name)).Nodup
  knownFragments : ∀ d ∈ document, ∀ name ∈ spreads d.selections, ((fragmentsOf document).get name).isSome
  noFragmentCycles : ∀ f ∈ document.filterMap Definition.fragment?, ¬ Uses (fragmentsOf document) f.selectionSet f.name
  /-- The grammar has no empty name. -/
  named : ∀ o ∈ operationsOf document, o.name ≠ some ""

structure Executor where
  select : Document → Option String → Option OperationDefinition
  single {document : Document} {operation : OperationDefinition} (h : select document none = some operation) :
    operationsOf document = [operation]
  byName {document : Document} {name : String} {operation : OperationDefinition}
    (h : select document (some name) = some operation) : operation ∈ operationsOf document ∧ operation.name = some name

theorem name_unique {operations : List OperationDefinition} (distinct : (operations.filterMap (·.name)).Nodup)
    {o o' : OperationDefinition} {name : String} (mem : o ∈ operations) (mem' : o' ∈ operations) (h : o.name = some name)
    (h' : o'.name = some name) : o = o' := by
  induction operations with
  | nil => cases mem
  | cons first operations ih =>
    have inside {p : OperationDefinition} (mem : p ∈ operations) (named : p.name = some name) :
        name ∈ operations.filterMap (·.name) := List.mem_filterMap.mpr ⟨p, mem, named⟩
    have other {p : OperationDefinition} (firstNamed : first.name = some name) (mem : p ∈ operations) (named : p.name = some name) :
        False := by
      rw [List.filterMap_cons_some firstNamed] at distinct
      exact (List.nodup_cons.mp distinct).1 (inside mem named)
    have later : (operations.filterMap (·.name)).Nodup := by
      refine distinct.sublist (List.Sublist.filterMap _ (List.sublist_cons_self first operations))
    rcases List.mem_cons.mp mem with same | inRest
    · rcases List.mem_cons.mp mem' with same' | inRest'
      · rw [same, same']
      · exact (other (same ▸ h) inRest' h').elim
    · rcases List.mem_cons.mp mem' with same' | inRest'
      · exact (other (same' ▸ h') inRest h).elim
      · exact ih later inRest inRest'

theorem resolveOperationDefinition_selected (executor : Executor) {document : Document} (valid : Validated document)
    {operationName : Option String} {operation : OperationDefinition}
    (selects : executor.select document operationName = some operation) :
    resolveOperationDefinition (operationsOf document) operationName = some operation := by
  cases operationName with
  | none =>
    rw [resolveOperationDefinition, executor.single selects]
    rfl
  | some name =>
    obtain ⟨mem, named⟩ := executor.byName selects
    have given : name ≠ "" := fun empty => valid.named operation mem (by rw [named, empty])
    rw [resolveOperationDefinition, if_pos given]
    cases found : (operationsOf document).find? (·.name = some name) with
    | none => exact absurd named (by simpa using List.find?_eq_none.mp found operation mem)
    | some first =>
      have same : first.name = some name := by simpa using List.find?_some found
      rw [name_unique valid.operationNames (List.mem_of_find?_eq_some found) mem same named]

/-! ## One walk -/

def GraphqlDocumentMetrics.walked (m : GraphqlDocumentMetrics) (depth : Nat) : List FieldTree → GraphqlDocumentMetrics
  | [] => m
  | .node _ children :: rest => ((m.visit (depth + 1)).walked (depth + 1) children).walked depth rest

theorem walked_append (m : GraphqlDocumentMetrics) (depth : Nat) (first later : List FieldTree) :
    m.walked depth (first ++ later) = (m.walked depth first).walked depth later := by
  induction first generalizing m with
  | nil => rw [List.nil_append, GraphqlDocumentMetrics.walked]
  | cons tree first ih =>
    obtain ⟨name, children⟩ := tree
    rw [List.cons_append, GraphqlDocumentMetrics.walked, GraphqlDocumentMetrics.walked, ih]

theorem walked_counts (m : GraphqlDocumentMetrics) (depth : Nat) (forest : List FieldTree) :
    (m.walked depth forest).complexity = m.complexity + FieldTree.fields forest ∧
      (m.walked depth forest).cost = m.cost + FieldTree.cost depth forest := by
  fun_induction GraphqlDocumentMetrics.walked m depth forest with
  | case1 =>
    rw [FieldTree.fields, FieldTree.cost]
    exact ⟨rfl, rfl⟩
  | case2 m depth name children rest ihChildren ihRest =>
    have visited : (m.visit (depth + 1)).complexity = m.complexity + 1 ∧ (m.visit (depth + 1)).cost = m.cost + (depth + 1) := ⟨rfl, rfl⟩
    rw [ihRest.1, ihRest.2, ihChildren.1, ihChildren.2, FieldTree.fields, FieldTree.cost]
    omega

/-- The walker has been at `depth` before it walks from there. -/
theorem walked_maxDepth (m : GraphqlDocumentMetrics) (depth : Nat) (forest : List FieldTree) (been : depth ≤ m.maxDepth) :
    (m.walked depth forest).maxDepth = max m.maxDepth (depth + FieldTree.height forest) := by
  fun_induction GraphqlDocumentMetrics.walked m depth forest with
  | case1 =>
    rw [FieldTree.height]
    omega
  | case2 m depth name children rest ihChildren ihRest =>
    have visited : (m.visit (depth + 1)).maxDepth = max m.maxDepth (depth + 1) := rfl
    have inner := ihChildren (by omega)
    rw [ihRest (by omega), inner, FieldTree.height]
    omega

section

variable {fragments : Fragments}

theorem walk_field (name : String) (inner rest : List Selection) (depth : Nat) (m : GraphqlDocumentMetrics) (active : List String) :
    (walkSelectionSet fragments (.field name inner :: rest) depth m active).1.1 =
      (walkSelectionSet fragments rest depth
        (walkSelectionSet fragments inner (depth + 1) (m.visit (depth + 1)) active).1.1 active).1.1 := by
  rw [walkSelectionSet]
  dsimp only
  rw [(walkSelectionSet fragments inner (depth + 1) (m.visit (depth + 1)) active).2]

theorem walk_inlineFragment (inner rest : List Selection) (depth : Nat) (m : GraphqlDocumentMetrics) (active : List String) :
    (walkSelectionSet fragments (.inlineFragment inner :: rest) depth m active).1.1 =
      (walkSelectionSet fragments rest depth (walkSelectionSet fragments inner depth m active).1.1 active).1.1 := by
  rw [walkSelectionSet]
  dsimp only
  rw [(walkSelectionSet fragments inner depth m active).2]

theorem walk_fragmentSpread {name : String} {fragment : FragmentDefinition} (found : fragments.get name = some fragment)
    {active : List String} (outside : name ∉ active) (rest : List Selection) (depth : Nat) (m : GraphqlDocumentMetrics) :
    (walkSelectionSet fragments (.fragmentSpread name :: rest) depth m active).1.1 =
      (walkSelectionSet fragments rest depth
        (walkSelectionSet fragments fragment.selectionSet depth m (name :: active)).1.1 active).1.1 := by
  rw [walkSelectionSet, dif_neg outside]
  split
  next absent =>
    rw [found] at absent
    cases absent
  next other found' =>
    rw [found] at found'
    obtain rfl := Option.some.inj found'
    dsimp only
    rw [(walkSelectionSet fragments fragment.selectionSet depth m (name :: active)).2, List.erase_cons_head]

/-- Fragments that know all their fragments, and none of which uses itself. -/
structure Sound (fragments : Fragments) : Prop where
  known : ∀ name fragment, fragments.get name = some fragment → ∀ used ∈ spreads fragment.selectionSet, (fragments.get used).isSome
  acyclic : ∀ name fragment, fragments.get name = some fragment → ¬ Uses fragments fragment.selectionSet name

theorem Uses.spread {name used : String} {fragment : FragmentDefinition} (found : fragments.get name = some fragment)
    (uses : Uses fragments fragment.selectionSet used) (rest : List Selection) :
    Uses fragments (.fragmentSpread name :: rest) used := .through (by rw [spreads]; exact List.mem_cons_self) found uses

theorem Uses.mono {selections others : List Selection} (sub : ∀ name ∈ spreads selections, name ∈ spreads others) {used : String}
    (uses : Uses fragments selections used) : Uses fragments others used := by
  cases uses with
  | here mem => exact .here (sub _ mem)
  | through mem found uses => exact .through (sub _ mem) found uses

/-- Inside of fragments that the selections do not use, a walk visits the substituted
fields. -/
theorem walk_substituted (sound : Sound fragments) (selections : List Selection) (active : List String)
    (known : ∀ name ∈ spreads selections, (fragments.get name).isSome) (free : ∀ name ∈ active, ¬ Uses fragments selections name)
    (depth : Nat) (m : GraphqlDocumentMetrics) :
    ∃ forest, Substituted fragments selections forest ∧
      (walkSelectionSet fragments selections depth m active).1.1 = m.walked depth forest := by
  match selections, known, free with
  | [], _, _ => exact ⟨[], .nil, by rw [walkSelectionSet, GraphqlDocumentMetrics.walked]⟩
  | .field name inner :: rest, known, free =>
    have innerNames : ∀ n ∈ spreads inner, n ∈ spreads (.field name inner :: rest) := fun n mem => by
      rw [spreads]
      exact List.mem_append_left _ mem
    have restNames : ∀ n ∈ spreads rest, n ∈ spreads (.field name inner :: rest) := fun n mem => by
      rw [spreads]
      exact List.mem_append_right _ mem
    obtain ⟨children, here, innerWalk⟩ := walk_substituted sound inner active (fun n mem => known n (innerNames n mem))
      (fun n mem uses => free n mem (uses.mono innerNames)) (depth + 1) (m.visit (depth + 1))
    obtain ⟨fields, later, restWalk⟩ := walk_substituted sound rest active (fun n mem => known n (restNames n mem))
      (fun n mem uses => free n mem (uses.mono restNames)) depth ((m.visit (depth + 1)).walked (depth + 1) children)
    exact ⟨.node name children :: fields, .field here later, by rw [walk_field, innerWalk, restWalk, GraphqlDocumentMetrics.walked]⟩
  | .inlineFragment inner :: rest, known, free =>
    have innerNames : ∀ n ∈ spreads inner, n ∈ spreads (.inlineFragment inner :: rest) := fun n mem => by
      rw [spreads]
      exact List.mem_append_left _ mem
    have restNames : ∀ n ∈ spreads rest, n ∈ spreads (.inlineFragment inner :: rest) := fun n mem => by
      rw [spreads]
      exact List.mem_append_right _ mem
    obtain ⟨first, here, innerWalk⟩ := walk_substituted sound inner active (fun n mem => known n (innerNames n mem))
      (fun n mem uses => free n mem (uses.mono innerNames)) depth m
    obtain ⟨fields, later, restWalk⟩ := walk_substituted sound rest active (fun n mem => known n (restNames n mem))
      (fun n mem uses => free n mem (uses.mono restNames)) depth (m.walked depth first)
    exact ⟨first ++ fields, .inlineFragment here later, by rw [walk_inlineFragment, innerWalk, restWalk, walked_append]⟩
  | .fragmentSpread name :: rest, known, free =>
    have spread : spreads (.fragmentSpread name :: rest) = name :: spreads rest := by rw [spreads]
    have restNames : ∀ n ∈ spreads rest, n ∈ spreads (.fragmentSpread name :: rest) :=
      fun n mem => spread ▸ List.mem_cons_of_mem _ mem
    have first_ : name ∈ spreads (.fragmentSpread name :: rest) := spread ▸ List.mem_cons_self
    obtain ⟨fragment, found⟩ := Option.isSome_iff_exists.mp (known name first_)
    have outside : name ∉ active := fun mem => free name mem (.here first_)
    have fresh : inactive fragments (name :: active) < inactive fragments active :=
      inactive_cons_lt (OrderedMap.mem_keys.mpr (by rw [OrderedMap.has, found]; rfl)) outside
    -- The fragment does not use itself, and what it uses the selections use too.
    have free' : ∀ n ∈ name :: active, ¬ Uses fragments fragment.selectionSet n :=
      List.forall_mem_cons.mpr ⟨sound.acyclic name fragment found, fun n mem uses => free n mem (uses.spread found rest)⟩
    obtain ⟨first, here, innerWalk⟩ := walk_substituted sound fragment.selectionSet (name :: active)
      (sound.known name fragment found) free' depth m
    obtain ⟨fields, later, restWalk⟩ := walk_substituted sound rest active (fun n mem => known n (restNames n mem))
      (fun n mem uses => free n mem (uses.mono restNames)) depth (m.walked depth first)
    exact ⟨first ++ fields, .fragmentSpread found here later, by
      rw [walk_fragmentSpread found outside, innerWalk, restWalk, walked_append]⟩
termination_by (inactive fragments active, selections)
decreasing_by
  · exact Prod.Lex.right _ (sizeOf_field_lt name inner rest)
  · exact Prod.Lex.right _ (sizeOf_rest_lt _ rest)
  · exact Prod.Lex.right _ (sizeOf_inlineFragment_lt inner rest)
  · exact Prod.Lex.right _ (sizeOf_rest_lt _ rest)
  · exact Prod.Lex.left _ _ fresh
  · exact Prod.Lex.right _ (sizeOf_rest_lt _ rest)

end

/-! ## Documents -/

theorem get_fragmentsOf {document : Document} {name : String} {fragment : FragmentDefinition}
    (found : (fragmentsOf document).get name = some fragment) :
    fragment ∈ document.filterMap Definition.fragment? ∧ fragment.name = name := by
  have all (l : List FragmentDefinition) (fragments : Fragments) (seen : List FragmentDefinition)
      (h : ∀ name f, fragments.get name = some f → f ∈ seen ∧ f.name = name) :
      ∀ name f, (l.foldl (fun fragments f => fragments.set f.name f) fragments).get name = some f → f ∈ seen ++ l ∧ f.name = name := by
    induction l generalizing fragments seen with
    | nil => simpa using h
    | cons first l ih =>
      intro name f found
      have next := ih (fragments.set first.name first) (seen ++ [first]) (fun name f found => by
        rw [OrderedMap.get_set] at found
        split at found
        next same => exact ⟨Option.some.inj found ▸ List.mem_append_right _ List.mem_cons_self, Option.some.inj found ▸ same.symm⟩
        next => exact ⟨List.mem_append_left _ (h name f found).1, (h name f found).2⟩) name f found
      rwa [List.append_assoc, List.singleton_append] at next
  exact all _ .empty [] (fun _ _ found => by cases found) name fragment found

theorem Validated.sound {document : Document} (valid : Validated document) : Sound (fragmentsOf document) := by
  constructor
  · intro name fragment found
    obtain ⟨mem, -⟩ := get_fragmentsOf found
    obtain ⟨d, inDocument, same⟩ := List.mem_filterMap.mp mem
    cases d with
    | fragment f => exact Option.some.inj same ▸ valid.knownFragments _ inDocument
    | operation => cases same
    | schema => cases same
  · intro name fragment found
    obtain ⟨mem, same⟩ := get_fragmentsOf found
    exact same ▸ valid.noFragmentCycles fragment mem

theorem Validated.operation_known {document : Document} (valid : Validated document) {operation : OperationDefinition}
    (mem : operation ∈ operationsOf document) :
    ∀ name ∈ spreads operation.selectionSet, ((fragmentsOf document).get name).isSome := by
  obtain ⟨d, inDocument, same⟩ := List.mem_filterMap.mp mem
  cases d with
  | operation o => exact Option.some.inj same ▸ valid.knownFragments _ inDocument
  | fragment => cases same
  | schema => cases same

theorem Executor.select_mem (executor : Executor) {document : Document} {operationName : Option String}
    {operation : OperationDefinition} (selects : executor.select document operationName = some operation) :
    operation ∈ operationsOf document := by
  cases operationName with
  | none => exact executor.single selects ▸ List.mem_cons_self
  | some name => exact (executor.byName selects).1

/-- The guardrail's metrics are those of the selected operation with its fragments substituted. -/
theorem analyze_substituted (executor : Executor) {document : Document} (valid : Validated document)
    {operationName : Option String} {operation : OperationDefinition}
    (selects : executor.select document operationName = some operation) :
    ∃ forest, Substituted (fragmentsOf document) operation.selectionSet forest ∧
      analyzeGraphqlOperation document operationName =
        some ⟨FieldTree.fields forest, FieldTree.cost 0 forest, FieldTree.height forest⟩ := by
  obtain ⟨forest, substituted, walk⟩ := walk_substituted valid.sound operation.selectionSet []
    (valid.operation_known (executor.select_mem selects)) nofun 0 ⟨0, 0, 0⟩
  refine ⟨forest, substituted, ?_⟩
  have counts := walked_counts ⟨0, 0, 0⟩ 0 forest
  have deepest := walked_maxDepth ⟨0, 0, 0⟩ 0 forest (Nat.le_refl 0)
  simp only [Nat.zero_add, Nat.zero_max] at counts deepest
  rw [analyzeGraphqlOperation, resolveOperationDefinition_selected executor valid selects, Option.map_some, walk,
    ← counts.1, ← counts.2, ← deepest]

theorem errors_nil_iff (check : GraphqlLimitCheck) : check.errors = [] ↔ check.actual ≤ check.limit := by
  rw [GraphqlLimitCheck.errors]
  split
  next within => exact ⟨fun _ => within, fun _ => rfl⟩
  next beyond => exact ⟨nofun, fun within => absurd within beyond⟩

/-- A hook stops the operation exactly if one of its measures is beyond its limit. -/
theorem enforceRequestLimits_iff {limits : GraphqlRequestLimits} {document : Document} {operationName : Option String}
    {metrics : GraphqlDocumentMetrics} (measured : analyzeGraphqlOperation document operationName = some metrics) :
    (enforceRequestLimits limits document operationName).isSome ↔
      limits.maxDepth < metrics.maxDepth ∨ limits.maxComplexity < metrics.complexity ∨ limits.maxCost < metrics.cost := by
  have stops : (enforceRequestLimits limits document operationName).isSome ↔
      evaluateGraphqlRequestLimits document operationName limits ≠ [] := by
    rw [enforceRequestLimits, ← List.length_pos_iff]
    split
    next some_ => exact ⟨fun _ => some_, fun _ => rfl⟩
    next none_ => exact ⟨nofun, fun some_ => absurd some_ none_⟩
  rw [stops, evaluateGraphqlRequestLimits, measured]
  simp only [List.flatMap_cons, List.flatMap_nil, List.append_nil, ne_eq, List.append_eq_nil_iff, errors_nil_iff]
  omega

/-- On a validated document the selected operation, with all fragments substituted, is
stopped before execution and subscription exactly if it is too deep, too complex or
too costly. -/
theorem request_limits_exact (executor : Executor) (introspection : Bool) (limits : GraphqlRequestLimits) {document : Document}
    (valid : Validated document) {operationName : Option String} {operation : OperationDefinition}
    (selects : executor.select document operationName = some operation) :
    ∃ forest plugin hook, Substituted (fragmentsOf document) operation.selectionSet forest ∧
      (∀ other, Substituted (fragmentsOf document) operation.selectionSet other → other = forest) ∧
      analyzeGraphqlOperation document operationName =
        some ⟨FieldTree.fields forest, FieldTree.cost 0 forest, FieldTree.height forest⟩ ∧
      createGraphqlValidationPlugin introspection (some limits) = some plugin ∧
      plugin.onExecute = some hook ∧ plugin.onSubscribe = some hook ∧
      ((hook document operationName).isSome ↔ limits.maxDepth < FieldTree.height forest ∨
        limits.maxComplexity < FieldTree.fields forest ∨ limits.maxCost < FieldTree.cost 0 forest) := by
  obtain ⟨forest, substituted, measured⟩ := analyze_substituted executor valid selects
  refine ⟨forest, _, enforceRequestLimits limits, substituted, fun other h => substituted.unique h, measured, if_neg (by simp), rfl,
    rfl, ?_⟩
  exact enforceRequestLimits_iff measured

def specified : Executor where
  select document
    | none => match operationsOf document with
      | [operation] => some operation
      | _ => none
    | some name => (operationsOf document).find? (·.name = some name)
  single {document operation} h := by
    dsimp only at h
    split at h
    next only => rw [only, Option.some.inj h]
    next => cases h
  byName h := ⟨List.mem_of_find?_eq_some h, by simpa using List.find?_some h⟩

def twoLevels : FragmentDefinition := ⟨"Levels", [.field "b" [.field "c" []]]⟩

/-- `{ a { ...Levels } ...Levels }` -/
def spreadTwice : OperationDefinition := ⟨none, [.field "a" [.fragmentSpread "Levels"], .fragmentSpread "Levels"]⟩

def twice : Document := [.operation spreadTwice, .fragment twoLevels]

theorem twice_valid : Validated twice where
  operationNames := by decide
  fragmentNames := by decide
  knownFragments := by
    intro d mem name used
    simp only [twice, List.mem_cons, List.not_mem_nil, or_false] at mem
    rcases mem with rfl | rfl
    · have known : name = "Levels" := by simpa [Definition.selections, spreadTwice, spreads] using used
      rw [known]
      rfl
    · simp [Definition.selections, twoLevels, spreads] at used
  noFragmentCycles := by
    intro f mem uses
    obtain rfl : twoLevels = f := by simpa [twice, Definition.fragment?] using mem
    cases uses with
    | here used => simp [twoLevels, spreads] at used
    | through used => simp [twoLevels, spreads] at used
  named := by
    intro o mem
    obtain rfl : o = spreadTwice := by simpa [operationsOf, twice, Definition.operation?] using mem
    exact nofun

/-- The fragment counts at each of its spreads: the five fields cost nine. -/
theorem twice_stopped : ∃ plugin hook, createGraphqlValidationPlugin true (some ⟨250, 8, 12⟩) = some plugin ∧
    plugin.onExecute = some hook ∧ (hook twice none).isSome := by
  obtain ⟨forest, plugin, hook, -, unique, -, created, onExecute, -, stops⟩ :=
    request_limits_exact specified true ⟨250, 8, 12⟩ twice_valid (show specified.select twice none = some spreadTwice from rfl)
  have leaf : Substituted (fragmentsOf twice) [.field "c" []] [.node "c" []] := .field .nil .nil
  have levels : Substituted (fragmentsOf twice) twoLevels.selectionSet [.node "b" [.node "c" []]] := .field leaf .nil
  have spread : Substituted (fragmentsOf twice) [.fragmentSpread "Levels"] [.node "b" [.node "c" []]] :=
    .fragmentSpread (show (fragmentsOf twice).get "Levels" = some twoLevels from rfl) levels .nil
  have whole := unique _ (.field spread spread)
  refine ⟨plugin, hook, created, onExecute, stops.mpr (.inr (.inr ?_))⟩
  rw [← whole]
  simp [FieldTree.cost]

end Fluo.Graphql
