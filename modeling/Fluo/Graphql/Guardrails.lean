import Mathlib.Data.List.Basic
import Fluo.Lib.OrderedMap

/-!
# Request limits of GraphQL operations

Before an operation runs, a walker measures its depth, its fields and their cost
weighted by depth. It follows fragment spreads and keeps the set of fragments it is
inside of, so that it comes to an end on cyclic fragments too.
-/

namespace Fluo.Graphql

/-! ## Documents -/

/-- A field without a selection set has none to walk. -/
inductive Selection where
  | field (name : String) (selectionSet : List Selection)
  | inlineFragment (selectionSet : List Selection)
  | fragmentSpread (name : String)

structure FragmentDefinition where
  name : String
  selectionSet : List Selection

structure OperationDefinition where
  name : Option String
  selectionSet : List Selection

/-- `schema` stands for the definitions of a type system. -/
inductive Definition where
  | fragment (fragment : FragmentDefinition)
  | operation (operation : OperationDefinition)
  | schema

abbrev Document := List Definition

abbrev Fragments := OrderedMap String FragmentDefinition

def Definition.fragment? : Definition → Option FragmentDefinition
  | .fragment f => some f
  | _ => none

def Definition.operation? : Definition → Option OperationDefinition
  | .operation o => some o
  | _ => none

/-- The fragments by name; of equal names the last one counts. -/
def fragmentsOf (document : Document) : Fragments :=
  (document.filterMap Definition.fragment?).foldl (fun fragments f => fragments.set f.name f) .empty

def operationsOf (document : Document) : List OperationDefinition := document.filterMap Definition.operation?

/-! ## The walker -/

structure GraphqlDocumentMetrics where
  complexity : Nat
  cost : Nat
  maxDepth : Nat
deriving DecidableEq, Repr

def GraphqlDocumentMetrics.visit (m : GraphqlDocumentMetrics) (nextDepth : Nat) : GraphqlDocumentMetrics :=
  ⟨m.complexity + 1, m.cost + nextDepth, max m.maxDepth nextDepth⟩

def inactive (fragments : Fragments) (active : List String) : Nat := (fragments.keys.filter (· ∉ active)).length

theorem inactive_cons_lt {fragments : Fragments} {active : List String} {name : String} (known : name ∈ fragments.keys)
    (outside : name ∉ active) : inactive fragments (name :: active) < inactive fragments active := by
  have sub : fragments.keys.filter (· ∉ name :: active) = (fragments.keys.filter (· ∉ active)).filter (· ≠ name) := by
    rw [List.filter_filter]
    refine List.filter_congr fun other _ => ?_
    simp [not_or]
  rw [inactive, inactive, sub]
  refine List.length_filter_lt_length_iff_exists.mpr ⟨name, List.mem_filter.mpr ⟨known, by simpa using outside⟩, by simp⟩

theorem sizeOf_rest_lt (first : Selection) (rest : List Selection) : sizeOf rest < sizeOf (first :: rest) := by
  rw [List.cons.sizeOf_spec]
  omega

theorem sizeOf_field_lt (name : String) (inner rest : List Selection) : sizeOf inner < sizeOf (Selection.field name inner :: rest) := by
  rw [List.cons.sizeOf_spec, Selection.field.sizeOf_spec]
  omega

theorem sizeOf_inlineFragment_lt (inner rest : List Selection) : sizeOf inner < sizeOf (Selection.inlineFragment inner :: rest) := by
  rw [List.cons.sizeOf_spec, Selection.inlineFragment.sizeOf_spec]
  omega

/-- Both shared values are passed on, the metrics and the active fragments; the
fragments that were active before are active again afterwards. -/
def walkSelectionSet (fragments : Fragments) (selectionSet : List Selection) (depth : Nat) (metrics : GraphqlDocumentMetrics)
    (activeFragments : List String) : { r : GraphqlDocumentMetrics × List String // r.2 = activeFragments } :=
  match selectionSet with
  | [] => ⟨(metrics, activeFragments), rfl⟩
  | .field _ inner :: rest =>
    let nextDepth := depth + 1
    let walked := walkSelectionSet fragments inner nextDepth (metrics.visit nextDepth) activeFragments
    let after := walkSelectionSet fragments rest depth walked.1.1 walked.1.2
    ⟨after.1, after.2.trans walked.2⟩
  | .inlineFragment inner :: rest =>
    let walked := walkSelectionSet fragments inner depth metrics activeFragments
    let after := walkSelectionSet fragments rest depth walked.1.1 walked.1.2
    ⟨after.1, after.2.trans walked.2⟩
  | .fragmentSpread name :: rest =>
    if outside : name ∈ activeFragments then walkSelectionSet fragments rest depth metrics activeFragments
    else
      match found : fragments.get name with
      | none => walkSelectionSet fragments rest depth metrics activeFragments
      | some fragment =>
        let walked := walkSelectionSet fragments fragment.selectionSet depth metrics (name :: activeFragments)
        have restored : walked.1.2.erase name = activeFragments := by rw [walked.2, List.erase_cons_head]
        let after := walkSelectionSet fragments rest depth walked.1.1 (walked.1.2.erase name)
        ⟨after.1, after.2.trans restored⟩
termination_by (inactive fragments activeFragments, selectionSet)
decreasing_by
  · exact Prod.Lex.right _ (sizeOf_field_lt _ inner rest)
  · rw [walked.2]
    exact Prod.Lex.right _ (sizeOf_rest_lt _ rest)
  · exact Prod.Lex.right _ (sizeOf_inlineFragment_lt inner rest)
  · rw [walked.2]
    exact Prod.Lex.right _ (sizeOf_rest_lt _ rest)
  · exact Prod.Lex.right _ (sizeOf_rest_lt _ rest)
  · exact Prod.Lex.right _ (sizeOf_rest_lt _ rest)
  · exact Prod.Lex.left _ _ (inactive_cons_lt (OrderedMap.mem_keys.mpr (by rw [OrderedMap.has, found]; rfl)) outside)
  · rw [restored]
    exact Prod.Lex.right _ (sizeOf_rest_lt _ rest)

def resolveOperationDefinition (operations : List OperationDefinition) (operationName : Option String) :
    Option OperationDefinition :=
  match operationName with
  | some name =>
    if name ≠ "" then operations.find? (·.name = some name)
    else if operations.length = 1 then operations.head? else none
  | none => if operations.length = 1 then operations.head? else none

def analyzeGraphqlOperation (document : Document) (operationName : Option String) : Option GraphqlDocumentMetrics :=
  (resolveOperationDefinition (operationsOf document) operationName).map fun operation =>
    (walkSelectionSet (fragmentsOf document) operation.selectionSet 0 ⟨0, 0, 0⟩ []).1.1

/-! ## The limits -/

structure GraphqlRequestLimitsOptions where
  maxComplexity : Option Nat
  maxCost : Option Nat
  maxDepth : Option Nat

structure GraphqlRequestLimits where
  maxComplexity : Nat
  maxCost : Nat
  maxDepth : Nat

def defaultGraphqlRequestLimits : GraphqlRequestLimits := ⟨250, 500, 12⟩

/-- What is configured: nothing, `false`, or some of the limits. -/
inductive ConfiguredLimits where
  | unset
  | disabled
  | given (limits : GraphqlRequestLimitsOptions)

def resolveGraphqlRequestLimits : ConfiguredLimits → Option GraphqlRequestLimits
  | .disabled => none
  | .unset => some defaultGraphqlRequestLimits
  | .given limits =>
    some ⟨limits.maxComplexity.getD defaultGraphqlRequestLimits.maxComplexity,
      limits.maxCost.getD defaultGraphqlRequestLimits.maxCost, limits.maxDepth.getD defaultGraphqlRequestLimits.maxDepth⟩

structure GraphqlLimitCheck where
  actual : Nat
  label : String
  limit : Nat

def GraphqlLimitCheck.errors (check : GraphqlLimitCheck) : List String :=
  if check.actual ≤ check.limit then []
  else ["GraphQL query " ++ check.label ++ " " ++ toString check.actual ++ " exceeds the configured limit of " ++
    toString check.limit ++ "."]

def evaluateGraphqlRequestLimits (document : Document) (operationName : Option String) (limits : GraphqlRequestLimits) :
    List String :=
  match analyzeGraphqlOperation document operationName with
  | none => []
  | some metrics =>
    let checks : List GraphqlLimitCheck :=
      [⟨metrics.maxDepth, "depth", limits.maxDepth⟩, ⟨metrics.complexity, "complexity", limits.maxComplexity⟩,
        ⟨metrics.cost, "cost", limits.maxCost⟩]
    checks.flatMap GraphqlLimitCheck.errors

/-- A hook answers with the errors it stops the execution with. -/
abbrev OperationHook := Document → Option String → Option (List String)

def enforceRequestLimits (limits : GraphqlRequestLimits) : OperationHook := fun document operationName =>
  let errors := evaluateGraphqlRequestLimits document operationName limits
  if 0 < errors.length then some errors else none

inductive ValidationRule where
  | disableIntrospection
deriving DecidableEq

structure GraphqlValidationPlugin where
  onExecute : Option OperationHook
  onSubscribe : Option OperationHook
  onValidate : List ValidationRule

def createGraphqlValidationPlugin (introspection : Bool) (limits : Option GraphqlRequestLimits) : Option GraphqlValidationPlugin :=
  let validationRules := if introspection then [] else [.disableIntrospection]
  if validationRules = [] ∧ limits.isNone then none
  else some ⟨limits.map enforceRequestLimits, limits.map enforceRequestLimits, validationRules⟩

/-! ## Substituted selection sets -/

inductive FieldTree where
  | node (name : String) (children : List FieldTree)

inductive Substituted (fragments : Fragments) : List Selection → List FieldTree → Prop
  | nil : Substituted fragments [] []
  | field {name : String} {inner rest : List Selection} {children fields : List FieldTree}
      (here : Substituted fragments inner children) (later : Substituted fragments rest fields) :
      Substituted fragments (.field name inner :: rest) (.node name children :: fields)
  | inlineFragment {inner rest : List Selection} {first fields : List FieldTree}
      (here : Substituted fragments inner first) (later : Substituted fragments rest fields) :
      Substituted fragments (.inlineFragment inner :: rest) (first ++ fields)
  | fragmentSpread {name : String} {fragment : FragmentDefinition} {rest : List Selection} {first fields : List FieldTree}
      (found : fragments.get name = some fragment) (here : Substituted fragments fragment.selectionSet first)
      (later : Substituted fragments rest fields) :
      Substituted fragments (.fragmentSpread name :: rest) (first ++ fields)

theorem Substituted.unique {fragments : Fragments} {selections : List Selection} {fields : List FieldTree}
    (h : Substituted fragments selections fields) {other : List FieldTree} (h' : Substituted fragments selections other) :
    other = fields := by
  induction h generalizing other with
  | nil =>
    cases h'
    rfl
  | field here later ihHere ihLater =>
    cases h' with
    | field here' later' => rw [ihHere here', ihLater later']
  | inlineFragment here later ihHere ihLater =>
    cases h' with
    | inlineFragment here' later' => rw [ihHere here', ihLater later']
  | fragmentSpread found here later ihHere ihLater =>
    cases h' with
    | fragmentSpread found' here' later' =>
      rw [found] at found'
      obtain rfl := Option.some.inj found'
      rw [ihHere here', ihLater later']

namespace FieldTree

def fields : List FieldTree → Nat
  | [] => 0
  | .node _ children :: rest => 1 + fields children + fields rest

def height : List FieldTree → Nat
  | [] => 0
  | .node _ children :: rest => max (1 + height children) (height rest)

def cost (depth : Nat) : List FieldTree → Nat
  | [] => 0
  | .node _ children :: rest => (depth + 1) + cost (depth + 1) children + cost depth rest

end FieldTree

end Fluo.Graphql
