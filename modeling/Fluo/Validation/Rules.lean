import Fluo.Lib.JsString
import Fluo.Lib.OrderedMap

/-!
# Field rules

What `validation.ts` makes of the rules of one field: the rules that switch the
others off, the rules that a missing value skips, and the issues of the rest. A
class is checked against the value itself or against the instance that is made of
it. Rules are pure. The values and the traversal of a nested object are parameters.
-/

namespace Fluo.Validation

open Js

def toFieldName : PropertyKey → JsString
  | .named name => name
  | .symbol _ description => text "Symbol(" ++ description ++ text ")"

inductive MetadataSource where
  | path | query | header | cookie | body | files
  deriving DecidableEq

structure ValidationIssue where
  code : JsString
  field : Option JsString
  message : JsString
  source : Option MetadataSource
  deriving DecidableEq

/-! ## Issues -/

/-- The code and the message of a rule's own issue. -/
structure Fallback where
  code : JsString
  message : JsString

inductive RuleResult where
  | passed
  | failed
  | issues (list : List ValidationIssue)

def joinFieldPath (parent : JsString) (child : Option JsString) : JsString :=
  match child with
  | none => parent
  | some child =>
    if child = [] then parent
    else if child.head? = some (unit '[') then parent ++ child
    else parent ++ text "." ++ child

def buildIssue (fallback : Fallback) (field : JsString) (source : Option MetadataSource) : ValidationIssue :=
  ⟨fallback.code, some field, fallback.message, source⟩

def normalizeIssue (issue : ValidationIssue) (field : Option JsString) (source : Option MetadataSource) :
    ValidationIssue :=
  { issue with field := issue.field <|> field, source := issue.source <|> source }

def normalizeResult (result : RuleResult) (field : Option JsString) (source : Option MetadataSource)
    (fallback : Fallback) : List ValidationIssue :=
  match result with
  | .passed => []
  | .failed => [⟨fallback.code, field, fallback.message, source⟩]
  | .issues list => list.map (normalizeIssue · field source)

def prefixIssues (issues : List ValidationIssue) (fieldPrefix : JsString) (source : Option MetadataSource) :
    List ValidationIssue :=
  issues.map fun issue =>
    { issue with field := some (joinFieldPath fieldPrefix issue.field), source := issue.source <|> source }

/-- `path[index]` -/
def indexed (path : JsString) (index : Nat) : JsString := path ++ text "[" ++ text (toString index) ++ text "]"

/-! ## Rules -/

/-- What a rule does; `ν` are the classes of nested objects. -/
inductive RuleKind (V ν : Type) where
  | optional
  | validateIf (condition : V → V → Bool)
  | custom (validate : V → V → PropertyKey → RuleResult) (source : Option MetadataSource)
  | nested (dto : ν)
  /-- The other kinds: a predicate, which `defined` and `empty` apply to missing values too. -/
  | predicate (validate : V → Bool) (onMissing : Bool)

structure DtoFieldValidationRule (V ν : Type) where
  kind : RuleKind V ν
  each : Bool
  /-- `describeValidator`, at a field path. -/
  describe : JsString → Fallback

/-- JavaScript values, and what the traversal makes of a nested object. -/
structure Values (V ν : Type) where
  /-- `value[key]` -/
  read : V → PropertyKey → V
  /-- `undefined` or `null` -/
  missing : V → Bool
  getIterableValues : V → Option (List V)
  /-- `entry instanceof dto` or a plain object. -/
  nestable : ν → V → Bool
  /-- The entry is being traversed already. -/
  active : V → Bool
  /-- The issues of a nested object under a path; a source that is `none` is
  inherited from the field. -/
  nestedIssues : ν → V → JsString → List ValidationIssue
  nested_named : ∀ dto entry path, ∀ issue ∈ nestedIssues dto entry path, issue.field.isSome = true
  undefined : V
  isPlainObject : V → Bool
  isSafeOwnEnumerableProperty : V → PropertyKey → Bool
  /-- What an object without properties reads. -/
  inherited : PropertyKey → V
  transformNestedCollectionValue : ν → V → V

section Evaluate

variable {V ν : Type} (js : Values V ν)

def getRuleValues (value : V) : List V := (js.getIterableValues value).getD [value]

def isOptional (rule : DtoFieldValidationRule V ν) : Bool :=
  match rule.kind with
  | .optional => true
  | _ => false

def shouldSkipRuleForMissingValue (rule : DtoFieldValidationRule V ν) (value : V) : Bool :=
  js.missing value &&
    match rule.kind with
    | .predicate _ onMissing => !onMissing
    | _ => true

def evaluateCustomRule (rule : DtoFieldValidationRule V ν) (validate : V → V → PropertyKey → RuleResult)
    (ruleSource : Option MetadataSource) (value dto : V) (propertyKey : PropertyKey) (fieldPath : JsString)
    (source : Option MetadataSource) : List ValidationIssue :=
  let fallback := rule.describe fieldPath
  if rule.each then
    (getRuleValues js value).zipIdx.flatMap fun (entry, index) =>
      prefixIssues (normalizeResult (validate entry dto propertyKey) none (ruleSource <|> source) fallback)
        (indexed fieldPath index) source
  else normalizeResult (validate value dto propertyKey) (some fieldPath) (ruleSource <|> source) fallback

def validateNestedRule (rule : DtoFieldValidationRule V ν) (resolvedDto : ν) (value : V) (fieldPath : JsString)
    (inheritedSource : Option MetadataSource) : List ValidationIssue :=
  let useIndexedPath := rule.each || (js.getIterableValues value).isSome
  (getRuleValues js value).zipIdx.flatMap fun (entry, index) =>
    let nestedPath := if useIndexedPath then indexed fieldPath index else fieldPath
    if js.missing entry then []
    else if !js.nestable resolvedDto entry || js.active entry then
      [buildIssue (rule.describe nestedPath) nestedPath inheritedSource]
    else (js.nestedIssues resolvedDto entry nestedPath).map fun issue =>
      { issue with source := issue.source <|> inheritedSource }

def evaluateRule (rule : DtoFieldValidationRule V ν) (value dto : V) (propertyKey : PropertyKey)
    (fieldPath : JsString) (source : Option MetadataSource) : List ValidationIssue :=
  match rule.kind with
  | .custom validate ruleSource => evaluateCustomRule js rule validate ruleSource value dto propertyKey fieldPath source
  | .nested resolvedDto => validateNestedRule js rule resolvedDto value fieldPath source
  | .predicate validate _ =>
    if rule.each then
      (getRuleValues js value).zipIdx.flatMap fun (entry, index) =>
        if validate entry then [] else [buildIssue (rule.describe fieldPath) (indexed fieldPath index) source]
    else if validate value then [] else [buildIssue (rule.describe fieldPath) fieldPath source]
  | .optional | .validateIf _ => []

def shouldConditionallySkip (rules : List (DtoFieldValidationRule V ν)) (dto value : V) : Bool :=
  rules.any fun rule =>
    match rule.kind with
    | .validateIf condition => !condition dto value
    | _ => false

/-- `optional` with a missing value, or a condition that does not hold. -/
def switchedOff (rules : List (DtoFieldValidationRule V ν)) (dto value : V) : Bool :=
  (rules.any isOptional && js.missing value) || shouldConditionallySkip rules dto value

def applyPropertyRules (rules : List (DtoFieldValidationRule V ν)) (value dto : V) (propertyKey : PropertyKey)
    (fieldPath : JsString) (source : Option MetadataSource) : List ValidationIssue :=
  if rules.any isOptional && js.missing value then []
  else
    rules.flatMap fun rule =>
      if shouldConditionallySkip rules dto value || shouldSkipRuleForMissingValue js rule value then []
      else evaluateRule js rule value dto propertyKey fieldPath source

end Evaluate

/-! ## The rules of a class -/

structure ClassValidationRule (V : Type) where
  validate : V → RuleResult
  fallback : Fallback

structure DtoFieldBindingMetadata where
  source : MetadataSource
  key : Option JsString
  optional : Option Bool

/-- What the metadata of a DTO class says: `getDtoBindingSchema`,
`getDtoValidationSchema`, where no field has an empty list, and
`getClassValidationRules`. -/
structure Dto (V ν : Type) where
  bindings : OrderedMap PropertyKey DtoFieldBindingMetadata
  validation : OrderedMap PropertyKey (List (DtoFieldValidationRule V ν))
  classRules : List (ClassValidationRule V)
  ruled : ∀ key rules, validation.get key = some rules → rules ≠ []

section Collect

variable {V ν : Type} (js : Values V ν)

/-- The path and the source that a nested traversal hands down. -/
structure ValidationContext where
  fieldPrefix : Option JsString
  inheritedSource : Option MetadataSource

def ValidationContext.fieldPath (context : ValidationContext) (key : PropertyKey) : JsString :=
  match context.fieldPrefix with
  | none => toFieldName key
  | some fieldPrefix => joinFieldPath fieldPrefix (some (toFieldName key))

def fieldIssues (dto : Dto V ν) (context : ValidationContext) (value : V) (key : PropertyKey)
    (rules : List (DtoFieldValidationRule V ν)) : List ValidationIssue :=
  applyPropertyRules js rules (js.read value key) value key (context.fieldPath key)
    ((dto.bindings.get key).map DtoFieldBindingMetadata.source <|> context.inheritedSource)

/-- The fields with their issues, in the order of the schema. -/
def fieldReport (dto : Dto V ν) (context : ValidationContext) (value : V) : List (PropertyKey × List ValidationIssue) :=
  dto.validation.entries.map fun (key, rules) => (key, fieldIssues js dto context value key rules)

def validateClassRule (rule : ClassValidationRule V) (value : V) : List ValidationIssue :=
  normalizeResult (rule.validate value) none none rule.fallback

def classIssues (dto : Dto V ν) (context : ValidationContext) (value : V) : List ValidationIssue :=
  dto.classRules.flatMap fun rule =>
    match context.fieldPrefix with
    | none => validateClassRule rule value
    | some fieldPrefix => prefixIssues (validateClassRule rule value) fieldPrefix context.inheritedSource

/-- `collectValidationIssuesInternal`, of a value that is not being traversed. -/
def collectValidationIssues (dto : Dto V ν) (context : ValidationContext) (value : V) : List ValidationIssue :=
  (fieldReport js dto context value).flatMap Prod.snd ++ classIssues dto context value

def passes (dto : Dto V ν) (context : ValidationContext) (value : V) : Prop :=
  collectValidationIssues js dto context value = []

end Collect

/-! ## The validator -/

/-- The instances of a class, none of which is a plain object. -/
structure DtoClass {V ν : Type} (js : Values V ν) where
  instanceOf : V → Bool
  build : (PropertyKey → V) → V
  read_build : ∀ properties key, js.read (build properties) key = properties key
  not_plain : ∀ value, instanceOf value = true → js.isPlainObject value = false

structure DtoConstructor {V ν : Type} (js : Values V ν) extends DtoClass js where
  dto : Dto V ν
  /-- What a new instance reads. -/
  initial : PropertyKey → V

section Validator

variable {V ν : Type} (js : Values V ν)

def buildInvalidRootIssue : ValidationIssue :=
  ⟨text "INVALID_DTO", none, text "DTO root value must be a plain object.", none⟩

def assertValidRootValue (value : V) (target : DtoConstructor js) : List ValidationIssue :=
  if target.instanceOf value || js.isPlainObject value then [] else [buildInvalidRootIssue]

/-- `DefaultValidator.validate`: the issues of the error that it throws, none when it
returns. -/
def validate (value : V) (target : DtoConstructor js) : List ValidationIssue :=
  match assertValidRootValue js value target with
  | [] => collectValidationIssues js target.dto ⟨none, none⟩ value
  | issues => issues

/-- `validate` does not throw. -/
def accepts (value : V) (target : DtoConstructor js) : Prop := validate js value target = []

/-- The classes of the nested rules of a field: `nestedDtoTransforms`. -/
def nestedTargets (rules : List (DtoFieldValidationRule V ν)) : List ν :=
  rules.filterMap fun rule =>
    match rule.kind with
    | .nested dto => some dto
    | _ => none

/-- A key of the request that the field is read from, the empty text is none. -/
def sourceKey (dto : Dto V ν) (key : PropertyKey) : Option JsString :=
  ((dto.bindings.get key).bind DtoFieldBindingMetadata.key).filter (· ≠ [])

variable [DecidableEq ν]

def transformField (rules : List (DtoFieldValidationRule V ν)) (current : V) : V :=
  (nestedTargets rules).foldl (fun current target =>
    if (nestedTargets rules).any (· ≠ target) || js.missing current then current
    else js.transformNestedCollectionValue target current) current

/-- The value of a field before nested objects are made: the initializer, then the
property of the payload, then the one of the source key. -/
def assignField (target : DtoConstructor js) (rawValue : V) (key : PropertyKey) : V :=
  let created := if target.instanceOf rawValue then js.read rawValue key else target.initial key
  if js.isPlainObject rawValue then
    match sourceKey target.dto key with
    | some name => js.read rawValue (.named name)
    | none => if js.isSafeOwnEnumerableProperty rawValue key then js.read rawValue key else created
  else created

/-- `createNestedDtoInstance` of a root that passes `assertValidRootValue`, where
undeclared properties are preserved. -/
def createDtoInstance (target : DtoConstructor js) (rawValue : V) : V :=
  target.build fun key =>
    match target.dto.validation.get key with
    | some rules => transformField js rules (assignField js target rawValue key)
    | none => assignField js target rawValue key

/-- `DefaultValidator.materialize`: it checks the instance that it makes. -/
def materialize (value : V) (target : DtoConstructor js) : List ValidationIssue :=
  match assertValidRootValue js value target with
  | [] => collectValidationIssues js target.dto ⟨none, none⟩ (createDtoInstance js target value)
  | issues => issues

end Validator

end Fluo.Validation
