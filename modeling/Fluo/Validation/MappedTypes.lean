import Fluo.Validation.Rules

/-!
# Mapped DTO types

`mapped-types.ts` copies metadata to a class of its own. What a derived class
reports for a plain payload follows from the fields of the classes it is derived
from, except that an intersection lets the rules of one class switch off those of
the other. An instance that is made of the payload has no defaults of these classes.
-/

namespace Fluo.Validation

open Js

variable {V ν : Type}

/-! ## The metadata of a derived class -/

structure StoredMetadata (V ν : Type) where
  bindings : OrderedMap PropertyKey DtoFieldBindingMetadata
  validation : OrderedMap PropertyKey (List (DtoFieldValidationRule V ν))
  classRules : List (ClassValidationRule V)

def StoredMetadata.empty : StoredMetadata V ν := ⟨.empty, .empty, []⟩

def appendDtoFieldValidationRule (stored : OrderedMap PropertyKey (List (DtoFieldValidationRule V ν)))
    (key : PropertyKey) (rule : DtoFieldValidationRule V ν) :
    OrderedMap PropertyKey (List (DtoFieldValidationRule V ν)) :=
  stored.set key ((stored.get key).getD [] ++ [rule])

def appendRules (stored : OrderedMap PropertyKey (List (DtoFieldValidationRule V ν)))
    (entry : PropertyKey × List (DtoFieldValidationRule V ν)) :
    OrderedMap PropertyKey (List (DtoFieldValidationRule V ν)) :=
  entry.2.foldl (appendDtoFieldValidationRule · entry.1 ·) stored

def copyDtoMetadata (source : Dto V ν) (target : StoredMetadata V ν) (keep : PropertyKey → Bool)
    (copyClassRules : Bool) : StoredMetadata V ν where
  bindings := (source.bindings.entries.filter fun entry => keep entry.1).foldl
    (fun stored entry => stored.set entry.1 entry.2) target.bindings
  validation := (source.validation.entries.filter fun entry => keep entry.1).foldl appendRules target.validation
  classRules := if copyClassRules then target.classRules ++ source.classRules else target.classRules

/-- The schemas of a class whose metadata is all stored. -/
def StoredMetadata.dto (stored : StoredMetadata V ν) : Dto V ν where
  bindings := stored.bindings
  validation := stored.validation.filter fun _ rules => rules ≠ []
  classRules := stored.classRules
  ruled key rules got := by simpa using (OrderedMap.get_filter_some.mp got).2

def pickedDto (base : Dto V ν) (keys : List PropertyKey) : Dto V ν :=
  (copyDtoMetadata base .empty (· ∈ keys) false).dto

def omittedDto (base : Dto V ν) (keys : List PropertyKey) : Dto V ν :=
  (copyDtoMetadata base .empty (· ∉ keys) false).dto

def intersectionDto (bases : List (Dto V ν)) : Dto V ν :=
  (bases.foldl (fun stored base => copyDtoMetadata base stored (fun _ => true) true) .empty).dto

/-- The rule that `PartialType` adds. -/
def optionalRule : DtoFieldValidationRule V ν :=
  { kind := .optional, each := false,
    describe := fun field => ⟨text "OPTIONAL", field ++ text " is optional."⟩ }

def partialRules (rules : List (DtoFieldValidationRule V ν)) : List (DtoFieldValidationRule V ν) :=
  if rules.any isOptional then rules else rules ++ [optionalRule]

def partialDto (base : Dto V ν) : Dto V ν :=
  StoredMetadata.dto {
    bindings := base.bindings.entries.foldl
      (fun stored entry => stored.set entry.1 { entry.2 with optional := some true }) .empty
    validation := base.validation.entries.foldl
      (fun stored entry => appendRules stored (entry.1, partialRules entry.2)) .empty
    classRules := [] }

/-! ## The derived classes -/

def collectDtoKeys (dto : Dto V ν) : List PropertyKey :=
  (OrderedSet.ofList (dto.bindings.keys ++ dto.validation.keys)).keys

section Derive

variable (js : Values V ν)

/-- A class whose constructor sets the keys to `undefined`. -/
def createDerivedDto (derived : DtoClass js) (dto : Dto V ν) (keys : List PropertyKey) : DtoConstructor js :=
  { derived with dto, initial := fun key => if key ∈ keys then js.undefined else js.inherited key }

variable {js}

def pickType (derived : DtoClass js) (base : DtoConstructor js) (keys : List PropertyKey) : DtoConstructor js :=
  createDerivedDto js derived (pickedDto base.dto keys) ((collectDtoKeys base.dto).filter (· ∈ keys))

def omitType (derived : DtoClass js) (base : DtoConstructor js) (keys : List PropertyKey) : DtoConstructor js :=
  createDerivedDto js derived (omittedDto base.dto keys) ((collectDtoKeys base.dto).filter (· ∉ keys))

def intersectionType (derived : DtoClass js) (bases : List (DtoConstructor js)) : DtoConstructor js :=
  createDerivedDto js derived (intersectionDto (bases.map DtoConstructor.dto))
    (bases.flatMap fun base => collectDtoKeys base.dto)

def partialType (derived : DtoClass js) (base : DtoConstructor js) : DtoConstructor js :=
  createDerivedDto js derived (partialDto base.dto) (collectDtoKeys base.dto)

end Derive

/-! ## What is copied -/

theorem appendRules_eq {key : PropertyKey} {rules : List (DtoFieldValidationRule V ν)} (some_ : rules ≠ [])
    (stored : OrderedMap PropertyKey (List (DtoFieldValidationRule V ν))) :
    appendRules stored (key, rules) = stored.set key ((stored.get key).getD [] ++ rules) := by
  induction rules generalizing stored with
  | nil => exact absurd rfl some_
  | cons rule rest ih =>
    by_cases last : rest = []
    · subst last
      rfl
    · have step : appendRules stored (key, rule :: rest) =
          appendRules (appendDtoFieldValidationRule stored key rule) (key, rest) := rfl
      rw [step, ih last, appendDtoFieldValidationRule, OrderedMap.get_set_self, OrderedMap.set_set]
      simp

theorem entries_ruled (base : Dto V ν) {entry : PropertyKey × List (DtoFieldValidationRule V ν)}
    (mem : entry ∈ base.validation.entries) : entry.2 ≠ [] :=
  base.ruled entry.1 entry.2 (OrderedMap.mem_entries.mp mem)

/-- A schema that is copied to an empty class, each rule list changed by `f`. -/
theorem entries_copied {f : List (DtoFieldValidationRule V ν) → List (DtoFieldValidationRule V ν)}
    (l : List (PropertyKey × List (DtoFieldValidationRule V ν))) (distinct : (l.map Prod.fst).Nodup)
    (ruled : ∀ entry ∈ l, f entry.2 ≠ []) :
    ((l.foldl (fun stored entry => appendRules stored (entry.1, f entry.2)) OrderedMap.empty).filter
      fun _ rules => rules ≠ []).entries = l.map fun entry => (entry.1, f entry.2) := by
  have all := OrderedMap.entries_foldl_of_absent
    (fun stored entry => appendRules stored (entry.1, f entry.2)) f l (fun m entry mem absent => by
      rw [appendRules_eq (ruled entry mem), absent]
      rfl) OrderedMap.empty distinct fun _ _ => rfl
  show List.filter _ (List.foldl _ OrderedMap.empty l).entries = _
  rw [all]
  refine List.filter_eq_self.mpr fun entry mem => ?_
  obtain ⟨source, inside, rfl⟩ := List.mem_map.mp mem
  simpa using ruled source inside

section Subset

variable (base : Dto V ν) (keep : PropertyKey → Bool)

theorem copied_validation :
    (copyDtoMetadata base .empty keep false).dto.validation.entries =
      base.validation.entries.filter fun entry => keep entry.1 := by
  have distinct : ((base.validation.entries.filter fun entry => keep entry.1).map Prod.fst).Nodup :=
    base.validation.distinct.sublist (List.filter_sublist.map Prod.fst)
  have copied := entries_copied (f := id) (base.validation.entries.filter fun entry => keep entry.1) distinct
    fun entry mem => entries_ruled base (List.mem_of_mem_filter mem)
  exact copied.trans (by simp)

theorem copied_bindings {key : PropertyKey} (kept : keep key = true) :
    (copyDtoMetadata base .empty keep false).dto.bindings.get key = base.bindings.get key := by
  have copied : ((base.bindings.entries.filter fun entry => keep entry.1).foldl
      (fun stored entry => stored.set entry.1 entry.2) OrderedMap.empty).entries =
      (base.bindings.filter fun k _ => keep k).entries := by
    have distinct : ((base.bindings.entries.filter fun entry => keep entry.1).map Prod.fst).Nodup :=
      base.bindings.distinct.sublist (List.filter_sublist.map Prod.fst)
    have all := OrderedMap.entries_foldl_of_absent (fun stored entry => stored.set entry.1 entry.2) id
      (base.bindings.entries.filter fun entry => keep entry.1) (fun _ _ _ _ => rfl) OrderedMap.empty distinct
      fun _ _ => rfl
    exact all.trans (by simp [OrderedMap.empty, OrderedMap.filter])
  have same : (copyDtoMetadata base .empty keep false).dto.bindings.get key =
      (base.bindings.filter fun k _ => keep k).get key := congrArg (OrderedMap.find key) copied
  rw [same]
  exact OrderedMap.get_filter_of_kept fun _ _ => kept

/-- A class with a subset of the fields reports the issues of these fields. -/
theorem fieldReport_copied (js : Values V ν) (context : ValidationContext) (value : V) :
    fieldReport js (copyDtoMetadata base .empty keep false).dto context value =
      (fieldReport js base context value).filter fun field => keep field.1 := by
  rw [fieldReport, fieldReport, copied_validation, List.filter_map]
  refine List.map_congr_left fun entry mem => ?_
  have kept : keep entry.1 = true := (List.mem_filter.mp mem).2
  simp only [fieldIssues, copied_bindings base keep kept]

end Subset

/-! ## Optional fields -/

section Partial

variable (js : Values V ν)

theorem any_optional_partialRules (rules : List (DtoFieldValidationRule V ν)) :
    (partialRules rules).any isOptional = true := by
  rw [partialRules]
  split
  · assumption
  · rw [List.any_append]
    simp [optionalRule, isOptional]

theorem shouldConditionallySkip_append (rules others : List (DtoFieldValidationRule V ν)) (dto value : V) :
    shouldConditionallySkip (rules ++ others) dto value =
      (shouldConditionallySkip rules dto value || shouldConditionallySkip others dto value) :=
  List.any_append

theorem applyPropertyRules_partial (rules : List (DtoFieldValidationRule V ν)) (value dto : V) (key : PropertyKey)
    (path : JsString) (source : Option MetadataSource) :
    applyPropertyRules js (partialRules rules) value dto key path source =
      if js.missing value then [] else applyPropertyRules js rules value dto key path source := by
  rw [applyPropertyRules, any_optional_partialRules]
  cases missing : js.missing value with
  | true => rfl
  | false =>
    simp only [applyPropertyRules, missing, Bool.and_false, Bool.false_eq_true, ↓reduceIte]
    rw [partialRules]
    split
    · rfl
    · have same : shouldConditionallySkip (rules ++ [optionalRule]) dto value = shouldConditionallySkip rules dto value := by
        rw [shouldConditionallySkip_append]
        simp [shouldConditionallySkip, optionalRule]
      rw [List.flatMap_append, same]
      simp [optionalRule, evaluateRule]

theorem partial_validation (base : Dto V ν) :
    (partialDto base).validation.entries = base.validation.entries.map fun entry => (entry.1, partialRules entry.2) := by
  refine entries_copied (f := partialRules) base.validation.entries base.validation.distinct fun entry mem empty => ?_
  have some_ := any_optional_partialRules entry.2
  rw [empty] at some_
  cases some_

theorem partial_binding (base : Dto V ν) (key : PropertyKey) :
    (partialDto base).bindings.get key = (base.bindings.get key).map fun binding => { binding with optional := some true } := by
  let soften (binding : DtoFieldBindingMetadata) : DtoFieldBindingMetadata := { binding with optional := some true }
  have all := OrderedMap.entries_foldl_of_absent (fun stored entry => stored.set entry.1 (soften entry.2)) soften
    base.bindings.entries (fun _ _ _ _ => rfl) OrderedMap.empty base.bindings.distinct fun _ _ => rfl
  exact (congrArg (OrderedMap.find key) all).trans (OrderedMap.find_map soften key base.bindings.entries)

theorem partial_source (base : Dto V ν) (key : PropertyKey) :
    ((partialDto base).bindings.get key).map DtoFieldBindingMetadata.source =
      (base.bindings.get key).map DtoFieldBindingMetadata.source := by
  rw [partial_binding, Option.map_map]
  rfl

theorem fieldReport_partial (base : Dto V ν) (context : ValidationContext) (value : V) :
    fieldReport js (partialDto base) context value =
      (fieldReport js base context value).map fun field =>
        (field.1, if js.missing (js.read value field.1) then [] else field.2) := by
  rw [fieldReport, fieldReport, partial_validation, List.map_map, List.map_map]
  refine List.map_congr_left fun entry _ => ?_
  simp only [Function.comp, fieldIssues, applyPropertyRules_partial, partial_source]

end Partial

/-! ## Intersections -/

section Issues

variable (js : Values V ν)

theorem normalizeResult_nil (result : RuleResult) (field : Option JsString) (source other : Option MetadataSource)
    (fallback : Fallback) :
    normalizeResult result field source fallback = [] ↔ normalizeResult result field other fallback = [] := by
  cases result <;> simp [normalizeResult]

/-- The source of a field is written into its issues and decides nothing. -/
theorem evaluateRule_nil (rule : DtoFieldValidationRule V ν) (value dto : V) (key : PropertyKey) (path : JsString)
    (source other : Option MetadataSource) :
    evaluateRule js rule value dto key path source = [] ↔ evaluateRule js rule value dto key path other = [] := by
  cases kind : rule.kind with
  | optional => simp [evaluateRule, kind]
  | validateIf condition => simp [evaluateRule, kind]
  | custom validate ruleSource =>
    simp only [evaluateRule, kind, evaluateCustomRule]
    split
    · simp only [List.flatMap_eq_nil_iff, prefixIssues, List.map_eq_nil_iff]
      exact forall₂_congr fun entry _ => normalizeResult_nil _ _ _ _ _
    · exact normalizeResult_nil _ _ _ _ _
  | nested resolvedDto =>
    simp only [evaluateRule, kind, validateNestedRule, List.flatMap_eq_nil_iff]
    refine forall₂_congr fun entry _ => ?_
    split
    · rfl
    · split
      · simp
      · simp
  | predicate validate onMissing =>
    simp only [evaluateRule, kind]
    split
    · simp only [List.flatMap_eq_nil_iff]
      refine forall₂_congr fun entry _ => ?_
      split <;> simp
    · split <;> simp

theorem applyPropertyRules_nil (rules : List (DtoFieldValidationRule V ν)) (value dto : V) (key : PropertyKey)
    (path : JsString) (source : Option MetadataSource) :
    applyPropertyRules js rules value dto key path source = [] ↔
      switchedOff js rules dto value = true ∨
        ∀ rule ∈ rules, shouldSkipRuleForMissingValue js rule value = true ∨
          evaluateRule js rule value dto key path none = [] := by
  rw [applyPropertyRules, switchedOff]
  by_cases optional : (rules.any isOptional && js.missing value) = true
  · simp [optional]
  · cases skip : shouldConditionallySkip rules dto value with
    | true => simp
    | false =>
      simp only [optional, ↓reduceIte, Bool.false_or, List.flatMap_eq_nil_iff, Bool.or_false, Bool.false_eq_true,
        false_or]
      refine forall₂_congr fun rule _ => ?_
      split
      · next skipped => simp [skipped]
      · next checked =>
        rw [evaluateRule_nil js rule value dto key path source none]
        simp [checked]

theorem switchedOff_append (rules others : List (DtoFieldValidationRule V ν)) (dto value : V) :
    switchedOff js (rules ++ others) dto value = (switchedOff js rules dto value || switchedOff js others dto value) := by
  simp only [switchedOff, List.any_append, shouldConditionallySkip_append]
  cases js.missing value <;> cases rules.any isOptional <;> cases others.any isOptional <;>
    cases shouldConditionallySkip rules dto value <;> simp

/-- A field of a class that a value does not pass. -/
def Rejects (dto : Dto V ν) (context : ValidationContext) (value : V) (key : PropertyKey) : Prop :=
  ∃ rules, dto.validation.get key = some rules ∧ fieldIssues js dto context value key rules ≠ []

/-- The rules of a class switch a field off for a value. -/
def Off (dto : Dto V ν) (value : V) (key : PropertyKey) : Prop :=
  ∃ rules, dto.validation.get key = some rules ∧ switchedOff js rules value (js.read value key) = true

theorem passes_iff (dto : Dto V ν) (context : ValidationContext) (value : V) :
    passes js dto context value ↔
      (∀ key, ¬ Rejects js dto context value key) ∧ classIssues dto context value = [] := by
  rw [passes, collectValidationIssues, List.append_eq_nil_iff, List.flatMap_eq_nil_iff]
  refine and_congr_left fun _ => ⟨?_, ?_⟩
  · rintro none_ key ⟨rules, got, some_⟩
    exact some_ (none_ (key, _) (List.mem_map.mpr ⟨(key, rules), OrderedMap.mem_entries.mpr got, rfl⟩))
  · rintro passes field mem
    obtain ⟨⟨key, rules⟩, inside, rfl⟩ := List.mem_map.mp mem
    by_contra some_
    exact passes key ⟨rules, OrderedMap.mem_entries.mp inside, some_⟩

/-- What makes a field reject: no rule switches it off, and one fails. -/
def Fails (rules : List (DtoFieldValidationRule V ν)) (context : ValidationContext) (value : V) (key : PropertyKey) : Prop :=
  ∃ rule ∈ rules, shouldSkipRuleForMissingValue js rule (js.read value key) = false ∧
    evaluateRule js rule (js.read value key) value key (context.fieldPath key) none ≠ []

theorem fieldIssues_ne_nil (dto : Dto V ν) (context : ValidationContext) (value : V) (key : PropertyKey)
    (rules : List (DtoFieldValidationRule V ν)) :
    fieldIssues js dto context value key rules ≠ [] ↔
      switchedOff js rules value (js.read value key) = false ∧ Fails js rules context value key := by
  rw [fieldIssues, ne_eq, applyPropertyRules_nil, not_or, Bool.not_eq_true, Fails]
  refine and_congr_right fun _ => ?_
  simp only [not_forall, not_or, Bool.not_eq_true, exists_prop]

theorem fails_append (rules others : List (DtoFieldValidationRule V ν)) (context : ValidationContext) (value : V)
    (key : PropertyKey) :
    Fails js (rules ++ others) context value key ↔ Fails js rules context value key ∨ Fails js others context value key := by
  simp only [Fails, List.mem_append, or_and_right, exists_or]

end Issues

theorem get_foldl_appendRules (l : List (PropertyKey × List (DtoFieldValidationRule V ν)))
    (distinct : (l.map Prod.fst).Nodup) (ruled : ∀ entry ∈ l, entry.2 ≠ [])
    (stored : OrderedMap PropertyKey (List (DtoFieldValidationRule V ν))) (key : PropertyKey) :
    (l.foldl appendRules stored).get key =
      (OrderedMap.find key l).elim (stored.get key) fun rules => some ((stored.get key).getD [] ++ rules) := by
  have merged : l.foldl appendRules stored =
      l.foldl (fun stored entry => stored.set entry.1 ((stored.get entry.1).getD [] ++ entry.2)) stored :=
    List.foldl_ext _ _ _ fun stored entry mem => appendRules_eq (ruled entry mem) stored
  rw [merged]
  exact OrderedMap.get_foldl_merge (fun current rules => current.getD [] ++ rules) l distinct stored key

section Intersection

variable (js : Values V ν) (a b : Dto V ν) (context : ValidationContext) (value : V)

theorem intersection_get (key : PropertyKey) :
    (intersectionDto [a, b]).validation.get key =
      match a.validation.get key, b.validation.get key with
      | none, none => none
      | some rules, none => some rules
      | none, some others => some others
      | some rules, some others => some (rules ++ others) := by
  have copied : ∀ (base : Dto V ν) (stored : OrderedMap PropertyKey (List (DtoFieldValidationRule V ν))),
      ((base.validation.entries.filter fun _ => true).foldl appendRules stored).get key =
        (base.validation.get key).elim (stored.get key) fun rules => some ((stored.get key).getD [] ++ rules) := by
    intro base stored
    rw [List.filter_true]
    exact get_foldl_appendRules _ base.validation.distinct (fun entry mem => entries_ruled base mem) stored key
  let first := (a.validation.entries.filter fun _ => true).foldl appendRules OrderedMap.empty
  let both := (b.validation.entries.filter fun _ => true).foldl appendRules first
  have stored : both.get key =
      match a.validation.get key, b.validation.get key with
      | none, none => none
      | some rules, none => some rules
      | none, some others => some others
      | some rules, some others => some (rules ++ others) := by
    rw [copied b first, copied a OrderedMap.empty]
    cases a.validation.get key <;> cases b.validation.get key <;> rfl
  refine Eq.trans (OrderedMap.get_filter_of_kept fun rules got => ?_) stored
  rw [show both.get key = some rules from got] at stored
  have some_ : rules ≠ [] := by
    cases inA : a.validation.get key with
    | none =>
      cases inB : b.validation.get key with
      | none => rw [inA, inB] at stored; cases stored
      | some others => rw [inA, inB] at stored; cases stored; exact b.ruled key rules inB
    | some mine =>
      have first_ : mine ≠ [] := a.ruled key mine inA
      cases inB : b.validation.get key with
      | none => rw [inA, inB] at stored; cases stored; exact first_
      | some others =>
        rw [inA, inB] at stored
        cases stored
        exact fun empty => first_ (List.append_eq_nil_iff.mp empty).1
  simpa using some_

theorem intersection_rejects (key : PropertyKey) :
    Rejects js (intersectionDto [a, b]) context value key ↔
      (Rejects js a context value key ∧ ¬ Off js b value key) ∨ (Rejects js b context value key ∧ ¬ Off js a value key) := by
  simp only [Rejects, Off, fieldIssues_ne_nil, intersection_get]
  cases a.validation.get key with
  | none =>
    cases b.validation.get key with
    | none => simp
    | some others => simp
  | some rules =>
    cases b.validation.get key with
    | none => simp
    | some others =>
      simp only [Option.some.injEq, exists_eq_left', switchedOff_append, fails_append, Bool.or_eq_false_iff,
        Bool.not_eq_true]
      tauto

theorem intersection_classIssues :
    classIssues (intersectionDto [a, b]) context value = classIssues a context value ++ classIssues b context value := by
  have rules : (intersectionDto [a, b]).classRules = a.classRules ++ b.classRules := rfl
  rw [classIssues, rules, List.flatMap_append]
  rfl

/-- A field that one class rejects while the rules of the other switch it off. -/
def Silenced (key : PropertyKey) : Prop :=
  (Rejects js a context value key ∧ Off js b value key) ∨ (Rejects js b context value key ∧ Off js a value key)

/-- A field that one class rejects and the other does not switch off. -/
def Heard (key : PropertyKey) : Prop :=
  (Rejects js a context value key ∧ ¬ Off js b value key) ∨ (Rejects js b context value key ∧ ¬ Off js a value key)

/-- Silenced fields are not the only reason to reject the value. -/
def HeardIfSilenced : Prop :=
  (∃ key, Silenced js a b context value key) →
    (∃ key, Heard js a b context value key) ∨ classIssues a context value ≠ [] ∨ classIssues b context value ≠ []

theorem intersection_passes_iff :
    (passes js (intersectionDto [a, b]) context value ↔ passes js a context value ∧ passes js b context value) ↔
      HeardIfSilenced js a b context value := by
  simp only [passes_iff, intersection_rejects, intersection_classIssues, List.append_eq_nil_iff, HeardIfSilenced]
  by_cases classes : classIssues a context value = [] ∧ classIssues b context value = []
  · obtain ⟨noneA, noneB⟩ := classes
    simp only [noneA, noneB, and_self, and_true, ne_eq, not_true_eq_false, or_false]
    constructor
    · rintro same ⟨key, silenced⟩
      by_contra unheard
      have both := same.mp fun k heard => unheard ⟨k, heard⟩
      exact silenced.elim (fun r => both.1 key r.1) fun r => both.2 key r.1
    · intro heard
      refine ⟨fun passes => ?_, fun both key => ?_⟩
      · have loud : ∀ key, ¬ Silenced js a b context value key := by
          intro key silenced
          obtain ⟨k, rejected⟩ := heard ⟨key, silenced⟩
          exact passes k rejected
        refine ⟨fun key rejected => ?_, fun key rejected => ?_⟩
        · by_cases off : Off js b value key
          · exact loud key (.inl ⟨rejected, off⟩)
          · exact passes key (.inl ⟨rejected, off⟩)
        · by_cases off : Off js a value key
          · exact loud key (.inr ⟨rejected, off⟩)
          · exact passes key (.inr ⟨rejected, off⟩)
      · rintro (rejected | rejected)
        · exact both.1 key rejected.1
        · exact both.2 key rejected.1
  · constructor
    · intro _ _
      by_contra quiet
      simp only [not_or, not_not] at quiet
      exact classes quiet.2
    · intro _
      tauto

end Intersection

/-! ## What the derived types report -/

/-- Only the issues of fields that are kept, and none of the class. -/
theorem collect_copied (js : Values V ν) (base : Dto V ν) (keep : PropertyKey → Bool) (context : ValidationContext)
    (value : V) :
    collectValidationIssues js (copyDtoMetadata base .empty keep false).dto context value =
      ((fieldReport js base context value).filter fun field => keep field.1).flatMap Prod.snd := by
  rw [collectValidationIssues, fieldReport_copied]
  exact List.append_nil _

theorem flatMap_present (js : Values V ν) (value : V) (report : List (PropertyKey × List ValidationIssue)) :
    (report.map fun field => (field.1, if js.missing (js.read value field.1) then [] else field.2)).flatMap Prod.snd =
      (report.filter fun field => !js.missing (js.read value field.1)).flatMap Prod.snd := by
  induction report with
  | nil => rfl
  | cons field rest ih =>
    cases missing : js.missing (js.read value field.1) <;> simp [missing, ih]

theorem collect_partialDto (js : Values V ν) (base : Dto V ν) (context : ValidationContext) (value : V) :
    collectValidationIssues js (partialDto base) context value =
      ((fieldReport js base context value).filter fun field => !js.missing (js.read value field.1)).flatMap Prod.snd := by
  rw [collectValidationIssues, fieldReport_partial, flatMap_present]
  exact List.append_nil _

/-! ## Issues of fields -/

section Named

variable (js : Values V ν)

theorem normalizeResult_named {result : RuleResult} {field : JsString} {source : Option MetadataSource}
    {fallback : Fallback} {issue : ValidationIssue}
    (mem : issue ∈ normalizeResult result (some field) source fallback) : issue.field.isSome = true := by
  cases result with
  | passed => cases mem
  | failed =>
    cases List.mem_singleton.mp mem
    rfl
  | issues list =>
    obtain ⟨given, -, rfl⟩ := List.mem_map.mp mem
    cases named : given.field <;> simp [normalizeIssue, named]

theorem evaluateRule_named {rule : DtoFieldValidationRule V ν} {value dto : V} {key : PropertyKey} {path : JsString}
    {source : Option MetadataSource} {issue : ValidationIssue}
    (mem : issue ∈ evaluateRule js rule value dto key path source) : issue.field.isSome = true := by
  cases kind : rule.kind with
  | optional =>
    rw [evaluateRule, kind] at mem
    cases mem
  | validateIf condition =>
    rw [evaluateRule, kind] at mem
    cases mem
  | custom validate ruleSource =>
    simp only [evaluateRule, kind, evaluateCustomRule] at mem
    split at mem
    · obtain ⟨entry, -, mem⟩ := List.mem_flatMap.mp mem
      obtain ⟨given, -, rfl⟩ := List.mem_map.mp mem
      rfl
    · exact normalizeResult_named mem
  | nested resolvedDto =>
    simp only [evaluateRule, kind, validateNestedRule] at mem
    obtain ⟨entry, -, mem⟩ := List.mem_flatMap.mp mem
    split at mem
    · cases mem
    · split at mem
      · cases List.mem_singleton.mp mem
        rfl
      · obtain ⟨given, inside, rfl⟩ := List.mem_map.mp mem
        exact js.nested_named _ _ _ given inside
  | predicate validate onMissing =>
    simp only [evaluateRule, kind] at mem
    split at mem
    · obtain ⟨entry, -, mem⟩ := List.mem_flatMap.mp mem
      split at mem
      · cases mem
      · cases List.mem_singleton.mp mem
        rfl
    · split at mem
      · cases mem
      · cases List.mem_singleton.mp mem
        rfl

theorem fieldReport_named {dto : Dto V ν} {context : ValidationContext} {value : V}
    {field : PropertyKey × List ValidationIssue} (mem : field ∈ fieldReport js dto context value)
    {issue : ValidationIssue} (inside : issue ∈ field.2) : issue.field.isSome = true := by
  obtain ⟨entry, -, rfl⟩ := List.mem_map.mp mem
  simp only [fieldIssues, applyPropertyRules] at inside
  split at inside
  · cases inside
  · obtain ⟨rule, -, inside⟩ := List.mem_flatMap.mp inside
    split at inside
    · cases inside
    · exact evaluateRule_named js inside

/-- The issues that the kept fields of a class report for a value. -/
def issuesOf (dto : Dto V ν) (value : V) (keep : PropertyKey → Bool) : List ValidationIssue :=
  ((fieldReport js dto ⟨none, none⟩ value).filter fun field => keep field.1).flatMap Prod.snd

/-- `INVALID_DTO` names no field. -/
theorem issuesOf_ne_root (dto : Dto V ν) (value : V) (keep : PropertyKey → Bool) :
    [buildInvalidRootIssue] ≠ issuesOf js dto value keep := by
  intro same
  have mem : buildInvalidRootIssue ∈ issuesOf js dto value keep := same ▸ List.mem_singleton_self _
  obtain ⟨field, reported, inside⟩ := List.mem_flatMap.mp mem
  have named := fieldReport_named js (List.mem_of_mem_filter reported) inside
  cases named

end Named

/-! ## Instances -/

section Instances

variable {js : Values V ν}

/-- The payload, or no initializer, decides what the field of an instance is. -/
def Provided (base : DtoConstructor js) (value : V) (key : PropertyKey) : Prop :=
  (sourceKey base.dto key).isSome = true ∨ js.isSafeOwnEnumerableProperty value key = true ∨
    base.initial key = js.undefined

/-- A rule that looks beyond its field finds the same in both objects. -/
def RuleKind.SameFor (x y : V) : RuleKind V ν → Prop
  | .custom validate _ => ∀ value key, validate value x key = validate value y key
  | .validateIf condition => ∀ value, condition x value = condition y value
  | _ => True

/-- The fields that a derived class keeps have the values that they have in an
instance of the base class, and their rules tell the two instances apart by nothing else. -/
structure Alike [DecidableEq ν] (base derived : DtoConstructor js) (value : V) (keep : PropertyKey → Bool) : Prop where
  provided : ∀ key rules, base.dto.validation.get key = some rules → keep key = true → Provided base value key
  unaware : ∀ key rules, base.dto.validation.get key = some rules → keep key = true → ∀ rule ∈ rules,
    rule.kind.SameFor (createDtoInstance js derived value) (createDtoInstance js base value)

theorem evaluateRule_sameFor {rule : DtoFieldValidationRule V ν} {x y : V} (same : rule.kind.SameFor x y) (value : V)
    (key : PropertyKey) (path : JsString) (source : Option MetadataSource) :
    evaluateRule js rule value x key path source = evaluateRule js rule value y key path source := by
  cases kind : rule.kind with
  | custom validate ruleSource =>
    rw [kind] at same
    have same : ∀ value key, validate value x key = validate value y key := same
    simp only [evaluateRule, kind, evaluateCustomRule, same]
  | _ => simp only [evaluateRule, kind]

theorem shouldConditionallySkip_sameFor {rules : List (DtoFieldValidationRule V ν)} {x y : V}
    (same : ∀ rule ∈ rules, rule.kind.SameFor x y) (value : V) :
    shouldConditionallySkip rules x value = shouldConditionallySkip rules y value := by
  induction rules with
  | nil => rfl
  | cons rule rest ih =>
    have first : shouldConditionallySkip [rule] x value = shouldConditionallySkip [rule] y value := by
      have alike := same rule List.mem_cons_self
      cases kind : rule.kind with
      | validateIf condition =>
        rw [kind] at alike
        have alike : ∀ value, condition x value = condition y value := alike
        simp only [shouldConditionallySkip, List.any_cons, List.any_nil, kind, alike]
      | _ => simp only [shouldConditionallySkip, List.any_cons, List.any_nil, kind]
    have both := congrArg₂ (· || ·) first (ih fun r mem => same r (List.mem_cons_of_mem _ mem))
    rw [← List.singleton_append, shouldConditionallySkip_append, shouldConditionallySkip_append]
    exact both

theorem applyPropertyRules_sameFor {rules : List (DtoFieldValidationRule V ν)} {x y : V}
    (same : ∀ rule ∈ rules, rule.kind.SameFor x y) (value : V) (key : PropertyKey) (path : JsString)
    (source : Option MetadataSource) :
    applyPropertyRules js rules value x key path source = applyPropertyRules js rules value y key path source := by
  rw [applyPropertyRules, applyPropertyRules, shouldConditionallySkip_sameFor same]
  split
  · rfl
  · refine List.flatMap_congr fun rule mem => ?_
    rw [evaluateRule_sameFor (same rule mem)]

theorem issuesOf_alike {dto : Dto V ν} {x y : V} {keep keep' : PropertyKey → Bool}
    (kept : ∀ key rules, dto.validation.get key = some rules → keep key = keep' key)
    (reads : ∀ key rules, dto.validation.get key = some rules → keep key = true → js.read x key = js.read y key)
    (same : ∀ key rules, dto.validation.get key = some rules → keep key = true →
      ∀ rule ∈ rules, rule.kind.SameFor x y) :
    issuesOf js dto x keep = issuesOf js dto y keep' := by
  rw [issuesOf, issuesOf, fieldReport, fieldReport, List.filter_map, List.filter_map, List.flatMap_map, List.flatMap_map]
  have chosen : dto.validation.entries.filter ((fun field => keep field.1) ∘ fun entry =>
        (entry.1, fieldIssues js dto ⟨none, none⟩ x entry.1 entry.2)) =
      dto.validation.entries.filter ((fun field => keep' field.1) ∘ fun entry =>
        (entry.1, fieldIssues js dto ⟨none, none⟩ y entry.1 entry.2)) :=
    List.filter_congr fun entry mem => kept entry.1 entry.2 (OrderedMap.mem_entries.mp mem)
  rw [← chosen]
  refine List.flatMap_congr fun entry mem => ?_
  obtain ⟨inside, keeps⟩ := List.mem_filter.mp mem
  have got := OrderedMap.mem_entries.mp inside
  have keeps : keep entry.1 = true := keeps
  simp only [fieldIssues, reads _ _ got keeps, applyPropertyRules_sameFor (same _ _ got keeps)]

theorem read_createDtoInstance [DecidableEq ν] (target : DtoConstructor js) (value : V) (key : PropertyKey)
    {rules : List (DtoFieldValidationRule V ν)} (got : target.dto.validation.get key = some rules) :
    js.read (createDtoInstance js target value) key = transformField js rules (assignField js target value key) := by
  rw [createDtoInstance, target.read_build]
  simp only [got]

theorem assignField_provided {base derived : DtoConstructor js} {value : V} {key : PropertyKey}
    (plain : js.isPlainObject value = true) (source : sourceKey derived.dto key = sourceKey base.dto key)
    (cleared : derived.initial key = js.undefined) (provided : Provided base value key) :
    assignField js derived value key = assignField js base value key := by
  have foreign (target : DtoConstructor js) : target.instanceOf value = false := by
    cases made : target.instanceOf value with
    | false => rfl
    | true => exact absurd plain (by rw [target.not_plain value made]; decide)
  simp only [assignField, foreign, plain, ↓reduceIte, source, Bool.false_eq_true]
  cases from_ : sourceKey base.dto key with
  | some name => rfl
  | none =>
    dsimp only
    by_cases own : js.isSafeOwnEnumerableProperty value key = true
    · rw [if_pos own, if_pos own]
    · rw [if_neg own, if_neg own, cleared]
      rcases provided with named | copied | blank
      · rw [from_] at named
        cases named
      · exact absurd copied own
      · exact blank.symm

/-- A field that a derived class keeps, whose nested classes are those of the base. -/
theorem read_kept [DecidableEq ν] {base derived : DtoConstructor js} {value : V} {key : PropertyKey}
    {rules rules' : List (DtoFieldValidationRule V ν)} (plain : js.isPlainObject value = true)
    (got : base.dto.validation.get key = some rules) (got' : derived.dto.validation.get key = some rules')
    (targets : nestedTargets rules' = nestedTargets rules)
    (source : sourceKey derived.dto key = sourceKey base.dto key)
    (cleared : derived.initial key = js.undefined) (provided : Provided base value key) :
    js.read (createDtoInstance js derived value) key = js.read (createDtoInstance js base value) key := by
  rw [read_createDtoInstance _ _ _ got, read_createDtoInstance _ _ _ got', assignField_provided plain source cleared provided,
    transformField, transformField, targets]

theorem mem_collectDtoKeys {dto : Dto V ν} {key : PropertyKey} {rules : List (DtoFieldValidationRule V ν)}
    (got : dto.validation.get key = some rules) : key ∈ collectDtoKeys dto := by
  refine OrderedSet.mem_ofList_keys.mpr (List.mem_append_right _ ?_)
  exact List.mem_map.mpr ⟨(key, rules), OrderedMap.mem_entries.mpr got, rfl⟩

end Instances

theorem nestedTargets_partialRules (rules : List (DtoFieldValidationRule V ν)) :
    nestedTargets (partialRules rules) = nestedTargets rules := by
  rw [partialRules]
  split
  · rfl
  · rw [nestedTargets, List.filterMap_append]
    exact List.append_nil _

section Made

variable {js : Values V ν} [DecidableEq ν] {derived : DtoClass js} {base : DtoConstructor js} {value : V}

/-- A class that keeps some fields, checked on the instance that it makes. -/
theorem issuesOf_copied {keep : PropertyKey → Bool} {made : DtoConstructor js} (plain : js.isPlainObject value = true)
    (dto : made.dto = (copyDtoMetadata base.dto .empty keep false).dto)
    (cleared : ∀ key, key ∈ collectDtoKeys base.dto → keep key = true → made.initial key = js.undefined)
    (alike : Alike base made value keep) :
    issuesOf js base.dto (createDtoInstance js made value) keep = issuesOf js base.dto (createDtoInstance js base value) keep := by
  refine issuesOf_alike (fun _ _ _ => rfl) (fun key rules got keeps => ?_) alike.unaware
  have copied : made.dto.validation.get key = some rules := by
    rw [dto]
    refine OrderedMap.mem_entries.mp ?_
    rw [copied_validation]
    exact List.mem_filter.mpr ⟨OrderedMap.mem_entries.mpr got, keeps⟩
  have source : sourceKey made.dto key = sourceKey base.dto key := by
    rw [sourceKey, dto, copied_bindings base.dto keep keeps, sourceKey]
  exact read_kept plain got copied rfl source (cleared key (mem_collectDtoKeys got) keeps) (alike.provided key rules got keeps)

theorem issuesOf_optional (plain : js.isPlainObject value = true)
    (alike : Alike base (partialType derived base) value fun _ => true) :
    issuesOf js base.dto (createDtoInstance js (partialType derived base) value)
        (fun key => !js.missing (js.read (createDtoInstance js (partialType derived base) value) key)) =
      issuesOf js base.dto (createDtoInstance js base value)
        (fun key => !js.missing (js.read (createDtoInstance js base value) key)) := by
  have reads : ∀ key rules, base.dto.validation.get key = some rules →
      js.read (createDtoInstance js (partialType derived base) value) key = js.read (createDtoInstance js base value) key := by
    intro key rules got
    have copied : (partialType derived base).dto.validation.get key = some (partialRules rules) := by
      refine OrderedMap.mem_entries.mp ?_
      show _ ∈ (partialDto base.dto).validation.entries
      rw [partial_validation]
      exact List.mem_map.mpr ⟨(key, rules), OrderedMap.mem_entries.mpr got, rfl⟩
    have source : sourceKey (partialType derived base).dto key = sourceKey base.dto key := by
      show sourceKey (partialDto base.dto) key = _
      rw [sourceKey, sourceKey, partial_binding, Option.bind_map]
      rfl
    exact read_kept plain got copied (nestedTargets_partialRules rules) source (if_pos (mem_collectDtoKeys got))
      (alike.provided key rules got rfl)
  refine issuesOf_alike (fun key rules got => ?_) (fun key rules got _ => reads key rules got)
    (fun key rules got _ => alike.unaware key rules got rfl)
  rw [reads key rules got]

end Made

/-! ## What the derived types report for a payload -/

section Report

variable {js : Values V ν}

theorem validate_valid {value : V} {target : DtoConstructor js}
    (valid : (target.instanceOf value || js.isPlainObject value) = true) :
    validate js value target = collectValidationIssues js target.dto ⟨none, none⟩ value := by
  rw [validate, assertValidRootValue, if_pos valid]

theorem validate_plain {value : V} (plain : js.isPlainObject value = true) (target : DtoConstructor js) :
    validate js value target = collectValidationIssues js target.dto ⟨none, none⟩ value :=
  validate_valid (by rw [plain, Bool.or_true])

theorem validate_invalid {value : V} {target : DtoConstructor js}
    (invalid : ¬ (target.instanceOf value || js.isPlainObject value) = true) :
    validate js value target = [buildInvalidRootIssue] := by
  rw [validate, assertValidRootValue, if_neg invalid]

theorem materialize_plain [DecidableEq ν] {value : V} (plain : js.isPlainObject value = true) (target : DtoConstructor js) :
    materialize js value target = collectValidationIssues js target.dto ⟨none, none⟩ (createDtoInstance js target value) := by
  rw [materialize, assertValidRootValue, if_pos (by rw [plain, Bool.or_true])]

/-- What the types that are derived from two classes report when a payload is
validated. `classes` are the classes that `createDerivedDto` makes, one at each call. -/
structure ValidateLaws (classes : Nat → DtoClass js) (a b : DtoConstructor js) (keys others : List PropertyKey)
    (value : V) : Prop where
  picked : validate js value (pickType (classes 0) a keys) = issuesOf js a.dto value (· ∈ keys)
  omitted : validate js value (omitType (classes 1) a keys) = issuesOf js a.dto value (· ∉ keys)
  optional : validate js value (partialType (classes 2) a) =
    issuesOf js a.dto value fun key => !js.missing (js.read value key)
  intersection : accepts js value (intersectionType (classes 3) [a, b]) ↔ accepts js value a ∧ accepts js value b
  pick_omit : validate js value (pickType (classes 5) (omitType (classes 4) a others) keys) =
    issuesOf js a.dto value fun key => decide (key ∈ keys) && decide (key ∉ others)
  partial_pick : validate js value (partialType (classes 6) (pickType (classes 0) a keys)) =
    issuesOf js a.dto value fun key => !js.missing (js.read value key) && decide (key ∈ keys)

/-- What they report for the instances that they make of a payload. -/
structure MaterializeLaws [DecidableEq ν] (classes : Nat → DtoClass js) (a b : DtoConstructor js)
    (keys : List PropertyKey) (value : V) : Prop where
  picked : Alike a (pickType (classes 0) a keys) value (· ∈ keys) →
    materialize js value (pickType (classes 0) a keys) = issuesOf js a.dto (createDtoInstance js a value) (· ∈ keys)
  omitted : Alike a (omitType (classes 1) a keys) value (· ∉ keys) →
    materialize js value (omitType (classes 1) a keys) = issuesOf js a.dto (createDtoInstance js a value) (· ∉ keys)
  optional : Alike a (partialType (classes 2) a) value (fun _ => true) →
    materialize js value (partialType (classes 2) a) =
      issuesOf js a.dto (createDtoInstance js a value)
        fun key => !js.missing (js.read (createDtoInstance js a value) key)
  intersection :
    let made := createDtoInstance js (intersectionType (classes 3) [a, b]) value
    (materialize js value (intersectionType (classes 3) [a, b]) = [] ↔
        passes js a.dto ⟨none, none⟩ made ∧ passes js b.dto ⟨none, none⟩ made) ↔
      HeardIfSilenced js a.dto b.dto ⟨none, none⟩ made

variable (classes : Nat → DtoClass js) (a b : DtoConstructor js) (keys others : List PropertyKey)

theorem validate_lawful {value : V} (plain : js.isPlainObject value = true)
    (heard : HeardIfSilenced js a.dto b.dto ⟨none, none⟩ value) : ValidateLaws classes a b keys others value where
  picked := (validate_plain plain _).trans (collect_copied js a.dto _ _ value)
  omitted := (validate_plain plain _).trans (collect_copied js a.dto _ _ value)
  optional := (validate_plain plain _).trans (collect_partialDto js a.dto _ value)
  intersection := by
    simp only [accepts, validate_plain plain]
    exact (intersection_passes_iff js a.dto b.dto ⟨none, none⟩ value).mpr heard
  pick_omit := by
    rw [validate_plain plain]
    refine (collect_copied js (omittedDto a.dto others) _ _ value).trans ?_
    rw [omittedDto, fieldReport_copied, List.filter_filter]
    rfl
  partial_pick := by
    rw [validate_plain plain]
    refine (collect_partialDto js (pickedDto a.dto keys) _ value).trans ?_
    rw [pickedDto, fieldReport_copied, List.filter_filter]
    rfl

/-- A payload for which the laws hold is plain: no value is an instance of two of the
derived classes. -/
theorem ValidateLaws.plain {classes : Nat → DtoClass js} {a b : DtoConstructor js} {keys others : List PropertyKey}
    {value : V} (laws : ValidateLaws classes a b keys others value)
    (apart : ∀ i j, (classes i).instanceOf value = true → (classes j).instanceOf value = true → i = j) :
    js.isPlainObject value = true := by
  by_contra fancy
  have made (target : DtoConstructor js) (keep : PropertyKey → Bool)
      (same : validate js value target = issuesOf js a.dto value keep) : target.instanceOf value = true := by
    by_contra foreign
    rw [validate_invalid (by simp [foreign, fancy])] at same
    exact issuesOf_ne_root js a.dto value keep same
  have both : (0 : Nat) = 1 := apart 0 1 (made (pickType (classes 0) a keys) _ laws.picked)
    (made (omitType (classes 1) a keys) _ laws.omitted)
  cases both

theorem materialize_lawful [DecidableEq ν] {value : V} (plain : js.isPlainObject value = true) :
    MaterializeLaws classes a b keys value where
  picked alike := by
    rw [materialize_plain plain]
    refine (collect_copied js a.dto _ _ _).trans (issuesOf_copied plain rfl (fun key known keeps => ?_) alike)
    exact if_pos (List.mem_filter.mpr ⟨known, keeps⟩)
  omitted alike := by
    rw [materialize_plain plain]
    refine (collect_copied js a.dto _ _ _).trans (issuesOf_copied plain rfl (fun key known keeps => ?_) alike)
    exact if_pos (List.mem_filter.mpr ⟨known, keeps⟩)
  optional alike := by
    rw [materialize_plain plain]
    exact (collect_partialDto js a.dto _ _).trans (issuesOf_optional plain alike)
  intersection := by
    rw [materialize_plain plain]
    exact intersection_passes_iff js a.dto b.dto ⟨none, none⟩ _

end Report

/-! ## Two classes with one field -/

/-- Texts and objects of a class, where 0 is the class of plain objects. -/
inductive Sample where
  | undefined
  | text (content : JsString)
  | object (cls : Nat) (properties : PropertyKey → Sample)

def Sample.read : Sample → PropertyKey → Sample
  | .object _ properties, key => properties key
  | _, _ => .undefined

def Sample.isUndefined : Sample → Bool
  | .undefined => true
  | _ => false

def Sample.isOf (cls : Nat) : Sample → Bool
  | .object own _ => own == cls
  | _ => false

def samples : Values Sample Empty where
  read := Sample.read
  missing := Sample.isUndefined
  getIterableValues _ := none
  nestable dto := dto.elim
  active _ := false
  nestedIssues dto := dto.elim
  nested_named dto := dto.elim
  undefined := .undefined
  isPlainObject := Sample.isOf 0
  isSafeOwnEnumerableProperty value key := !(value.read key).isUndefined
  inherited _ := .undefined
  transformNestedCollectionValue dto := dto.elim

def sampleClass (index : Nat) : DtoClass samples where
  instanceOf := Sample.isOf (index + 1)
  build := Sample.object (index + 1)
  read_build _ _ := rfl
  not_plain value made := by
    cases value with
    | object own properties =>
      cases eq_of_beq (show (own == index + 1) = true from made)
      rfl
    | _ => cases made

/-- `@IsDefined()` -/
def definedRule : DtoFieldValidationRule Sample Empty where
  kind := .predicate (fun value => !value.isUndefined) true
  each := false
  describe field := ⟨text "REQUIRED", field ++ text " is required."⟩

/-- A class with one field `name` without an initializer. -/
def namedDto (index : Nat) (rule : DtoFieldValidationRule Sample Empty) : DtoConstructor samples :=
  { sampleClass index with
    dto := StoredMetadata.dto ⟨.empty, appendDtoFieldValidationRule .empty (.named (text "name")) rule, []⟩
    initial := fun _ => .undefined }

/-- A default of the base class is none of the derived class. -/
example :
    let user : DtoConstructor samples := { namedDto 0 definedRule with initial := fun _ => .text [] }
    let payload : Sample := .object 0 fun _ => .undefined
    materialize samples payload user = [] ∧
      materialize samples payload (pickType (sampleClass 2) user [.named (text "name")]) ≠ [] := by
  decide

/-- `{ name: "" }` -/
def nameless : Sample := .object 0 fun _ => .text []

end Fluo.Validation
