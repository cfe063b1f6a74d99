import Fluo.Lib.JsString
import Fluo.Lib.OrderedMap
import Mathlib.Data.List.Induction

/-!
# Serialization metadata

The metadata bags of a class and its base classes, merged from base to derived:
flags of a field are overwritten, its transforms are added.
-/

namespace Fluo.Serialization

open Js

/-- `SerializationFieldMetadata`; a transform is named by a number. -/
structure FieldMetadata where
  excluded : Option Bool
  exposed : Option Bool
  transforms : Option (List Nat)

/-- `ClassSerializationOptions`: the own property `excludeExtraneous`, if there is
one, with its value, which is missing where it is `undefined`. -/
structure ClassSerializationOptions where
  excludeExtraneous : Option (Option Bool)

/-- A constructor's own metadata bag, as far as serialization wrote to it. -/
structure MetadataBag where
  classOptions : Option ClassSerializationOptions
  fieldMetadata : Option (OrderedMap PropertyKey FieldMetadata)

/-- A constructor and those it extends, derived first, each with its own bag. -/
abbrev Constructor := List (Option MetadataBag)

def getConstructorMetadataBags (constructor : Constructor) : List MetadataBag :=
  (constructor.filterMap id).reverse

/-- `Object.assign`, bag by bag: an own property overwrites, also with `undefined`. -/
def getClassSerializationOptions (constructor : Constructor) : ClassSerializationOptions :=
  (getConstructorMetadataBags constructor).foldl
    (fun options bag => ⟨bag.classOptions.bind (·.excludeExtraneous) <|> options.excludeExtraneous⟩) ⟨none⟩

/-- `{ ...current, ...metadata }`, and the transforms of both. -/
def mergeField (current : Option FieldMetadata) (metadata : FieldMetadata) : FieldMetadata where
  excluded := metadata.excluded <|> current.bind FieldMetadata.excluded
  exposed := metadata.exposed <|> current.bind FieldMetadata.exposed
  transforms := some (((current.bind FieldMetadata.transforms).getD []) ++ metadata.transforms.getD [])

def mergeBag (merged : OrderedMap PropertyKey FieldMetadata) (bag : MetadataBag) : OrderedMap PropertyKey FieldMetadata :=
  match bag.fieldMetadata with
  | none => merged
  | some fields =>
    fields.entries.foldl (fun merged entry => merged.set entry.1 (mergeField (merged.get entry.1) entry.2)) merged

def getFieldSerializationMetadata (constructor : Constructor) : OrderedMap PropertyKey FieldMetadata :=
  (getConstructorMetadataBags constructor).foldl mergeBag .empty

/-! ## What the merged metadata says of a field -/

def MetadataBag.field (bag : MetadataBag) (key : PropertyKey) : Option FieldMetadata :=
  bag.fieldMetadata.bind (·.get key)

theorem get_mergeBag (merged : OrderedMap PropertyKey FieldMetadata) (bag : MetadataBag) (key : PropertyKey) :
    (mergeBag merged bag).get key =
      (bag.field key).elim (merged.get key) fun metadata => some (mergeField (merged.get key) metadata) := by
  cases fields : bag.fieldMetadata with
  | none => simp [mergeBag, MetadataBag.field, fields]
  | some map =>
    simp only [mergeBag, MetadataBag.field, fields, Option.bind_some]
    exact OrderedMap.get_foldl_merge mergeField map.entries map.distinct merged key

/-- What the most derived class that gives something gives. -/
inductive Latest {α : Type} (gives : MetadataBag → Option α) : Constructor → α → Prop
  | own {bag base a} : gives bag = some a → Latest gives (some bag :: base) a
  | inherited {bag base a} : gives bag = none → Latest gives base a → Latest gives (some bag :: base) a
  | bare {base a} : Latest gives base a → Latest gives (none :: base) a

/-- The transforms of a field: those of the base class, then its own. -/
def transformsOf (key : PropertyKey) : Constructor → List Nat
  | [] => []
  | none :: base => transformsOf key base
  | some bag :: base => transformsOf key base ++ ((bag.field key).bind FieldMetadata.transforms).getD []

/-- A merge in which later bags overwrite ends with what the latest one gives. -/
theorem foldl_latest {α : Type} (gives : MetadataBag → Option α) (constructor : Constructor) (a : α) :
    (getConstructorMetadataBags constructor).foldl (fun current bag => gives bag <|> current) none = some a ↔
      Latest gives constructor a := by
  induction constructor with
  | nil =>
    exact ⟨fun given => (by cases given), fun given => (by cases given)⟩
  | cons bag base ih =>
    cases bag with
    | none =>
      refine ih.trans ⟨.bare, fun given => ?_⟩
      cases given with
      | bare given => exact given
    | some bag =>
      have bags : getConstructorMetadataBags (some bag :: base) = getConstructorMetadataBags base ++ [bag] := by
        simp [getConstructorMetadataBags]
      rw [bags, List.foldl_append, List.foldl_cons, List.foldl_nil]
      cases given : gives bag with
      | none =>
        refine ih.trans ⟨.inherited given, fun latest => ?_⟩
        cases latest with
        | own own => rw [given] at own; cases own
        | inherited _ latest => exact latest
      | some b =>
        refine ⟨fun same => ?_, fun latest => ?_⟩
        · cases same
          exact .own given
        · cases latest with
          | own own => exact given.symm.trans own
          | inherited absent => rw [given] at absent; cases absent

theorem flatMap_transforms (key : PropertyKey) (constructor : Constructor) :
    (getConstructorMetadataBags constructor).flatMap
        (fun bag => ((bag.field key).bind FieldMetadata.transforms).getD []) = transformsOf key constructor := by
  induction constructor with
  | nil => rfl
  | cons bag base ih =>
    cases bag with
    | none => exact ih
    | some bag =>
      have bags : getConstructorMetadataBags (some bag :: base) = getConstructorMetadataBags base ++ [bag] := by
        simp [getConstructorMetadataBags]
      rw [bags, List.flatMap_append, ih, transformsOf, List.flatMap_cons, List.flatMap_nil, List.append_nil]

theorem excludeExtraneous_latest (constructor : Constructor) (given : Option Bool) :
    (getClassSerializationOptions constructor).excludeExtraneous = some given ↔
      Latest (fun bag => bag.classOptions.bind (·.excludeExtraneous)) constructor given := by
  rw [← foldl_latest, getClassSerializationOptions]
  generalize getConstructorMetadataBags constructor = bags
  have merged : (bags.foldl (fun (options : ClassSerializationOptions) bag =>
      ⟨bag.classOptions.bind (·.excludeExtraneous) <|> options.excludeExtraneous⟩) ⟨none⟩).excludeExtraneous =
      bags.foldl (fun current bag => bag.classOptions.bind (·.excludeExtraneous) <|> current) none := by
    induction bags using List.reverseRecOn with
    | nil => rfl
    | append_singleton bags bag ih =>
      simp only [List.foldl_append, List.foldl_cons, List.foldl_nil, ih]
  rw [merged]

structure Inherits (merged : Option FieldMetadata) (constructor : Constructor) (key : PropertyKey) : Prop where
  excluded : ∀ flag, merged.bind FieldMetadata.excluded = some flag ↔
    Latest (fun bag => (bag.field key).bind FieldMetadata.excluded) constructor flag
  exposed : ∀ flag, merged.bind FieldMetadata.exposed = some flag ↔
    Latest (fun bag => (bag.field key).bind FieldMetadata.exposed) constructor flag
  transforms : (merged.bind FieldMetadata.transforms).getD [] = transformsOf key constructor

theorem field_inherits (constructor : Constructor) (key : PropertyKey) :
    Inherits ((getFieldSerializationMetadata constructor).get key) constructor key := by
  have merged : ((getFieldSerializationMetadata constructor).get key).bind FieldMetadata.excluded =
        (getConstructorMetadataBags constructor).foldl
          (fun current bag => (bag.field key).bind FieldMetadata.excluded <|> current) none ∧
      ((getFieldSerializationMetadata constructor).get key).bind FieldMetadata.exposed =
        (getConstructorMetadataBags constructor).foldl
          (fun current bag => (bag.field key).bind FieldMetadata.exposed <|> current) none ∧
      (((getFieldSerializationMetadata constructor).get key).bind FieldMetadata.transforms).getD [] =
        (getConstructorMetadataBags constructor).flatMap
          fun bag => ((bag.field key).bind FieldMetadata.transforms).getD [] := by
    rw [getFieldSerializationMetadata]
    generalize getConstructorMetadataBags constructor = bags
    induction bags using List.reverseRecOn with
    | nil => exact ⟨rfl, rfl, rfl⟩
    | append_singleton bags bag ih =>
      obtain ⟨excluded, exposed, transforms⟩ := ih
      rw [List.foldl_append, List.foldl_cons, List.foldl_nil, get_mergeBag]
      cases field : bag.field key with
      | none => simp [excluded, exposed, transforms, field]
      | some metadata => simp [mergeField, excluded, exposed, transforms, field]
  obtain ⟨excluded, exposed, transforms⟩ := merged
  refine ⟨fun flag => ?_, fun flag => ?_, ?_⟩
  · rw [excluded]
    exact foldl_latest _ constructor flag
  · rw [exposed]
    exact foldl_latest _ constructor flag
  · rw [transforms]
    exact flatMap_transforms key constructor

end Fluo.Serialization
