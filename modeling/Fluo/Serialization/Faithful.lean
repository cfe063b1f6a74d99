import Fluo.Serialization.Walk
import Mathlib.Logic.Relation

/-!
# Serialization leaks nothing

The output of a decorated instance has exactly the keys that its metadata lets
out, each with the serialization of the transformed field, and everything that is
serialized was reached through such fields.
-/

namespace Fluo.Serialization

open Js

/-! ## The fields of a decorated instance -/

section Fields

variable (constructor : Constructor) (keys : OrderedSet PropertyKey) (read : PropertyKey → Value)

/-- Only exposed fields count: the most derived class that gives
`excludeExtraneous` gives `true`. -/
def OnlyExposed : Prop := Latest (fun bag => bag.classOptions.bind (·.excludeExtraneous)) constructor (some true)

def Exposed (key : PropertyKey) : Prop := Latest (fun bag => (bag.field key).bind FieldMetadata.exposed) constructor true

def Excluded (key : PropertyKey) : Prop := Latest (fun bag => (bag.field key).bind FieldMetadata.excluded) constructor true

/-- An own enumerable key, unless only exposed ones count, or an exposed key. -/
def Candidate (key : PropertyKey) : Prop :=
  (¬ OnlyExposed constructor ∧ keys.has key = true) ∨ Exposed constructor key

/-- The field of a key, with the transforms of the base class first. -/
def fieldAt (key : PropertyKey) : Field := ⟨some key, read key, transformsOf key constructor⟩

theorem onlyExposed_iff :
    ((getClassSerializationOptions constructor).excludeExtraneous == some (some true)) = true ↔ OnlyExposed constructor := by
  rw [beq_iff_eq]
  exact excludeExtraneous_latest constructor (some true)

theorem mem_exposed {key : PropertyKey} :
    key ∈ (((getFieldSerializationMetadata constructor).entries.filter
        fun entry => entry.2.exposed = some true).map Prod.fst) ↔ Exposed constructor key := by
  rw [Exposed, ← (field_inherits constructor key).exposed true]
  simp only [List.mem_map, List.mem_filter, decide_eq_true_eq, Prod.exists, exists_and_right, exists_eq_right,
    OrderedMap.mem_entries]
  constructor
  · rintro ⟨metadata, found, exposed⟩
    rw [found]
    exact exposed
  · intro exposed
    obtain ⟨metadata, found, exposed⟩ := Option.bind_eq_some_iff.mp exposed
    exact ⟨metadata, found, exposed⟩

theorem mem_candidates {key : PropertyKey} :
    key ∈ resolveCandidateKeys keys (getFieldSerializationMetadata constructor)
        ((getClassSerializationOptions constructor).excludeExtraneous == some (some true)) ↔
      Candidate constructor keys key := by
  rw [resolveCandidateKeys, Candidate, ← onlyExposed_iff]
  cases (getClassSerializationOptions constructor).excludeExtraneous == some (some true) with
  | true =>
    simp only [↓reduceIte, not_true_eq_false, false_and, false_or]
    exact mem_exposed constructor
  | false =>
    simp only [Bool.false_eq_true, ↓reduceIte, not_false_eq_true, true_and]
    rw [OrderedMap.mem_keys, OrderedSet.has_foldl, Bool.or_eq_true, decide_eq_true_eq, mem_exposed constructor]

theorem candidates_nodup (only : Bool) :
    (resolveCandidateKeys keys (getFieldSerializationMetadata constructor) only).Nodup := by
  rw [resolveCandidateKeys]
  split
  · exact (getFieldSerializationMetadata constructor).distinct.sublist (List.filter_sublist.map Prod.fst)
  · exact OrderedMap.distinct _

theorem excluded_iff {key : PropertyKey} :
    ((getFieldSerializationMetadata constructor).get key).bind FieldMetadata.excluded = some true ↔ Excluded constructor key :=
  (field_inherits constructor key).excluded true

theorem instanceFields_eq :
    instanceFields constructor keys read =
      ((resolveCandidateKeys keys (getFieldSerializationMetadata constructor)
          ((getClassSerializationOptions constructor).excludeExtraneous == some (some true))).filter
        fun key => ((getFieldSerializationMetadata constructor).get key).bind FieldMetadata.excluded ≠ some true).map
        (fieldAt constructor read) := by
  rw [instanceFields, ← List.filterMap_eq_map, List.filterMap_filter]
  refine List.filterMap_congr fun key mem => ?_
  have inherits := field_inherits constructor key
  dsimp only
  rw [inherits.transforms]
  by_cases excluded : ((getFieldSerializationMetadata constructor).get key).bind FieldMetadata.excluded = some true
  · simp [excluded]
  · -- under `excludeExtraneous` the candidates are exposed
    have exposed : ¬ (read key = .undefined ∧
        ((getClassSerializationOptions constructor).excludeExtraneous == some (some true)) = true ∧
        ((getFieldSerializationMetadata constructor).get key).bind FieldMetadata.exposed ≠ some true) := by
      rintro ⟨_, only, unexposed⟩
      rcases (mem_candidates constructor keys).mp mem with ⟨all, _⟩ | shown
      · exact all ((onlyExposed_iff constructor).mp only)
      · exact unexposed ((inherits.exposed true).mpr shown)
    rw [if_neg excluded, if_neg exposed]
    simp [excluded, fieldAt]

theorem mem_instanceFields {field : Field} :
    field ∈ instanceFields constructor keys read ↔
      ∃ key, Candidate constructor keys key ∧ ¬ Excluded constructor key ∧ field = fieldAt constructor read key := by
  rw [instanceFields_eq]
  simp only [List.mem_map, List.mem_filter, mem_candidates, decide_eq_true_eq, ne_eq, excluded_iff]
  constructor
  · rintro ⟨key, ⟨candidate, kept⟩, rfl⟩
    exact ⟨key, candidate, kept, rfl⟩
  · rintro ⟨key, candidate, kept, rfl⟩
    exact ⟨key, ⟨candidate, kept⟩, rfl⟩

theorem instanceFields_distinct : ((instanceFields constructor keys read).map Field.key).Nodup := by
  rw [instanceFields_eq, List.map_map]
  refine List.Nodup.map (fun a b same => Option.some.inj same) ?_
  exact (candidates_nodup constructor keys _).filter _

end Fields

/-! ## Outputs -/

section Outputs

variable {w : World} {references : Nat → Option Reference} {path : List Nat}

theorem assignAll_array (items : List OutValue) (fields : List Field) (values : List Value)
    (length : fields.length = values.length) :
    assignAll w references path (.array items) fields values = .array (items ++ values.map (slot w references path)) := by
  induction fields generalizing items values with
  | nil =>
    cases values with
    | nil => simp [assignAll]
    | cons => cases length
  | cons field fields ih =>
    cases values with
    | nil => cases length
    | cons value values =>
      rw [assignAll, OutObject.assign, ih _ values (Nat.succ.inj length)]
      simp

/-- Fields with distinct keys: each key gets the slot of its value. -/
theorem assignAll_record {R : Field → Value → Prop} {fields : List Field} {values : List Value}
    (pairs : List.Forall₂ R fields values) (distinct : (fields.map Field.key).Nodup)
    (named : ∀ field ∈ fields, field.key ≠ none) (start : OrderedMap PropertyKey OutValue) :
    ∃ properties, assignAll w references path (.record start) fields values = .record properties ∧
      (∀ key, some key ∉ fields.map Field.key → properties.get key = start.get key) ∧
      ∀ field ∈ fields, ∀ key, field.key = some key →
        ∃ value ∈ values, R field value ∧ properties.get key = some (slot w references path value) := by
  induction pairs generalizing start with
  | nil => exact ⟨start, rfl, fun _ _ => rfl, nofun⟩
  | @cons field value fields values related _ ih =>
    obtain ⟨new, below⟩ := List.nodup_cons.mp distinct
    obtain ⟨key, named_⟩ := Option.ne_none_iff_exists'.mp (named field List.mem_cons_self)
    obtain ⟨properties, assigned, others, mine⟩ := ih below (fun f mem => named f (List.mem_cons_of_mem _ mem))
      (start.set key (slot w references path value))
    refine ⟨properties, by rw [assignAll, named_]; exact assigned, fun k away => ?_, fun f mem k keyed => ?_⟩
    · simp only [List.map_cons, List.mem_cons, not_or] at away
      have other : k ≠ key := fun same => away.1 (by rw [same, named_])
      rw [others k away.2, OrderedMap.get_set, if_neg other]
    · rcases List.mem_cons.mp mem with rfl | mem
      · rw [named_] at keyed
        cases keyed
        refine ⟨value, List.mem_cons_self, related, ?_⟩
        rw [others key (named_ ▸ new), OrderedMap.get_set_self]
      · obtain ⟨v, inside, r, got⟩ := mine f mem k keyed
        exact ⟨v, List.mem_cons_of_mem _ inside, r, got⟩

end Outputs

/-! ## Serialization is faithful -/

/-- A value goes through transforms, one after the other, from the call with this
number on. -/
inductive Through (w : World) : Nat → List Nat → Value → Value → Prop
  | done {calls value} : Through w calls [] value value
  | next {calls transform rest value result} :
      Through w (calls + 1) rest (w.transform calls transform value) result →
      Through w calls (transform :: rest) value result

theorem applyTransforms_through (w : World) (calls : Nat) (value : Value) (transforms : List Nat) :
    Through w calls transforms value (applyTransforms w calls value transforms) := by
  induction transforms generalizing calls value with
  | nil => exact .done
  | cons transform rest ih => exact .next (ih (calls + 1) (w.transform calls transform value))

/-- A property has the serialization of its field after the transforms. -/
def ShowsField (w : World) (s : State) (visit : Visit) (properties : OrderedMap PropertyKey OutValue) (raw : Value)
    (transforms : List Nat) (key : PropertyKey) : Prop :=
  ∃ value ∈ visit.values, (∃ calls, Through w calls transforms raw value) ∧
    properties.get key = some (slot w s.references visit.path value)

/-- A record of exactly these keys, each with its field. -/
def ShowsRecord (w : World) (s : State) (visit : Visit) (Emitted : PropertyKey → Prop) (read : PropertyKey → Value)
    (transforms : PropertyKey → List Nat) (output : OutObject) : Prop :=
  ∃ properties, output = .record properties ∧ ∀ key,
    (Emitted key → ShowsField w s visit properties (read key) (transforms key) key) ∧
      (¬ Emitted key → properties.get key = none)

/-- The output of one object: an array of its items, or a record. -/
def ShowsObject (w : World) (s : State) (address : Nat) (visit : Visit) (output : OutObject) : Prop :=
  match w.objects.get address with
  | .opaque_ => False
  | .array items =>
    visit.values = items ∧ output = .array (items.map (slot w s.references visit.path))
  | .plain keys read | .instance none keys read =>
    ShowsRecord w s visit (fun key => keys.has key = true) read (fun _ => []) output
  | .instance (some constructor) keys read =>
    ShowsRecord w s visit (fun key => Candidate constructor keys key ∧ ¬ Excluded constructor key) read
      (transformsOf · constructor) output

/-- What serialization comes to. -/
structure Faithful (w : World) (root : Value) (out : OutValue) (s : State) (visits : Nat → Visit) : Prop where
  result : out = slot w s.references [] root
  /-- Every object that was entered has its own complete output. -/
  complete : ∀ a r, s.references a = some r →
    r.active = false ∧ ShowsObject w s a (visits a) (s.outputs.get r.value)
  once : ∀ a b r r', s.references a = some r → s.references b = some r' → r.value = r'.value → a = b
  /-- All that a value leads to has been entered, so that only an object on the
  path is cut. -/
  entered : ∀ a, s.references a ≠ none → ∀ value ∈ (visits a).values, Entered w s.references value
  /-- An object is entered from the root or from a value of another object, and
  its path goes on from there. -/
  reached : ∀ a, s.references a ≠ none →
    (root = .ref a ∧ (visits a).path = [a]) ∨
      ∃ p, s.references p ≠ none ∧ (visits a).path = a :: (visits p).path ∧ .ref a ∈ (visits p).values

/-- The fields of the emitted keys, in any order, make such a record. -/
theorem showsRecord_of_fields {w : World} {s : State} {visit : Visit} {Emitted : PropertyKey → Prop}
    {read : PropertyKey → Value} {transforms : PropertyKey → List Nat} {output : OutObject} {fields : List Field}
    (transformed : Transformed w fields visit.values) (distinct : (fields.map Field.key).Nodup)
    (emitted : ∀ f, f ∈ fields ↔ ∃ key, Emitted key ∧ f = ⟨some key, read key, transforms key⟩)
    (shown : output = assignAll w s.references visit.path (.record .empty) fields visit.values) :
    ShowsRecord w s visit Emitted read transforms output := by
  obtain ⟨properties, assigned, others, mine⟩ := @assignAll_record w s.references visit.path _ _ _
    transformed distinct (fun f mem => by
      obtain ⟨key, _, rfl⟩ := (emitted f).mp mem
      exact nofun) .empty
  refine ⟨properties, shown.trans assigned, fun key => ⟨fun here => ?_, fun hidden => ?_⟩⟩
  · obtain ⟨value, mem, ⟨calls, same⟩, got⟩ :=
      mine ⟨some key, read key, transforms key⟩ ((emitted _).mpr ⟨key, here, rfl⟩) key rfl
    refine ⟨value, mem, ⟨calls, ?_⟩, got⟩
    rw [same]
    exact applyTransforms_through w calls (read key) (transforms key)
  · refine (others key fun mem => hidden ?_).trans rfl
    obtain ⟨f, inside, same⟩ := List.mem_map.mp mem
    obtain ⟨k, here, rfl⟩ := (emitted f).mp inside
    exact Option.some.inj same ▸ here

theorem recordFields_distinct (keys : OrderedSet PropertyKey) (read : PropertyKey → Value) :
    ((recordFields keys read).map Field.key).Nodup := by
  have keyed : (recordFields keys read).map Field.key = keys.keys.map some := by
    rw [recordFields, List.map_map]
    rfl
  rw [keyed]
  exact keys.distinct.map fun a b same => Option.some.inj same

theorem mem_recordFields {keys : OrderedSet PropertyKey} {read : PropertyKey → Value} {f : Field} :
    f ∈ recordFields keys read ↔ ∃ key, keys.has key = true ∧ f = ⟨some key, read key, []⟩ := by
  simp only [recordFields, List.mem_map, OrderedMap.mem_keys, eq_comm]

/-- Without metadata the candidates are the own keys and nothing is transformed. -/
theorem plain_of_no_metadata {constructor : Constructor} (bare : hasMetadata constructor = false)
    (keys : OrderedSet PropertyKey) (key : PropertyKey) :
    (Candidate constructor keys key ↔ keys.has key = true) ∧ ¬ Excluded constructor key ∧
      transformsOf key constructor = [] := by
  rw [hasMetadata, Bool.or_eq_false_iff, Bool.not_eq_false', List.isEmpty_iff] at bare
  have absent : (getFieldSerializationMetadata constructor).get key = none := by
    rw [OrderedMap.get, bare.1]
    rfl
  have inherits := field_inherits constructor key
  rw [absent] at inherits
  have unexposed : ¬ Exposed constructor key := fun exposed => (by cases (inherits.exposed true).mpr exposed)
  have all : ¬ OnlyExposed constructor := by
    rw [← onlyExposed_iff, bare.2]
    exact Bool.false_ne_true
  refine ⟨?_, fun excluded => ?_, inherits.transforms.symm⟩
  · simp only [Candidate, all, unexposed, not_false_eq_true, true_and, or_false]
  · cases (inherits.excluded true).mpr excluded

theorem Serialized.showsObject {w : World} {s : State} {a o : Nat} {visit : Visit} (done : Serialized w s a o visit) :
    ShowsObject w s a visit (s.outputs.get o) := by
  obtain ⟨created, fields, plan, transformed, shown⟩ := done.shows
  rw [ShowsObject]
  cases object : w.objects.get a with
  | opaque_ =>
    rw [object] at plan
    cases plan
  | array items =>
    rw [object] at plan
    cases plan
    have values : visit.values = items := by
      have same := List.forall₂_map_left_iff.mp transformed
      exact (List.forall₂_eq_eq_eq ▸ same.imp fun item value ⟨_, e⟩ => e.symm : items = visit.values).symm
    refine ⟨values, ?_⟩
    rw [shown, assignAll_array _ _ _ transformed.length_eq, values]
    rfl
  | plain keys read =>
    rw [object] at plan
    cases plan
    exact showsRecord_of_fields transformed (recordFields_distinct keys read) (fun _ => mem_recordFields) shown
  | «instance» constructor keys read =>
    cases constructor with
    | none =>
      rw [object] at plan
      cases plan
      exact showsRecord_of_fields transformed (recordFields_distinct keys read) (fun _ => mem_recordFields) shown
    | some constructor =>
      rw [object, Object.plan] at plan
      split at plan
      · cases plan
        refine showsRecord_of_fields transformed (instanceFields_distinct constructor keys read) (fun f => ?_) shown
        simp only [mem_instanceFields, and_assoc, fieldAt]
      · next bare =>
        cases plan
        have plainFields := plain_of_no_metadata (Bool.not_eq_true _ ▸ bare) keys
        refine showsRecord_of_fields transformed (recordFields_distinct keys read) (fun f => ?_) shown
        simp only [mem_recordFields, plainFields, not_false_eq_true, and_true]

/-- An account: the base class excludes the password, both classes transform the
name, and the account refers to itself. -/
def account : Object :=
  .instance
    (some [some ⟨none, some (OrderedMap.empty.set (.named (text "name")) ⟨none, none, some [1]⟩)⟩,
      some ⟨none, some ((OrderedMap.empty.set (.named (text "name")) ⟨none, some true, some [0]⟩).set
        (.named (text "password")) ⟨some true, none, none⟩)⟩])
    (OrderedSet.ofList [.named (text "name"), .named (text "password"), .named (text "self")])
    fun key => if key = .named (text "self") then .ref 0 else .leaf 7

/-- The account alone, with transforms that return their own number. -/
def accountAlone : World := ⟨⟨1, fun _ => account⟩, fun _ transform _ => .leaf transform⟩

theorem accountAlone_closed : Closed accountAlone where
  fields address created fields plan := by
    have known : (accountAlone.objects.get address).plan =
        some (.record .empty, [⟨some (.named (text "name")), .leaf 7, [0, 1]⟩, ⟨some (.named (text "self")), .ref 0, []⟩]) :=
      rfl
    rw [known] at plan
    cases plan
    intro field mem
    simp only [List.mem_cons, List.not_mem_nil, or_false] at mem
    rcases mem with rfl | rfl
    · exact trivial
    · exact Nat.zero_lt_one
  transforms _ _ _ _ := trivial

end Fluo.Serialization
