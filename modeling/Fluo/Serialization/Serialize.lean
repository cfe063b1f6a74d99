import Fluo.Lib.Heap
import Fluo.Serialization.Metadata

/-!
# Serializing an object graph

The walk of `serialize.ts` over a finite graph, with the references that mark an
object as in progress or serialized, and the objects it builds.
-/

namespace Fluo.Serialization

open Js

/-- A value; a leaf is `null`, a scalar other than `undefined`, or a function. -/
inductive Value where
  | undefined
  | leaf (id : Nat)
  | ref (address : Nat)
  deriving DecidableEq

/-- An object of the graph. The keys are the own enumerable ones, names before
symbols; any property can be read, also an inherited one. -/
inductive Object where
  | opaque_
  | array (items : List Value)
  | plain (keys : OrderedSet PropertyKey) (read : PropertyKey → Value)
  /-- An instance, with the constructor that its prototype gives. -/
  | «instance» (constructor : Option Constructor) (keys : OrderedSet PropertyKey) (read : PropertyKey → Value)

instance : Inhabited Object := ⟨.opaque_⟩

def Object.isOpaque : Object → Bool
  | .opaque_ => true
  | _ => false

/-- The objects that exist or that a transform will return, and what the n-th
call of a transform returns for a value. -/
structure World where
  objects : Heap Object
  transform : Nat → Nat → Value → Value

inductive OutValue where
  | undefined
  | leaf (id : Nat)
  /-- An object of the graph, passed on as it is. -/
  | opaque_ (address : Nat)
  | ref (output : Nat)
  deriving DecidableEq

inductive OutObject where
  | array (items : List OutValue)
  | record (properties : OrderedMap PropertyKey OutValue)

instance : Inhabited OutObject := ⟨.array []⟩

structure Reference where
  active : Bool
  value : Nat

structure State where
  references : Nat → Option Reference
  outputs : Heap OutObject
  calls : Nat

/-- One step of a loop that fills an output: an item, or a property with its
transforms. -/
structure Field where
  key : Option PropertyKey
  raw : Value
  transforms : List Nat

section Serialize

variable (w : World)

def applyTransforms (calls : Nat) (value : Value) : List Nat → Value
  | [] => value
  | transform :: rest => applyTransforms (calls + 1) (w.transform calls transform value) rest

/-- Push an item, or set a property; the three keys that go through
`defineProperty` are set like the others. -/
def OutObject.assign (object : OutObject) (key : Option PropertyKey) (value : OutValue) : OutObject :=
  match object, key with
  | .array items, _ => .array (items ++ [value])
  | .record properties, some key => .record (properties.set key value)
  | .record properties, none => .record properties

def resolveCandidateKeys (keys : OrderedSet PropertyKey) (fieldMetadata : OrderedMap PropertyKey FieldMetadata)
    (excludeExtraneous : Bool) : List PropertyKey :=
  let exposed := (fieldMetadata.entries.filter fun entry => entry.2.exposed = some true).map Prod.fst
  if excludeExtraneous then exposed
  else (exposed.foldl (fun keys key => keys.set key ()) keys).keys

/-- The properties of a decorated instance that are assigned, in order. -/
def instanceFields (constructor : Constructor) (keys : OrderedSet PropertyKey) (read : PropertyKey → Value) :
    List Field :=
  let excludeExtraneous := (getClassSerializationOptions constructor).excludeExtraneous == some (some true)
  let fieldMetadata := getFieldSerializationMetadata constructor
  (resolveCandidateKeys keys fieldMetadata excludeExtraneous).filterMap fun key =>
    let metadata := fieldMetadata.get key
    if metadata.bind FieldMetadata.excluded = some true then none
    else if read key = .undefined ∧ excludeExtraneous = true ∧ metadata.bind FieldMetadata.exposed ≠ some true then none
    else some ⟨some key, read key, (metadata.bind FieldMetadata.transforms).getD []⟩

def recordFields (keys : OrderedSet PropertyKey) (read : PropertyKey → Value) : List Field :=
  keys.keys.map fun key => ⟨some key, read key, []⟩

def hasMetadata (constructor : Constructor) : Bool :=
  !(getFieldSerializationMetadata constructor).entries.isEmpty ||
    (getClassSerializationOptions constructor).excludeExtraneous == some (some true)

/-- The empty output of an object and the steps that fill it. -/
def Object.plan : Object → Option (OutObject × List Field)
  | .opaque_ => none
  | .array items => some (.array [], items.map fun item => ⟨none, item, []⟩)
  | .plain keys read => some (.record .empty, recordFields keys read)
  | .instance none keys read => some (.record .empty, recordFields keys read)
  | .instance (some constructor) keys read =>
    if hasMetadata constructor then some (.record .empty, instanceFields constructor keys read)
    else some (.record .empty, recordFields keys read)

def State.mark (s : State) (address : Nat) (reference : Reference) : State :=
  { s with references := Function.update s.references address (some reference) }

def fill (recurse : Value → State → Option (OutValue × State)) (output : Nat) : List Field → State → Option State
  | [], s => some s
  | field :: rest, s =>
    let value := applyTransforms w s.calls field.raw field.transforms
    (recurse value { s with calls := s.calls + field.transforms.length }).bind fun (serialized, s) =>
      fill recurse output rest { s with outputs := s.outputs.modify output (·.assign field.key serialized) }

/-- `serializeInternal`; `none` when the depth does not suffice. -/
def serializeInternal : Nat → Value → State → Option (OutValue × State)
  | 0, _, _ => none
  | depth + 1, value, s =>
    match value with
    | .undefined => some (.undefined, s)
    | .leaf id => some (.leaf id, s)
    | .ref address =>
      match (w.objects.get address).plan with
      | none => some (.opaque_ address, s)
      | some (created, fields) =>
        match s.references address with
        | some reference => some (if reference.active then .undefined else .ref reference.value, s)
        | none =>
          let output := s.outputs.size
          let started := { s.mark address ⟨true, output⟩ with outputs := s.outputs.push created }
          (fill w (serializeInternal depth) output fields started).map fun s =>
            (.ref output, s.mark address ⟨false, output⟩)

def State.initial : State := ⟨fun _ => none, .empty, 0⟩

def serialize (value : Value) : Option (OutValue × State) :=
  serializeInternal w (w.objects.size + 1) value .initial

end Serialize

end Fluo.Serialization
