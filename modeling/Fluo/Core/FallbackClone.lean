import Fluo.Lib.Heap
import Fluo.Lib.JsString
import Fluo.Lib.OrderedMap

/-!
# The fallback clone

Where `structuredClone` fails, a graph of objects is copied node by node. The map
`seen` leads from the objects that were met to their copies.
-/

namespace Fluo.Core

open Js

/-- A value; atoms are primitives and functions, told apart as the keys of a map are. -/
inductive Value (A : Type)
  | atom (a : A)
  | object (address : Nat)
  deriving DecidableEq

/-- The built-in prototypes that `instanceof` looks for. -/
inductive Builtin
  | date
  | regExp
  | map
  | set
  | dataView
  | arrayBuffer
  deriving DecidableEq

/-- The prototype of an object by its identity, none for `null`, with the built-in
prototypes in its chain, itself included. -/
structure Prototype where
  identity : Option Nat
  chain : List Builtin
  deriving DecidableEq

inductive PropertyDescriptor (A : Type)
  | data (value : Value A) (writable enumerable configurable : Bool)
  | accessor (get set : Option A) (enumerable configurable : Bool)

structure Attributes where
  writable : Bool
  enumerable : Bool
  configurable : Bool
  deriving DecidableEq

def Attributes.pushed : Attributes := ⟨true, true, true⟩

/-- An object of a built-in kind with the prototype of that kind, or any other with
its own properties. An array has the values and attributes of its elements, and an
array and a regular expression have a `length` and a `lastIndex` that is writable or
not. Views stand for themselves and the buffer that they alone view. -/
inductive Node (A : Type)
  | array (elements : List (Value A × Attributes)) (lengthWritable : Bool)
  | date (time : Option Int)
  | regExp (source flags : JsString) (lastIndex : Nat) (lastIndexWritable : Bool)
  | map (entries : OrderedMap (Value A) (Value A))
  | set (members : OrderedMap (Value A) Unit)
  | dataView (bytes : List UInt8)
  | typedArray (prototype : Prototype) (bytes : List UInt8)
  | arrayBuffer (bytes : List UInt8)
  | ordinary (prototype : Prototype) (properties : OrderedMap PropertyKey (PropertyDescriptor A))

instance {A : Type} : Inhabited (Node A) := ⟨.array [] true⟩

variable {A : Type} [DecidableEq A]

structure State (A : Type) where
  heap : Heap (Node A)
  seen : OrderedMap Nat Nat

/-- Why a clone does not return: a built-in method on an object of another kind
throws, or the fuel of the model is used up. -/
inductive Stopped
  | typeError
  | fuel
  deriving DecidableEq

namespace State

/-- Creates the copy of an object and remembers it. -/
def create (st : State A) (address : Nat) (node : Node A) : State A :=
  ⟨st.heap.push node, st.seen.set address st.heap.size⟩

def write (st : State A) (copy : Nat) (node : Node A) : State A := { st with heap := st.heap.set copy node }

end State

section

-- `clone` is the recursive call.
variable (clone : State A → Value A → Except Stopped (State A × Value A))

/-- `value.map` over the elements of an array. -/
def cloneElements (st : State A) : List (Value A) → Except Stopped (State A × List (Value A))
  | [] => .ok (st, [])
  | item :: rest => do
    let (st, item) ← clone st item
    let (st, rest) ← cloneElements st rest
    .ok (st, item :: rest)

/-- A loop over the entries of an object, which are cloned and put into its copy. -/
def fill {E : Type} (cloneEntry : State A → E → Except Stopped (State A × E)) (put : Node A → E → Node A) (copy : Nat)
    (st : State A) : List E → Except Stopped (State A)
  | [] => .ok st
  | entry :: rest => do
    let (st, entry) ← cloneEntry st entry
    fill cloneEntry put copy (st.write copy (put (st.heap.get copy) entry)) rest

def cloneMapEntry (st : State A) (entry : Value A × Value A) : Except Stopped (State A × (Value A × Value A)) := do
  let (st, key) ← clone st entry.1
  let (st, value) ← clone st entry.2
  .ok (st, (key, value))

def putMapEntry : Node A → Value A × Value A → Node A
  | .map entries, entry => .map (entries.set entry.1 entry.2)
  | node, _ => node

def putMember : Node A → Value A → Node A
  | .set members, member => .set (members.set member ())
  | node, _ => node

def cloneIntoDescriptorValue (st : State A) : PropertyDescriptor A → Except Stopped (State A × PropertyDescriptor A)
  | .accessor get set enumerable configurable => .ok (st, .accessor get set enumerable configurable)
  | .data value writable enumerable configurable => do
    let (st, value) ← clone st value
    .ok (st, .data value writable enumerable configurable)

def cloneProperty (st : State A) (property : PropertyKey × PropertyDescriptor A) :
    Except Stopped (State A × (PropertyKey × PropertyDescriptor A)) := do
  let (st, descriptor) ← cloneIntoDescriptorValue clone st property.2
  .ok (st, (property.1, descriptor))

/-- `Object.defineProperty` on an object that lacks the property. -/
def putProperty : Node A → PropertyKey × PropertyDescriptor A → Node A
  | .ordinary prototype properties, property => .ordinary prototype (properties.set property.1 property.2)
  | node, _ => node

/-- `cloneFallbackValue` behind the lookup; the copy gets the next address. -/
def cloneNode (st : State A) (address : Nat) : Except Stopped (State A) :=
  let copy := st.heap.size
  match st.heap.get address with
  | .array elements _ => do
    let (st, cloned) ← cloneElements clone (st.create address (.array [] true)) (elements.map Prod.fst)
    .ok (st.write copy (.array (cloned.map (·, Attributes.pushed)) true))
  | .date time => .ok (st.create address (.date time))
  | .regExp source flags lastIndex _ => .ok (st.create address (.regExp source flags lastIndex true))
  | .map entries => fill (cloneMapEntry clone) putMapEntry copy (st.create address (.map .empty)) entries.entries
  | .set members => fill clone putMember copy (st.create address (.set .empty)) members.keys
  | .dataView bytes => .ok (st.create address (.dataView bytes))
  | .typedArray prototype bytes => .ok (st.create address (.typedArray prototype bytes))
  | .arrayBuffer bytes => .ok (st.create address (.arrayBuffer bytes))
  | .ordinary prototype properties =>
    -- an `instanceof` that holds of another kind of object ends in its methods
    if prototype.chain ≠ [] then .error .typeError
    else fill (cloneProperty clone) putProperty copy (st.create address (.ordinary prototype .empty)) properties.entries

end

def cloneFallbackValue : Nat → State A → Value A → Except Stopped (State A × Value A)
  | _, st, .atom a => .ok (st, .atom a)
  | fuel, st, .object address =>
    match st.seen.get address, fuel with
    | some existing, _ => .ok (st, .object existing)
    | none, 0 => .error .fuel
    | none, fuel + 1 => do
      let copy := st.heap.size
      let st ← cloneNode (cloneFallbackValue fuel) st address
      .ok (st, .object copy)

/-- Each level of the recursion meets one more of the objects. -/
def fallbackClone (heap : Heap (Node A)) (value : Value A) : Except Stopped (State A × Value A) :=
  cloneFallbackValue (heap.size + 1) ⟨heap, .empty⟩ value

end Fluo.Core
