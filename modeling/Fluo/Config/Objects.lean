import Fluo.Lib.Heap
import Fluo.Lib.JsString
import Fluo.Lib.OrderedMap

/-!
# Objects that configuration is made of

A heap of JavaScript objects with prototypes, where a property is read and
written the way `target[key]` is: through the prototype chain, with the
accessor `__proto__` of `Object.prototype`. A source is an object of the heap,
and is read as the tree that its objects unfold to, each object under its
address; a source that contains itself unfolds for ever.
-/

namespace Fluo.Config

open Js

inductive Scalar where
  | undefined
  | null
  | boolean (b : Bool)
  | number (n : Int)
  | string (s : JsString)
  deriving DecidableEq

/-- What an object is: `{}` and its like, an instance of a class, with or
without private state, an array, or a built-in whose contents are in internal
slots. -/
inductive Brand where
  | ordinary
  | instance (cls : Nat) (hidden : Bool)
  | array
  | date (time : Int)
  | map
  | set
  deriving DecidableEq

/-- The contents of a date, a map or a set are no properties of it. -/
def Brand.slotted : Brand → Bool
  | .date _ | .map | .set => true
  | _ => false

inductive Value where
  | scalar (s : Scalar)
  | function (address : Nat)
  | ref (address : Nat)
  deriving DecidableEq

instance : Inhabited Value := ⟨.scalar .undefined⟩

inductive Proto where
  | null
  | function (address : Nat)
  | object (address : Nat)
  deriving DecidableEq

/-- `Object.prototype`. -/
def objectPrototype : Nat := 0

/-- The own enumerable data properties of an object; the contents of a slotted
one are listed here too, under their positions. -/
structure Cell where
  brand : Brand
  proto : Proto
  properties : OrderedMap JsString Value

/-- `{}` -/
def Cell.fresh : Cell := ⟨.ordinary, .object objectPrototype, .empty⟩

instance : Inhabited Cell := ⟨Cell.fresh⟩

abbrev Store := Heap Cell

def protoKey : JsString := text "__proto__"

/-! ## Reading and writing a property -/

/-- Where a property is found: as data, or at the accessor `__proto__`. -/
inductive Found where
  | data (value : Value)
  | accessor
  | absent

def Cell.own (cell : Cell) (key : JsString) : Option Value :=
  if cell.brand.slotted then none else cell.properties.get key

/-- Walk a prototype chain. The methods on the way to `Object.prototype` are
functions and tell a plain object from nothing else, so they are left out. -/
def find (store : Store) (key : JsString) : Nat → Proto → Found
  | 0, _ => .absent
  | _, .null => .absent
  | steps + 1, .function _ => find store key steps (.object objectPrototype)
  | steps + 1, .object address =>
    match (store.get address).own key with
    | some value => .data value
    | none =>
      if address = objectPrototype ∧ key = protoKey then .accessor
      else find store key steps (store.get address).proto

/-- A chain visits no object twice. -/
def locate (store : Store) (target : Nat) (key : JsString) : Found :=
  find store key (store.size + 2) (.object target)

def Proto.value : Proto → Value
  | .null => .scalar .null
  | .function address => .function address
  | .object address => .ref address

/-- `target[key]` -/
def read (store : Store) (target : Nat) (key : JsString) : Value :=
  match locate store target key with
  | .data value => value
  | .accessor => (store.get target).proto.value
  | .absent => .scalar .undefined

def Cell.define (cell : Cell) (key : JsString) (value : Value) : Cell :=
  { cell with properties := cell.properties.set key value }

/-- The setter `__proto__`: a scalar other than `null` is ignored, and the
prototype of `Object.prototype` cannot be changed. -/
def setPrototype (store : Store) (target : Nat) (value : Value) : Option Store :=
  match value with
  | .scalar .null => some (store.modify target ({ · with proto := .null }))
  | .scalar _ => some store
  | .function address =>
    if target = objectPrototype then none
    else some (store.modify target ({ · with proto := .function address }))
  | .ref address =>
    if target = objectPrototype then none
    else some (store.modify target ({ · with proto := .object address }))

/-- `target[key] = value`, where `none` is a `TypeError`. -/
def write (store : Store) (target : Nat) (key : JsString) (value : Value) : Option Store :=
  match locate store target key with
  | .accessor => setPrototype store target value
  | _ => some (store.modify target (·.define key value))

/-- `isPlainObject`: the address of a value that is an object and not an array. -/
def isPlainObject (store : Store) : Value → Option Nat
  | .ref address => if (store.get address).brand = .array then none else some address
  | _ => none

/-! ## Sources -/

mutual

inductive Source where
  | scalar (s : Scalar)
  | function (address : Nat)
  | object (address : Nat) (brand : Brand) (entries : Entries)

/-- The properties of an object, the items of an array under their indices, or
the contents of a built-in. -/
inductive Entries where
  | nil
  | cons (key : JsString) (value : Source) (rest : Entries)

end

instance : Inhabited Source := ⟨.scalar .undefined⟩
instance : Inhabited Entries := ⟨.nil⟩

def Source.value : Source → Value
  | .scalar s => .scalar s
  | .function address => .function address
  | .object address _ _ => .ref address

namespace Entries

def get : Entries → JsString → Option Source
  | .nil, _ => none
  | .cons key value rest, k => if key = k then some value else rest.get k

def keys : Entries → List JsString
  | .nil => []
  | .cons key _ rest => key :: rest.keys

end Entries

mutual

/-- The same tree without its addresses, those of functions apart. -/
def Source.erase : Source → Source
  | .object _ brand entries => .object 0 brand entries.erase
  | source => source

def Entries.erase : Entries → Entries
  | .nil => .nil
  | .cons key value rest => .cons key value.erase rest.erase

end

mutual

def Source.Distinct : Source → Prop
  | .object _ _ entries => entries.Distinct
  | _ => True

def Entries.Distinct : Entries → Prop
  | .nil => True
  | .cons key value rest => key ∉ rest.keys ∧ value.Distinct ∧ rest.Distinct

end

mutual

def Source.holdsFunction : Source → Bool
  | .function _ => true
  | .object _ _ entries => entries.holdFunction
  | .scalar _ => false

def Entries.holdFunction : Entries → Bool
  | .nil => false
  | .cons _ value rest => value.holdsFunction || rest.holdFunction

end

/-! ## The tree of a source -/

/-- The tree that the objects of a value unfold to; `none` when `depth` does not
suffice. -/
def unfold (store : Store) : Nat → Value → Option Source
  | _, .scalar s => some (.scalar s)
  | _, .function address => some (.function address)
  | 0, .ref _ => none
  | depth + 1, .ref address =>
    ((store.get address).properties.entries.foldr (fun property rest =>
      (unfold store depth property.2).bind fun value => rest.map (.cons property.1 value)) (some .nil)).map
      (.object address (store.get address).brand)

/-! ## Clones -/

/-- `structuredClone` makes a plain object of an instance of a class, and
`fallbackClone` an instance without its private state. -/
def Brand.copied (structured : Bool) : Brand → Brand
  | .instance cls _ => if structured then .ordinary else .instance cls false
  | brand => brand

mutual

/-- Some object of the tree is not what it was in a copy. -/
def Source.loses (structured : Bool) : Source → Bool
  | .object _ brand entries => decide (brand.copied structured ≠ brand) || entries.lose structured
  | _ => false

def Entries.lose (structured : Bool) : Entries → Bool
  | .nil => false
  | .cons _ value rest => value.loses structured || rest.lose structured

end

mutual

def copy (structured : Bool) (store : Store) : Source → Value × Store
  | .scalar s => (.scalar s, store)
  | .function address => (.function address, store)
  | .object _ brand entries =>
    let (properties, store) := copyEntries structured store .empty entries
    (.ref store.size, store.push ⟨brand.copied structured, .object objectPrototype, properties⟩)

def copyEntries (structured : Bool) (store : Store) (properties : OrderedMap JsString Value) :
    Entries → OrderedMap JsString Value × Store
  | .nil => (properties, store)
  | .cons key value rest =>
    let (value, store) := copy structured store value
    copyEntries structured store (properties.set key value) rest

end

/-- `cloneConfigDictionary`: `structuredClone` throws on a function, and
`fallbackClone` then keeps it. -/
def cloneConfigDictionary (store : Store) (source : Source) : Value × Store :=
  copy (!source.holdsFunction) store source

end Fluo.Config
