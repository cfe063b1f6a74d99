import Fluo.Config.Objects

/-!
# Merging configuration sources

`mergeConfigSources` of `load.ts`, and what a right-biased deep merge of the
sources is: for every key path the value of the last source that defines it,
plain objects on plain objects apart, which are merged again.
-/

namespace Fluo.Config

open Js

def Source.dictionary : Source → Option Entries
  | .object _ .ordinary entries => some entries
  | _ => none

mutual

/-- The loop of `mergeConfigEntries` over `Object.entries(source)`; `none` is a
thrown error. -/
def mergeConfigEntries (store : Store) (target : Nat) : Entries → Option Store
  | .nil => some store
  | .cons key value rest =>
    (mergeConfigEntry store target key value).bind (mergeConfigEntries · target rest)

/-- Its body. A built-in passes `isPlainObject` but has no entries. -/
def mergeConfigEntry (store : Store) (target : Nat) (key : JsString) : Source → Option Store
  | .object address brand entries =>
    if brand = .array then
      let (clone, store) := cloneConfigDictionary store (.object address brand entries)
      write store target key clone
    else
      match isPlainObject store (read store target key) with
      | some child => if brand.slotted then some store else mergeConfigEntries store child entries
      | none =>
        let filled := store.push .fresh
        (if brand.slotted then some filled else mergeConfigEntries filled store.size entries).bind
          (write · target key (.ref store.size))
  | source =>
    let (clone, store) := cloneConfigDictionary store source
    write store target key clone

end

/-- The address of the merged dictionary and the heap after it. A source is given
by its `Object.entries`, and those below. -/
def mergeConfigSources (store : Store) (sources : List Entries) : Option (Nat × Store) :=
  (sources.foldlM (mergeConfigEntries · store.size ·) (store.push .fresh)).map (store.size, ·)

/-- A source of the heap, read to a depth. The merge writes to newer objects, so
it may be read first. -/
def readSource (store : Store) (depth : Nat) (address : Nat) : Option Entries :=
  (unfold store depth (.ref address)).bind Source.dictionary

/-- The recursion over the sources ends at this depth. -/
def Unfolds (store : Store) (depth : Nat) (sources : List Nat) (layers : List Entries) : Prop :=
  sources.map (readSource store depth) = layers.map some

/-! ## The right-biased deep merge -/

inductive Standing where
  | absent
  | value (source : Source)
  | merged (layers : List Entries)

/-- A plain object is merged over plain objects, anything else replaces. -/
def Standing.put (standing : Standing) (source : Source) : Standing :=
  match source.dictionary, standing with
  | some entries, .merged layers => .merged (layers ++ [entries])
  | some entries, _ => .merged [entries]
  | none, _ => .value source

def standing (layers : List Entries) (key : JsString) : Standing :=
  (layers.filterMap (·.get key)).foldl Standing.put .absent

/-- What a key path holds: a dictionary, or another value up to identity. -/
inductive Resolved where
  | dictionary
  | value (source : Source)

/-- The value that the deep merge of the layers has at a path. -/
def resolve : List Entries → List JsString → Option Resolved
  | _, [] => some .dictionary
  | layers, key :: path =>
    match standing layers key with
    | .absent => none
    | .value source => if path = [] then some (.value source.erase) else none
    | .merged layers => resolve layers path

/-! ## What a heap shows -/

mutual

/-- A value of the heap unfolds to this tree, whatever the addresses are. -/
def Shows (store : Store) (value : Value) : Source → Prop
  | .scalar s => value = .scalar s
  | .function address => value = .function address
  | .object _ brand entries =>
    ∃ address, value = .ref address ∧ (store.get address).brand = brand ∧
      (∀ key, key ∉ entries.keys → (store.get address).properties.get key = none) ∧
      ShowsEntries store address entries

def ShowsEntries (store : Store) (address : Nat) : Entries → Prop
  | .nil => True
  | .cons key source rest =>
    (∃ value, (store.get address).properties.get key = some value ∧ Shows store value source) ∧
      ShowsEntries store address rest

end

def valueAt (store : Store) : Value → List JsString → Option Value
  | value, [] => some value
  | .ref address, key :: path =>
    if (store.get address).brand = .ordinary then
      ((store.get address).properties.get key).bind (valueAt store · path)
    else none
  | _, _ :: _ => none

def Agrees (store : Store) : Option Value → Option Resolved → Prop
  | found, none => found = none
  | found, some .dictionary =>
    ∃ address, found = some (.ref address) ∧ (store.get address).brand = .ordinary
  | found, some (.value source) => ∃ value, found = some value ∧ Shows store value source

/-- A right-biased deep merge without side effects: every path has the value of the
source of highest precedence, and no object that was there before is modified. -/
structure DeepMerge (before after : Store) (result : Nat) (sources : List Entries) : Prop where
  merged : ∀ path, Agrees after (valueAt after (.ref result) path) (resolve sources path)
  untouched : ∀ address, address < before.size → after.get address = before.get address
  /-- However those objects are mutated later, the result stays. -/
  detached : ∀ later : Store,
    (∀ address, before.size ≤ address → later.get address = after.get address) →
    ∀ path, Agrees later (valueAt later (.ref result) path) (resolve sources path)

def MergesDeeply (store : Store) (sources : List Nat) : Prop :=
  ∃ depth layers, Unfolds store depth sources layers ∧
    ∃ result after, mergeConfigSources store layers = some (result, after) ∧ DeepMerge store after result layers

/-! ## Where the code does it -/

mutual

/-- Outside the arrays plain objects only, without an own `__proto__` key, and
nothing in an array that its clone loses: `structuredClone` any instance of a
class, and `fallbackClone`, which is for arrays with functions, private state. -/
def Source.mergeable : Source → Bool
  | .object _ .array entries => !entries.lose (!entries.holdFunction)
  | .object _ .ordinary entries => entries.mergeable
  | .object _ _ _ => false
  | _ => true

def Entries.mergeable : Entries → Bool
  | .nil => true
  | .cons key value rest => key != protoKey && value.mergeable && rest.mergeable

end

def Mergeable (store : Store) (sources : List Nat) : Prop :=
  ∃ depth layers, Unfolds store depth sources layers ∧ ∀ layer ∈ layers, layer.mergeable = true

/-- The realm as it starts: what `Object.prototype` has are functions and scalars. -/
structure Realm (store : Store) : Prop where
  known : objectPrototype < store.size
  root : (store.get objectPrototype).proto = .null
  methods : ∀ key value, (store.get objectPrototype).own key = some value →
    ∀ address, value ≠ .ref address

end Fluo.Config
