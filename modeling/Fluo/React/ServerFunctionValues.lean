import Fluo.Lib.Heap
import Fluo.Lib.JsString
import Fluo.Lib.Numerals
import Fluo.Lib.OrderedMap

/-!
# Server function values

What a server function takes and returns is copied, before it is used, from any
graph of objects into a frozen tree of what JSON can carry.
-/

namespace Fluo.React.ServerFunctions

open Js

variable {N : Type}

/-- A number: a finite one, with zero in `N`, or one of the others. -/
inductive Number (N : Type)
  | finite (n : N)
  | negativeZero
  | notFinite

/-- A value; `other` are `undefined`, functions, symbols and big integers. -/
inductive Value (N : Type)
  | null
  | boolean (b : Bool)
  | string (s : JsString)
  | number (n : Number N)
  | object (address : Nat)
  | other

structure Slot (N : Type) where
  enumerable : Bool
  value : Value N

/-- An object: an array with its elements and holes and what else it has, a record
whose prototype is `Object.prototype` or `null`, or anything else. -/
inductive Shape (N : Type)
  | array (elements : List (Option (Value N))) (extra : OrderedMap PropertyKey (Slot N))
  | record (properties : OrderedMap PropertyKey (Slot N))
  | exotic

structure Object (N : Type) where
  shape : Shape N
  frozen : Bool

instance : Inhabited (Object N) := ⟨⟨.exotic, false⟩⟩

structure SerializationFailure where
  path : JsString
  reason : JsString
  deriving DecidableEq

/-- The objects and the set `ancestors`, which all calls share. -/
structure State (N : Type) where
  heap : Heap (Object N)
  ancestors : List Nat

/-- A result with the state it leaves. -/
abbrev Outcome (N : Type) := State N × Except SerializationFailure (Value N)

structure ParseContext where
  depth : Nat
  maxDepth : Nat
  path : JsString

def blockedObjectKeys : List JsString := [text "__proto__", text "constructor", text "prototype"]

def failure (path : JsString) (reason : String) : Except SerializationFailure (Value N) := .error ⟨path, text reason⟩

def indexText (index : Nat) : JsString := unit '[' :: (digitsIn 10 index ++ [unit ']'])

def keyPath (key : JsString) : JsString := unit '.' :: key

/-- The key and the value of a property that `Object.entries` lists. -/
def listedEntry : PropertyKey × Slot N → Option (JsString × Value N)
  | (.named key, slot) => if slot.enumerable then some (key, slot.value) else none
  | (.symbol _ _, _) => none

namespace State

variable (st : State N)

def enter (address : Nat) : State N := { st with ancestors := address :: st.ancestors }

def leave (address : Nat) : State N := { st with ancestors := st.ancestors.erase address }

def create (shape : Shape N) : State N × Value N :=
  ({ st with heap := st.heap.push ⟨shape, true⟩ }, .object st.heap.size)

end State

section

-- `parse` is the recursive call, one level below the caller, with the path of the part.
variable (parse : State N → JsString → Value N → Outcome N) (value : Nat) (context : ParseContext)

/-- The loop of `parseArray`; `parsed` are the copies of the elements before `index`. -/
def parseElements (st : State N) (index : Nat) (parsed : List (Value N)) : List (Option (Value N)) → Outcome N
  | [] =>
    let (st, copy) := (st.leave value).create (.array (parsed.map some) .empty)
    (st, .ok copy)
  | none :: _ => (st.leave value, failure (context.path ++ indexText index) "Sparse arrays are not serializable.")
  | some item :: rest =>
    match parse st (context.path ++ indexText index) item with
    | (st, .error failed) => (st.leave value, .error failed)
    | (st, .ok copy) => parseElements st (index + 1) (parsed ++ [copy]) rest

def parseArray (st : State N) (elements : List (Option (Value N))) : Outcome N :=
  if value ∈ st.ancestors then (st, failure context.path "Circular arrays are not serializable.")
  else parseElements parse value context (st.enter value) 0 [] elements

/-- The loop of `parseRecord`. -/
def parseEntries (st : State N) (parsed : OrderedMap PropertyKey (Slot N)) : List (JsString × Value N) → Outcome N
  | [] =>
    let (st, copy) := (st.leave value).create (.record parsed)
    (st, .ok copy)
  | (key, item) :: rest =>
    if key ∈ blockedObjectKeys then
      (st.leave value, failure (context.path ++ keyPath key) "Prototype-sensitive object keys are not allowed.")
    else
      match parse st (context.path ++ keyPath key) item with
      | (st, .error failed) => (st.leave value, .error failed)
      | (st, .ok copy) => parseEntries st (parsed.set (.named key) ⟨true, copy⟩) rest

def parseRecord (st : State N) (properties : OrderedMap PropertyKey (Slot N)) : Outcome N :=
  if value ∈ st.ancestors then (st, failure context.path "Circular objects are not serializable.")
  else if properties.entries.length ≠ (properties.entries.filterMap listedEntry).length then
    (st, failure context.path "Symbol and non-enumerable properties are not serializable.")
  else parseEntries parse value context (st.enter value) .empty (properties.entries.filterMap listedEntry)

end

def depthExceeded (context : ParseContext) : Except SerializationFailure (Value N) :=
  .error ⟨context.path, text "Serialization depth exceeds " ++ digitsIn 10 context.maxDepth ++ text "."⟩

def parseValue (st : State N) (context : ParseContext) (value : Value N) : Outcome N :=
  if _h : context.maxDepth < context.depth then (st, depthExceeded context)
  else
    match value with
    | .number .notFinite => (st, failure context.path "Only finite numbers are serializable.")
    | .object address =>
      let parse := fun (st : State N) (path : JsString) (item : Value N) =>
        parseValue st ⟨context.depth + 1, context.maxDepth, path⟩ item
      match (st.heap.get address).shape with
      | .array elements _ => parseArray parse address context st elements
      | .record properties => parseRecord parse address context st properties
      | .exotic =>
        (st, failure context.path "Only JSON-compatible primitives, arrays, and plain objects are serializable.")
    | .other => (st, failure context.path "Only JSON-compatible primitives, arrays, and plain objects are serializable.")
    | value => (st, .ok value)
termination_by context.maxDepth + 1 - context.depth
decreasing_by exact Nat.sub_lt_sub_left (Nat.lt_succ_of_le (Nat.not_lt.mp _h)) (Nat.lt_succ_self context.depth)

/-- `parseReactServerFunctionArguments`, with the objects of its result. -/
def parseReactServerFunctionArguments (heap : Heap (Object N)) (value : Value N) (maxDepth : Nat) : Outcome N :=
  let st : State N := ⟨heap, []⟩
  let invalid : Outcome N := (st, failure (text "args") "Server Function arguments must be an array.")
  match value with
  | .object address =>
    match (heap.get address).shape with
    | .array elements _ =>
      parseArray (fun st path item => parseValue st ⟨1, maxDepth, path⟩ item) address ⟨0, maxDepth, text "args"⟩ st elements
    | _ => invalid
  | _ => invalid

def parseReactServerFunctionValue (heap : Heap (Object N)) (value : Value N) (maxDepth : Nat) : Outcome N :=
  parseValue ⟨heap, []⟩ ⟨0, maxDepth, text "result"⟩ value

end Fluo.React.ServerFunctions
