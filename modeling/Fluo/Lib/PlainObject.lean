import Mathlib.Data.List.Induction
import Fluo.Lib.OrderedMap
import Fluo.Lib.JsString

/-!
# Plain objects as dictionaries

An object literal `{}` that collects values under the names they come with. Reading
a name that the object does not have goes on to its prototype, and `__proto__` is no
property of its own but names that prototype. So the collected values are those of
each name exactly as long as no name is one of `Object.prototype`.
-/

namespace Fluo.PlainObject

open Js

def protoName : JsString := text "__proto__"

/-- The properties of `Object.prototype`. -/
def objectNames : List JsString :=
  [protoName, text "constructor", text "__defineGetter__", text "__defineSetter__", text "hasOwnProperty",
    text "__lookupGetter__", text "__lookupSetter__", text "isPrototypeOf", text "propertyIsEnumerable", text "toString",
    text "valueOf", text "toLocaleString"]

/-- The methods of `Array.prototype`. -/
def arrayNames : List JsString :=
  [text "at", text "concat", text "copyWithin", text "entries", text "every", text "fill", text "filter", text "find",
    text "findIndex", text "findLast", text "findLastIndex", text "flat", text "flatMap", text "forEach", text "includes",
    text "indexOf", text "join", text "keys", text "lastIndexOf", text "map", text "pop", text "push", text "reduce",
    text "reduceRight", text "reverse", text "shift", text "slice", text "some", text "sort", text "splice",
    text "toReversed", text "toSorted", text "toSpliced", text "unshift", text "values", text "with"]

/-- What one place of an object can hold: a collected value, or what a read of an
inherited name found. -/
inductive Value (α : Type) where
  | data (a : α)
  | builtin (name : JsString)
  | objectPrototype
  | arrayLength (n : Nat)
  deriving DecidableEq, Repr

inductive Field (α : Type) where
  | single (v : Value α)
  | array (items : List (Value α))
  deriving DecidableEq, Repr

/-- An object that started as `{}`: its own properties, and the array that was made
its prototype, if any. -/
structure Record (α : Type) where
  own : OrderedMap JsString (Field α)
  proto : Option (List (Value α))

variable {α : Type}

def Record.empty : Record α := ⟨.empty, none⟩

/-- The element of an array that a name is the index of. -/
def element (items : List (Value α)) (name : JsString) : Option (Value α) :=
  ((List.range items.length).find? fun i => (Nat.toDigits 10 i).map unit = name).bind (items[·]?)

def Record.inherited (r : Record α) (name : JsString) : Option (Field α) :=
  match r.proto with
  | none =>
    if name = protoName then some (.single .objectPrototype)
    else if name ∈ objectNames then some (.single (.builtin name))
    else none
  | some items =>
    if name = protoName then some (.array items)
    else if name = text "length" then some (.single (.arrayLength items.length))
    else match element items name with
      | some v => some (.single v)
      | none => if name ∈ arrayNames ++ objectNames then some (.single (.builtin name)) else none

/-- `object[name]`, where `undefined` is `none`. -/
def Record.read (r : Record α) (name : JsString) : Option (Field α) :=
  match r.own.get name with
  | some f => some f
  | none => r.inherited name

/-- `object[name] = field`. The accessor ignores what is no object. -/
def Record.assign (r : Record α) (name : JsString) (field : Field α) : Record α :=
  if name = protoName then
    match field with
    | .array items => { r with proto := some items }
    | .single _ => r
  else { r with own := r.own.set name field }

/-- The first value of a name stands for itself, the second one makes an array of
it, and each later one is pushed. -/
def Record.append (r : Record α) (name : JsString) (value : α) : Record α :=
  match r.read name with
  | none => r.assign name (.single (.data value))
  | some (.array items) => r.assign name (.array (items ++ [Value.data value]))
  | some (.single existing) => r.assign name (.array [existing, .data value])

def Record.appendAll (r : Record α) (pairs : List (JsString × α)) : Record α :=
  pairs.foldl (fun r p => r.append p.1 p.2) r

/-! ## What should be collected -/

def valuesOf (name : JsString) (pairs : List (JsString × α)) : List α :=
  (pairs.filter (·.1 = name)).map Prod.snd

def collected : List α → Option (Field α)
  | [] => none
  | [a] => some (.single (.data a))
  | l => some (.array (l.map .data))

/-- A name has an entry exactly if it came with a value: that value, or all its
values in order. -/
def Record.Groups (r : Record α) (pairs : List (JsString × α)) : Prop :=
  ∀ name, r.own.get name = collected (valuesOf name pairs)

theorem valuesOf_append (name : JsString) (l m : List (JsString × α)) :
    valuesOf name (l ++ m) = valuesOf name l ++ valuesOf name m := by
  rw [valuesOf, List.filter_append, List.map_append]
  rfl

theorem valuesOf_length (name : JsString) (pairs : List (JsString × α)) :
    (valuesOf name pairs).length = (pairs.map Prod.fst).count name := by
  rw [valuesOf, List.length_map, List.count, List.countP_map, List.countP_eq_length_filter]
  exact congrArg List.length (List.filter_congr fun p _ => (beq_eq_decide p.1 name).symm)

theorem mem_valuesOf {name : JsString} {value : α} {pairs : List (JsString × α)} :
    value ∈ valuesOf name pairs ↔ (name, value) ∈ pairs := by
  rw [valuesOf, List.mem_map]
  constructor
  · rintro ⟨p, mem, rfl⟩
    obtain ⟨inside, same⟩ := List.mem_filter.mp mem
    rw [← of_decide_eq_true same]
    exact inside
  · exact fun mem => ⟨(name, value), List.mem_filter.mpr ⟨mem, decide_eq_true rfl⟩, rfl⟩

theorem valuesOf_ne_nil {p : JsString × α} {pairs : List (JsString × α)} (mem : p ∈ pairs) : valuesOf p.1 pairs ≠ [] := by
  exact List.ne_nil_of_mem (mem_valuesOf.mpr mem)

theorem collected_ne_none {l : List α} (h : l ≠ []) : collected l ≠ none := by
  match l, h with
  | [_], _ => exact nofun
  | _ :: _ :: _, _ => exact nofun

theorem collected_array {l : List α} {items : List (Value α)} (h : collected l = some (.array items)) :
    items = l.map .data := by
  match l with
  | [] => cases h
  | [_] => cases h
  | _ :: _ :: _ => exact (Field.array.inj (Option.some.inj h)).symm

theorem appendAll_concat (r : Record α) (pairs : List (JsString × α)) (p : JsString × α) :
    r.appendAll (pairs ++ [p]) = (r.appendAll pairs).append p.1 p.2 := by
  rw [Record.appendAll, List.foldl_append]
  rfl

/-! ## One value more -/

theorem assign_get (r : Record α) {name : JsString} (plain : name ≠ protoName) (field : Field α) (k : JsString) :
    (r.assign name field).own.get k = if k = name then some field else r.own.get k := by
  rw [Record.assign.eq_def, if_neg plain]
  exact OrderedMap.get_set _ _ _ _

theorem assign_proto (r : Record α) {name : JsString} (plain : name ≠ protoName) (field : Field α) :
    (r.assign name field).proto = r.proto := by
  rw [Record.assign.eq_def, if_neg plain]

theorem assign_own_proto (r : Record α) (name : JsString) (field : Field α) :
    (r.assign name field).own.get protoName = r.own.get protoName := by
  rw [Record.assign.eq_def]
  split
  · cases field <;> rfl
  next plain => exact (OrderedMap.get_set _ _ _ _).trans (if_neg (Ne.symm plain))

theorem append_assigns (r : Record α) (name : JsString) (value : α) :
    ∃ field, r.append name value = r.assign name field := by
  rw [Record.append]
  split
  · exact ⟨_, rfl⟩
  · exact ⟨_, rfl⟩
  · exact ⟨_, rfl⟩

theorem appendAll_own_proto (r : Record α) (pairs : List (JsString × α)) :
    (r.appendAll pairs).own.get protoName = r.own.get protoName := by
  induction pairs using List.reverseRecOn with
  | nil => rfl
  | append_singleton pairs p ih =>
    obtain ⟨field, eq⟩ := append_assigns (r.appendAll pairs) p.1 p.2
    rw [appendAll_concat, eq, assign_own_proto, ih]

theorem appendAll_proto {pairs : List (JsString × α)} (plain : ∀ p ∈ pairs, p.1 ≠ protoName) (r : Record α) :
    (r.appendAll pairs).proto = r.proto := by
  induction pairs using List.reverseRecOn with
  | nil => rfl
  | append_singleton pairs p ih =>
    obtain ⟨field, eq⟩ := append_assigns (r.appendAll pairs) p.1 p.2
    rw [appendAll_concat, eq, assign_proto _ (plain p (List.mem_append_right _ List.mem_cons_self)),
      ih fun q mem => plain q (List.mem_append_left _ mem)]

theorem assign_collects {r : Record α} {pairs : List (JsString × α)} (groups : r.Groups pairs) {name : JsString}
    (plain : name ≠ protoName) {value : α} {field : Field α}
    (now : collected (valuesOf name pairs ++ [value]) = some field) :
    (r.assign name field).Groups (pairs ++ [(name, value)]) := by
  intro k
  rw [valuesOf_append, assign_get _ plain]
  by_cases same : k = name
  · have single : valuesOf name [(name, value)] = [value] := by simp [valuesOf]
    rw [if_pos same, same, single, now]
  · have other : valuesOf k [(name, value)] = [] := by simp [valuesOf, Ne.symm same]
    rw [if_neg same, other, List.append_nil, groups k]

theorem append_collects {r : Record α} {pairs : List (JsString × α)} (own : r.proto = none) (groups : r.Groups pairs)
    {name : JsString} (free : name ∉ objectNames) (value : α) : (r.append name value).Groups (pairs ++ [(name, value)]) := by
  have plain : name ≠ protoName := fun same => free (same ▸ List.mem_cons_self)
  have noneInherited : r.inherited name = none := by
    rw [Record.inherited, own]
    exact (if_neg plain).trans (if_neg free)
  rw [Record.append, Record.read, groups name]
  rcases values : valuesOf name pairs with _ | ⟨first, _ | ⟨second, rest⟩⟩
  · simp only [collected, noneInherited]
    exact assign_collects groups plain (by rw [values]; rfl)
  · simp only [collected]
    exact assign_collects groups plain (by rw [values]; rfl)
  · simp only [collected]
    exact assign_collects groups plain (by rw [values, ← List.map_singleton, ← List.map_append]; rfl)

theorem appendAll_groups {pairs : List (JsString × α)} (free : ∀ p ∈ pairs, p.1 ∉ objectNames) :
    (Record.empty.appendAll pairs).Groups pairs := by
  induction pairs using List.reverseRecOn with
  | nil => exact fun name => OrderedMap.get_empty name
  | append_singleton pairs p ih =>
    have before : ∀ q ∈ pairs, q.1 ∉ objectNames := fun q mem => free q (List.mem_append_left _ mem)
    have own : (Record.empty.appendAll pairs).proto = none :=
      appendAll_proto (fun q mem same => before q mem (same ▸ List.mem_cons_self)) Record.empty
    rw [appendAll_concat]
    exact append_collects own (ih before) (free p (List.mem_append_right _ List.mem_cons_self)) p.2

/-- What a name of the prototype holds: nothing yet, or an array that begins with
what the first read of it found. -/
def Tainted (r : Record α) (name : JsString) : Prop :=
  r.own.get name = none ∨ ∃ items, r.own.get name = some (.array (.builtin name :: items))

theorem append_tainted {r : Record α} (own : r.proto = none) {name : JsString} (builtin : name ∈ objectNames)
    (plain : name ≠ protoName) (tainted : Tainted r name) {k : JsString} (plainK : k ≠ protoName) (value : α) :
    Tainted (r.append k value) name := by
  by_cases same : name = k
  · subst same
    have found : r.inherited name = some (.single (.builtin name)) := by
      rw [Record.inherited, own]
      exact (if_neg plain).trans (if_pos builtin)
    rcases tainted with none_ | ⟨items, some_⟩
    · refine .inr ⟨[.data value], ?_⟩
      simp only [Record.append, Record.read, none_, found]
      exact (assign_get _ plain _ _).trans (if_pos rfl)
    · refine .inr ⟨items ++ [Value.data value], ?_⟩
      simp only [Record.append, Record.read, some_]
      exact (assign_get _ plain _ _).trans (if_pos rfl)
  · obtain ⟨field, eq⟩ := append_assigns r k value
    rw [Tainted, eq, assign_get _ plainK, if_neg same]
    exact tainted

theorem appendAll_tainted {pairs : List (JsString × α)} (free : ∀ p ∈ pairs, p.1 ≠ protoName) {name : JsString}
    (builtin : name ∈ objectNames) (plain : name ≠ protoName) : Tainted (Record.empty.appendAll pairs) name := by
  induction pairs using List.reverseRecOn with
  | nil => exact .inl (OrderedMap.get_empty name)
  | append_singleton pairs p ih =>
    have before : ∀ q ∈ pairs, q.1 ≠ protoName := fun q mem => free q (List.mem_append_left _ mem)
    rw [appendAll_concat]
    exact append_tainted (appendAll_proto before Record.empty) builtin plain (ih before)
      (free p (List.mem_append_right _ List.mem_cons_self)) p.2

/-- A name that came is a property afterwards, other than the prototype's. -/
theorem appendAll_own {pairs : List (JsString × α)} {p : JsString × α} (mem : p ∈ pairs) (plain : p.1 ≠ protoName)
    (r : Record α) : (r.appendAll pairs).own.get p.1 ≠ none := by
  induction pairs using List.reverseRecOn with
  | nil => cases mem
  | append_singleton pairs q ih =>
    obtain ⟨field, eq⟩ := append_assigns (r.appendAll pairs) q.1 q.2
    rw [appendAll_concat, eq]
    by_cases same : p.1 = q.1
    · rw [same, assign_get _ (same ▸ plain), if_pos rfl]
      exact nofun
    · have earlier : p ∈ pairs := by
        rcases List.mem_append.mp mem with earlier | last
        · exact earlier
        · exact absurd (congrArg Prod.fst (List.mem_singleton.mp last)) same
      by_cases accessor : q.1 = protoName
      · rw [Record.assign.eq_def, if_pos accessor]
        cases field <;> exact ih earlier
      · rw [assign_get _ accessor, if_neg same]
        exact ih earlier

theorem proto_free {pairs : List (JsString × α)} (h : (Record.empty.appendAll pairs).proto = none) :
    ∀ p ∈ pairs, p.1 ≠ protoName := by
  induction pairs using List.reverseRecOn with
  | nil => exact nofun
  | append_singleton pairs q ih =>
    rw [appendAll_concat] at h
    have accessor : q.1 ≠ protoName := by
      intro same
      have own : (Record.empty.appendAll pairs).own.get protoName = none :=
        (appendAll_own_proto _ _).trans (OrderedMap.get_empty _)
      cases proto : (Record.empty.appendAll pairs).proto with
      | none =>
        have found : (Record.empty.appendAll pairs).read protoName = some (.single .objectPrototype) := by
          rw [Record.read, own]
          simp only [Record.inherited, proto, if_true]
        rw [same, Record.append, found] at h
        cases h
      | some items =>
        have found : (Record.empty.appendAll pairs).read protoName = some (.array items) := by
          rw [Record.read, own]
          simp only [Record.inherited, proto, if_true]
        rw [same, Record.append, found] at h
        cases h
    obtain ⟨field, eq⟩ := append_assigns (Record.empty.appendAll pairs) q.1 q.2
    rw [eq, assign_proto _ accessor] at h
    intro p mem
    rcases List.mem_append.mp mem with earlier | last
    · exact ih h p earlier
    · rw [List.mem_singleton.mp last]
      exact accessor

theorem collected_injective {l m : List α} (h : collected l = collected m) : l = m := by
  match l, m with
  | [], [] => rfl
  | [_], [_] =>
    cases h
    rfl
  | a :: b :: l, m =>
    have items := collected_array h.symm
    exact (List.map_injective_iff.mpr (fun _ _ same => Value.data.inj same) items)
  | [], _ :: rest => cases rest <;> cases h
  | [_], [] => cases h
  | [_], _ :: _ :: _ => cases h

theorem free_of_groups {pairs others : List (JsString × α)} (plain : ∀ p ∈ pairs, p.1 ≠ protoName)
    (groups : (Record.empty.appendAll pairs).Groups others) : ∀ p ∈ pairs, p.1 ∉ objectNames := by
  intro p mem builtin
  rcases appendAll_tainted plain builtin (plain p mem) with missing | ⟨items, found⟩
  · exact appendAll_own mem (plain p mem) _ missing
  · have data := collected_array ((groups p.1).symm.trans found)
    rcases values : valuesOf p.1 others with _ | ⟨first, rest⟩
    · rw [values] at data
      cases data
    · rw [values] at data
      cases data

/-- Objects that hold the values of one list, and whose prototype is untouched, came
from a list with the same values under each name. -/
theorem groups_valuesOf {pairs others : List (JsString × α)} (own : (Record.empty.appendAll pairs).proto = none)
    (groups : (Record.empty.appendAll pairs).Groups others) (name : JsString) :
    valuesOf name pairs = valuesOf name others := by
  have free := free_of_groups (proto_free own) groups
  exact collected_injective ((appendAll_groups free name).symm.trans (groups name))

/-- A plain object collects the values of each name exactly as long as no name is
a property of `Object.prototype`. -/
theorem appendAll_groups_iff {pairs : List (JsString × α)} :
    (Record.empty.appendAll pairs).Groups pairs ↔ ∀ p ∈ pairs, p.1 ∉ objectNames := by
  refine ⟨fun groups => ?_, appendAll_groups⟩
  refine free_of_groups (fun p mem same => ?_) groups
  have missing : (Record.empty.appendAll pairs).own.get p.1 = none := by
    rw [same, appendAll_own_proto]
    exact OrderedMap.get_empty _
  exact collected_ne_none (valuesOf_ne_nil mem) ((groups p.1).symm.trans missing)

end Fluo.PlainObject
