import Fluo.Lib.JsonRoundTrip
import Fluo.React.ServerFunctionValues

/-!
# What server functions accept

A value is accepted exactly when no part of it is deeper than allowed, lies on a
cycle, or is nothing that JSON has. The copy shows the same JSON value, and so
does what is made of its text.
-/

namespace Fluo.React.ServerFunctions

open Js

variable {N : Type}

/-! ## Parts of a value -/

inductive Step
  | index (i : Nat)
  | key (name : JsString)

def Step.text : Step → JsString
  | .index i => indexText i
  | .key name => keyPath name

def pathText (steps : List Step) : JsString := steps.flatMap Step.text

section

variable (heap : Heap (Object N))

/-- An element of an array, or an enumerable property of a record. -/
inductive Child : Value N → Step → Value N → Prop
  | element {a i elements extra v} : (heap.get a).shape = .array elements extra → elements[i]? = some (some v) →
      Child (.object a) (.index i) v
  | entry {a name properties v} : (heap.get a).shape = .record properties →
      properties.get (.named name) = some ⟨true, v⟩ → Child (.object a) (.key name) v

/-- The part of a value at the end of a path. -/
inductive At : Value N → List Step → Value N → Prop
  | here (v : Value N) : At v [] v
  | down {v w x s steps} : Child heap v s w → At w steps x → At v (s :: steps) x

def Hidden (properties : OrderedMap PropertyKey (Slot N)) : Prop :=
  ∃ entry ∈ properties.entries, listedEntry entry = none

/-- A part that has no place in JSON whatever it contains. -/
inductive Unfit : Value N → Prop
  | other : Unfit .other
  | notFinite : Unfit (.number .notFinite)
  | exotic {a} : (heap.get a).shape = .exotic → Unfit (.object a)
  | hidden {a properties} : (heap.get a).shape = .record properties → Hidden properties → Unfit (.object a)

def Sensitive (name : JsString) : Prop :=
  name = text "__proto__" ∨ name = text "constructor" ∨ name = text "prototype"

/-- An index without an element, or a key that is not allowed. -/
inductive Missing : Value N → Step → Prop
  | hole {a i elements extra} : (heap.get a).shape = .array elements extra → elements[i]? = some none →
      Missing (.object a) (.index i)
  | blocked {a name properties v} : (heap.get a).shape = .record properties →
      properties.get (.named name) = some ⟨true, v⟩ → Sensitive name → Missing (.object a) (.key name)

/-- Every part is one that JSON has, none is too deep, and none contains itself. -/
structure Serializable (maxDepth : Nat) (v : Value N) : Prop where
  fit : ∀ {steps w}, At heap v steps w → ¬ Unfit heap w
  complete : ∀ {steps w s}, At heap v steps w → ¬ Missing heap w s
  shallow : ∀ {steps w}, At heap v steps w → steps.length ≤ maxDepth
  acyclic : ∀ {steps more w}, At heap v steps w → At heap w more w → more = []

/-- What is wrong at the end of a path; the parse of `v` began at a depth and below
some ancestors. -/
inductive Offends (ancestors : List Nat) (depth maxDepth : Nat) (v : Value N) : List Step → Prop
  | deep {steps w} : At heap v steps w → maxDepth < depth + steps.length → Offends ancestors depth maxDepth v steps
  | unfit {steps w} : At heap v steps w → Unfit heap w → Offends ancestors depth maxDepth v steps
  | missing {steps w s} : At heap v steps w → Missing heap w s → Offends ancestors depth maxDepth v (steps ++ [s])
  | below {steps a} : At heap v steps (.object a) → a ∈ ancestors → Offends ancestors depth maxDepth v steps
  | cycle {earlier later w} : At heap v earlier w → At heap w later w → later ≠ [] →
      Offends ancestors depth maxDepth v (earlier ++ later)

end

theorem mem_blockedObjectKeys {name : JsString} : name ∈ blockedObjectKeys ↔ Sensitive name := by
  simp [blockedObjectKeys, Sensitive]

theorem At.append {heap : Heap (Object N)} {v w x : Value N} {steps more : List Step} (first : At heap v steps w)
    (next : At heap w more x) : At heap v (steps ++ more) x := by
  induction first with
  | here v => exact next
  | down child _ ih => exact .down child (ih next)

/-- Without ancestors an offending part keeps the value from being serializable. -/
theorem Offends.not_serializable {heap : Heap (Object N)} {maxDepth : Nat} {v : Value N} {steps : List Step}
    (h : Offends heap [] 0 maxDepth v steps) : ¬ Serializable heap maxDepth v := by
  intro accepted
  cases h with
  | deep at_ deep =>
    have := accepted.shallow at_
    omega
  | unfit at_ unfit => exact accepted.fit at_ unfit
  | missing at_ missing => exact accepted.complete at_ missing
  | below at_ mem => cases mem
  | cycle first again some_ => exact some_ (accepted.acyclic first again)

theorem Offends.child {heap : Heap (Object N)} {ancestors : List Nat} {depth maxDepth a : Nat} {s : Step}
    {w : Value N} {steps : List Step} (child : Child heap (.object a) s w)
    (h : Offends heap (a :: ancestors) (depth + 1) maxDepth w steps) :
    Offends heap ancestors depth maxDepth (.object a) (s :: steps) := by
  cases h with
  | deep at_ deep =>
    refine .deep (.down child at_) ?_
    rw [List.length_cons]
    omega
  | unfit at_ unfit => exact .unfit (.down child at_) unfit
  | missing at_ missing => exact .missing (.down child at_) missing
  | below at_ mem =>
    rcases List.mem_cons.mp mem with same | mem
    · rw [same] at at_
      have around : Offends heap ancestors depth maxDepth (.object a) ([] ++ s :: steps) :=
        .cycle (.here _) (.down child at_) (List.cons_ne_nil _ _)
      exact around
    · exact .below (.down child at_) mem
  | cycle first again some_ => exact .cycle (.down child first) again some_

/-! ## What a value shows -/

section

variable (zero : N) (heap : Heap (Object N)) (good : Nat → Object N → Prop)

mutual

/-- The JSON value of a graph, all of whose objects are good. -/
inductive Shows : Value N → Json N → Prop
  | null : Shows .null .null
  | boolean (b : Bool) : Shows (.boolean b) (.bool b)
  | string (s : JsString) : Shows (.string s) (.string s)
  | finite (n : N) : Shows (.number (.finite n)) (.number n)
  | negativeZero : Shows (.number .negativeZero) (.number zero)
  | array {a elements extra items} : a < heap.size → (heap.get a).shape = .array elements extra → good a (heap.get a) →
      ShowsItems elements items → Shows (.object a) (.array items)
  | record {a properties entries} : a < heap.size → (heap.get a).shape = .record properties → good a (heap.get a) →
      ShowsEntries properties.entries entries → Shows (.object a) (.object entries)

inductive ShowsItems : List (Option (Value N)) → List (Json N) → Prop
  | nil : ShowsItems [] []
  | cons {v j elements items} : Shows v j → ShowsItems elements items → ShowsItems (some v :: elements) (j :: items)

inductive ShowsEntries : List (PropertyKey × Slot N) → List (JsString × Json N) → Prop
  | nil : ShowsEntries [] []
  | cons {name v j properties entries} : ¬ Sensitive name → Shows v j → ShowsEntries properties entries →
      ShowsEntries ((.named name, ⟨true, v⟩) :: properties) ((name, j) :: entries)

end

end

/-- Objects are added and those that are there stay as they are. -/
structure Grown (heap heap' : Heap (Object N)) : Prop where
  more : heap.size ≤ heap'.size
  same : ∀ a < heap.size, heap'.get a = heap.get a

theorem Grown.refl (heap : Heap (Object N)) : Grown heap heap := ⟨Nat.le_refl _, fun _ _ => rfl⟩

theorem Grown.trans {h₁ h₂ h₃ : Heap (Object N)} (first : Grown h₁ h₂) (next : Grown h₂ h₃) : Grown h₁ h₃ :=
  ⟨first.more.trans next.more, fun a less => (next.same a (by have := first.more; omega)).trans (first.same a less)⟩

theorem Grown.push (heap : Heap (Object N)) (object : Object N) : Grown heap (heap.push object) :=
  ⟨Nat.le_succ _, fun _ less => Heap.get_push_lt object less⟩

variable {zero : N} {good : Nat → Object N → Prop}

mutual

theorem Shows.grown {heap heap' : Heap (Object N)} (grown : Grown heap heap') {v : Value N} {j : Json N}
    (h : Shows zero heap good v j) : Shows zero heap' good v j := by
  cases h with
  | null => exact .null
  | boolean b => exact .boolean b
  | string s => exact .string s
  | finite n => exact .finite n
  | negativeZero => exact .negativeZero
  | array less shape fine items =>
    have same := grown.same _ less
    exact .array (Nat.lt_of_lt_of_le less grown.more) (by rw [same, shape]) (by rwa [same]) (items.grown grown)
  | record less shape fine entries =>
    have same := grown.same _ less
    exact .record (Nat.lt_of_lt_of_le less grown.more) (by rw [same, shape]) (by rwa [same]) (entries.grown grown)

theorem ShowsItems.grown {heap heap' : Heap (Object N)} (grown : Grown heap heap')
    {elements : List (Option (Value N))} {items : List (Json N)} (h : ShowsItems zero heap good elements items) :
    ShowsItems zero heap' good elements items := by
  cases h with
  | nil => exact .nil
  | cons v rest => exact .cons (v.grown grown) (rest.grown grown)

theorem ShowsEntries.grown {heap heap' : Heap (Object N)} (grown : Grown heap heap')
    {properties : List (PropertyKey × Slot N)} {entries : List (JsString × Json N)}
    (h : ShowsEntries zero heap good properties entries) : ShowsEntries zero heap' good properties entries := by
  cases h with
  | nil => exact .nil
  | cons allowed v rest => exact .cons allowed (v.grown grown) (rest.grown grown)

end

theorem ShowsItems.snoc {heap : Heap (Object N)} {elements : List (Option (Value N))} {items : List (Json N)} {v : Value N}
    {j : Json N} (h : ShowsItems zero heap good elements items) (last : Shows zero heap good v j) :
    ShowsItems zero heap good (elements ++ [some v]) (items ++ [j]) := by
  induction elements generalizing items with
  | nil =>
    cases h
    exact .cons last .nil
  | cons element elements ih =>
    cases h with
    | cons first rest => exact .cons first (ih rest)

theorem ShowsItems.dense {heap : Heap (Object N)} {elements : List (Option (Value N))} {items : List (Json N)}
    (h : ShowsItems zero heap good elements items) : none ∉ elements := by
  induction elements generalizing items with
  | nil => exact List.not_mem_nil
  | cons element elements ih =>
    cases h with
    | cons first rest =>
      intro mem
      rcases List.mem_cons.mp mem with none_ | mem
      · cases none_
      · exact ih rest mem

theorem ShowsEntries.snoc {heap : Heap (Object N)} {properties : List (PropertyKey × Slot N)}
    {entries : List (JsString × Json N)} {name : JsString} {v : Value N} {j : Json N}
    (h : ShowsEntries zero heap good properties entries) (allowed : ¬ Sensitive name)
    (last : Shows zero heap good v j) :
    ShowsEntries zero heap good (properties ++ [(.named name, ⟨true, v⟩)]) (entries ++ [(name, j)]) := by
  induction properties generalizing entries with
  | nil =>
    cases h
    exact .cons allowed last .nil
  | cons property properties ih =>
    cases h with
    | cons ok first rest => exact .cons ok first (ih rest)

theorem ShowsEntries.keys {heap : Heap (Object N)} {properties : List (PropertyKey × Slot N)}
    {entries : List (JsString × Json N)} (h : ShowsEntries zero heap good properties entries) :
    properties.map Prod.fst = entries.map fun e => PropertyKey.named e.1 := by
  induction properties generalizing entries with
  | nil =>
    cases h
    rfl
  | cons property properties ih =>
    cases h with
    | cons ok first rest => rw [List.map_cons, List.map_cons, ih rest]

/-! ## The loops -/

/-- All parts are ones that JSON has, and none is too deep. -/
def Fits (heap : Heap (Object N)) (depth maxDepth : Nat) (v : Value N) : Prop :=
  ∀ {steps w}, At heap v steps w → ¬ Unfit heap w ∧ (∀ s, ¬ Missing heap w s) ∧ depth + steps.length ≤ maxDepth

/-- The value refers to an object that is there. -/
def Known (heap : Heap (Object N)) : Value N → Prop
  | .object a => a < heap.size
  | _ => True

variable {input : Heap (Object N)}

def Fresh (input : Heap (Object N)) (a : Nat) (object : Object N) : Prop := input.size ≤ a ∧ object.frozen = true

def Anything (_ : Nat) (_ : Object N) : Prop := True

variable (zero) in
/-- What the parse of a part leaves: the ancestors as they were, and a copy of the
same JSON value or the path of what is wrong. -/
def Parsed (input : Heap (Object N)) (depth maxDepth : Nat) (path : JsString) (v : Value N) (st : State N)
    (outcome : Outcome N) : Prop :=
  outcome.1.ancestors = st.ancestors ∧ Grown st.heap outcome.1.heap ∧
  match outcome.2 with
  | .ok copy => Fits input depth maxDepth v ∧
      ∃ j, Shows zero input Anything v j ∧ Shows zero outcome.1.heap (Fresh input) copy j
  | .error failed => ∃ steps, failed.path = path ++ pathText steps ∧ Offends input st.ancestors depth maxDepth v steps

variable {parse : State N → JsString → Value N → Outcome N} {a : Nat} {context : ParseContext} {ancestors : List Nat}

theorem leave_entered (st : State N) (entered : st.ancestors = a :: ancestors) : (st.leave a).ancestors = ancestors := by
  rw [State.leave, entered, List.erase_cons_head]

theorem child_failed {s : Step} {w : Value N} {steps : List Step} {failed : SerializationFailure}
    (child : Child input (.object a) s w) (text : failed.path = context.path ++ s.text ++ pathText steps)
    (wrong : Offends input (a :: ancestors) (context.depth + 1) context.maxDepth w steps) :
    ∃ steps, failed.path = context.path ++ pathText steps ∧
      Offends input ancestors context.depth context.maxDepth (.object a) steps := by
  refine ⟨s :: steps, ?_, wrong.child child⟩
  rw [text, pathText, pathText, List.flatMap_cons, List.append_assoc]

theorem parseElements_parsed {elements : List (Option (Value N))} {extra : OrderedMap PropertyKey (Slot N)}
    (shape : (input.get a).shape = .array elements extra) (there : a < input.size)
    (level : context.depth ≤ context.maxDepth)
    (known : ∀ v, some v ∈ elements → Known input v)
    (parts : ∀ st path v, Grown input st.heap → Known input v →
      Parsed zero input (context.depth + 1) context.maxDepth path v st (parse st path v))
    (rest done : List (Option (Value N))) (whole : done ++ rest = elements) (st : State N)
    (entered : st.ancestors = a :: ancestors) (grown : Grown input st.heap) (parsed : List (Value N))
    (items : List (Json N)) (shown : ShowsItems zero input Anything done items)
    (copied : ShowsItems zero st.heap (Fresh input) (parsed.map some) items)
    (fits : ∀ v, some v ∈ done → Fits input (context.depth + 1) context.maxDepth v) :
    Parsed zero input context.depth context.maxDepth context.path (.object a) ⟨st.heap, ancestors⟩
      (parseElements parse a context st done.length parsed rest) := by
  induction rest generalizing done st parsed items with
  | nil =>
    rw [List.append_nil] at whole
    subst whole
    refine ⟨leave_entered st entered, Grown.push _ _, ?_, .array items, .array there shape trivial shown, ?_⟩
    · intro steps w at_
      cases at_ with
      | here =>
        refine ⟨?_, ?_, level⟩
        · intro unfit
          cases unfit with
          | exotic shape' => rw [shape] at shape'; cases shape'
          | hidden shape' => rw [shape] at shape'; cases shape'
        · intro s missing
          cases missing with
          | hole shape' none_ =>
            rw [shape] at shape'
            cases shape'
            exact shown.dense (List.mem_of_getElem? none_)
          | blocked shape' => rw [shape] at shape'; cases shape'
      | down child below =>
        cases child with
        | element shape' found =>
          rw [shape] at shape'
          cases shape'
          obtain ⟨fit, complete, shallow⟩ := fits _ (List.mem_of_getElem? found) below
          refine ⟨fit, complete, ?_⟩
          rw [List.length_cons]
          omega
        | entry shape' => rw [shape] at shape'; cases shape'
    · have made := st.heap.get_push_self ⟨.array (parsed.map some) .empty, true⟩
      exact .array (Nat.lt_succ_self _) (congrArg Object.shape made) ⟨grown.more, congrArg Object.frozen made⟩
        (copied.grown (Grown.push _ _))
  | cons element rest ih =>
    cases element with
    | none =>
      refine ⟨leave_entered st entered, Grown.refl _, [.index done.length], ?_, ?_⟩
      · rw [pathText, List.flatMap_singleton]
        rfl
      · have hole : elements[done.length]? = some none := by
          rw [← whole, List.getElem?_append_right (Nat.le_refl _), Nat.sub_self]
          rfl
        have missing : Offends input ancestors context.depth context.maxDepth (.object a) ([] ++ [Step.index done.length]) :=
          .missing (.here _) (.hole shape hole)
        exact missing
    | some item =>
      have found : elements[done.length]? = some (some item) := by
        rw [← whole, List.getElem?_append_right (Nat.le_refl _), Nat.sub_self]
        rfl
      have child : Child input (.object a) (.index done.length) item := .element shape found
      have part := parts st (context.path ++ indexText done.length) item grown (known item (List.mem_of_getElem? found))
      rw [parseElements]
      obtain ⟨kept, further, result⟩ := part
      split
      · next st' failed returned =>
        rw [returned] at kept further result
        obtain ⟨steps, text, wrong⟩ := result
        rw [entered] at wrong
        exact ⟨leave_entered st' (kept.trans entered), further, child_failed child text wrong⟩
      · next st' copy returned =>
        rw [returned] at kept further result
        obtain ⟨fit, j, shows, copies⟩ := result
        have step := ih (done ++ [some item]) (by rw [← whole, List.append_assoc]; rfl) st' (kept.trans entered)
          (grown.trans further) (parsed ++ [copy]) (items ++ [j]) (shown.snoc shows)
          (by rw [List.map_append]; exact (copied.grown further).snoc copies) fun v mem => by
            rcases List.mem_append.mp mem with old | new
            · exact fits v old
            · cases List.mem_singleton.mp new
              exact fit
        rw [List.length_append, List.length_singleton] at step
        exact ⟨step.1, further.trans step.2.1, step.2.2⟩

/-- The property that an entry was listed for. -/
def unlisted (entry : JsString × Value N) : PropertyKey × Slot N := (.named entry.1, ⟨true, entry.2⟩)

theorem listedEntry_some {property : PropertyKey × Slot N} {entry : JsString × Value N}
    (h : listedEntry property = some entry) : property = unlisted entry := by
  obtain ⟨key, enumerable, value⟩ := property
  cases key with
  | named name =>
    rw [listedEntry] at h
    split at h
    · next on =>
      cases h
      dsimp only at on
      rw [on]
      rfl
    · cases h
  | symbol => cases h

theorem hidden_iff (l : List (PropertyKey × Slot N)) :
    (∃ property ∈ l, listedEntry property = none) ↔ l.length ≠ (l.filterMap listedEntry).length := by
  induction l with
  | nil => simp
  | cons property l ih =>
    have fewer := List.length_filterMap_le listedEntry l
    cases listed : listedEntry property with
    | none =>
      rw [List.filterMap_cons_none listed, List.length_cons]
      exact ⟨fun _ => by omega, fun _ => ⟨property, List.mem_cons_self, listed⟩⟩
    | some entry =>
      rw [List.filterMap_cons_some listed, List.length_cons, List.length_cons]
      simp only [List.mem_cons, exists_eq_or_imp, listed, reduceCtorEq, false_or, ih]
      omega

theorem listed_whole {l : List (PropertyKey × Slot N)} (all : l.length = (l.filterMap listedEntry).length) :
    l = (l.filterMap listedEntry).map unlisted := by
  induction l with
  | nil => rfl
  | cons property l ih =>
    have fewer := List.length_filterMap_le listedEntry l
    cases listed : listedEntry property with
    | none =>
      rw [List.filterMap_cons_none listed, List.length_cons] at all
      omega
    | some entry =>
      rw [List.filterMap_cons_some listed, List.length_cons, List.length_cons] at all
      rw [List.filterMap_cons_some listed, List.map_cons, ← ih (by omega), ← listedEntry_some listed]

theorem ShowsEntries.allowed {heap : Heap (Object N)} {entries : List (JsString × Json N)} {l : List (JsString × Value N)}
    (h : ShowsEntries zero heap good (l.map unlisted) entries) : ∀ entry ∈ l, ¬ Sensitive entry.1 := by
  induction l generalizing entries with
  | nil => exact nofun
  | cons first l ih =>
    intro entry mem
    cases h with
    | cons allowed _ rest =>
      rcases List.mem_cons.mp mem with rfl | mem
      · exact allowed
      · exact ih rest entry mem

theorem parseEntries_parsed {properties : OrderedMap PropertyKey (Slot N)}
    (shape : (input.get a).shape = .record properties) (there : a < input.size)
    (level : context.depth ≤ context.maxDepth) {listed : List (JsString × Value N)}
    (entries_ : properties.entries = listed.map unlisted)
    (known : ∀ entry ∈ listed, Known input entry.2)
    (parts : ∀ st path v, Grown input st.heap → Known input v →
      Parsed zero input (context.depth + 1) context.maxDepth path v st (parse st path v))
    (rest done : List (JsString × Value N)) (whole : done ++ rest = listed) (st : State N)
    (entered : st.ancestors = a :: ancestors) (grown : Grown input st.heap) (parsed : OrderedMap PropertyKey (Slot N))
    (entries : List (JsString × Json N)) (shown : ShowsEntries zero input Anything (done.map unlisted) entries)
    (copied : ShowsEntries zero st.heap (Fresh input) parsed.entries entries)
    (fits : ∀ entry ∈ done, Fits input (context.depth + 1) context.maxDepth entry.2) :
    Parsed zero input context.depth context.maxDepth context.path (.object a) ⟨st.heap, ancestors⟩
      (parseEntries parse a context st parsed rest) := by
  have property {entry : JsString × Value N} (mem : entry ∈ listed) :
      properties.get (.named entry.1) = some ⟨true, entry.2⟩ := by
    rw [← OrderedMap.mem_entries, entries_]
    exact List.mem_map_of_mem (f := unlisted) mem
  have listed_of {name : JsString} {v : Value N} (got : properties.get (.named name) = some ⟨true, v⟩) :
      (name, v) ∈ listed := by
    rw [← OrderedMap.mem_entries, entries_] at got
    obtain ⟨⟨name', v'⟩, mem, same⟩ := List.mem_map.mp got
    cases same
    exact mem
  induction rest generalizing done st parsed entries with
  | nil =>
    rw [List.append_nil] at whole
    subst whole
    refine ⟨leave_entered st entered, Grown.push _ _, ?_, .object entries, .record there shape trivial (entries_ ▸ shown), ?_⟩
    · intro steps w at_
      cases at_ with
      | here =>
        refine ⟨?_, ?_, level⟩
        · intro unfit
          cases unfit with
          | exotic shape' => rw [shape] at shape'; cases shape'
          | hidden shape' hidden =>
            rw [shape] at shape'
            cases shape'
            obtain ⟨property, mem, unlisted_⟩ := hidden
            rw [entries_] at mem
            obtain ⟨entry, -, rfl⟩ := List.mem_map.mp mem
            cases unlisted_
        · intro s missing
          cases missing with
          | hole shape' => rw [shape] at shape'; cases shape'
          | blocked shape' got blocked =>
            rw [shape] at shape'
            cases shape'
            exact shown.allowed _ (listed_of got) blocked
      | down child below =>
        cases child with
        | element shape' => rw [shape] at shape'; cases shape'
        | entry shape' got =>
          rw [shape] at shape'
          cases shape'
          obtain ⟨fit, complete, shallow⟩ := fits _ (listed_of got) below
          refine ⟨fit, complete, ?_⟩
          rw [List.length_cons]
          omega
    · have made := st.heap.get_push_self ⟨.record parsed, true⟩
      exact .record (Nat.lt_succ_self _) (congrArg Object.shape made) ⟨grown.more, congrArg Object.frozen made⟩
        (copied.grown (Grown.push _ _))
  | cons entry rest ih =>
    obtain ⟨name, item⟩ := entry
    have mem : (name, item) ∈ listed := whole ▸ List.mem_append_right done List.mem_cons_self
    rw [parseEntries]
    split
    · next blocked =>
      refine ⟨leave_entered st entered, Grown.refl _, [.key name], ?_, ?_⟩
      · rw [pathText, List.flatMap_singleton]
        rfl
      · have missing : Offends input ancestors context.depth context.maxDepth (.object a) ([] ++ [Step.key name]) :=
          .missing (.here _) (.blocked shape (property mem) (mem_blockedObjectKeys.mp blocked))
        exact missing
    · next absent =>
      have allowed : ¬ Sensitive name := fun sensitive => absent (mem_blockedObjectKeys.mpr sensitive)
      have child : Child input (.object a) (.key name) item := .entry shape (property mem)
      have part := parts st (context.path ++ keyPath name) item grown (known _ mem)
      obtain ⟨kept, further, result⟩ := part
      split
      · next st' failed returned =>
        rw [returned] at kept further result
        obtain ⟨steps, text, wrong⟩ := result
        rw [entered] at wrong
        exact ⟨leave_entered st' (kept.trans entered), further, child_failed child text wrong⟩
      · next st' copy returned =>
        rw [returned] at kept further result
        obtain ⟨fit, j, shows, copies⟩ := result
        -- the key is new in the copy, as the keys of the record are distinct
        have new : parsed.get (.named name) = none := by
          have distinct := properties.distinct
          rw [entries_, ← whole, List.map_append, List.map_append] at distinct
          refine OrderedMap.find_of_not_mem fun old => ?_
          rw [copied.keys, ← shown.keys] at old
          exact List.disjoint_of_nodup_append distinct old (List.mem_map_of_mem (List.mem_map_of_mem List.mem_cons_self))
        have step := ih (done ++ [(name, item)]) (by rw [← whole, List.append_assoc]; rfl) st' (kept.trans entered)
          (grown.trans further) (parsed.set (.named name) ⟨true, copy⟩) (entries ++ [(name, j)])
          (by rw [List.map_append]; exact shown.snoc allowed shows)
          (by rw [OrderedMap.entries_set_of_absent _ new]; exact (copied.grown further).snoc allowed copies) fun entry mem => by
            rcases List.mem_append.mp mem with old | new
            · exact fits entry old
            · cases List.mem_singleton.mp new
              exact fit
        exact ⟨step.1, further.trans step.2.1, step.2.2⟩

/-! ## The whole walk -/

/-- A heap in which the references of the objects lead to objects. -/
def Closed (heap : Heap (Object N)) : Prop := ∀ a < heap.size, ∀ s v, Child heap (.object a) s v → Known heap v

theorem parseArray_parsed {elements : List (Option (Value N))} {extra : OrderedMap PropertyKey (Slot N)} {st : State N}
    (closed : Closed input) (shape : (input.get a).shape = .array elements extra) (there : a < input.size)
    (level : context.depth ≤ context.maxDepth) (grown : Grown input st.heap)
    (parts : ∀ st path v, Grown input st.heap → Known input v →
      Parsed zero input (context.depth + 1) context.maxDepth path v st (parse st path v)) :
    Parsed zero input context.depth context.maxDepth context.path (.object a) st
      (parseArray parse a context st elements) := by
  rw [parseArray]
  split
  · next below => exact ⟨rfl, Grown.refl _, [], (List.append_nil _).symm, .below (.here _) below⟩
  · refine parseElements_parsed shape there level (fun v mem => ?_) parts elements [] rfl (st.enter a) rfl grown [] [] .nil
      .nil nofun
    obtain ⟨i, found⟩ := List.mem_iff_getElem?.mp mem
    exact closed a there _ _ (.element shape found)

theorem parseRecord_parsed {properties : OrderedMap PropertyKey (Slot N)} {st : State N} (closed : Closed input)
    (shape : (input.get a).shape = .record properties) (there : a < input.size) (level : context.depth ≤ context.maxDepth)
    (grown : Grown input st.heap)
    (parts : ∀ st path v, Grown input st.heap → Known input v →
      Parsed zero input (context.depth + 1) context.maxDepth path v st (parse st path v)) :
    Parsed zero input context.depth context.maxDepth context.path (.object a) st
      (parseRecord parse a context st properties) := by
  rw [parseRecord]
  split
  · next below => exact ⟨rfl, Grown.refl _, [], (List.append_nil _).symm, .below (.here _) below⟩
  · split
    · next some_ =>
      exact ⟨rfl, Grown.refl _, [], (List.append_nil _).symm,
        .unfit (.here _) (.hidden shape ((hidden_iff _).mpr some_))⟩
    · next all =>
      have entries := listed_whole (not_not.mp all)
      refine parseEntries_parsed shape there level entries (fun entry mem => ?_) parts _ [] rfl (st.enter a) rfl grown .empty []
        .nil .nil nofun
      refine closed a there (.key entry.1) entry.2 (.entry shape ?_)
      rw [← OrderedMap.mem_entries, entries]
      exact List.mem_map.mpr ⟨entry, mem, rfl⟩

variable (zero) in
theorem leaf_parsed {depth maxDepth : Nat} {path : JsString} {v : Value N} {j : Json N} (st : State N)
    (level : depth ≤ maxDepth) (fit : ¬ Unfit input v) (lone : ∀ s w, ¬ Child input v s w) (whole : ∀ s, ¬ Missing input v s)
    (shows : ∀ heap good, Shows zero heap good v j) : Parsed zero input depth maxDepth path v st (st, .ok v) := by
  refine ⟨rfl, Grown.refl _, ?_, j, shows _ _, shows _ _⟩
  intro steps w at_
  cases at_ with
  | here => exact ⟨fit, whole, level⟩
  | down child => exact absurd child (lone _ _)

theorem parseValue_parsed (closed : Closed input) (st : State N) (context : ParseContext) (v : Value N)
    (grown : Grown input st.heap) (known : Known input v) :
    Parsed zero input context.depth context.maxDepth context.path v st (parseValue st context v) := by
  induction levels : context.maxDepth + 1 - context.depth generalizing st context v with
  | zero =>
    unfold parseValue
    rw [dif_pos (by omega)]
    exact ⟨rfl, Grown.refl _, [], (List.append_nil _).symm, .deep (.here _) (by rw [List.length_nil]; omega)⟩
  | succ n ih =>
    have level : context.depth ≤ context.maxDepth := by omega
    have unfit {text : String} (h : Unfit input v) : Parsed zero input context.depth context.maxDepth context.path v st
        (st, failure context.path text) :=
      ⟨rfl, Grown.refl _, [], (List.append_nil _).symm, .unfit (.here _) h⟩
    have parts (st : State N) (path : JsString) (item : Value N) (grown : Grown input st.heap) (known : Known input item) :
        Parsed zero input (context.depth + 1) context.maxDepth path item st
          (parseValue st ⟨context.depth + 1, context.maxDepth, path⟩ item) :=
      ih st ⟨context.depth + 1, context.maxDepth, path⟩ item grown known (by dsimp only; omega)
    unfold parseValue
    rw [dif_neg (by omega)]
    cases v with
    | null => exact leaf_parsed zero st level nofun nofun nofun fun _ _ => .null
    | boolean b => exact leaf_parsed zero st level nofun nofun nofun fun _ _ => .boolean b
    | string s => exact leaf_parsed zero st level nofun nofun nofun fun _ _ => .string s
    | number number =>
      cases number with
      | finite n => exact leaf_parsed zero st level nofun nofun nofun fun _ _ => .finite n
      | negativeZero => exact leaf_parsed zero st level nofun nofun nofun fun _ _ => .negativeZero
      | notFinite => exact unfit .notFinite
    | other => exact unfit .other
    | object address =>
      have same := grown.same address known
      dsimp only
      rw [same]
      split
      · next elements extra shape => exact parseArray_parsed closed shape known level grown parts
      · next properties shape => exact parseRecord_parsed closed shape known level grown parts
      · next shape => exact unfit (.exotic shape)

/-! ## Values of one JSON value -/

theorem ShowsItems.item {heap : Heap (Object N)} {elements : List (Option (Value N))} {items : List (Json N)}
    (h : ShowsItems zero heap good elements items) {i : Nat} {v : Value N} (found : elements[i]? = some (some v)) :
    ∃ j, items[i]? = some j ∧ Shows zero heap good v j := by
  induction elements generalizing items i with
  | nil => cases found
  | cons element elements ih =>
    cases h with
    | cons first rest =>
      cases i with
      | zero =>
        cases found
        exact ⟨_, rfl, first⟩
      | succ i => exact ih rest found

theorem ShowsItems.element {heap : Heap (Object N)} {elements : List (Option (Value N))} {items : List (Json N)}
    (h : ShowsItems zero heap good elements items) {i : Nat} {j : Json N} (found : items[i]? = some j) :
    ∃ v, elements[i]? = some (some v) ∧ Shows zero heap good v j := by
  induction elements generalizing items i with
  | nil =>
    cases h
    cases found
  | cons element elements ih =>
    cases h with
    | cons first rest =>
      cases i with
      | zero =>
        cases found
        exact ⟨_, rfl, first⟩
      | succ i => exact ih rest found

theorem ShowsEntries.entry {heap : Heap (Object N)} {properties : List (PropertyKey × Slot N)}
    {entries : List (JsString × Json N)} (h : ShowsEntries zero heap good properties entries) {name : JsString}
    {slot : Slot N} (mem : (.named name, slot) ∈ properties) :
    ∃ j, (name, j) ∈ entries ∧ Shows zero heap good slot.value j := by
  induction properties generalizing entries with
  | nil => cases mem
  | cons property properties ih =>
    cases h with
    | cons allowed first rest =>
      rcases List.mem_cons.mp mem with same | mem
      · cases same
        exact ⟨_, List.mem_cons_self, first⟩
      · obtain ⟨j, found, shows⟩ := ih rest mem
        exact ⟨j, List.mem_cons_of_mem _ found, shows⟩

theorem ShowsEntries.property {heap : Heap (Object N)} {properties : List (PropertyKey × Slot N)}
    {entries : List (JsString × Json N)} (h : ShowsEntries zero heap good properties entries) {name : JsString} {j : Json N}
    (mem : (name, j) ∈ entries) :
    ∃ v, (.named name, ⟨true, v⟩) ∈ properties ∧ Shows zero heap good v j := by
  induction properties generalizing entries with
  | nil =>
    cases h
    cases mem
  | cons property properties ih =>
    cases h with
    | cons allowed first rest =>
      rcases List.mem_cons.mp mem with same | mem
      · cases same
        exact ⟨_, List.mem_cons_self, first⟩
      · obtain ⟨v, found, shows⟩ := ih rest mem
        exact ⟨v, List.mem_cons_of_mem _ found, shows⟩

theorem ShowsEntries.listed {heap : Heap (Object N)} {properties : List (PropertyKey × Slot N)}
    {entries : List (JsString × Json N)} (h : ShowsEntries zero heap good properties entries) :
    ∀ property ∈ properties, listedEntry property ≠ none ∧ ∀ name, property.1 = .named name → ¬ Sensitive name := by
  induction properties generalizing entries with
  | nil => exact nofun
  | cons first properties ih =>
    intro property mem
    cases h with
    | cons allowed _ rest =>
      rcases List.mem_cons.mp mem with rfl | mem
      · exact ⟨nofun, fun name same => PropertyKey.named.inj same ▸ allowed⟩
      · exact ih rest property mem

/-- A value that shows something is no unfit part and misses nothing. -/
theorem Shows.fit {heap : Heap (Object N)} {v : Value N} {j : Json N} (h : Shows zero heap good v j) :
    ¬ Unfit heap v ∧ ∀ s, ¬ Missing heap v s := by
  constructor
  · intro unfit
    cases h with
    | null => cases unfit
    | boolean => cases unfit
    | string => cases unfit
    | finite => cases unfit
    | negativeZero => cases unfit
    | array less shape fine items =>
      cases unfit with
      | exotic shape' => rw [shape] at shape'; cases shape'
      | hidden shape' => rw [shape] at shape'; cases shape'
    | record less shape fine entries =>
      cases unfit with
      | exotic shape' => rw [shape] at shape'; cases shape'
      | hidden shape' hidden =>
        rw [shape] at shape'
        cases shape'
        obtain ⟨property, mem, unlisted_⟩ := hidden
        exact (entries.listed property mem).1 unlisted_
  · intro s missing
    cases missing with
    | hole shape' none_ =>
      cases h with
      | array less shape fine items =>
        rw [shape] at shape'
        cases shape'
        exact items.dense (List.mem_of_getElem? none_)
      | record less shape => rw [shape] at shape'; cases shape'
    | blocked shape' got blocked =>
      cases h with
      | array less shape => rw [shape] at shape'; cases shape'
      | record less shape fine entries =>
        rw [shape] at shape'
        cases shape'
        exact (entries.listed _ (OrderedMap.mem_entries.mpr got)).2 _ rfl blocked

theorem At.same {heap heap' : Heap (Object N)} {good good' : Nat → Object N → Prop} {v w : Value N} {steps : List Step}
    (at_ : At heap v steps w) {v' : Value N} {j : Json N} (h : Shows zero heap good v j) (h' : Shows zero heap' good' v' j) :
    ∃ w' j', At heap' v' steps w' ∧ Shows zero heap good w j' ∧ Shows zero heap' good' w' j' := by
  induction at_ generalizing v' j with
  | here v => exact ⟨v', j, .here v', h, h'⟩
  | down child below ih =>
    cases child with
    | element shape found =>
      cases h with
      | array less shape' fine items =>
        rw [shape] at shape'
        cases shape'
        cases h' with
        | array less' there fine' items' =>
          obtain ⟨j, at_, shows⟩ := items.item found
          obtain ⟨v, found', shows'⟩ := items'.element at_
          obtain ⟨w', j', path, result⟩ := ih shows shows'
          exact ⟨w', j', .down (.element there found') path, result⟩
      | record less shape' => rw [shape] at shape'; cases shape'
    | entry shape got =>
      cases h with
      | array less shape' => rw [shape] at shape'; cases shape'
      | record less shape' fine entries =>
        rw [shape] at shape'
        cases shape'
        cases h' with
        | record less' there fine' entries' =>
          obtain ⟨j, mem, shows⟩ := entries.entry (OrderedMap.mem_entries.mpr got)
          obtain ⟨v, property, shows'⟩ := entries'.property mem
          obtain ⟨w', j', path, result⟩ := ih shows shows'
          exact ⟨w', j', .down (.entry there (OrderedMap.mem_entries.mp property)) path, result⟩

mutual

theorem Shows.unique {heap : Heap (Object N)} {v : Value N} {j j' : Json N} (h : Shows zero heap good v j)
    (h' : Shows zero heap good v j') : j = j' := by
  cases h with
  | null => cases h'; rfl
  | boolean => cases h'; rfl
  | string => cases h'; rfl
  | finite => cases h'; rfl
  | negativeZero => cases h'; rfl
  | array less shape fine items =>
    cases h' with
    | array less' shape' fine' items' =>
      rw [shape] at shape'
      cases shape'
      rw [items.unique items']
    | record less' shape' => rw [shape] at shape'; cases shape'
  | record less shape fine entries =>
    cases h' with
    | array less' shape' => rw [shape] at shape'; cases shape'
    | record less' shape' fine' entries' =>
      rw [shape] at shape'
      cases shape'
      rw [entries.unique entries']

theorem ShowsItems.unique {heap : Heap (Object N)} {elements : List (Option (Value N))} {items items' : List (Json N)}
    (h : ShowsItems zero heap good elements items) (h' : ShowsItems zero heap good elements items') : items = items' := by
  cases h with
  | nil => cases h'; rfl
  | cons first rest =>
    cases h' with
    | cons first' rest' => rw [first.unique first', rest.unique rest']

theorem ShowsEntries.unique {heap : Heap (Object N)} {properties : List (PropertyKey × Slot N)}
    {entries entries' : List (JsString × Json N)} (h : ShowsEntries zero heap good properties entries)
    (h' : ShowsEntries zero heap good properties entries') : entries = entries' := by
  cases h with
  | nil => cases h'; rfl
  | cons allowed first rest =>
    cases h' with
    | cons allowed' first' rest' => rw [first.unique first', rest.unique rest']

end

mutual

theorem Shows.distinct {heap : Heap (Object N)} {v : Value N} {j : Json N} (h : Shows zero heap good v j) : j.Distinct := by
  cases h with
  | null => trivial
  | boolean => trivial
  | string => trivial
  | finite => trivial
  | negativeZero => trivial
  | array less shape fine items => exact items.distinct
  | @record a properties entries less shape fine shown =>
    refine ⟨?_, shown.distinct⟩
    have keys := properties.distinct
    rw [shown.keys] at keys
    exact List.Nodup.of_map PropertyKey.named (by rwa [List.map_map])

theorem ShowsItems.distinct {heap : Heap (Object N)} {elements : List (Option (Value N))} {items : List (Json N)}
    (h : ShowsItems zero heap good elements items) : Json.DistinctItems items := by
  cases h with
  | nil => trivial
  | cons first rest => exact ⟨first.distinct, rest.distinct⟩

theorem ShowsEntries.distinct {heap : Heap (Object N)} {properties : List (PropertyKey × Slot N)}
    {entries : List (JsString × Json N)} (h : ShowsEntries zero heap good properties entries) :
    Json.DistinctEntries entries := by
  cases h with
  | nil => trivial
  | cons allowed first rest => exact ⟨first.distinct, rest.distinct⟩

end

theorem Fits.serializable {heap : Heap (Object N)} {maxDepth : Nat} {v : Value N} (fits : Fits heap 0 maxDepth v) :
    Serializable heap maxDepth v where
  fit at_ := (fits at_).1
  complete at_ := (fits at_).2.1 _
  shallow at_ := by
    have := (fits at_).2.2
    omega
  acyclic {steps more w} at_ again := by
    by_contra some_
    have long (k : Nat) : ∃ path, At heap w path w ∧ k ≤ path.length := by
      induction k with
      | zero => exact ⟨[], .here w, Nat.zero_le _⟩
      | succ k ih =>
        obtain ⟨path, around, long⟩ := ih
        refine ⟨more ++ path, again.append around, ?_⟩
        have := List.length_pos_of_ne_nil some_
        rw [List.length_append]
        omega
    obtain ⟨path, around, long⟩ := long (maxDepth + 1)
    have short := (fits (at_.append around)).2.2
    rw [List.length_append] at short
    omega

/-! ## The two functions -/

/-- A finite graph of objects with its root. -/
structure Graph (N : Type) where
  heap : Heap (Object N)
  root : Value N
  closed : Closed heap
  known : Known heap root

/-- The function accepts, of what it admits, exactly the serializable values. It
leaves the objects as they were; its copy is fresh and frozen throughout, shows the
same JSON value, and whatever is made of the text of that is accepted again
and shows it too. What it rejects it names by the path of a part. -/
def Exact (format : NumberFormat N) (zero : N) (parse : Heap (Object N) → Value N → Nat → Outcome N) (root : String)
    (admits : Heap (Object N) → Value N → Prop) : Prop :=
  ∀ (graph : Graph N) (maxDepth : Nat),
    let outcome := parse graph.heap graph.root maxDepth
    Grown graph.heap outcome.1.heap ∧ outcome.1.ancestors = [] ∧
    ((∃ copy, outcome.2 = .ok copy) ↔ admits graph.heap graph.root ∧ Serializable graph.heap maxDepth graph.root) ∧
    (∀ copy, outcome.2 = .ok copy →
      (∀ steps a, At outcome.1.heap copy steps (.object a) →
        graph.heap.size ≤ a ∧ (outcome.1.heap.get a).frozen = true) ∧
      ∃ j, Shows zero graph.heap Anything graph.root j ∧ Shows zero outcome.1.heap (Fresh graph.heap) copy j ∧
        parseJson format (stringify format j) = some j ∧
        ∀ again : Graph N, Shows zero again.heap Anything again.root j →
          ∃ copy', (parse again.heap again.root maxDepth).2 = .ok copy' ∧
            Shows zero (parse again.heap again.root maxDepth).1.heap (Fresh again.heap) copy' j) ∧
    ∀ failed, outcome.2 = .error failed → ∃ steps, failed.path = text root ++ pathText steps ∧
      (Offends graph.heap [] 0 maxDepth graph.root steps ∨ steps = [] ∧ ¬ admits graph.heap graph.root)

theorem exact_of_parsed (format : NumberFormat N) {parse : Heap (Object N) → Value N → Nat → Outcome N} {root : String}
    {admits : Heap (Object N) → Value N → Prop}
    (walks : ∀ (graph : Graph N) maxDepth, admits graph.heap graph.root →
      Parsed zero graph.heap 0 maxDepth (text root) graph.root ⟨graph.heap, []⟩ (parse graph.heap graph.root maxDepth))
    (refuses : ∀ (graph : Graph N) maxDepth, ¬ admits graph.heap graph.root → ∃ reason,
      parse graph.heap graph.root maxDepth = (⟨graph.heap, []⟩, failure (text root) reason))
    (same : ∀ {heap heap' : Heap (Object N)} {v v' : Value N} {j : Json N}, admits heap v → Shows zero heap Anything v j →
      Shows zero heap' Anything v' j → admits heap' v') :
    Exact format zero parse root admits := by
  intro graph maxDepth outcome
  by_cases admitted : admits graph.heap graph.root
  · obtain ⟨kept, grown, result⟩ := walks graph maxDepth admitted
    refine ⟨grown, kept, ?_, fun copy returned => ?_, fun failed returned => ?_⟩
    · cases returned : outcome.2 with
      | ok copy =>
        rw [show (parse graph.heap graph.root maxDepth).2 = .ok copy from returned] at result
        exact ⟨fun _ => ⟨admitted, Fits.serializable result.1⟩, fun _ => ⟨copy, rfl⟩⟩
      | error failed =>
        rw [show (parse graph.heap graph.root maxDepth).2 = .error failed from returned] at result
        obtain ⟨steps, -, wrong⟩ := result
        exact ⟨nofun, fun both => absurd both.2 wrong.not_serializable⟩
    · rw [show (parse graph.heap graph.root maxDepth).2 = .ok copy from returned] at result
      obtain ⟨fits, j, shows, copies⟩ := result
      refine ⟨fun steps a at_ => ?_, j, shows, copies, parseJson_stringify format j shows.distinct, fun again shown => ?_⟩
      · obtain ⟨w', j', -, part, -⟩ := at_.same copies copies
        cases part with
        | array less shape fine => exact fine
        | record less shape fine => exact fine
      · obtain ⟨-, -, result'⟩ := walks again maxDepth (same admitted shows shown)
        cases returned' : (parse again.heap again.root maxDepth).2 with
        | ok copy' =>
          rw [returned'] at result'
          obtain ⟨-, j', shows', copies'⟩ := result'
          exact ⟨copy', rfl, shows'.unique shown ▸ copies'⟩
        | error failed =>
          rw [returned'] at result'
          obtain ⟨steps, -, wrong⟩ := result'
          have fits' : Fits again.heap 0 maxDepth again.root := by
            intro steps w at_
            obtain ⟨w', j', there, part, -⟩ := at_.same shown shows
            exact ⟨part.fit.1, part.fit.2, (fits there).2.2⟩
          exact absurd (Fits.serializable fits') wrong.not_serializable
    · rw [show (parse graph.heap graph.root maxDepth).2 = .error failed from returned] at result
      obtain ⟨steps, path, wrong⟩ := result
      exact ⟨steps, path, .inl wrong⟩
  · obtain ⟨reason, rejected⟩ := refuses graph maxDepth admitted
    have shape : outcome = (⟨graph.heap, []⟩, failure (text root) reason) := rejected
    rw [shape]
    refine ⟨Grown.refl _, rfl, ⟨nofun, fun both => absurd both.1 admitted⟩, nofun, fun failed returned => ?_⟩
    cases returned
    exact ⟨[], (List.append_nil _).symm, .inr ⟨rfl, admitted⟩⟩

def IsArray (heap : Heap (Object N)) (v : Value N) : Prop :=
  ∃ a elements extra, v = .object a ∧ (heap.get a).shape = .array elements extra

/-- The parsers of results and of arguments accept exactly the serializable values, for
arguments the arrays; the copy is fresh and frozen and shows the same JSON value. -/
theorem server_values_exact (format : NumberFormat N) (zero : N) :
    Exact format zero parseReactServerFunctionValue "result" (fun _ _ => True) ∧
      Exact format zero parseReactServerFunctionArguments "args" IsArray := by
  constructor
  · refine exact_of_parsed format (fun graph maxDepth _ => ?_) (fun graph maxDepth refused => ?_) fun _ _ _ => trivial
    · exact parseValue_parsed graph.closed ⟨graph.heap, []⟩ ⟨0, maxDepth, text "result"⟩ graph.root (Grown.refl _)
        graph.known
    · exact absurd trivial refused
  · refine exact_of_parsed format (fun graph maxDepth admitted => ?_) (fun graph maxDepth refused => ?_) ?_
    · obtain ⟨a, elements, extra, root, shape⟩ := admitted
      have known := graph.known
      rw [root] at known ⊢
      simp only [parseReactServerFunctionArguments, shape]
      exact parseArray_parsed graph.closed shape known (Nat.zero_le _) (Grown.refl _) fun st path item grown known =>
        parseValue_parsed graph.closed st ⟨1, maxDepth, path⟩ item grown known
    · refine ⟨"Server Function arguments must be an array.", ?_⟩
      unfold parseReactServerFunctionArguments
      split
      · next a root =>
        split
        · next elements extra shape => exact absurd ⟨a, elements, extra, root, shape⟩ refused
        · rfl
      · rfl
    · rintro heap heap' v v' j ⟨a, elements, extra, rfl, shape⟩ shows shows'
      cases shows with
      | array less shape' fine items =>
        cases shows' with
        | array less' there => exact ⟨_, _, _, rfl, there⟩
      | record less shape' => rw [shape] at shape'; cases shape'

/-- Two references to one object, which has a property `constructor`. -/
def sharedHeap : Heap (Object Decimal) :=
  (Heap.empty.push ⟨.array [some (.object 1), some (.object 1)] .empty, false⟩).push
    ⟨.record (OrderedMap.empty.set (.named (text "constructor")) ⟨true, .null⟩), false⟩

theorem sharedHeap_closed : Closed sharedHeap := by
  intro a there s v child
  have : a = 0 ∨ a = 1 := by
    have : a < 2 := there
    omega
  rcases this with rfl | rfl
  · cases child with
    | @element _ i elements extra _ shape here =>
      have shape : Shape.array [some (.object 1), some (.object 1)] .empty = .array elements extra := shape
      cases shape
      have mem := List.mem_of_getElem? here
      simp only [List.mem_cons, Option.some.injEq, List.not_mem_nil, or_false, or_self] at mem
      rw [mem]
      exact Nat.lt_succ_self 1
    | entry shape => cases shape
  · cases child with
    | element shape => cases shape
    | @entry _ name properties _ shape here =>
      have shape : Shape.record (OrderedMap.empty.set (.named (text "constructor")) ⟨true, .null⟩) = .record properties :=
        shape
      cases shape
      rw [OrderedMap.get_set] at here
      split at here
      · cases here
        trivial
      · cases here

theorem sharedHeap_known : Known sharedHeap (.object 0) := Nat.succ_pos 1

def sharedGraph : Graph Decimal := ⟨sharedHeap, .object 0, sharedHeap_closed, sharedHeap_known⟩

/-- The key is refused though the object that has it is shared. -/
theorem server_values_exact_shared :
    ¬ ∃ copy, (parseReactServerFunctionArguments sharedGraph.heap (.object 0) 8).2 = .ok copy := by
  intro accepted
  have serializable := ((server_values_exact decimalFormat ⟨false, 0, 0, by decide⟩).2 sharedGraph 8).2.2.1.mp accepted
  have first : At sharedGraph.heap (.object 0) [.index 0] (.object 1) := .down (.element rfl rfl) (.here _)
  exact serializable.2.complete first (.blocked rfl rfl (.inr (.inl rfl)))

end Fluo.React.ServerFunctions
