import Fluo.Core.FallbackClone
import Mathlib.Data.Finset.Card
import Mathlib.Data.Finset.Range
import Mathlib.Data.List.Forall2

/-!
# The copy is isomorphic

The objects that a value reaches and those that its clone reaches correspond one
to one, by `seen`. While an object is being filled its copy is registered but open;
all others in `seen` are done.
-/

namespace Fluo.Core

open Js

variable {A : Type}

/-! ## Correspondence -/

inductive Corr (seen : OrderedMap Nat Nat) : Value A → Value A → Prop
  | atom (a : A) : Corr seen (.atom a) (.atom a)
  | object {a b} : seen.get a = some b → Corr seen (.object a) (.object b)

inductive DescriptorCorr (seen : OrderedMap Nat Nat) : PropertyDescriptor A → PropertyDescriptor A → Prop
  | data {v v' writable enumerable configurable} : Corr seen v v' →
      DescriptorCorr seen (.data v writable enumerable configurable) (.data v' writable enumerable configurable)
  | accessor (get set : Option A) (enumerable configurable : Bool) :
      DescriptorCorr seen (.accessor get set enumerable configurable) (.accessor get set enumerable configurable)

def EntryCorr (seen : OrderedMap Nat Nat) (e e' : Value A × Value A) : Prop := Corr seen e.1 e'.1 ∧ Corr seen e.2 e'.2

def PropertyCorr (seen : OrderedMap Nat Nat) (p p' : PropertyKey × PropertyDescriptor A) : Prop :=
  p.1 = p'.1 ∧ DescriptorCorr seen p.2 p'.2

def ElementCorr (seen : OrderedMap Nat Nat) (e e' : Value A × Attributes) : Prop := Corr seen e.1 e'.1 ∧ e.2 = e'.2

/-- Objects of one kind and prototype, whose contents correspond in their order, with
the same attributes. -/
inductive NodeCorr (seen : OrderedMap Nat Nat) : Node A → Node A → Prop
  | array {es es' lengthWritable} : List.Forall₂ (ElementCorr seen) es es' →
      NodeCorr seen (.array es lengthWritable) (.array es' lengthWritable)
  | date (time : Option Int) : NodeCorr seen (.date time) (.date time)
  | regExp (source flags : JsString) (lastIndex : Nat) (lastIndexWritable : Bool) :
      NodeCorr seen (.regExp source flags lastIndex lastIndexWritable) (.regExp source flags lastIndex lastIndexWritable)
  | map {m m'} : List.Forall₂ (EntryCorr seen) m.entries m'.entries → NodeCorr seen (.map m) (.map m')
  | set {m m'} : List.Forall₂ (Corr seen) m.keys m'.keys → NodeCorr seen (.set m) (.set m')
  | dataView (bytes : List UInt8) : NodeCorr seen (.dataView bytes) (.dataView bytes)
  | typedArray (prototype : Prototype) (bytes : List UInt8) :
      NodeCorr seen (.typedArray prototype bytes) (.typedArray prototype bytes)
  | arrayBuffer (bytes : List UInt8) : NodeCorr seen (.arrayBuffer bytes) (.arrayBuffer bytes)
  | ordinary {prototype ps ps'} : List.Forall₂ (PropertyCorr seen) ps.entries ps'.entries →
      NodeCorr seen (.ordinary prototype ps) (.ordinary prototype ps')

def PropertyDescriptor.children : PropertyDescriptor A → List (Value A)
  | .data value _ _ _ => [value]
  | .accessor _ _ _ _ => []

def Node.children : Node A → List (Value A)
  | .array elements _ => elements.map Prod.fst
  | .map entries => entries.entries.flatMap fun e => [e.1, e.2]
  | .set members => members.keys
  | .ordinary _ properties => properties.entries.flatMap fun p => p.2.children
  | _ => []

/-- The value refers to an object that is there. -/
def Known (heap : Heap (Node A)) : Value A → Prop
  | .atom _ => True
  | .object a => a < heap.size

/-- No other object inherits from the prototype of a built-in kind, and arrays and
regular expressions have the attributes that they are made with. -/
def Node.Plain : Node A → Prop
  | .array elements lengthWritable => (∀ e ∈ elements, e.2 = .pushed) ∧ lengthWritable = true
  | .regExp _ _ _ lastIndexWritable => lastIndexWritable = true
  | .ordinary prototype _ => prototype.chain = []
  | _ => True

structure Graph (A : Type) where
  heap : Heap (Node A)
  root : Value A
  known : Known heap root
  closed : ∀ a < heap.size, ∀ v ∈ (heap.get a).children, Known heap v
  plain : ∀ a < heap.size, (heap.get a).Plain

/-! ## The invariant -/

structure Inv (input : Heap (Node A)) (opened : List Nat) (st : State A) : Prop where
  more : input.size ≤ st.heap.size
  same : ∀ a < input.size, st.heap.get a = input.get a
  range : ∀ {a b}, st.seen.get a = some b → a < input.size ∧ input.size ≤ b ∧ b < st.heap.size
  injective : ∀ {a a' b}, st.seen.get a = some b → st.seen.get a' = some b → a = a'
  done : ∀ {a b}, st.seen.get a = some b → a ∉ opened → NodeCorr st.seen (input.get a) (st.heap.get b)

/-- What lies below the limit is as it was, and what was met stays met. -/
structure Later (limit : Nat) (st st' : State A) : Prop where
  more : st.heap.size ≤ st'.heap.size
  same : ∀ c < limit, st'.heap.get c = st.heap.get c
  seen : ∀ {a b}, st.seen.get a = some b → st'.seen.get a = some b

theorem Later.refl (limit : Nat) (st : State A) : Later limit st st := ⟨Nat.le_refl _, fun _ _ => rfl, id⟩

theorem Later.trans {limit limit' : Nat} {st₁ st₂ st₃ : State A} (first : Later limit st₁ st₂)
    (next : Later limit' st₂ st₃) (le : limit ≤ limit') : Later limit st₁ st₃ :=
  ⟨first.more.trans next.more, fun c less => (next.same c (by omega)).trans (first.same c less),
    fun met => next.seen (first.seen met)⟩

theorem Corr.later {seen seen' : OrderedMap Nat Nat} (sub : ∀ {a b}, seen.get a = some b → seen'.get a = some b)
    {v w : Value A} (h : Corr seen v w) : Corr seen' v w := by
  cases h with
  | atom a => exact .atom a
  | object met => exact .object (sub met)

theorem DescriptorCorr.later {seen seen' : OrderedMap Nat Nat}
    (sub : ∀ {a b}, seen.get a = some b → seen'.get a = some b) {d d' : PropertyDescriptor A}
    (h : DescriptorCorr seen d d') : DescriptorCorr seen' d d' := by
  cases h with
  | data v => exact .data (v.later sub)
  | accessor get set enumerable configurable => exact .accessor get set enumerable configurable

theorem EntryCorr.later {seen seen' : OrderedMap Nat Nat} (sub : ∀ {a b}, seen.get a = some b → seen'.get a = some b)
    {e e' : Value A × Value A} (h : EntryCorr seen e e') : EntryCorr seen' e e' := ⟨h.1.later sub, h.2.later sub⟩

theorem PropertyCorr.later {seen seen' : OrderedMap Nat Nat}
    (sub : ∀ {a b}, seen.get a = some b → seen'.get a = some b) {p p' : PropertyKey × PropertyDescriptor A}
    (h : PropertyCorr seen p p') : PropertyCorr seen' p p' := ⟨h.1, h.2.later sub⟩

theorem NodeCorr.later {seen seen' : OrderedMap Nat Nat} (sub : ∀ {a b}, seen.get a = some b → seen'.get a = some b)
    {x y : Node A} (h : NodeCorr seen x y) : NodeCorr seen' x y := by
  cases h with
  | array es => exact .array (es.imp fun _ _ e => ⟨e.1.later sub, e.2⟩)
  | date time => exact .date time
  | regExp source flags lastIndex writable => exact .regExp source flags lastIndex writable
  | map entries => exact .map (entries.imp fun _ _ e => e.later sub)
  | set members => exact .set (members.imp fun _ _ v => v.later sub)
  | dataView bytes => exact .dataView bytes
  | typedArray prototype bytes => exact .typedArray prototype bytes
  | arrayBuffer bytes => exact .arrayBuffer bytes
  | ordinary ps => exact .ordinary (ps.imp fun _ _ p => p.later sub)

variable {input : Heap (Node A)} {opened : List Nat} {st : State A}

theorem Inv.create (h : Inv input opened st) {a : Nat} (there : a < input.size) (new : st.seen.get a = none)
    (node : Node A) : Inv input (a :: opened) (st.create a node) := by
  have more := h.more
  refine ⟨by simp only [State.create, Heap.push_size]; omega, fun c less => ?_, fun {c b} met => ?_,
    fun {c c' b} met met' => ?_, fun {c b} met closed => ?_⟩
  · exact (Heap.get_push_lt node (by omega)).trans (h.same c less)
  · simp only [State.create, OrderedMap.get_set, Heap.push_size] at met ⊢
    split at met
    · next same =>
      cases met
      exact ⟨same ▸ there, more, by omega⟩
    · obtain ⟨less, above, below⟩ := h.range met
      exact ⟨less, above, by omega⟩
  · simp only [State.create, OrderedMap.get_set] at met met'
    split at met
    · next same =>
      cases met
      split at met'
      · next same' => exact same.trans same'.symm
      · have := (h.range met').2.2
        omega
    · split at met'
      · cases met'
        have := (h.range met).2.2
        omega
      · exact h.injective met met'
  · have differs : c ≠ a := fun same => closed (same ▸ List.mem_cons_self)
    simp only [State.create, OrderedMap.get_set, if_neg differs] at met ⊢
    rw [Heap.get_push_lt node (h.range met).2.2]
    refine (h.done met fun mem => closed (List.mem_cons_of_mem a mem)).later fun {c' b'} met' => ?_
    rw [OrderedMap.get_set, if_neg]
    · exact met'
    · rintro rfl
      rw [new] at met'
      cases met'

theorem later_create {a : Nat} (new : st.seen.get a = none) (node : Node A) :
    Later st.heap.size st (st.create a node) := by
  refine ⟨by simp [State.create], fun c less => Heap.get_push_lt node less, fun {c b} met => ?_⟩
  simp only [State.create]
  rw [OrderedMap.get_set, if_neg]
  · exact met
  · rintro rfl
    rw [new] at met
    cases met

theorem Inv.write (h : Inv input opened st) {a b : Nat} (met : st.seen.get a = some b) (open_ : a ∈ opened)
    (node : Node A) : Inv input opened (st.write b node) := by
  obtain ⟨less, above, below⟩ := h.range met
  refine ⟨h.more, fun c there => ?_, h.range, h.injective, fun {c d} met' closed => ?_⟩
  · exact (Heap.get_set_ne _ _ (by omega)).trans (h.same c there)
  · have differs : d ≠ b := by
      rintro rfl
      exact closed (h.injective met met' ▸ open_)
    simp only [State.write]
    rw [Heap.get_set_ne _ _ differs]
    exact h.done met' closed

theorem later_write {limit b : Nat} (le : limit ≤ b) (node : Node A) : Later limit st (st.write b node) :=
  ⟨Nat.le_refl _, fun c less => Heap.get_set_ne _ _ (by omega), id⟩

theorem Inv.close {a b : Nat} (h : Inv input (a :: opened) st) (met : st.seen.get a = some b)
    (filled : NodeCorr st.seen (input.get a) (st.heap.get b)) : Inv input opened st := by
  refine ⟨h.more, h.same, h.range, h.injective, fun {c d} met' closed => ?_⟩
  by_cases same : c = a
  · subst same
    cases met.symm.trans met'
    exact filled
  · exact h.done met' fun mem => (List.mem_cons.mp mem).elim same closed

/-! ## Termination -/

def unmet (input : Heap (Node A)) (st : State A) : Finset Nat :=
  (Finset.range input.size).filter fun a => st.seen.get a = none

theorem unmet_le {limit : Nat} {st' : State A} (later : Later limit st st') :
    (unmet input st').card ≤ (unmet input st).card := by
  refine Finset.card_le_card fun a mem => ?_
  simp only [unmet, Finset.mem_filter] at mem ⊢
  refine ⟨mem.1, ?_⟩
  cases met : st.seen.get a with
  | none => rfl
  | some b =>
    rw [later.seen met] at mem
    cases mem.2

theorem unmet_create {a : Nat} (there : a < input.size) (new : st.seen.get a = none) (node : Node A) :
    (unmet input (st.create a node)).card < (unmet input st).card := by
  refine Finset.card_lt_card ⟨fun c mem => ?_, fun sub => ?_⟩
  · simp only [unmet, Finset.mem_filter] at mem ⊢
    refine ⟨mem.1, ?_⟩
    cases met : st.seen.get c with
    | none => rfl
    | some b =>
      rw [(later_create new node).seen met] at mem
      cases mem.2
  · have mem : a ∈ unmet input st := Finset.mem_filter.mpr ⟨Finset.mem_range.mpr there, new⟩
    have again := (Finset.mem_filter.mp (sub mem)).2
    simp [State.create] at again

/-! ## The loops -/

/-- A step of the walk over parts of type `E`: it returns, keeps the invariant, leaves
what was there, and its result corresponds. -/
def Walks {E : Type} (input : Heap (Node A)) (fuel : Nat) (known : E → Prop) (corr : OrderedMap Nat Nat → E → E → Prop)
    (walk : State A → E → Except Stopped (State A × E)) : Prop :=
  ∀ {opened : List Nat} {st : State A} {e : E}, Inv input opened st → known e → (unmet input st).card ≤ fuel →
    ∃ st' e', walk st e = .ok (st', e') ∧ Inv input opened st' ∧ Later st.heap.size st st' ∧ corr st'.seen e e'

variable {fuel : Nat} {clone : State A → Value A → Except Stopped (State A × Value A)}

theorem cloneElements_walks (walks : Walks input fuel (Known input) Corr clone) :
    Walks input fuel (fun items => ∀ v ∈ items, Known input v) (fun seen => List.Forall₂ (Corr seen)) (cloneElements clone) := by
  intro opened st items h known few
  induction items generalizing st with
  | nil => exact ⟨st, [], rfl, h, Later.refl _ st, .nil⟩
  | cons item rest ih =>
    obtain ⟨st₁, item', first, h₁, later₁, corr⟩ := walks h (known item List.mem_cons_self) few
    obtain ⟨st₂, rest', next, h₂, later₂, corrs⟩ :=
      ih h₁ (fun v mem => known v (List.mem_cons_of_mem item mem)) ((unmet_le later₁).trans few)
    refine ⟨st₂, item' :: rest', ?_, h₂, later₁.trans later₂ later₁.more, .cons (corr.later later₂.seen) corrs⟩
    simp only [cloneElements, first, next, bind, Except.bind]

theorem cloneMapEntry_walks (walks : Walks input fuel (Known input) Corr clone) :
    Walks input fuel (fun e => Known input e.1 ∧ Known input e.2) EntryCorr (cloneMapEntry clone) := by
  intro opened st e h known few
  obtain ⟨st₁, key, first, h₁, later₁, corr₁⟩ := walks h known.1 few
  obtain ⟨st₂, value, next, h₂, later₂, corr₂⟩ := walks h₁ known.2 ((unmet_le later₁).trans few)
  refine ⟨st₂, (key, value), ?_, h₂, later₁.trans later₂ later₁.more, corr₁.later later₂.seen, corr₂⟩
  simp only [cloneMapEntry, first, next, bind, Except.bind]

theorem cloneProperty_walks (walks : Walks input fuel (Known input) Corr clone) :
    Walks input fuel (fun p => ∀ v ∈ p.2.children, Known input v) PropertyCorr (cloneProperty clone) := by
  rintro opened st ⟨key, descriptor⟩ h known few
  cases descriptor with
  | data value writable enumerable configurable =>
    obtain ⟨st₁, value', first, h₁, later₁, corr⟩ := walks h (known value List.mem_cons_self) few
    refine ⟨st₁, (key, .data value' writable enumerable configurable), ?_, h₁, later₁, rfl, .data corr⟩
    simp only [cloneProperty, cloneIntoDescriptorValue, first, bind, Except.bind]
  | accessor get set enumerable configurable =>
    exact ⟨st, _, rfl, h, Later.refl _ st, rfl, .accessor get set enumerable configurable⟩

/-- The loop keeps the copy open and puts the entries into it one after the other. -/
theorem fill_fills {E : Type} {known : E → Prop} {corr : OrderedMap Nat Nat → E → E → Prop}
    {cloneEntry : State A → E → Except Stopped (State A × E)} (walks : Walks input fuel known corr cloneEntry)
    (grows : ∀ {seen seen' : OrderedMap Nat Nat}, (∀ {a b}, seen.get a = some b → seen'.get a = some b) →
      ∀ {e e'}, corr seen e e' → corr seen' e e')
    (put : Node A → E → Node A) {a copy : Nat} (open_ : a ∈ opened) {entries : List E} {st : State A}
    (h : Inv input opened st) (met : st.seen.get a = some copy) (all : ∀ e ∈ entries, known e)
    (few : (unmet input st).card ≤ fuel) :
    ∃ st' entries', fill cloneEntry put copy st entries = .ok st' ∧ Inv input opened st' ∧ Later copy st st' ∧
      List.Forall₂ (corr st'.seen) entries entries' ∧ st'.heap.get copy = entries'.foldl put (st.heap.get copy) := by
  induction entries generalizing st with
  | nil => exact ⟨st, [], rfl, h, Later.refl _ st, .nil, rfl⟩
  | cons entry rest ih =>
    obtain ⟨st₁, entry', first, h₁, later₁, corr₁⟩ := walks h (all entry List.mem_cons_self) few
    have met₁ := later₁.seen met
    have below := (h.range met).2.2
    let node := put (st₁.heap.get copy) entry'
    have written : Later copy st₁ (st₁.write copy node) := later_write (Nat.le_refl copy) node
    obtain ⟨st₂, rest', next, h₂, later₂, corrs, filled⟩ :=
      ih (h₁.write met₁ open_ node) met₁ (fun e mem => all e (List.mem_cons_of_mem entry mem)) ((unmet_le later₁).trans few)
    have later₁' : Later copy st st₁ := ⟨later₁.more, fun c less => later₁.same c (by omega), later₁.seen⟩
    refine ⟨st₂, entry' :: rest', ?_, h₂, (later₁'.trans written (Nat.le_refl _)).trans later₂ (Nat.le_refl _),
      .cons (grows later₂.seen corr₁) corrs, ?_⟩
    · simp only [fill, first, bind, Except.bind]
      exact next
    · rw [filled, List.foldl_cons]
      congr 1
      exact (Heap.get_set_self st₁.heap copy node).trans (by rw [← later₁.same copy below])

/-! ## Distinct keys -/

theorem Corr.injective {seen : OrderedMap Nat Nat} (injective : ∀ {a a' b}, seen.get a = some b → seen.get a' = some b → a = a')
    {v v' w : Value A} (h : Corr seen v w) (h' : Corr seen v' w) : v = v' := by
  cases h with
  | atom a => cases h'; rfl
  | object met =>
    cases h' with
    | object met' => rw [injective met met']

theorem nodup_copies {seen : OrderedMap Nat Nat} (injective : ∀ {a a' b}, seen.get a = some b → seen.get a' = some b → a = a')
    {l l' : List (Value A)} (h : List.Forall₂ (Corr seen) l l') (distinct : l.Nodup) : l'.Nodup := by
  induction h with
  | nil => exact List.nodup_nil
  | @cons v v' l l' corr rest ih =>
    obtain ⟨fresh, distinct⟩ := List.nodup_cons.mp distinct
    refine List.nodup_cons.mpr ⟨fun mem => fresh ?_, ih distinct⟩
    obtain ⟨i, found⟩ := List.mem_iff_get.mp mem
    have at_ := (List.forall₂_iff_get.mp rest).2 i (by rw [rest.length_eq]; exact i.2) i.2
    rw [show l'.get ⟨i, i.2⟩ = v' from found] at at_
    rw [corr.injective injective at_]
    exact List.get_mem l _

theorem foldl_putProperty (prototype : Prototype) (m : OrderedMap PropertyKey (PropertyDescriptor A))
    (l : List (PropertyKey × PropertyDescriptor A)) :
    l.foldl putProperty (.ordinary prototype m) = .ordinary prototype (l.foldl (fun m e => m.set e.1 e.2) m) := by
  induction l generalizing m with
  | nil => rfl
  | cons e l ih => exact ih (m.set e.1 e.2)

theorem entries_filled {κ ν : Type} [DecidableEq κ] {l : List (κ × ν)} (distinct : (l.map Prod.fst).Nodup) :
    (l.foldl (fun m e => m.set e.1 e.2) (OrderedMap.empty : OrderedMap κ ν)).entries = l := by
  have filled := OrderedMap.entries_foldl_of_absent (fun (m : OrderedMap κ ν) e => m.set e.1 e.2) id l
    (fun _ _ _ _ => rfl) .empty distinct fun _ _ => rfl
  rw [filled]
  simp [OrderedMap.empty]

theorem exists_of_mem_left {R : Value A → Value A → Prop} {l l' : List (Value A)} (h : List.Forall₂ R l l') {v : Value A}
    (mem : v ∈ l) : ∃ w ∈ l', R v w := by
  induction h with
  | nil => cases mem
  | cons first _ ih =>
    rcases List.mem_cons.mp mem with rfl | mem
    · exact ⟨_, List.mem_cons_self, first⟩
    · obtain ⟨w, mem', corr⟩ := ih mem
      exact ⟨w, List.mem_cons_of_mem _ mem', corr⟩

theorem exists_of_mem_right {R : Value A → Value A → Prop} {l l' : List (Value A)} (h : List.Forall₂ R l l') {w : Value A}
    (mem : w ∈ l') : ∃ v ∈ l, R v w := exists_of_mem_left h.flip mem

theorem forall₂_flatMap {E : Type} {R : E → E → Prop} {S : Value A → Value A → Prop} {f : E → List (Value A)}
    (maps : ∀ e e', R e e' → List.Forall₂ S (f e) (f e')) {l l' : List E} (h : List.Forall₂ R l l') :
    List.Forall₂ S (l.flatMap f) (l'.flatMap f) := by
  induction h with
  | nil => exact .nil
  | cons first _ ih =>
    rw [List.flatMap_cons, List.flatMap_cons]
    exact List.rel_append (maps _ _ first) ih

theorem elements_pushed {seen : OrderedMap Nat Nat} {es : List (Value A × Attributes)} {copies : List (Value A)}
    (plain : ∀ e ∈ es, e.2 = .pushed) (h : List.Forall₂ (Corr seen) (es.map Prod.fst) copies) :
    List.Forall₂ (ElementCorr seen) es (copies.map (·, Attributes.pushed)) := by
  induction es generalizing copies with
  | nil => cases h; exact .nil
  | cons e es ih =>
    cases h with
    | cons first rest =>
      exact .cons ⟨first, plain e List.mem_cons_self⟩ (ih (fun e mem => plain e (List.mem_cons_of_mem _ mem)) rest)

theorem NodeCorr.children {seen : OrderedMap Nat Nat} {x y : Node A} (h : NodeCorr seen x y) :
    List.Forall₂ (Corr seen) x.children y.children := by
  cases h with
  | array es =>
    rw [Node.children, Node.children, List.forall₂_map_left_iff, List.forall₂_map_right_iff]
    exact es.imp fun _ _ e => e.1
  | map entries => exact forall₂_flatMap (fun _ _ e => .cons e.1 (.cons e.2 .nil)) entries
  | set members => exact members
  | ordinary ps =>
    refine forall₂_flatMap (fun p p' corr => ?_) ps
    obtain ⟨key, descriptor⟩ := p
    obtain ⟨key', descriptor'⟩ := p'
    cases corr.2 with
    | data v => exact .cons v .nil
    | accessor => exact .nil
  | _ => exact .nil

variable [DecidableEq A]

theorem foldl_putMapEntry (m : OrderedMap (Value A) (Value A)) (l : List (Value A × Value A)) :
    l.foldl putMapEntry (.map m) = .map (l.foldl (fun m e => m.set e.1 e.2) m) := by
  induction l generalizing m with
  | nil => rfl
  | cons e l ih => exact ih (m.set e.1 e.2)

theorem foldl_putMember (m : OrderedMap (Value A) Unit) (l : List (Value A)) :
    l.foldl putMember (.set m) = .set (l.foldl (fun m v => m.set v ()) m) := by
  induction l generalizing m with
  | nil => rfl
  | cons v l ih => exact ih (m.set v ())

theorem keys_filled {l : List (Value A)} (distinct : l.Nodup) :
    (l.foldl (fun m v => m.set v ()) (OrderedMap.empty : OrderedMap (Value A) Unit)).keys = l := by
  have filled := entries_filled (l := l.map fun v => (v, ())) (by
    rw [List.map_map, Function.comp_def, List.map_id']
    exact distinct)
  rw [List.foldl_map] at filled
  rw [OrderedMap.keys, filled, List.map_map, Function.comp_def, List.map_id']

/-! ## The whole clone -/

variable {graph : Graph A}

theorem cloneNode_done (walks : Walks graph.heap fuel (Known graph.heap) Corr clone) {opened : List Nat} {st : State A}
    (h : Inv graph.heap opened st) {a : Nat} (there : a < graph.heap.size) (new : st.seen.get a = none)
    (few : (unmet graph.heap st).card ≤ fuel + 1) :
    ∃ st', cloneNode clone st a = .ok st' ∧ Inv graph.heap opened st' ∧ Later st.heap.size st st' ∧
      st'.seen.get a = some st.heap.size := by
  have same := h.same a there
  have known := graph.closed a there
  have plain := graph.plain a there
  have start (node : Node A) : Inv graph.heap (a :: opened) (st.create a node) := h.create there new node
  have later (node : Node A) : Later st.heap.size st (st.create a node) := later_create new node
  have met (node : Node A) : (st.create a node).seen.get a = some st.heap.size := OrderedMap.get_set_self _ _ _
  have made (node : Node A) : (st.create a node).heap.get st.heap.size = node := Heap.get_push_self _ _
  have fewer (node : Node A) : (unmet graph.heap (st.create a node)).card ≤ fuel := by
    have less : (unmet graph.heap (st.create a node)).card < (unmet graph.heap st).card := unmet_create there new node
    omega
  -- a node without parts is done as soon as it is there
  have leaf {node : Node A} (corr : ∀ seen, NodeCorr seen (graph.heap.get a) node) :
      Inv graph.heap opened (st.create a node) := (start node).close (met node) (by rw [made]; exact corr _)
  rw [cloneNode, same]
  cases shape : graph.heap.get a with
  | array elements lengthWritable =>
    rw [shape] at known plain
    obtain ⟨pushed, rfl⟩ := plain
    obtain ⟨st', cloned, returned, h', later', corrs⟩ :=
      cloneElements_walks walks (start (.array [] true)) known (fewer _)
    have met' := later'.seen (met (.array [] true))
    have written := h'.write met' List.mem_cons_self (.array (cloned.map (·, Attributes.pushed)) true)
    refine ⟨st'.write st.heap.size (.array (cloned.map (·, Attributes.pushed)) true), ?_, written.close met' ?_, ?_, met'⟩
    · dsimp only
      rw [show cloneElements clone (st.create a (.array [] true)) (elements.map Prod.fst) = .ok (st', cloned) from returned]
      rfl
    · rw [shape, State.write, Heap.get_set_self]
      exact .array (elements_pushed pushed corrs)
    · exact ((later _).trans later' (later _).more).trans (later_write (Nat.le_refl _) _) (Nat.le_refl _)
  | date time => exact ⟨_, rfl, leaf (fun _ => by rw [shape]; exact .date time), later _, met _⟩
  | regExp source flags lastIndex lastIndexWritable =>
    rw [shape] at plain
    obtain rfl : lastIndexWritable = true := plain
    exact ⟨_, rfl, leaf (fun _ => by rw [shape]; exact .regExp source flags lastIndex true), later _, met _⟩
  | map entries =>
    rw [shape] at known
    have parts : ∀ e ∈ entries.entries, Known graph.heap e.1 ∧ Known graph.heap e.2 := fun e mem =>
      ⟨known _ (List.mem_flatMap.mpr ⟨e, mem, List.mem_cons_self⟩),
        known _ (List.mem_flatMap.mpr ⟨e, mem, List.mem_cons_of_mem _ List.mem_cons_self⟩)⟩
    obtain ⟨st', cloned, returned, h', later', corrs, filled⟩ :=
      fill_fills (cloneMapEntry_walks walks) (fun sub _ _ e => e.later sub) putMapEntry List.mem_cons_self
        (start (.map .empty)) (met _) parts (fewer _)
    have distinct : (cloned.map Prod.fst).Nodup := by
      refine nodup_copies h'.injective (l := entries.keys) ?_ entries.distinct
      rw [OrderedMap.keys, List.forall₂_map_left_iff, List.forall₂_map_right_iff]
      exact corrs.imp fun _ _ e => e.1
    refine ⟨st', returned, h'.close (later'.seen (met _)) ?_, (later _).trans later' (Nat.le_refl _), later'.seen (met _)⟩
    rw [filled, made, foldl_putMapEntry, shape]
    exact .map (by rw [entries_filled distinct]; exact corrs)
  | set members =>
    rw [shape] at known
    obtain ⟨st', cloned, returned, h', later', corrs, filled⟩ :=
      fill_fills walks (fun sub _ _ v => v.later sub) putMember List.mem_cons_self (start (.set .empty)) (met _) known (fewer _)
    refine ⟨st', returned, h'.close (later'.seen (met _)) ?_, (later _).trans later' (Nat.le_refl _), later'.seen (met _)⟩
    rw [filled, made, foldl_putMember, shape]
    exact .set (by rw [keys_filled (nodup_copies h'.injective corrs members.distinct)]; exact corrs)
  | dataView bytes => exact ⟨_, rfl, leaf (fun _ => by rw [shape]; exact .dataView bytes), later _, met _⟩
  | typedArray prototype bytes => exact ⟨_, rfl, leaf (fun _ => by rw [shape]; exact .typedArray prototype bytes), later _, met _⟩
  | arrayBuffer bytes => exact ⟨_, rfl, leaf (fun _ => by rw [shape]; exact .arrayBuffer bytes), later _, met _⟩
  | ordinary prototype properties =>
    rw [shape] at known plain
    have plain : prototype.chain = [] := plain
    have parts : ∀ p ∈ properties.entries, ∀ v ∈ p.2.children, Known graph.heap v := fun p mem v child =>
      known v (List.mem_flatMap.mpr ⟨p, mem, child⟩)
    obtain ⟨st', cloned, returned, h', later', corrs, filled⟩ :=
      fill_fills (cloneProperty_walks walks) (fun sub _ _ p => p.later sub) putProperty List.mem_cons_self
        (start (.ordinary prototype .empty)) (met _) parts (fewer _)
    have keys : properties.keys = cloned.map Prod.fst := by
      have names : List.Forall₂ (fun k k' => k = k') properties.keys (cloned.map Prod.fst) := by
        rw [OrderedMap.keys, List.forall₂_map_left_iff, List.forall₂_map_right_iff]
        exact corrs.imp fun _ _ p => p.1
      exact List.forall₂_eq_eq_eq ▸ names
    have distinct : (cloned.map Prod.fst).Nodup := keys ▸ properties.distinct
    refine ⟨st', ?_, h'.close (later'.seen (met _)) ?_, (later _).trans later' (Nat.le_refl _), later'.seen (met _)⟩
    · dsimp only
      rw [if_neg (not_not.mpr plain)]
      exact returned
    · rw [filled, made, foldl_putProperty, shape]
      exact .ordinary (by rw [entries_filled distinct]; exact corrs)

/-- With fuel for the objects that were not met the clone returns. -/
theorem cloneFallbackValue_walks (graph : Graph A) (fuel : Nat) :
    Walks graph.heap fuel (Known graph.heap) Corr (cloneFallbackValue fuel) := by
  induction fuel with
  | zero =>
    intro opened st v h known few
    cases v with
    | atom a => exact ⟨st, .atom a, by rw [cloneFallbackValue], h, Later.refl _ st, .atom a⟩
    | object a =>
      cases met : st.seen.get a with
      | some b => exact ⟨st, .object b, by simp only [cloneFallbackValue.eq_def, met], h, Later.refl _ st, .object met⟩
      | none =>
        have mem : a ∈ unmet graph.heap st := Finset.mem_filter.mpr ⟨Finset.mem_range.mpr known, met⟩
        have := Finset.card_pos.mpr ⟨a, mem⟩
        omega
  | succ fuel ih =>
    intro opened st v h known few
    cases v with
    | atom a => exact ⟨st, .atom a, by rw [cloneFallbackValue], h, Later.refl _ st, .atom a⟩
    | object a =>
      cases met : st.seen.get a with
      | some b => exact ⟨st, .object b, by simp only [cloneFallbackValue.eq_def, met], h, Later.refl _ st, .object met⟩
      | none =>
        obtain ⟨st', returned, h', later, met'⟩ := cloneNode_done ih h known met few
        refine ⟨st', .object st.heap.size, ?_, h', later, .object met'⟩
        simp only [cloneFallbackValue.eq_def, met]
        rw [returned]
        rfl

/-! ## The isomorphism -/

inductive Reaches (heap : Heap (Node A)) (v : Value A) : Nat → Prop
  | root {a} : v = .object a → Reaches heap v a
  | child {a b} : Reaches heap v a → .object b ∈ (heap.get a).children → Reaches heap v b

/-- `seen` pairs the objects that the value reaches with those that the clone reaches,
one to one; the paired objects agree in kind, prototype, contents, order, keys and
attributes; the copies are new and the original objects are as they were. -/
structure Isomorphic (input : Heap (Node A)) (value : Value A) (st : State A) (clone : Value A) : Prop where
  root : Corr st.seen value clone
  copied : ∀ a, Reaches input value a → ∃ b, st.seen.get a = some b ∧ Reaches st.heap clone b ∧
    NodeCorr st.seen (input.get a) (st.heap.get b)
  onto : ∀ b, Reaches st.heap clone b → ∃ a, Reaches input value a ∧ st.seen.get a = some b
  injective : ∀ a a' b, st.seen.get a = some b → st.seen.get a' = some b → a = a'
  fresh : ∀ b, Reaches st.heap clone b → input.size ≤ b
  unchanged : ∀ a < input.size, st.heap.get a = input.get a

/-- The fallback clone of a finite graph, shared and cyclic as it may be, returns a
graph that is isomorphic to it, of new objects only, and leaves the original alone. -/
theorem fallbackClone_isomorphic (graph : Graph A) :
    ∃ st clone, fallbackClone graph.heap graph.root = .ok (st, clone) ∧ Isomorphic graph.heap graph.root st clone := by
  have start : Inv graph.heap [] (⟨graph.heap, .empty⟩ : State A) :=
    ⟨Nat.le_refl _, fun _ _ => rfl, nofun, nofun, nofun⟩
  have few : (unmet graph.heap (⟨graph.heap, .empty⟩ : State A)).card ≤ graph.heap.size + 1 := by
    refine (Finset.card_le_card (Finset.filter_subset _ _)).trans ?_
    rw [Finset.card_range]
    omega
  obtain ⟨st, clone, returned, h, -, root⟩ := cloneFallbackValue_walks graph _ start graph.known few
  have done {a b : Nat} (met : st.seen.get a = some b) : NodeCorr st.seen (graph.heap.get a) (st.heap.get b) :=
    h.done met List.not_mem_nil
  have onto (b : Nat) (reach : Reaches st.heap clone b) : ∃ a, Reaches graph.heap graph.root a ∧ st.seen.get a = some b := by
    induction reach with
    | root same =>
      subst same
      cases shape : graph.root with
      | atom a => rw [shape] at root; cases root
      | object a =>
        rw [shape] at root
        cases root with
        | object met => exact ⟨a, .root rfl, met⟩
    | child _ mem ih =>
      obtain ⟨a, reach, met⟩ := ih
      obtain ⟨v, child, corr⟩ := exists_of_mem_right (done met).children mem
      cases corr with
      | object met' => exact ⟨_, .child reach child, met'⟩
  refine ⟨st, clone, returned, root, fun a reach => ?_, onto, fun a a' b => h.injective, fun b reach => ?_, h.same⟩
  · induction reach with
    | root same =>
      rw [same] at root
      cases root with
      | object met => exact ⟨_, met, .root rfl, done met⟩
    | child _ mem ih =>
      obtain ⟨b, met, reach, corr⟩ := ih
      obtain ⟨w, child, corr⟩ := exists_of_mem_left corr.children mem
      cases corr with
      | object met' => exact ⟨_, met', .child reach child, done met'⟩
  · obtain ⟨a, -, met⟩ := onto b reach
    exact (h.range met).2.1

/-- A map keyed by itself, whose value has the map as a hidden property. -/
def cyclicGraph : Graph Nat where
  heap := (Heap.empty.push (.map (OrderedMap.empty.set (.object 0) (.object 1)))).push
    (.ordinary ⟨some 0, []⟩ (OrderedMap.empty.set (.named (text "owner")) (.data (.object 0) true false true)))
  root := .object 0
  known := Nat.succ_pos 1
  closed a there v child := by
    have : a = 0 ∨ a = 1 := by
      have : a < 2 := there
      omega
    rcases this with rfl | rfl
    · have child : v ∈ [.object 0, .object 1] := child
      rcases List.mem_cons.mp child with rfl | child
      · exact there
      · cases List.mem_singleton.mp child
        exact Nat.lt_succ_self 1
    · have child : v ∈ [.object 0] := child
      cases List.mem_singleton.mp child
      exact Nat.succ_pos 1
  plain a there := by
    have : a = 0 ∨ a = 1 := by
      have : a < 2 := there
      omega
    rcases this with rfl | rfl
    · trivial
    · rfl

theorem fallbackClone_isomorphic_cyclic : ∃ st clone, fallbackClone cyclicGraph.heap (.object 0) = .ok (st, clone) ∧
    Isomorphic cyclicGraph.heap (.object 0) st clone := fallbackClone_isomorphic cyclicGraph

/-- An object with the prototype of dates and no properties. -/
def heirOfDates : Heap (Node Nat) := Heap.empty.push (.ordinary ⟨some 0, [.date]⟩ .empty)

/-- It is taken for a date, whose `getTime` throws. -/
theorem heir_of_dates_throws : fallbackClone heirOfDates (.object 0) = .error .typeError := rfl

/-- `Object.freeze([0])` -/
def frozenArray : Heap (Node Nat) := Heap.empty.push (.array [(.atom 0, ⟨false, true, false⟩)] false)

theorem frozen_array_thaws {st : State Nat} {clone : Value Nat}
    (returned : fallbackClone frozenArray (.object 0) = .ok (st, clone)) :
    ¬ Isomorphic frozenArray (.object 0) st clone := by
  intro iso
  cases returned
  obtain ⟨b, met, -, corr⟩ := iso.copied 0 (.root rfl)
  cases met
  have corr : NodeCorr _ (.array [(.atom 0, ⟨false, true, false⟩)] false) (.array [(.atom 0, .pushed)] true) := corr
  cases corr

/-- Neither has an isomorphic copy. -/
theorem heir_and_frozen_array_differ :
    (¬ ∃ st clone, fallbackClone heirOfDates (.object 0) = .ok (st, clone) ∧
      Isomorphic heirOfDates (.object 0) st clone) ∧
    ¬ ∃ st clone, fallbackClone frozenArray (.object 0) = .ok (st, clone) ∧
      Isomorphic frozenArray (.object 0) st clone := by
  refine ⟨?_, ?_⟩
  · rintro ⟨st, clone, returned, -⟩
    rw [heir_of_dates_throws] at returned
    cases returned
  · rintro ⟨st, clone, returned, iso⟩
    exact frozen_array_thaws returned iso

end Fluo.Core
