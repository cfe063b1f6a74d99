import Fluo.Config.Merge

/-!
# The merge is a right-biased deep merge

The target of a merge is followed as a tree whose objects lie apart from each
other and from everything older. One entry changes one branch of that tree and
cells that are new.
-/

namespace Fluo.Config

open Js

/-! ## Entries -/

theorem get_eq_none : ∀ (entries : Entries) {key : JsString}, key ∉ entries.keys → entries.get key = none
  | .nil, _, _ => rfl
  | .cons k value rest, key, missing => by
    simp only [Entries.keys, List.mem_cons, not_or] at missing
    rw [Entries.get, if_neg (Ne.symm missing.1)]
    exact get_eq_none rest missing.2

/-- Write a key in place, or add it last. -/
def Entries.set (key : JsString) (value : Source) : Entries → Entries
  | .nil => .cons key value .nil
  | .cons k old rest => if k = key then .cons k value rest else .cons k old (rest.set key value)

theorem get_set (key : JsString) (value : Source) (k : JsString) :
    ∀ entries : Entries, (entries.set key value).get k = if k = key then some value else entries.get k
  | .nil => by
    simp only [Entries.set, Entries.get, eq_comm]
  | .cons k' old rest => by
    by_cases here : k' = key
    · subst here
      by_cases same : k = k'
      · simp [Entries.set, Entries.get, same]
      · simp [Entries.set, Entries.get, same, Ne.symm same]
    · by_cases same : k' = k
      · subst same
        simp [Entries.set, Entries.get, here]
      · simp only [Entries.set, if_neg here, Entries.get, if_neg same]
        exact get_set key value k rest

theorem mem_keys_set (key : JsString) (value : Source) {k : JsString} :
    ∀ entries : Entries, k ∈ (entries.set key value).keys → k = key ∨ k ∈ entries.keys
  | .nil, mem => .inl (List.mem_singleton.mp mem)
  | .cons k' old rest, mem => by
    rw [Entries.set] at mem
    split at mem
    · exact .inr mem
    · rcases List.mem_cons.mp mem with rfl | below
      · exact .inr List.mem_cons_self
      · exact (mem_keys_set key value rest below).imp_right (List.mem_cons_of_mem _)

/-! ## Layers -/

theorem standing_append (layers : List Entries) (source : Entries) (key : JsString) :
    standing (layers ++ [source]) key =
      match source.get key with
      | none => standing layers key
      | some value => (standing layers key).put value := by
  rw [standing, List.filterMap_append, List.foldl_append]
  cases got : source.get key with
  | none => simp [got, standing]
  | some value => simp [got, standing]

theorem standing_single (source : Entries) (key : JsString) :
    standing [source] key =
      match source.get key with
      | none => .absent
      | some value => Standing.absent.put value := standing_append [] source key

/-- What a standing says about the paths below its key. -/
def Standing.resolve : Standing → List JsString → Option Resolved
  | .absent, _ => none
  | .value source, path => if path = [] then some (.value source.erase) else none
  | .merged layers, path => Config.resolve layers path

theorem resolve_cons (layers : List Entries) (key : JsString) (path : List JsString) :
    resolve layers (key :: path) = (standing layers key).resolve path := by
  rw [resolve]
  cases standing layers key <;> rfl

theorem resolve_congr {layers others : List Entries} (same : ∀ key, standing layers key = standing others key)
    (path : List JsString) : resolve layers path = resolve others path := by
  cases path with
  | nil => rfl
  | cons key path => rw [resolve_cons, resolve_cons, same]

theorem resolve_skip (layers : List Entries) (path : List JsString) :
    resolve (.nil :: layers) path = resolve layers path := by
  have same : ∀ key, standing (.nil :: layers) key = standing layers key := fun _ => rfl
  exact resolve_congr same path

/-- The plain objects that a plain object would be merged over. -/
def Standing.layers : Standing → List Entries
  | .merged layers => layers
  | _ => []

theorem put_dictionary (standing : Standing) {source : Source} {entries : Entries}
    (plain : source.dictionary = some entries) :
    standing.put source = .merged (standing.layers ++ [entries]) := by
  cases standing <;> simp [Standing.put, plain, Standing.layers]

theorem put_value (standing : Standing) {source : Source} (other : source.dictionary = none) :
    standing.put source = .value source := by
  cases standing <;> simp [Standing.put, other]

theorem resolve_nil_iff (standing : Standing) :
    standing.resolve [] = some .dictionary ↔ ∃ layers, standing = .merged layers := by
  cases standing with
  | absent => simp [Standing.resolve]
  | value source => simp [Standing.resolve]
  | merged layers => simp [Standing.resolve, resolve]

theorem resolve_layers {s t : Standing} (same : ∀ path, s.resolve path = t.resolve path)
    (path : List JsString) : resolve s.layers path = resolve t.layers path := by
  have both : (∃ layers, s = .merged layers) ↔ ∃ layers, t = .merged layers := by
    rw [← resolve_nil_iff, ← resolve_nil_iff, same]
  cases s with
  | merged layers =>
    obtain ⟨others, rfl⟩ := both.mp ⟨layers, rfl⟩
    exact same path
  | absent =>
    cases t with
    | merged others => exact absurd (both.mpr ⟨others, rfl⟩) nofun
    | absent => rfl
    | value _ => rfl
  | value _ =>
    cases t with
    | merged others => exact absurd (both.mpr ⟨others, rfl⟩) nofun
    | absent => rfl
    | value _ => rfl

/-- A further source is merged alike over layers that resolve alike. -/
theorem resolve_append {layers others : List Entries} (same : ∀ path, resolve layers path = resolve others path)
    (source : Entries) (path : List JsString) :
    resolve (layers ++ [source]) path = resolve (others ++ [source]) path := by
  induction path generalizing layers others source with
  | nil => rfl
  | cons key path ih =>
    have below : ∀ rest, (standing layers key).resolve rest = (standing others key).resolve rest := by
      intro rest
      rw [← resolve_cons, ← resolve_cons, same]
    rw [resolve_cons, resolve_cons, standing_append, standing_append]
    cases source.get key with
    | none => exact below path
    | some value =>
      show ((standing layers key).put value).resolve path = ((standing others key).put value).resolve path
      cases plain : value.dictionary with
      | none => rw [put_value _ plain, put_value _ plain]
      | some entries =>
        rw [put_dictionary _ plain, put_dictionary _ plain]
        exact ih (resolve_layers below) entries

theorem resolve_split (layers : List Entries) {key : JsString} {rest : Entries} (value : Source)
    (new : key ∉ rest.keys) (path : List JsString) :
    resolve (layers ++ [Entries.cons key value .nil] ++ [rest]) path = resolve (layers ++ [Entries.cons key value rest]) path := by
  apply resolve_congr
  intro k
  rw [standing_append, standing_append, standing_append]
  by_cases here : key = k
  · subst here
    rw [get_eq_none rest new]
    simp [Entries.get]
  · simp [Entries.get, here]

/-! ## Trees in the heap -/

mutual

def Source.Owns : Source → Nat → Prop
  | .object address _ entries, a => a = address ∨ entries.Own a
  | _, _ => False

def Entries.Own : Entries → Nat → Prop
  | .nil, _ => False
  | .cons _ value rest, a => value.Owns a ∨ rest.Own a

end

mutual

/-- A tree is in the heap under its addresses, and no object is in it twice. -/
def Source.Held (store : Store) : Source → Prop
  | .object address brand entries =>
    ((store.get address).brand = brand ∧ (store.get address).proto = .object objectPrototype ∧
      ∀ key, (store.get address).properties.get key = (entries.get key).map Source.value) ∧
    ¬ entries.Own address ∧ entries.Held store
  | _ => True

def Entries.Held (store : Store) : Entries → Prop
  | .nil => True
  | .cons key value rest =>
    key ∉ rest.keys ∧ (∀ a, value.Owns a → ¬ rest.Own a) ∧ value.Held store ∧ rest.Held store

end

mutual

theorem held_frame {store after : Store} : ∀ {source : Source}, source.Held store →
    (∀ a, source.Owns a → after.get a = store.get a) → source.Held after
  | .scalar _, _, _ => trivial
  | .function _, _, _ => trivial
  | .object address brand entries, ⟨cell, apart, held⟩, same => by
    refine ⟨?_, apart, entries_held_frame held fun a own => same a (.inr own)⟩
    rw [same address (.inl rfl)]
    exact cell

theorem entries_held_frame {store after : Store} : ∀ {entries : Entries}, entries.Held store →
    (∀ a, entries.Own a → after.get a = store.get a) → entries.Held after
  | .nil, _, _ => trivial
  | .cons _ _ _, ⟨new, apart, held, rest⟩, same =>
    ⟨new, apart, held_frame held fun a own => same a (.inl own),
      entries_held_frame rest fun a own => same a (.inr own)⟩

end

theorem own_of_get {key : JsString} {value : Source} {a : Nat} (own : value.Owns a) :
    ∀ {entries : Entries}, entries.get key = some value → entries.Own a
  | .cons k v rest, got => by
    rw [Entries.get] at got
    split at got
    · cases got
      exact .inl own
    · exact .inr (own_of_get own got)

theorem held_of_get {store : Store} {key : JsString} {value : Source} :
    ∀ {entries : Entries}, entries.Held store → entries.get key = some value → value.Held store
  | .cons k v rest, ⟨_, _, held, below⟩, got => by
    rw [Entries.get] at got
    split at got
    · cases got
      exact held
    · exact held_of_get below got

theorem own_set {key : JsString} {value : Source} {a : Nat} :
    ∀ {entries : Entries}, (entries.set key value).Own a → value.Owns a ∨ entries.Own a
  | .nil, own => own.imp_right False.elim
  | .cons k v rest, own => by
    rw [Entries.set] at own
    split at own
    · exact own.imp_right .inr
    · rcases own with here | below
      · exact .inr (.inl here)
      · exact (own_set below).imp_right .inr

def Entries.OwnAt (entries : Entries) (key : JsString) (a : Nat) : Prop :=
  ∃ value, entries.get key = some value ∧ value.Owns a

/-- One branch is replaced by a tree that is new or was part of it. -/
theorem held_set {store after : Store} {key : JsString} {value : Source} (held : value.Held after) :
    ∀ {entries : Entries}, entries.Held store →
      (∀ a, entries.Own a → ¬ entries.OwnAt key a → after.get a = store.get a) →
      (∀ a, value.Owns a → entries.OwnAt key a ∨ ¬ entries.Own a) →
      (entries.set key value).Held after
  | .nil, _, _, _ => ⟨nofun, fun _ _ => nofun, held, trivial⟩
  | .cons k v rest, ⟨new, apart, heldHere, heldRest⟩, same, owned => by
    by_cases here : k = key
    · subst here
      have at_ : ∀ {a}, (Entries.cons k v rest).OwnAt k a ↔ v.Owns a := by
        intro a
        simp [Entries.OwnAt, Entries.get]
      rw [Entries.set, if_pos rfl]
      refine ⟨new, fun a own below => ?_, held, entries_held_frame heldRest fun a own => ?_⟩
      · rcases owned a own with old | fresh
        · exact apart a (at_.mp old) below
        · exact fresh (.inr below)
      · exact same a (.inr own) fun old => apart a (at_.mp old) own
    · have at_ : ∀ {a}, (Entries.cons k v rest).OwnAt key a ↔ rest.OwnAt key a := by
        intro a
        simp [Entries.OwnAt, Entries.get, here]
      have inside : ∀ {a}, rest.OwnAt key a → rest.Own a := fun ⟨_, got, own⟩ => own_of_get own got
      rw [Entries.set, if_neg here]
      refine ⟨fun mem => ?_, fun a own below => ?_, held_frame heldHere fun a own => ?_,
        held_set held heldRest (fun a own old => ?_) fun a own => ?_⟩
      · exact (mem_keys_set key value rest mem).elim here new
      · rcases own_set below with mine | old
        · rcases owned a mine with old | fresh
          · exact apart a own (inside (at_.mp old))
          · exact fresh (.inl own)
        · exact apart a own old
      · exact same a (.inl own) fun old => apart a own (inside (at_.mp old))
      · exact same a (.inr own) fun h => old (at_.mp h)
      · exact (owned a own).imp at_.mp fun fresh below => fresh (.inr below)

/-! ## Clones -/

structure Extends (store after : Store) : Prop where
  grows : store.size ≤ after.size
  frame : ∀ a, a < store.size → after.get a = store.get a

theorem Extends.refl (store : Store) : Extends store store := ⟨Nat.le_refl _, fun _ _ => rfl⟩

theorem Extends.trans {s t u : Store} (first : Extends s t) (second : Extends t u) : Extends s u where
  grows := Nat.le_trans first.grows second.grows
  frame a old := (second.frame a (Nat.lt_of_lt_of_le old first.grows)).trans (first.frame a old)

theorem extends_push (store : Store) (cell : Cell) : Extends store (store.push cell) where
  grows := Nat.le_succ _
  frame _ old := Heap.get_push_lt cell old

/-- `clone` is `source` again, in cells that are new in `after`. -/
structure CloneOf (store after : Store) (source clone : Source) : Prop where
  extends_ : Extends store after
  held : clone.Held after
  fresh : ∀ a, clone.Owns a → store.size ≤ a ∧ a < after.size
  same : clone.erase = source.erase

structure ClonesOf (store after : Store) (entries clones : Entries) : Prop where
  extends_ : Extends store after
  held : clones.Held after
  fresh : ∀ a, clones.Own a → store.size ≤ a ∧ a < after.size
  same : clones.erase = entries.erase
  keys : clones.keys = entries.keys

theorem kept_of_object {structured : Bool} {address : Nat} {brand : Brand} {entries : Entries}
    (kept : (Source.object address brand entries).loses structured = false) :
    brand.copied structured = brand ∧ entries.lose structured = false := by
  simpa [Source.loses] using kept

mutual

theorem copy_clones (structured : Bool) : ∀ (source : Source) (store : Store), source.Distinct →
    source.loses structured = false →
    ∃ clone, (copy structured store source).1 = clone.value ∧
      CloneOf store (copy structured store source).2 source clone
  | .scalar s, store, _, _ => ⟨.scalar s, rfl, Extends.refl store, trivial, nofun, rfl⟩
  | .function i, store, _, _ => ⟨.function i, rfl, Extends.refl store, trivial, nofun, rfl⟩
  | .object address brand entries, store, distinct, kept => by
    obtain ⟨same, below⟩ := kept_of_object kept
    obtain ⟨clones, properties, made⟩ := copyEntries_clones structured entries store .empty distinct below
    rw [copy]
    generalize copyEntries structured store .empty entries = out at properties made ⊢
    obtain ⟨written, mid⟩ := out
    refine ⟨.object mid.size brand clones, rfl, made.extends_.trans (extends_push mid _), ⟨?_, ?_, ?_⟩, ?_, ?_⟩
    · rw [Heap.get_push_self]
      refine ⟨same, rfl, fun key => (properties key).trans ?_⟩
      cases clones.get key <;> rfl
    · intro own
      exact Nat.lt_irrefl _ (made.fresh _ own).2
    · exact entries_held_frame made.held fun a own => Heap.get_push_lt _ (made.fresh a own).2
    · rintro a (rfl | own)
      · exact ⟨made.extends_.grows, Nat.lt_succ_self _⟩
      · exact ⟨(made.fresh a own).1, Nat.lt_succ_of_lt (made.fresh a own).2⟩
    · simp only [Source.erase, made.same]

theorem copyEntries_clones (structured : Bool) : ∀ (entries : Entries) (store : Store)
    (properties : OrderedMap JsString Value), entries.Distinct →
    entries.lose structured = false →
    ∃ clones, (∀ key, (copyEntries structured store properties entries).1.get key =
        match clones.get key with
        | some clone => some clone.value
        | none => properties.get key) ∧
      ClonesOf store (copyEntries structured store properties entries).2 entries clones
  | .nil, store, _, _, _ => ⟨.nil, fun _ => rfl, Extends.refl store, trivial, nofun, rfl, rfl⟩
  | .cons key source rest, store, properties, ⟨new, here, below⟩, kept => by
    obtain ⟨keeps, others⟩ := Bool.or_eq_false_iff.mp kept
    obtain ⟨clone, value, one⟩ := copy_clones structured source store here keeps
    rw [copyEntries]
    generalize copy structured store source = out at value one ⊢
    obtain ⟨v, mid⟩ := out
    dsimp only at value one ⊢
    obtain ⟨clones, written, others⟩ := copyEntries_clones structured rest mid (properties.set key v) below others
    generalize copyEntries structured mid (properties.set key v) rest = out at written others ⊢
    obtain ⟨filled, after⟩ := out
    dsimp only at written others ⊢
    have absent : key ∉ clones.keys := others.keys ▸ new
    refine ⟨.cons key clone clones, fun k => ?_, one.extends_.trans others.extends_, ⟨absent, ?_, ?_, others.held⟩,
      ?_, ?_, ?_⟩
    · rw [written, Entries.get]
      by_cases same : key = k
      · subst same
        rw [get_eq_none clones absent, if_pos rfl, OrderedMap.get_set_self, value]
      · rw [if_neg same]
        cases clones.get k with
        | some _ => rfl
        | none => rw [OrderedMap.get_set, if_neg (Ne.symm same)]
    · intro a own later
      exact Nat.lt_irrefl _ (Nat.lt_of_lt_of_le (one.fresh a own).2 (others.fresh a later).1)
    · exact held_frame one.held fun a own => others.extends_.frame a (one.fresh a own).2
    · rintro a (own | own)
      · exact ⟨(one.fresh a own).1, Nat.lt_of_lt_of_le (one.fresh a own).2 others.extends_.grows⟩
      · exact ⟨Nat.le_trans one.extends_.grows (others.fresh a own).1, (others.fresh a own).2⟩
    · simp only [Entries.erase, one.same, others.same]
    · simp only [Entries.keys, others.keys]

end

/-! ## What the merge meets -/

mutual

theorem holdsFunction_erase : ∀ source : Source, source.erase.holdsFunction = source.holdsFunction
  | .scalar _ => rfl
  | .function _ => rfl
  | .object _ _ entries => holdFunction_erase entries

theorem holdFunction_erase : ∀ entries : Entries, entries.erase.holdFunction = entries.holdFunction
  | .nil => rfl
  | .cons _ value rest => by
    simp only [Entries.erase, Entries.holdFunction, holdsFunction_erase value, holdFunction_erase rest]

end

mutual

theorem loses_erase (structured : Bool) : ∀ source : Source, source.erase.loses structured = source.loses structured
  | .scalar _ => rfl
  | .function _ => rfl
  | .object _ _ entries => by simp only [Source.erase, Source.loses, lose_erase structured entries]

theorem lose_erase (structured : Bool) : ∀ entries : Entries, entries.erase.lose structured = entries.lose structured
  | .nil => rfl
  | .cons _ value rest => by
    simp only [Entries.erase, Entries.lose, loses_erase structured value, lose_erase structured rest]

end

mutual

theorem mergeable_erase : ∀ source : Source, source.erase.mergeable = source.mergeable
  | .scalar _ => rfl
  | .function _ => rfl
  | .object _ brand entries => by
    cases brand with
    | array => simp only [Source.erase, Source.mergeable, holdFunction_erase, lose_erase]
    | ordinary => exact entries_mergeable_erase entries
    | _ => rfl

theorem entries_mergeable_erase : ∀ entries : Entries, entries.erase.mergeable = entries.mergeable
  | .nil => rfl
  | .cons _ value rest => by
    simp only [Entries.erase, Entries.mergeable, mergeable_erase value, entries_mergeable_erase rest]

end

theorem mergeable_cons {key : JsString} {value : Source} {rest : Entries}
    (ok : (Entries.cons key value rest).mergeable = true) :
    key ≠ protoKey ∧ value.mergeable = true ∧ rest.mergeable = true := by
  simpa [Entries.mergeable, and_assoc] using ok

theorem mergeable_of_get {key : JsString} {value : Source} :
    ∀ {entries : Entries}, entries.mergeable = true → entries.get key = some value → value.mergeable = true
  | .cons k v rest, ok, got => by
    rw [Entries.get] at got
    split at got
    · cases got
      exact (mergeable_cons ok).2.1
    · exact mergeable_of_get (mergeable_cons ok).2.2 got

theorem mergeable_set {key : JsString} {value : Source} (new : key ≠ protoKey) (ok : value.mergeable = true) :
    ∀ {entries : Entries}, entries.mergeable = true → (entries.set key value).mergeable = true
  | .nil, _ => by simp [Entries.set, Entries.mergeable, new, ok]
  | .cons k v rest, all => by
    obtain ⟨usual, here, below⟩ := mergeable_cons all
    rw [Entries.set]
    split
    · simp [Entries.mergeable, usual, ok, below]
    · simp [Entries.mergeable, usual, here, mergeable_set new ok below]

theorem dictionary_of_erase {source clone : Source} (same : clone.erase = source.erase)
    (other : source.dictionary = none) : clone.dictionary = none := by
  cases clone with
  | scalar => rfl
  | function => rfl
  | object address brand entries =>
    cases source with
    | scalar => cases same
    | function => cases same
    | object _ b _ =>
      have brands : brand = b := (Source.object.inj same).2.1
      subst brands
      cases brand with
      | ordinary => cases other
      | _ => rfl

theorem standing_layers (entries : Entries) (key : JsString) :
    (standing [entries] key).layers = ((entries.get key).bind Source.dictionary).toList := by
  rw [standing_single]
  cases got : entries.get key with
  | none => rfl
  | some value =>
    cases plain : value.dictionary with
    | none => simp [put_value, plain, Standing.layers]
    | some below => simp [put_dictionary, plain, Standing.layers]

/-! ## The target of a merge -/

/-- The target holds a tree that the merge may have built. -/
structure Target (store : Store) (target : Nat) (tree : Entries) : Prop where
  realm : Realm store
  held : (Source.object target .ordinary tree).Held store
  within : ∀ a, (Source.object target .ordinary tree).Owns a → objectPrototype < a ∧ a < store.size
  mergeable : tree.mergeable = true

theorem Realm.kept {store after : Store} (realm : Realm store) (grows : store.size ≤ after.size)
    (same : after.get objectPrototype = store.get objectPrototype) : Realm after where
  known := Nat.lt_of_lt_of_le realm.known grows
  root := by rw [same]; exact realm.root
  methods := by rw [same]; exact realm.methods

theorem Target.extended {store after : Store} {target : Nat} {tree : Entries} (t : Target store target tree)
    (more : Extends store after) : Target after target tree where
  realm := t.realm.kept more.grows (more.frame _ t.realm.known)
  held := held_frame t.held fun a own => more.frame a (t.within a own).2
  within a own := ⟨(t.within a own).1, Nat.lt_of_lt_of_le (t.within a own).2 more.grows⟩
  mergeable := t.mergeable

theorem Target.child {store : Store} {target child : Nat} {tree entries : Entries} {key : JsString}
    (t : Target store target tree) (got : tree.get key = some (.object child .ordinary entries)) :
    Target store child entries where
  realm := t.realm
  held := held_of_get t.held.2.2 got
  within a own := t.within a (.inr (own_of_get own got))
  mergeable := @mergeable_of_get key (.object child .ordinary entries) tree t.mergeable got

theorem target_fresh {store : Store} (realm : Realm store) : Target (store.push .fresh) store.size .nil where
  realm := realm.kept (extends_push store _).grows ((extends_push store _).frame _ realm.known)
  held := by
    refine ⟨?_, nofun, trivial⟩
    rw [Heap.get_push_self]
    exact ⟨rfl, rfl, fun _ => rfl⟩
  within := by
    rintro a (rfl | own)
    · exact ⟨realm.known, Nat.lt_succ_self _⟩
    · exact own.elim
  mergeable := rfl

/-- Off the `__proto__` accessor a property is own, or a method of the realm. -/
theorem Target.located {store : Store} {target : Nat} {tree : Entries} (t : Target store target tree)
    {key : JsString} (usual : key ≠ protoKey) :
    match tree.get key with
    | some value => locate store target key = .data value.value
    | none => locate store target key = .absent ∨
        ∃ value, locate store target key = .data value ∧ ∀ address, value ≠ .ref address := by
  obtain ⟨brand, proto, properties⟩ := t.held.1
  have own : (store.get target).own key = (tree.get key).map Source.value := by
    rw [Cell.own, brand]
    exact properties key
  have other : target ≠ objectPrototype := Nat.ne_of_gt (t.within target (.inl rfl)).1
  cases got : tree.get key with
  | some value =>
    rw [got] at own
    simp [locate, find, own]
  | none =>
    rw [got] at own
    have up : locate store target key = find store key (store.size + 1) (.object objectPrototype) := by
      simp [locate, find, own, other, proto]
    rw [up, find]
    cases method : (store.get objectPrototype).own key with
    | some value => exact .inr ⟨value, rfl, t.realm.methods key value method⟩
    | none =>
      refine .inl ?_
      simp only [usual, and_false, ↓reduceIte, t.realm.root]
      cases store.size <;> rfl

theorem Target.read_plain {store : Store} {target : Nat} {tree : Entries} (t : Target store target tree)
    {key : JsString} (usual : key ≠ protoKey) :
    (∃ child entries, tree.get key = some (.object child .ordinary entries) ∧
        isPlainObject store (read store target key) = some child) ∨
      ((tree.get key).bind Source.dictionary = none ∧ isPlainObject store (read store target key) = none) := by
  have located := t.located usual
  cases got : tree.get key with
  | none =>
    rw [got] at located
    refine .inr ⟨rfl, ?_⟩
    rcases located with absent | ⟨value, data, method⟩
    · simp [read, absent, isPlainObject]
    · rw [read, data]
      cases value with
      | ref address => exact absurd rfl (method address)
      | _ => rfl
  | some value =>
    rw [got] at located
    have shown : read store target key = value.value := by rw [read, located]
    rw [shown]
    cases value with
    | scalar s => exact .inr ⟨rfl, rfl⟩
    | function i => exact .inr ⟨rfl, rfl⟩
    | object child brand entries =>
      have ok : (Source.object child brand entries).mergeable = true := mergeable_of_get t.mergeable got
      have cell : (store.get child).brand = brand := (held_of_get t.held.2.2 got).1.1
      cases brand with
      | ordinary => exact .inl ⟨child, entries, rfl, by simp [Source.value, isPlainObject, cell]⟩
      | array => exact .inr ⟨rfl, by simp [Source.value, isPlainObject, cell]⟩
      | _ => cases ok

theorem Target.written {store : Store} {target : Nat} {tree : Entries} (t : Target store target tree)
    {key : JsString} (usual : key ≠ protoKey) (value : Value) :
    write store target key value = some (store.modify target (·.define key value)) := by
  have located := t.located usual
  rw [write]
  split at located
  · rw [located]
  · rcases located with absent | ⟨_, data, _⟩
    · rw [absent]
    · rw [data]

/-- From one heap to another the target has merged these layers, in place. -/
structure Merged (store after : Store) (target : Nat) (tree : Entries) (layers : List Entries)
    (result : Entries) : Prop where
  built : Target after target result
  grows : store.size ≤ after.size
  frame : ∀ a, a < store.size → a ≠ target → ¬ tree.Own a → after.get a = store.get a
  owned : ∀ a, result.Own a → tree.Own a ∨ store.size ≤ a
  resolved : ∀ path, resolve [result] path = resolve (tree :: layers) path

theorem Merged.refl {store : Store} {target : Nat} {tree : Entries} (t : Target store target tree) :
    Merged store store target tree [] tree :=
  ⟨t, Nat.le_refl _, fun _ _ _ _ => rfl, fun _ => .inl, fun _ => rfl⟩

theorem Merged.trans {s t u : Store} {target : Nat} {tree mid result layer : Entries} {layers : List Entries}
    (first : Merged s t target tree layers mid) (second : Merged t u target mid [layer] result) :
    Merged s u target tree (layers ++ [layer]) result where
  built := second.built
  grows := Nat.le_trans first.grows second.grows
  frame a old other apart := by
    have newer : ¬ mid.Own a := fun own => (first.owned a own).elim apart (by omega)
    rw [second.frame a (Nat.lt_of_lt_of_le old first.grows) other newer, first.frame a old other apart]
  owned a own := by
    rcases second.owned a own with own | fresh
    · exact first.owned a own
    · exact .inr (Nat.le_trans first.grows fresh)
  resolved path := (second.resolved path).trans (resolve_append first.resolved layer path)

/-- One entry: the tree at its key is replaced by `value`, which `source` merges into. -/
theorem Merged.install {store mid after : Store} {target : Nat} {tree : Entries} {key : JsString}
    {source value : Source} (t : Target store target tree) (usual : key ≠ protoKey)
    (grows : store.size ≤ mid.size)
    (frame : ∀ a, a < store.size → ¬ tree.OwnAt key a → mid.get a = store.get a)
    (held : value.Held mid)
    (owned : ∀ a, value.Owns a → tree.OwnAt key a ∨ store.size ≤ a ∧ a < mid.size)
    (ok : value.mergeable = true)
    (below : ∀ path, (Standing.absent.put value).resolve path = ((standing [tree] key).put source).resolve path)
    (size : after.size = mid.size) (rest : ∀ a, a ≠ target → after.get a = mid.get a)
    (here : after.get target = (mid.get target).define key value.value ∨
      after.get target = mid.get target ∧ (tree.get key).map Source.value = some value.value) :
    Merged store after target tree [.cons key source .nil] (tree.set key value) := by
  obtain ⟨⟨brand, proto, properties⟩, apart, parts⟩ := t.held
  have inside : ∀ {a}, tree.OwnAt key a → tree.Own a := fun ⟨_, got, own⟩ => own_of_get own got
  have old : ∀ {a}, tree.Own a → objectPrototype < a ∧ a < store.size := fun own => t.within _ (.inr own)
  have place : target < store.size := (t.within target (.inl rfl)).2
  have aside : mid.get target = store.get target := frame target place fun own => apart (inside own)
  have mine : ∀ a, value.Owns a → a ≠ target := by
    rintro a own rfl
    rcases owned a own with was | fresh
    · exact apart (inside was)
    · omega
  have cell : (after.get target).brand = .ordinary ∧ (after.get target).proto = .object objectPrototype ∧
      ∀ k, (after.get target).properties.get k = ((tree.set key value).get k).map Source.value := by
    rcases here with defined | ⟨kept, was⟩
    · rw [defined, aside]
      refine ⟨brand, proto, fun k => ?_⟩
      rw [get_set, Cell.define, OrderedMap.get_set]
      split
      · rfl
      · exact properties k
    · rw [kept, aside]
      refine ⟨brand, proto, fun k => ?_⟩
      rw [get_set, properties]
      split
      · next same => rw [same, was]; rfl
      · rfl
  have outer : ∀ a, (tree.set key value).Own a → tree.Own a ∨ store.size ≤ a ∧ a < mid.size := by
    intro a own
    rcases own_set own with own | own
    · exact (owned a own).imp_left inside
    · exact .inl own
  have zero : after.get objectPrototype = store.get objectPrototype := by
    have notTarget : objectPrototype ≠ target := Nat.ne_of_lt (t.within target (.inl rfl)).1
    rw [rest _ notTarget, frame _ t.realm.known fun own => Nat.lt_irrefl _ (old (inside own)).1]
  refine ⟨⟨t.realm.kept (by omega) zero, ⟨cell, ?_, ?_⟩, ?_, mergeable_set usual ok t.mergeable⟩,
    by omega, ?_, ?_, ?_⟩
  · intro own
    rcases outer target own with own | fresh
    · exact apart own
    · omega
  · refine held_set (held_frame held fun a own => rest a (mine a own)) parts (fun a own away => ?_) fun a own => ?_
    · have notTarget : a ≠ target := fun same => apart (same ▸ own)
      rw [rest a notTarget, frame a (old own).2 away]
    · exact (owned a own).imp_right fun fresh own => Nat.not_lt.mpr fresh.1 (old own).2
  · rintro a (rfl | own)
    · exact ⟨(t.within a (.inl rfl)).1, by omega⟩
    · rcases outer a own with own | fresh
      · exact ⟨(old own).1, by have := (old own).2; omega⟩
      · exact ⟨Nat.lt_of_lt_of_le t.realm.known fresh.1, by omega⟩
  · intro a less other away
    rw [rest a other, frame a less fun own => away (inside own)]
  · exact fun a own => (outer a own).imp_right And.left
  · intro path
    cases path with
    | nil => rfl
    | cons k path =>
      rw [resolve_cons, resolve_cons]
      have split_ : standing (tree :: [.cons key source .nil]) k = _ := standing_append [tree] (.cons key source .nil) k
      rw [split_, standing_single, get_set, Entries.get]
      by_cases same : k = key
      · subst same
        rw [if_pos rfl, if_pos rfl]
        exact below path
      · rw [if_neg same, if_neg (Ne.symm same), standing_single]
        rfl

/-- A value that is no plain object is cloned and replaces what is there. -/
theorem merged_clone {store : Store} {target : Nat} {tree : Entries} {key : JsString} {source : Source}
    (t : Target store target tree) (usual : key ≠ protoKey) (distinct : source.Distinct)
    (ok : source.mergeable = true) (other : source.dictionary = none)
    (kept : source.loses (!source.holdsFunction) = false) :
    ∃ after result,
      write (cloneConfigDictionary store source).2 target key (cloneConfigDictionary store source).1 = some after ∧
        Merged store after target tree [.cons key source .nil] result := by
  obtain ⟨clone, value, made⟩ := copy_clones (!source.holdsFunction) source store distinct kept
  refine ⟨_, tree.set key clone, (t.extended made.extends_).written usual _, ?_⟩
  refine Merged.install t usual made.extends_.grows (fun a old _ => made.extends_.frame a old) made.held
    (fun a own => .inr (made.fresh a own)) ?_ ?_ rfl (fun a other => Heap.get_modify_ne _ _ other) (.inl ?_)
  · rw [← mergeable_erase, made.same, mergeable_erase, ok]
  · intro path
    rw [put_value _ (dictionary_of_erase made.same other), put_value _ other, Standing.resolve, Standing.resolve,
      made.same]
  · rw [Heap.get_modify_self]
    exact congrArg _ value

mutual

theorem mergeConfigEntry_merges : ∀ (source : Source) {store : Store} {target : Nat} {tree : Entries} {key : JsString},
    Target store target tree → key ≠ protoKey → source.Distinct → source.mergeable = true →
    ∃ after result, mergeConfigEntry store target key source = some after ∧
      Merged store after target tree [.cons key source .nil] result
  | .scalar s, _, _, _, _, t, usual, distinct, ok => by
    simp only [mergeConfigEntry]
    exact merged_clone t usual distinct ok rfl rfl
  | .function i, _, _, _, _, t, usual, distinct, ok => by
    simp only [mergeConfigEntry]
    exact merged_clone t usual distinct ok rfl rfl
  | .object address .array entries, _, _, _, _, t, usual, distinct, ok => by
    rw [mergeConfigEntry, if_pos rfl]
    have kept : entries.lose (!entries.holdFunction) = false := by
      simpa [Source.mergeable] using ok
    exact merged_clone t usual distinct ok rfl (by simpa [Source.loses, Source.holdsFunction, Brand.copied] using kept)
  | .object address .ordinary entries, store, target, tree, key, t, usual, distinct, ok => by
    rw [mergeConfigEntry, if_neg (by decide)]
    rcases t.read_plain usual with ⟨child, below, got, shown⟩ | ⟨other, shown⟩
    · obtain ⟨after, result, done, merged⟩ := mergeConfigEntries_merges entries (t.child got) distinct ok
      rw [shown]
      refine ⟨after, tree.set key (.object child .ordinary result), done, ?_⟩
      have inside : ∀ {a}, a = child ∨ below.Own a → tree.OwnAt key a := fun own => ⟨_, got, own⟩
      refine Merged.install t usual merged.grows (fun a old away => ?_) merged.built.held ?_ merged.built.mergeable
        ?_ rfl (fun _ _ => rfl) (.inr ⟨rfl, by rw [got]; rfl⟩)
      · exact merged.frame a old (fun same => away (inside (.inl same))) fun own => away (inside (.inr own))
      · rintro a (rfl | own)
        · exact .inl (inside (.inl rfl))
        · rcases merged.owned a own with own | fresh
          · exact .inl (inside (.inr own))
          · exact .inr ⟨fresh, (merged.built.within a (.inr own)).2⟩
      · intro path
        rw [put_dictionary _ rfl, put_dictionary _ rfl, standing_layers, got]
        exact merged.resolved path
    · obtain ⟨filled, result, done, merged⟩ := mergeConfigEntries_merges entries (target_fresh t.realm) distinct ok
      have more : Extends store filled := by
        refine ⟨Nat.le_of_succ_le merged.grows, fun a old => ?_⟩
        rw [merged.frame a (Nat.lt_succ_of_lt old) (Nat.ne_of_lt old) nofun]
        exact Heap.get_push_lt _ old
      have write_ := (t.extended more).written usual (.ref store.size)
      rw [shown]
      refine ⟨filled.modify target (·.define key (.ref store.size)), tree.set key (.object store.size .ordinary result),
        ?_, ?_⟩
      · show (mergeConfigEntries (store.push .fresh) store.size entries).bind _ = _
        rw [done]
        exact write_
      refine Merged.install t usual more.grows (fun a old _ => more.frame a old) merged.built.held ?_
        merged.built.mergeable ?_ rfl (fun a other => Heap.get_modify_ne _ _ other) (.inl (Heap.get_modify_self _ _ _))
      · intro a own
        have new : store.size ≤ a := by
          rcases own with rfl | own
          · exact Nat.le_refl _
          · exact (merged.owned a own).elim False.elim Nat.le_of_succ_le
        exact .inr ⟨new, (merged.built.within a own).2⟩
      · intro path
        rw [put_dictionary _ rfl, put_dictionary _ rfl, standing_layers, other]
        exact (merged.resolved path).trans (resolve_skip [entries] path)

theorem mergeConfigEntries_merges : ∀ (entries : Entries) {store : Store} {target : Nat} {tree : Entries},
    Target store target tree → entries.Distinct → entries.mergeable = true →
    ∃ after result, mergeConfigEntries store target entries = some after ∧
      Merged store after target tree [entries] result
  | .nil, store, target, tree, t, _, _ =>
    ⟨store, tree, rfl, { Merged.refl t with
      resolved := fun path => resolve_congr (fun key => (standing_append [tree] .nil key).symm) path }⟩
  | .cons key source rest, _, _, tree, t, ⟨new, here, below⟩, ok => by
    obtain ⟨usual, one, others⟩ := mergeable_cons ok
    obtain ⟨mid, between, first, merged⟩ := mergeConfigEntry_merges source t usual here one
    obtain ⟨after, result, second, later⟩ := mergeConfigEntries_merges rest merged.built below others
    refine ⟨after, result, by rw [mergeConfigEntries, first]; exact second, ?_⟩
    have both := merged.trans later
    exact { both with resolved := fun path => (both.resolved path).trans (resolve_split [tree] source new path) }

end

/-! ## All the sources -/

theorem mergeConfigEntries_foldlM {start : Store} {target : Nat} {first : Entries} :
    ∀ (sources : List Entries) {store : Store} {tree : Entries} {layers : List Entries},
    Merged start store target first layers tree →
    (∀ source ∈ sources, source.Distinct) → (∀ source ∈ sources, source.mergeable = true) →
    ∃ after result, sources.foldlM (mergeConfigEntries · target ·) store = some after ∧
      Merged start after target first (layers ++ sources) result
  | [], store, tree, layers, merged, _, _ => ⟨store, tree, rfl, by rwa [List.append_nil]⟩
  | source :: sources, _, tree, layers, merged, distinct, ok => by
    obtain ⟨mid, between, step, later⟩ := mergeConfigEntries_merges source merged.built
      (distinct source List.mem_cons_self) (ok source List.mem_cons_self)
    obtain ⟨after, result, steps, last⟩ := mergeConfigEntries_foldlM sources (merged.trans later)
      (fun s mem => distinct s (List.mem_cons_of_mem _ mem)) fun s mem => ok s (List.mem_cons_of_mem _ mem)
    refine ⟨after, result, by rw [List.foldlM_cons, step]; exact steps, ?_⟩
    rwa [List.append_assoc] at last

/-! ## Reading the result -/

theorem keys_erase : ∀ entries : Entries, entries.erase.keys = entries.keys
  | .nil => rfl
  | .cons key value rest => by simp only [Entries.erase, Entries.keys, keys_erase rest]

mutual

theorem shows_of_held {store : Store} : ∀ {source : Source}, source.Held store →
    Shows store source.value source.erase
  | .scalar _, _ => rfl
  | .function _, _ => rfl
  | .object address brand entries, ⟨⟨here, _, properties⟩, _, held⟩ => by
    refine ⟨address, rfl, here, fun key missing => ?_, entries_shown entries held fun key mem => properties key⟩
    rw [properties, get_eq_none entries (keys_erase entries ▸ missing)]
    rfl

theorem entries_shown {store : Store} {address : Nat} : ∀ (entries : Entries), entries.Held store →
    (∀ key ∈ entries.keys, (store.get address).properties.get key = (entries.get key).map Source.value) →
    ShowsEntries store address entries.erase
  | .nil, _, _ => trivial
  | .cons key value rest, ⟨new, _, held, below⟩, properties => by
    refine ⟨⟨value.value, ?_, shows_of_held held⟩, entries_shown rest below fun k mem => ?_⟩
    · rw [properties key List.mem_cons_self]
      simp [Entries.get]
    · have other : key ≠ k := fun same => new (same ▸ mem)
      rw [properties k (List.mem_cons_of_mem _ mem), Entries.get, if_neg other]

end

theorem valueAt_other {store : Store} {value : Source} (held : value.Held store) (other : value.dictionary = none)
    (key : JsString) (path : List JsString) : valueAt store value.value (key :: path) = none := by
  cases value with
  | scalar => rfl
  | function => rfl
  | object address brand entries =>
    have here : (store.get address).brand ≠ .ordinary := by
      rw [held.1.1]
      rintro rfl
      cases other
    rw [Source.value, valueAt, if_neg here]

theorem object_of_dictionary {value : Source} {entries : Entries} (plain : value.dictionary = some entries) :
    ∃ address, value = .object address .ordinary entries := by
  cases value with
  | scalar => cases plain
  | function => cases plain
  | object address brand _ =>
    cases brand with
    | ordinary => cases plain; exact ⟨address, rfl⟩
    | _ => cases plain

theorem agrees_of_held {store : Store} (path : List JsString) {target : Nat} {tree : Entries}
    (held : (Source.object target .ordinary tree).Held store) :
    Agrees store (valueAt store (.ref target) path) (resolve [tree] path) := by
  induction path generalizing target tree with
  | nil => exact ⟨target, rfl, held.1.1⟩
  | cons key path ih =>
    obtain ⟨⟨brand, _, properties⟩, _, parts⟩ := held
    rw [valueAt, if_pos brand, properties, resolve_cons, standing_single]
    cases got : tree.get key with
    | none => rfl
    | some value =>
      have below : value.Held store := held_of_get parts got
      cases plain : value.dictionary with
      | some entries =>
        obtain ⟨child, rfl⟩ := object_of_dictionary plain
        exact ih below
      | none =>
        simp only [put_value _ plain, Standing.resolve, Option.map_some, Option.bind_some]
        cases path with
        | nil => exact ⟨value.value, rfl, shows_of_held below⟩
        | cons k path => exact valueAt_other below plain k path

/-! ## Sources of the heap -/

/-- The fold of `unfold` over the properties of an object. -/
theorem unfold_entries {f : Value → Option Source} {good : Source → Prop} (each : ∀ v source, f v = some source → good source)
    (properties : List (JsString × Value)) {entries : Entries}
    (h : properties.foldr (fun property rest =>
      (f property.2).bind fun value => rest.map (.cons property.1 value)) (some .nil) = some entries) :
    entries.keys = properties.map Prod.fst ∧ ∀ key value, entries.get key = some value → good value := by
  induction properties generalizing entries with
  | nil => cases h; exact ⟨rfl, fun key value got => by cases got⟩
  | cons property properties ih =>
    obtain ⟨value, here, h⟩ := Option.bind_eq_some_iff.mp h
    obtain ⟨rest, below, rfl⟩ := Option.map_eq_some_iff.mp h
    obtain ⟨keys, others⟩ := ih below
    refine ⟨by rw [Entries.keys, keys, List.map_cons], fun key v got => ?_⟩
    rw [Entries.get] at got
    split at got
    · cases got; exact each _ _ here
    · exact others key v got

theorem distinct_of_keys : ∀ {entries : Entries}, entries.keys.Nodup →
    (∀ key value, entries.get key = some value → value.Distinct) → entries.Distinct
  | .nil, _, _ => trivial
  | .cons key value rest, keys, values => by
    obtain ⟨new, keys⟩ := List.nodup_cons.mp keys
    refine ⟨new, values key value (if_pos rfl), distinct_of_keys keys fun k v got => values k v ?_⟩
    rw [Entries.get, if_neg, got]
    rintro rfl
    rw [get_eq_none rest new] at got
    cases got

theorem unfold_distinct {store : Store} : ∀ (depth : Nat) {value : Value} {source : Source},
    unfold store depth value = some source → source.Distinct
  | _, .scalar s, source, h => by rw [unfold] at h; cases h; trivial
  | _, .function a, source, h => by rw [unfold] at h; cases h; trivial
  | 0, .ref a, source, h => by rw [unfold] at h; cases h
  | depth + 1, .ref a, source, h => by
    rw [unfold] at h
    obtain ⟨entries, read, rfl⟩ := Option.map_eq_some_iff.mp h
    have each : ∀ v source, unfold store depth v = some source → source.Distinct := fun v source h => unfold_distinct depth h
    obtain ⟨keys, below⟩ := unfold_entries each _ read
    exact distinct_of_keys (keys ▸ (store.get a).properties.distinct) below

theorem unfold_succ {store : Store} : ∀ (depth : Nat) {value : Value} {source : Source},
    unfold store depth value = some source → unfold store (depth + 1) value = some source
  | _, .scalar s, source, h => by rw [unfold] at h ⊢; exact h
  | _, .function a, source, h => by rw [unfold] at h ⊢; exact h
  | 0, .ref a, source, h => by rw [unfold] at h; cases h
  | depth + 1, .ref a, source, h => by
    rw [unfold] at h ⊢
    obtain ⟨entries, read, rfl⟩ := Option.map_eq_some_iff.mp h
    clear h
    refine Option.map_eq_some_iff.mpr ⟨entries, ?_, rfl⟩
    generalize (store.get a).properties.entries = properties at read
    induction properties generalizing entries with
    | nil => exact read
    | cons property properties ih =>
      obtain ⟨value, here, read⟩ := Option.bind_eq_some_iff.mp read
      obtain ⟨rest, below, rfl⟩ := Option.map_eq_some_iff.mp read
      rw [List.foldr_cons, unfold_succ depth here, Option.bind_some, ih rest below]
      rfl

theorem unfold_unique {store : Store} {depth more : Nat} {value : Value} {source other : Source}
    (h : unfold store depth value = some source) (h' : unfold store more value = some other) : source = other := by
  have up (n : Nat) {m : Nat} {s : Source} (h : unfold store m value = some s) : unfold store (m + n) value = some s := by
    induction n with
    | zero => exact h
    | succ n ih => exact unfold_succ _ ih
  have := up more h
  rw [Nat.add_comm, up depth h'] at this
  exact (Option.some.inj this).symm

/-- The recursion over a dictionary that holds itself never ends. -/
theorem self_contained_unfolds_for_ever {store : Store} {address : Nat} {key : JsString}
    (loop : (key, Value.ref address) ∈ (store.get address).properties.entries) (depth : Nat) :
    unfold store depth (.ref address) = none := by
  induction depth with
  | zero => rfl
  | succ depth ih =>
    rw [unfold, Option.map_eq_none_iff]
    generalize (store.get address).properties.entries = properties at loop
    induction properties with
    | nil => cases loop
    | cons property properties inner =>
      rw [List.foldr_cons]
      rcases List.mem_cons.mp loop with rfl | loop
      · rw [ih]; rfl
      · rw [inner loop]
        cases unfold store depth property.2 <;> rfl

theorem Unfolds.of_read {store : Store} {depth address : Nat} {entries : Entries}
    (h : readSource store depth address = some entries) : Unfolds store depth [address] [entries] := by
  rw [Unfolds, List.map_singleton, List.map_singleton, h]

theorem Unfolds.unique {store : Store} {depth more : Nat} {sources : List Nat} {layers others : List Entries}
    (h : Unfolds store depth sources layers) (h' : Unfolds store more sources others) : layers = others := by
  induction sources generalizing layers others with
  | nil =>
    rw [List.map_eq_nil_iff.mp h.symm, List.map_eq_nil_iff.mp h'.symm]
  | cons address sources ih =>
    obtain ⟨layer, rest, rfl, here, below⟩ := List.map_eq_cons_iff.mp h.symm
    obtain ⟨other, rest', rfl, here', below'⟩ := List.map_eq_cons_iff.mp h'.symm
    obtain ⟨source, unfolded, plain⟩ := Option.bind_eq_some_iff.mp here.symm
    obtain ⟨source', unfolded', plain'⟩ := Option.bind_eq_some_iff.mp here'.symm
    cases unfold_unique unfolded unfolded'
    rw [Option.some.inj (plain.symm.trans plain'), ih below.symm below'.symm]

theorem self_contained_never_merges {store : Store} {address : Nat} {key : JsString} {sources : List Nat}
    (loop : (key, Value.ref address) ∈ (store.get address).properties.entries) (given : address ∈ sources) :
    ¬ MergesDeeply store sources := by
  rintro ⟨depth, layers, unfolds, -⟩
  have read : readSource store depth address ∈ layers.map some := by
    rw [← unfolds]; exact List.mem_map_of_mem given
  obtain ⟨layer, -, read⟩ := List.mem_map.mp read
  rw [readSource, self_contained_unfolds_for_ever loop, Option.bind_none] at read
  cases read

theorem Unfolds.distinct {store : Store} {depth : Nat} {sources : List Nat} {layers : List Entries}
    (h : Unfolds store depth sources layers) : ∀ layer ∈ layers, layer.Distinct := by
  intro layer mem
  have read : some layer ∈ sources.map (readSource store depth) := by
    rw [h]; exact List.mem_map_of_mem mem
  obtain ⟨address, -, read⟩ := List.mem_map.mp read
  obtain ⟨source, unfolded, plain⟩ := Option.bind_eq_some_iff.mp read
  obtain ⟨a, rfl⟩ := object_of_dictionary plain
  exact unfold_distinct depth unfolded

/-! ## The deep merge -/

theorem layers_merge_deeply {store : Store} (realm : Realm store) {sources : List Entries}
    (distinct : ∀ source ∈ sources, source.Distinct) (ok : ∀ source ∈ sources, source.mergeable = true) :
    ∃ result after, mergeConfigSources store sources = some (result, after) ∧ DeepMerge store after result sources := by
  obtain ⟨after, tree, done, merged⟩ := mergeConfigEntries_foldlM sources (Merged.refl (target_fresh realm)) distinct ok
  refine ⟨store.size, after, by rw [mergeConfigSources, done]; rfl, ?_⟩
  have same : ∀ path, resolve sources path = resolve [tree] path := by
    intro path
    rw [merged.resolved]
    exact (resolve_skip sources path).symm
  have new : ∀ a, (Source.object store.size .ordinary tree).Owns a → store.size ≤ a := by
    rintro a (rfl | own)
    · exact Nat.le_refl _
    · exact (merged.owned a own).elim False.elim Nat.le_of_succ_le
  refine ⟨fun path => ?_, fun a old => ?_, fun later kept path => ?_⟩
  · rw [same]
    exact agrees_of_held path merged.built.held
  · rw [merged.frame a (Nat.lt_succ_of_lt old) (Nat.ne_of_lt old) nofun]
    exact Heap.get_push_lt _ old
  · rw [same]
    exact agrees_of_held path (held_frame merged.built.held fun a own => kept a (new a own))

/-- A heap with `Object.prototype` only. -/
def bareRealm : Store :=
  Heap.empty.push ⟨.ordinary, .null, OrderedMap.empty.set (text "constructor") (.function 1)⟩

theorem realm_bare : Realm bareRealm where
  known := by decide
  root := rfl
  methods key value own := by
    by_cases here : key = text "constructor"
    · subst here
      cases own
      exact nofun
    · have absent : (bareRealm.get objectPrototype).own key = none := by
        show (OrderedMap.empty.set (text "constructor") (Value.function 1)).get key = none
        rw [OrderedMap.get_set, if_neg here]
        rfl
      rw [absent] at own
      cases own

def Store.with (store : Store) (cells : List (Brand × List (JsString × Value))) : Store :=
  cells.foldl (fun store cell => store.push ⟨cell.1, .object objectPrototype,
    cell.2.foldl (fun properties property => properties.set property.1 property.2) .empty⟩) store

theorem Realm.with {store : Store} (realm : Realm store) (cells : List (Brand × List (JsString × Value))) :
    Realm (store.with cells) := by
  induction cells generalizing store with
  | nil => exact realm
  | cons cell cells ih => exact ih (realm.kept (Nat.le_succ _) (Heap.get_push_lt _ realm.known))

/-- `{ db: { host: ['b'] } }` and `{ db: { host: 'a', constructor: 1 } }`. -/
def nestedRealm : Store :=
  bareRealm.with [(.array, [(text "0", .scalar (.string (text "b")))]), (.ordinary, [(text "host", .ref 1)]),
    (.ordinary, [(text "db", .ref 2)]),
    (.ordinary, [(text "host", .scalar (.string (text "a"))), (text "constructor", .scalar (.number 1))]),
    (.ordinary, [(text "db", .ref 4)])]

/-- `JSON.parse('{"__proto__": {"polluted": 1}}')`. -/
def pollutingRealm : Store :=
  bareRealm.with [(.ordinary, [(text "polluted", .scalar (.number 1))]), (.ordinary, [(protoKey, .ref 1)])]

end Fluo.Config
