import Fluo.Lib.OrderedMap

/-!
# Sets by key

A map to sets that keeps no empty set, and the relation that it stands for.
-/

namespace Fluo

abbrev SetMap (κ μ : Type) := OrderedMap κ (OrderedSet μ)

namespace SetMap

variable {κ μ : Type} [DecidableEq κ] {m : SetMap κ μ} {r : κ → μ → Prop}

def row (m : SetMap κ μ) (k : κ) : List μ := ((m.get k).map OrderedMap.keys).getD []

structure Denotes (m : SetMap κ μ) (r : κ → μ → Prop) : Prop where
  rows : ∀ k v, v ∈ m.row k ↔ r k v
  full : ∀ k set, m.get k = some set → set.keys ≠ []

theorem denotes_empty : Denotes (OrderedMap.empty : SetMap κ μ) fun _ _ => False := by
  refine ⟨fun k v => ⟨fun mem => ?_, False.elim⟩, fun k set found => ?_⟩
  · cases mem
  · cases found

theorem Denotes.get_none (h : m.Denotes r) (k : κ) : m.get k = none ↔ ∀ v, ¬ r k v := by
  constructor
  · intro absent v related
    have mem := (h.rows k v).mpr related
    rw [row, absent] at mem
    cases mem
  · intro unrelated
    cases found : m.get k with
    | none => rfl
    | some set =>
      obtain ⟨v, mem⟩ := List.exists_mem_of_ne_nil _ (h.full k set found)
      exact absurd ((h.rows k v).mp (by rw [row, found]; exact mem)) (unrelated v)

theorem Denotes.congr {r' : κ → μ → Prop} (h : m.Denotes r) (same : ∀ k v, r k v ↔ r' k v) : m.Denotes r' :=
  ⟨fun k v => (h.rows k v).trans (same k v), h.full⟩

/-! ## One more, one less -/

variable [DecidableEq μ]

def add (m : SetMap κ μ) (k : κ) (v : μ) : SetMap κ μ := m.set k (((m.get k).getD OrderedMap.empty).set v ())

def remove (m : SetMap κ μ) (k : κ) (v : μ) : SetMap κ μ :=
  match m.get k with
  | none => m
  | some set => if (set.erase v).keys = [] then m.erase k else m.set k (set.erase v)

theorem row_add (m : SetMap κ μ) (k : κ) (v : μ) (j : κ) (w : μ) :
    w ∈ (m.add k v).row j ↔ w ∈ m.row j ∨ j = k ∧ w = v := by
  by_cases same : j = k
  · subst same
    have here : (m.add j v).row j = (((m.get j).getD OrderedMap.empty).set v ()).keys := by
      rw [row, add, OrderedMap.get_set_self]
      rfl
    rw [here, OrderedMap.mem_keys, OrderedMap.has_set, row]
    cases m.get j with
    | none => simp [OrderedMap.has]
    | some set => simp [OrderedMap.mem_keys, or_comm]
  · rw [row, add, OrderedMap.get_set, if_neg same, ← row]
    simp [same]

theorem mem_keys_erase (s : OrderedSet μ) (v w : μ) : w ∈ (s.erase v).keys ↔ w ∈ s.keys ∧ w ≠ v := by
  rw [OrderedMap.mem_keys, OrderedMap.mem_keys, OrderedMap.has, OrderedMap.has, OrderedMap.get_erase]
  by_cases same : w = v <;> simp [same]

theorem row_remove (m : SetMap κ μ) (k : κ) (v : μ) (j : κ) (w : μ) :
    w ∈ (m.remove k v).row j ↔ w ∈ m.row j ∧ ¬ (j = k ∧ w = v) := by
  unfold remove
  cases found : m.get k with
  | none =>
    refine ⟨fun mem => ⟨mem, ?_⟩, And.left⟩
    rintro ⟨rfl, rfl⟩
    rw [row, found] at mem
    cases mem
  | some set =>
    by_cases same : j = k
    · subst same
      have before : m.row j = set.keys := by rw [row, found]; rfl
      rw [before]
      dsimp only
      split
      · next empty =>
        rw [row, OrderedMap.get_erase_self]
        refine ⟨fun mem => (by cases mem), ?_⟩
        rintro ⟨mem, other⟩
        have kept := (mem_keys_erase set v w).mpr ⟨mem, fun own => other ⟨rfl, own⟩⟩
        rw [empty] at kept
        cases kept
      · rw [row, OrderedMap.get_set_self]
        exact (mem_keys_erase set v w).trans (and_congr_right fun _ => by simp)
    · have kept : (if (set.erase v).keys = [] then m.erase k else m.set k (set.erase v)).get j = m.get j := by
        split
        · rw [OrderedMap.get_erase, if_neg same]
        · rw [OrderedMap.get_set, if_neg same]
      dsimp only
      rw [row, kept, ← row]
      simp [same]

theorem Denotes.add (h : m.Denotes r) (k : κ) (v : μ) : (m.add k v).Denotes fun j w => r j w ∨ j = k ∧ w = v := by
  refine ⟨fun j w => (row_add m k v j w).trans (or_congr_left (h.rows j w)), fun j set found => ?_⟩
  by_cases same : j = k
  · subst same
    rw [SetMap.add, OrderedMap.get_set_self] at found
    cases found
    refine List.ne_nil_of_mem (a := v) ?_
    rw [OrderedMap.mem_keys, OrderedMap.has_set]
    simp
  · rw [SetMap.add, OrderedMap.get_set, if_neg same] at found
    exact h.full j set found

theorem Denotes.remove (h : m.Denotes r) (k : κ) (v : μ) :
    (m.remove k v).Denotes fun j w => r j w ∧ ¬ (j = k ∧ w = v) := by
  refine ⟨fun j w => (row_remove m k v j w).trans (and_congr_left' (h.rows j w)), fun j set found => ?_⟩
  unfold SetMap.remove at found
  split at found
  · exact h.full j set found
  · split at found
    · rw [OrderedMap.get_erase] at found
      obtain ⟨-, found⟩ := Option.ite_none_left_eq_some.mp found
      exact h.full j set found
    · next nonempty =>
      rw [OrderedMap.get_set] at found
      split at found
      · cases found
        exact nonempty
      · exact h.full j set found

end SetMap

end Fluo
