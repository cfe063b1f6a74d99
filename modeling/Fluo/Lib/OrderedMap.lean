import Mathlib.Data.List.Basic
import Mathlib.Data.List.Nodup

/-!
# Insertion-ordered maps

Finite maps with the iteration order of a JavaScript `Map`: a new key goes
last, writing an existing key keeps its place. Keys are distinct by
construction, so a lookup and a membership of the entry list say the same.
-/

namespace Fluo

structure OrderedMap (κ ν : Type) where
  entries : List (κ × ν)
  distinct : (entries.map Prod.fst).Nodup

namespace OrderedMap

variable {κ ν : Type} [DecidableEq κ]

def empty : OrderedMap κ ν := ⟨[], List.nodup_nil⟩

instance : Inhabited (OrderedMap κ ν) := ⟨⟨[], List.nodup_nil⟩⟩

/-- The value of the first entry for a key. -/
def find (k : κ) : List (κ × ν) → Option ν
  | [] => none
  | (k', v) :: rest => if k' = k then some v else find k rest

def get (m : OrderedMap κ ν) (k : κ) : Option ν := find k m.entries

def has (m : OrderedMap κ ν) (k : κ) : Bool := (m.get k).isSome

def keys (m : OrderedMap κ ν) : List κ := m.entries.map Prod.fst

def values (m : OrderedMap κ ν) : List ν := m.entries.map Prod.snd

/-- Overwrite in place, or append. -/
def write (k : κ) (v : ν) : List (κ × ν) → List (κ × ν)
  | [] => [(k, v)]
  | (k', v') :: rest => if k' = k then (k, v) :: rest else (k', v') :: write k v rest

theorem write_keys (k : κ) (v : ν) (l : List (κ × ν)) :
    (write k v l).map Prod.fst = if k ∈ l.map Prod.fst then l.map Prod.fst else l.map Prod.fst ++ [k] := by
  induction l with
  | nil => rfl
  | cons e rest ih =>
    obtain ⟨k', v'⟩ := e
    by_cases h : k' = k
    · simp [write, h]
    · have h' : k ≠ k' := Ne.symm h
      simp only [write, h, ↓reduceIte, List.map_cons, ih, List.mem_cons, h', false_or]
      split <;> rfl

def set (m : OrderedMap κ ν) (k : κ) (v : ν) : OrderedMap κ ν where
  entries := write k v m.entries
  distinct := by
    rw [write_keys]
    split
    · exact m.distinct
    · rename_i h
      exact List.nodup_append.mpr ⟨m.distinct, List.nodup_singleton k, by
        intro a ha b hb e; simp only [List.mem_singleton] at hb; subst hb; subst e; exact h ha⟩

def erase (m : OrderedMap κ ν) (k : κ) : OrderedMap κ ν where
  entries := m.entries.filter (fun e => e.1 ≠ k)
  distinct := m.distinct.sublist (List.filter_sublist.map Prod.fst)

theorem find_write (k : κ) (v : ν) (l : List (κ × ν)) (j : κ) :
    find j (write k v l) = if j = k then some v else find j l := by
  induction l with
  | nil =>
    by_cases h : j = k
    · simp [write, find, h]
    · simp [write, find, h, Ne.symm h]
  | cons e rest ih =>
    obtain ⟨k', v'⟩ := e
    by_cases h : k' = k
    · subst h
      by_cases hj : j = k'
      · simp [write, find, hj]
      · simp [write, find, hj, Ne.symm hj]
    · by_cases hj : k' = j
      · subst hj; simp [write, find, h]
      · simp [write, find, h, hj, ih]

theorem find_filter (k : κ) (l : List (κ × ν)) (j : κ) :
    find j (l.filter (fun e => e.1 ≠ k)) = if j = k then none else find j l := by
  induction l with
  | nil => simp [find]
  | cons e rest ih =>
    obtain ⟨k', v'⟩ := e
    by_cases h : k' = k
    · subst h
      by_cases hj : j = k'
      · subst hj; simpa using ih
      · simpa [find, hj, Ne.symm hj] using ih
    · by_cases hj : k' = j
      · subst hj; simp [find, h]
      · simpa [find, h, hj] using ih

@[simp] theorem get_empty (k : κ) : (empty : OrderedMap κ ν).get k = none := rfl

theorem get_set (m : OrderedMap κ ν) (k : κ) (v : ν) (j : κ) :
    (m.set k v).get j = if j = k then some v else m.get j := find_write k v m.entries j

theorem get_erase (m : OrderedMap κ ν) (k j : κ) :
    (m.erase k).get j = if j = k then none else m.get j := find_filter k m.entries j

@[simp] theorem get_set_self (m : OrderedMap κ ν) (k : κ) (v : ν) : (m.set k v).get k = some v := by
  simp [get_set]

@[simp] theorem get_erase_self (m : OrderedMap κ ν) (k : κ) : (m.erase k).get k = none := by
  simp [get_erase]

theorem find_mem {k : κ} {v : ν} {l : List (κ × ν)} (h : find k l = some v) : (k, v) ∈ l := by
  induction l with
  | nil => cases h
  | cons e rest ih =>
    obtain ⟨k', v'⟩ := e
    by_cases hk : k' = k
    · subst hk; simp only [find, ↓reduceIte, Option.some.injEq] at h; subst h; exact List.mem_cons_self
    · simp only [find, hk, ↓reduceIte] at h; exact List.mem_cons_of_mem _ (ih h)

theorem find_of_mem {k : κ} {v : ν} {l : List (κ × ν)} (hd : (l.map Prod.fst).Nodup)
    (h : (k, v) ∈ l) : find k l = some v := by
  induction l with
  | nil => cases h
  | cons e rest ih =>
    obtain ⟨k', v'⟩ := e
    obtain ⟨hn, hd⟩ := List.nodup_cons.mp hd
    rcases List.mem_cons.mp h with h | h
    · cases h; simp [find]
    · have hk : k' ≠ k := fun e => hn (e ▸ List.mem_map.mpr ⟨(k, v), h, rfl⟩)
      simp [find, hk, ih hd h]

theorem mem_entries {m : OrderedMap κ ν} {k : κ} {v : ν} :
    (k, v) ∈ m.entries ↔ m.get k = some v :=
  ⟨find_of_mem m.distinct, find_mem⟩

theorem mem_values {m : OrderedMap κ ν} {v : ν} : v ∈ m.values ↔ ∃ k, m.get k = some v := by
  simp only [values, List.mem_map, Prod.exists, exists_eq_right, mem_entries]

theorem mem_keys {m : OrderedMap κ ν} {k : κ} : k ∈ m.keys ↔ m.has k = true := by
  simp only [keys, List.mem_map, Prod.exists, exists_and_right, exists_eq_right, mem_entries, has,
    Option.isSome_iff_exists]

theorem has_set (m : OrderedMap κ ν) (k : κ) (v : ν) (j : κ) :
    (m.set k v).has j = (decide (j = k) || m.has j) := by
  simp only [has, get_set]
  by_cases h : j = k <;> simp [h]

theorem keys_set_of_mem {m : OrderedMap κ ν} {k : κ} (v : ν) (h : k ∈ m.keys) :
    (m.set k v).keys = m.keys :=
  (write_keys k v m.entries).trans (if_pos h)

theorem entries_erase_sublist (m : OrderedMap κ ν) (k : κ) :
    (m.erase k).entries.Sublist m.entries := List.filter_sublist

def filter (m : OrderedMap κ ν) (p : κ → ν → Bool) : OrderedMap κ ν where
  entries := m.entries.filter fun e => p e.1 e.2
  distinct := m.distinct.sublist (List.filter_sublist.map Prod.fst)

theorem get_filter_some {m : OrderedMap κ ν} {p : κ → ν → Bool} {k : κ} {v : ν} :
    (m.filter p).get k = some v ↔ m.get k = some v ∧ p k v = true := by
  rw [← mem_entries, ← mem_entries]
  exact List.mem_filter

theorem get_filter_of_kept {m : OrderedMap κ ν} {p : κ → ν → Bool} {k : κ} (kept : ∀ v, m.get k = some v → p k v = true) :
    (m.filter p).get k = m.get k := by
  cases got : m.get k with
  | some v => exact get_filter_some.mpr ⟨got, kept v got⟩
  | none =>
    cases filtered : (m.filter p).get k with
    | none => rfl
    | some v => rw [(get_filter_some.mp filtered).1] at got; cases got

theorem entries_set_of_absent {m : OrderedMap κ ν} {k : κ} (v : ν) (h : m.get k = none) :
    (m.set k v).entries = m.entries ++ [(k, v)] := by
  have write_absent : ∀ l : List (κ × ν), find k l = none → write k v l = l ++ [(k, v)] := by
    intro l
    induction l with
    | nil => intro _; rfl
    | cons e rest ih =>
      obtain ⟨k', v'⟩ := e
      intro h
      by_cases hk : k' = k
      · simp [find, hk] at h
      · simp only [find, hk, ↓reduceIte] at h
        simp [write, hk, ih h]
  exact write_absent m.entries h

theorem set_set (m : OrderedMap κ ν) (k : κ) (v w : ν) : (m.set k v).set k w = m.set k w := by
  have twice : ∀ l : List (κ × ν), write k w (write k v l) = write k w l := by
    intro l
    induction l with
    | nil => simp [write]
    | cons e rest ih =>
      obtain ⟨k', v'⟩ := e
      by_cases hk : k' = k
      · simp [write, hk]
      · simp [write, hk, ih]
  have same : ((m.set k v).set k w).entries = (m.set k w).entries := twice m.entries
  generalize (m.set k v).set k w = a at same
  generalize m.set k w = b at same
  obtain ⟨entries, distinct⟩ := a
  cases same
  rfl

theorem find_map (f : ν → ν) (k : κ) (l : List (κ × ν)) :
    find k (l.map fun e => (e.1, f e.2)) = (find k l).map f := by
  induction l with
  | nil => rfl
  | cons e rest ih =>
    by_cases hk : e.1 = k
    · simp [find, hk]
    · simpa [find, hk] using ih

theorem entries_foldl_of_absent (put : OrderedMap κ ν → κ × ν → OrderedMap κ ν) (f : ν → ν)
    (l : List (κ × ν)) (puts : ∀ m, ∀ e ∈ l, m.get e.1 = none → put m e = m.set e.1 (f e.2)) (m : OrderedMap κ ν)
    (distinct : (l.map Prod.fst).Nodup) (absent : ∀ e ∈ l, m.get e.1 = none) :
    (l.foldl put m).entries = m.entries ++ l.map fun e => (e.1, f e.2) := by
  induction l generalizing m with
  | nil => simp
  | cons e rest ih =>
    obtain ⟨new, below⟩ := List.nodup_cons.mp distinct
    have here : m.get e.1 = none := absent e List.mem_cons_self
    have later : ∀ d ∈ rest, (m.set e.1 (f e.2)).get d.1 = none := by
      intro d mem
      have other : d.1 ≠ e.1 := fun same => new (same ▸ List.mem_map.mpr ⟨d, mem, rfl⟩)
      rw [get_set, if_neg other]
      exact absent d (List.mem_cons_of_mem _ mem)
    rw [List.foldl_cons, puts m e List.mem_cons_self here,
      ih (fun m d mem => puts m d (List.mem_cons_of_mem _ mem)) _ below later, entries_set_of_absent _ here]
    simp

theorem find_of_not_mem {k : κ} {l : List (κ × ν)} (absent : k ∉ l.map Prod.fst) : find k l = none := by
  cases found : find k l with
  | none => rfl
  | some v => exact absurd (List.mem_map.mpr ⟨(k, v), find_mem found, rfl⟩) absent

/-- A search among distinct entries of which some are dropped and others changed. -/
theorem find_filterMap {μ : Type} (f : κ × ν → Option (κ × μ)) (keeps : ∀ entry e, f entry = some e → e.1 = entry.1)
    (l : List (κ × ν)) (distinct : (l.map Prod.fst).Nodup) (k : κ) :
    find k (l.filterMap f) = (find k l).bind fun v => (f (k, v)).map Prod.snd := by
  induction l with
  | nil => rfl
  | cons entry rest ih =>
    obtain ⟨k', v⟩ := entry
    obtain ⟨fresh, distinct⟩ := List.nodup_cons.mp distinct
    have ih := ih distinct
    by_cases here : k' = k
    · subst here
      have absent : find k' rest = none := find_of_not_mem fresh
      rw [absent, Option.bind_none] at ih
      simp only [find, ↓reduceIte, Option.bind_some]
      cases e : f (k', v) with
      | none => rw [List.filterMap_cons_none e, ih]; rfl
      | some entry =>
        rw [List.filterMap_cons_some e]
        obtain ⟨k'', w⟩ := entry
        have same : k'' = k' := keeps _ _ e
        simp [find, same]
    · simp only [find, here, ↓reduceIte]
      cases e : f (k', v) with
      | none => rw [List.filterMap_cons_none e, ih]
      | some entry =>
        rw [List.filterMap_cons_some e, ← ih]
        obtain ⟨k'', w⟩ := entry
        have same : k'' = k' := keeps _ _ e
        simp [find, same, here]

/-- Entries with distinct keys, each merged into what its key has. -/
theorem get_foldl_merge {μ : Type} (merge : Option ν → μ → ν) (l : List (κ × μ)) (distinct : (l.map Prod.fst).Nodup)
    (m : OrderedMap κ ν) (k : κ) :
    (l.foldl (fun m e => m.set e.1 (merge (m.get e.1) e.2)) m).get k =
      (find k l).elim (m.get k) fun d => some (merge (m.get k) d) := by
  induction l generalizing m with
  | nil => rfl
  | cons e rest ih =>
    obtain ⟨k', d⟩ := e
    obtain ⟨new, below⟩ := List.nodup_cons.mp distinct
    rw [List.foldl_cons, ih below]
    by_cases same : k' = k
    · subst same
      simp [find_of_not_mem new, find]
    · rw [get_set, if_neg (Ne.symm same), find, if_neg same]

end OrderedMap

/-! ## Sets -/

/-- A JavaScript `Set`. -/
abbrev OrderedSet (κ : Type) := OrderedMap κ Unit

namespace OrderedSet

variable {κ : Type} [DecidableEq κ]

def ofList (l : List κ) : OrderedSet κ := l.foldl (fun s k => s.set k ()) OrderedMap.empty

theorem has_foldl (l : List κ) (s : OrderedSet κ) (k : κ) :
    (l.foldl (fun s k => s.set k ()) s).has k = (s.has k || decide (k ∈ l)) := by
  induction l generalizing s with
  | nil => simp
  | cons a rest ih =>
    simp only [List.foldl_cons, ih, OrderedMap.has_set, List.mem_cons]
    by_cases h : k = a <;> simp [h]

@[simp] theorem has_ofList (l : List κ) (k : κ) : (ofList l).has k = decide (k ∈ l) := by
  rw [ofList, has_foldl]
  simp [OrderedMap.has]

theorem mem_ofList_keys {l : List κ} {k : κ} : k ∈ (ofList l).keys ↔ k ∈ l := by
  simp [OrderedMap.mem_keys]

end OrderedSet

end Fluo
