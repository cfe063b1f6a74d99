import Fluo.Lib.Heap
import Fluo.Lib.OrderedMap

/-!
# Groups of members by key

A map from keys to sets with identity. A member joins the set of its key, a new
one when there is none, and later leaves the set it joined; the key goes when
that set is empty.
-/

namespace Fluo

structure Groups (κ : Type) where
  groups : OrderedMap κ Nat
  cells : Heap (List Nat)

namespace Groups

variable {κ : Type} [DecidableEq κ] {g : Groups κ} {owner : Nat → Option (κ × Nat)}

def empty : Groups κ := ⟨OrderedMap.empty, Heap.empty⟩

/-- The set that a member of the key joins. -/
def target (g : Groups κ) (k : κ) : Nat := (g.groups.get k).getD g.cells.size

def join (g : Groups κ) (k : κ) (m : Nat) : Groups κ :=
  match g.groups.get k with
  | some r => { g with cells := g.cells.modify r fun members => members ++ [m] }
  | none => ⟨g.groups.set k g.cells.size, g.cells.push [m]⟩

def leave (g : Groups κ) (k : κ) (r m : Nat) : Groups κ :=
  let rest := (g.cells.get r).filter (· ≠ m)
  ⟨if rest = [] then g.groups.erase k else g.groups, g.cells.set r rest⟩

def members (g : Groups κ) (k : κ) : List Nat :=
  match g.groups.get k with
  | some r => g.cells.get r
  | none => []

def all (g : Groups κ) : List Nat := g.groups.values.flatMap g.cells.get

/-- The sets hold the members that have not left: `owner` has the key and the
set of each. -/
structure Holds (g : Groups κ) (owner : Nat → Option (κ × Nat)) : Prop where
  held : ∀ k r, g.groups.get k = some r → r < g.cells.size ∧ g.cells.get r ≠ [] ∧
    ∀ m ∈ g.cells.get r, owner m = some (k, r)
  registered : ∀ m k r, owner m = some (k, r) → g.groups.get k = some r ∧ m ∈ g.cells.get r

theorem holds_empty : (empty : Groups κ).Holds fun _ => none := by
  refine ⟨fun k r found => ?_, fun m k r owned => ?_⟩
  · cases found
  · cases owned

theorem Holds.congr {owner' : Nat → Option (κ × Nat)} (h : g.Holds owner) (same : ∀ m, owner' m = owner m) :
    g.Holds owner' := by
  obtain rfl : owner' = owner := funext same
  exact h

theorem Holds.mem_members (h : g.Holds owner) {k : κ} {m : Nat} : m ∈ g.members k ↔ ∃ r, owner m = some (k, r) := by
  rw [members]
  constructor
  · intro mem
    split at mem
    · next r found => exact ⟨r, (h.held k r found).2.2 m mem⟩
    · cases mem
  · rintro ⟨r, owned⟩
    obtain ⟨found, mem⟩ := h.registered m k r owned
    rw [found]
    exact mem

theorem Holds.mem_all (h : g.Holds owner) {k : κ} {r m : Nat} (owned : owner m = some (k, r)) : m ∈ g.all := by
  obtain ⟨found, mem⟩ := h.registered m k r owned
  exact List.mem_flatMap.mpr ⟨r, OrderedMap.mem_values.mpr ⟨k, found⟩, mem⟩

theorem Holds.same_key (h : g.Holds owner) {k k' : κ} {r : Nat} (found : g.groups.get k = some r)
    (found' : g.groups.get k' = some r) : k = k' := by
  obtain ⟨-, notEmpty, members⟩ := h.held k r found
  obtain ⟨m, mem⟩ := List.exists_mem_of_ne_nil _ notEmpty
  have one := members m mem
  rw [(h.held k' r found').2.2 m mem] at one
  exact (Prod.mk.inj (Option.some.inj one)).1.symm

theorem Holds.no_key (h : g.Holds owner) (idle : ∀ m, owner m = none) (k : κ) : g.groups.get k = none := by
  cases found : g.groups.get k with
  | none => rfl
  | some r =>
    obtain ⟨-, notEmpty, members⟩ := h.held k r found
    obtain ⟨m, mem⟩ := List.exists_mem_of_ne_nil _ notEmpty
    have owned := members m mem
    rw [idle] at owned
    cases owned

theorem Holds.join (h : g.Holds owner) {k : κ} {m : Nat} (free : owner m = none) :
    (g.join k m).Holds fun j => if j = m then some (k, g.target k) else owner j := by
  have other {j : Nat} {k' : κ} {r : Nat} (owned : owner j = some (k', r)) : j ≠ m := by
    rintro rfl
    rw [free] at owned
    cases owned
  rw [Groups.join]
  split
  · next r found =>
    have target : g.target k = r := by rw [Groups.target, found]; rfl
    have cells (q : Nat) : (g.cells.modify r fun members => members ++ [m]).get q =
      if q = r then g.cells.get r ++ [m] else g.cells.get q := rfl
    refine ⟨fun k' q found' => ?_, fun j k' q owned => ?_⟩
    · obtain ⟨inBounds, notEmpty, members⟩ := h.held k' q found'
      change q < g.cells.size ∧ (g.cells.modify r fun members => members ++ [m]).get q ≠ [] ∧
        ∀ j ∈ (g.cells.modify r fun members => members ++ [m]).get q, _
      rw [cells]
      split
      · next same =>
        subst same
        refine ⟨inBounds, by simp, fun j mem => ?_⟩
        rcases List.mem_append.mp mem with mem | new
        · have owned := members j mem
          rw [if_neg (other owned), owned]
        · rw [if_pos (List.mem_singleton.mp new), target, h.same_key found found']
      · refine ⟨inBounds, notEmpty, fun j mem => ?_⟩
        have owned := members j mem
        rw [if_neg (other owned), owned]
    · change g.groups.get k' = some q ∧ j ∈ (g.cells.modify r fun members => members ++ [m]).get q
      rw [cells]
      split at owned
      · next same =>
        obtain ⟨rfl, rfl⟩ := Prod.mk.inj (Option.some.inj owned)
        rw [target, if_pos rfl, same]
        exact ⟨found, by simp⟩
      · obtain ⟨found', mem⟩ := h.registered j k' q owned
        refine ⟨found', ?_⟩
        split
        · next same => exact List.mem_append.mpr (.inl (same ▸ mem))
        · exact mem
  · next absent =>
    have target : g.target k = g.cells.size := by rw [Groups.target, absent]; rfl
    refine ⟨fun k' q found => ?_, fun j k' q owned => ?_⟩
    · change q < g.cells.size + 1 ∧ (g.cells.push [m]).get q ≠ [] ∧ ∀ j ∈ (g.cells.push [m]).get q, _
      rw [OrderedMap.get_set] at found
      split at found
      · next same =>
        obtain rfl := Option.some.inj found
        rw [Heap.get_push_self]
        refine ⟨by omega, by simp, fun j mem => ?_⟩
        rw [if_pos (List.mem_singleton.mp mem), target, same]
      · obtain ⟨inBounds, notEmpty, members⟩ := h.held k' q found
        rw [Heap.get_push_lt _ inBounds]
        refine ⟨by omega, notEmpty, fun j mem => ?_⟩
        have owned := members j mem
        rw [if_neg (other owned), owned]
    · change (g.groups.set k g.cells.size).get k' = some q ∧ j ∈ (g.cells.push [m]).get q
      split at owned
      · next same =>
        obtain ⟨rfl, rfl⟩ := Prod.mk.inj (Option.some.inj owned)
        rw [target, Heap.get_push_self, same]
        exact ⟨OrderedMap.get_set_self _ _ _, List.mem_singleton_self m⟩
      · obtain ⟨found, mem⟩ := h.registered j k' q owned
        have differs : k' ≠ k := by
          rintro rfl
          rw [absent] at found
          cases found
        rw [OrderedMap.get_set, if_neg differs, Heap.get_push_lt _ (h.held k' q found).1]
        exact ⟨found, mem⟩

theorem Holds.leave (h : g.Holds owner) {k : κ} {r m : Nat} (own : owner m = some (k, r)) :
    (g.leave k r m).Holds fun j => if j = m then none else owner j := by
  obtain ⟨found, -⟩ := h.registered m k r own
  have groups (k' : κ) : (g.leave k r m).groups.get k' =
      if (g.cells.get r).filter (· ≠ m) = [] ∧ k' = k then none else g.groups.get k' := by
    change (if (g.cells.get r).filter (· ≠ m) = [] then g.groups.erase k else g.groups).get k' = _
    by_cases empty : (g.cells.get r).filter (· ≠ m) = []
    · rw [if_pos empty, OrderedMap.get_erase]
      simp only [empty, true_and]
    · rw [if_neg empty, if_neg fun both => empty both.1]
  have cells (q : Nat) : (g.leave k r m).cells.get q =
    if q = r then (g.cells.get r).filter (· ≠ m) else g.cells.get q := rfl
  refine ⟨fun k' q found' => ?_, fun j k' q owned => ?_⟩
  · rw [groups] at found'
    split at found'
    · cases found'
    · next stays =>
      obtain ⟨inBounds, notEmpty, members⟩ := h.held k' q found'
      rw [cells]
      split
      · next same =>
        subst same
        refine ⟨inBounds, fun empty => stays ⟨empty, h.same_key found' found⟩, fun j mem => ?_⟩
        obtain ⟨mem, differs⟩ := List.mem_filter.mp mem
        rw [if_neg (of_decide_eq_true differs), members j mem]
      · next differs =>
        refine ⟨inBounds, notEmpty, fun j mem => ?_⟩
        have owned := members j mem
        have other : j ≠ m := by
          rintro rfl
          rw [own] at owned
          exact differs (Prod.mk.inj (Option.some.inj owned)).2.symm
        rw [if_neg other, owned]
  · split at owned
    · cases owned
    · next other =>
      obtain ⟨found', mem⟩ := h.registered j k' q owned
      have stays : j ∈ (g.leave k r m).cells.get q := by
        rw [cells]
        split
        · next same => exact List.mem_filter.mpr ⟨same ▸ mem, decide_eq_true other⟩
        · exact mem
      refine ⟨?_, stays⟩
      rw [groups, if_neg, found']
      rintro ⟨empty, same⟩
      have shared : q = r := by
        rw [same, found] at found'
        exact (Option.some.inj found').symm
      rw [cells, if_pos shared, empty] at stays
      cases stays

end Groups

end Fluo
