import Mathlib.Algebra.GroupWithZero.Nat
import Mathlib.Data.List.Basic

/-!
# Heaps of numbered cells

Objects with identity: a cell is named by the number it was allocated with.
-/

namespace Fluo

structure Heap (α : Type) where
  size : Nat
  get : Nat → α

namespace Heap

variable {α : Type}

def empty [Inhabited α] : Heap α := ⟨0, fun _ => default⟩

instance [Inhabited α] : Inhabited (Heap α) := ⟨empty⟩

/-- Allocate the next cell; its name is the old `size`. -/
def push (h : Heap α) (a : α) : Heap α := ⟨h.size + 1, fun i => if i = h.size then a else h.get i⟩

def set (h : Heap α) (i : Nat) (a : α) : Heap α := ⟨h.size, fun j => if j = i then a else h.get j⟩

def modify (h : Heap α) (i : Nat) (f : α → α) : Heap α := h.set i (f (h.get i))

@[simp] theorem push_size (h : Heap α) (a : α) : (h.push a).size = h.size + 1 := rfl

@[simp] theorem set_size (h : Heap α) (i : Nat) (a : α) : (h.set i a).size = h.size := rfl

@[simp] theorem modify_size (h : Heap α) (i : Nat) (f : α → α) : (h.modify i f).size = h.size := rfl

theorem get_push (h : Heap α) (a : α) (i : Nat) :
    (h.push a).get i = if i = h.size then a else h.get i := rfl

theorem get_set (h : Heap α) (i : Nat) (a : α) (j : Nat) :
    (h.set i a).get j = if j = i then a else h.get j := rfl

theorem get_modify (h : Heap α) (i : Nat) (f : α → α) (j : Nat) :
    (h.modify i f).get j = if j = i then f (h.get i) else h.get j := rfl

@[simp] theorem get_push_self (h : Heap α) (a : α) : (h.push a).get h.size = a := by simp [get_push]

@[simp] theorem get_set_self (h : Heap α) (i : Nat) (a : α) : (h.set i a).get i = a := by
  simp [get_set]

@[simp] theorem get_modify_self (h : Heap α) (i : Nat) (f : α → α) :
    (h.modify i f).get i = f (h.get i) := by simp [get_modify]

theorem get_push_lt {h : Heap α} {i : Nat} (a : α) (hi : i < h.size) :
    (h.push a).get i = h.get i := by simp [get_push, Nat.ne_of_lt hi]

theorem get_set_ne (h : Heap α) {i j : Nat} (a : α) (hj : j ≠ i) : (h.set i a).get j = h.get j := by
  simp [get_set, hj]

theorem get_modify_ne (h : Heap α) {i j : Nat} (f : α → α) (hj : j ≠ i) :
    (h.modify i f).get j = h.get j := by simp [get_modify, hj]

/-- A projection that `f` keeps is kept everywhere. -/
theorem get_modify_proj {β : Type} (h : Heap α) (i : Nat) (f : α → α) (p : α → β)
    (hp : p (f (h.get i)) = p (h.get i)) (j : Nat) : p ((h.modify i f).get j) = p (h.get j) := by
  rw [get_modify]
  split
  · rename_i e; rw [hp, e]
  · rfl

/-! ## Adding up over the cells -/

def total (weight : α → Nat) (h : Heap α) : Nat := ((List.range h.size).map fun i => weight (h.get i)).sum

theorem total_push (weight : α → Nat) (h : Heap α) (a : α) :
    (h.push a).total weight = h.total weight + weight a := by
  have old : ∀ i ∈ List.range h.size, weight ((h.push a).get i) = weight (h.get i) := by
    intro i hi
    rw [get_push_lt a (List.mem_range.mp hi)]
  simp only [total, push_size, List.range_succ, List.map_append, List.sum_append, List.map_congr_left old]
  simp

theorem total_set (weight : α → Nat) (h : Heap α) {i : Nat} (a : α) (hi : i < h.size) :
    (h.set i a).total weight + weight (h.get i) = h.total weight + weight a := by
  have step : ∀ n, ((List.range n).map fun j => weight ((h.set i a).get j)).sum +
        (if i < n then weight (h.get i) else 0) =
      ((List.range n).map fun j => weight (h.get j)).sum + (if i < n then weight a else 0) := by
    intro n
    induction n with
    | zero => simp
    | succ n ih =>
      simp only [List.range_succ, List.map_append, List.sum_append, List.map_cons, List.map_nil, List.sum_cons,
        List.sum_nil, Nat.add_zero]
      by_cases e : i = n
      · subst e
        simp only [Nat.lt_irrefl, ↓reduceIte, get_set_self, Nat.lt_succ_self] at ih ⊢
        omega
      · have later : (i < n + 1) = (i < n) := by
          apply propext
          omega
        have same : (h.set i a).get n = h.get n := h.get_set_ne a (Ne.symm e)
        rw [same]
        simp only [later]
        omega
  have := step h.size
  rw [if_pos hi, if_pos hi] at this
  exact this

theorem total_modify (weight : α → Nat) (h : Heap α) {i : Nat} (f : α → α) (hi : i < h.size) :
    (h.modify i f).total weight + weight (h.get i) = h.total weight + weight (f (h.get i)) :=
  h.total_set weight _ hi

theorem total_eq_zero {weight : α → Nat} {h : Heap α} (zero : ∀ i, i < h.size → weight (h.get i) = 0) :
    h.total weight = 0 := by
  refine List.sum_eq_zero_iff_forall_eq_nat.mpr fun n mem => ?_
  obtain ⟨i, hi, same⟩ := List.mem_map.mp mem
  rw [← same]
  exact zero i (List.mem_range.mp hi)

theorem total_pos {weight : α → Nat} {h : Heap α} {i : Nat} (hi : i < h.size) (pos : 0 < weight (h.get i)) :
    0 < h.total weight :=
  List.sum_pos_iff_exists_pos_nat.mpr
    ⟨weight (h.get i), List.mem_map.mpr ⟨i, List.mem_range.mpr hi, rfl⟩, pos⟩

end Heap

end Fluo
