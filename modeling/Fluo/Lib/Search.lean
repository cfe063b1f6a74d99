import Mathlib.Data.List.Basic
import Mathlib.Data.List.Nodup
import Mathlib.Data.Fintype.Card
import Mathlib.Data.Set.Finite.Basic
import Mathlib.Logic.Relation
import Mathlib.Order.WellFounded

/-!
# Searching a finite graph along the current path

A backtracking search marks the nodes of its current path only; what it can
reach from a node is what some path reaches that avoids the nodes already
marked.

* `Avoids.cut`: a path to another node can be taken so that it never returns
  to its first node, so marking that node loses nothing;
* `remaining`: how many nodes of a universe are still unmarked, the measure
  that bounds the depth of such a search;
* `Reach`, `AcyclicFrom`: the unmarked notions, over successor lists.
-/

namespace Fluo.Search

variable {α : Type} {r : α → α → Prop} {succ : α → List α} {vis vis' : List α} {a b c : α}

/-- A path from one node to another that meets no node of `vis`. -/
inductive Avoids (r : α → α → Prop) (vis : List α) : α → α → Prop
  | here {a : α} : a ∉ vis → Avoids r vis a a
  | step {a b c : α} : a ∉ vis → r a b → Avoids r vis b c → Avoids r vis a c

theorem Avoids.start (h : Avoids r vis a b) : a ∉ vis := by
  cases h <;> assumption

theorem Avoids.finish (h : Avoids r vis a b) : b ∉ vis := by
  induction h with
  | here h => exact h
  | step _ _ _ ih => exact ih

theorem Avoids.mono (h : Avoids r vis a b) (hs : ∀ x ∈ vis', x ∈ vis) :
    Avoids r vis' a b := by
  induction h with
  | here h => exact .here (fun hx => h (hs _ hx))
  | step h hb _ ih => exact .step (fun hx => h (hs _ hx)) hb ih

theorem Avoids.trans (h : Avoids r vis a b) (h' : Avoids r vis b c) :
    Avoids r vis a c := by
  induction h with
  | here _ => exact h'
  | step ha hb _ ih => exact .step ha hb (ih h')

/-- Either the path avoids `x` as well, or it can be shortened to what follows
its last visit of `x`. -/
theorem Avoids.last_visit (x : α) (h : Avoids r vis a c) :
    Avoids r (x :: vis) a c ∨ x = c ∨ ∃ b, r x b ∧ Avoids r (x :: vis) b c := by
  classical
  induction h with
  | @here a ha =>
    by_cases hx : a = x
    · exact Or.inr (Or.inl hx.symm)
    · exact Or.inl (.here (by simp [hx, ha]))
  | @step a b c ha hb _ ih =>
    rcases ih with ih | ih
    · by_cases hx : a = x
      · subst hx; exact Or.inr (Or.inr ⟨b, hb, ih⟩)
      · exact Or.inl (.step (by simp [hx, ha]) hb ih)
    · exact Or.inr ih

/-- The step of a backtracking search: either its node is the goal or some
successor reaches the goal with the node marked. -/
theorem Avoids.cut (h : Avoids r vis a c) :
    a = c ∨ ∃ b, r a b ∧ Avoids r (a :: vis) b c := by
  rcases h.last_visit a with h | h
  · exact absurd List.mem_cons_self h.start
  · exact h

theorem avoids_nil : Avoids r [] a b ↔ Relation.ReflTransGen r a b := by
  constructor
  · intro h
    induction h with
    | here _ => exact .refl
    | step _ hb _ ih => exact .head hb ih
  · intro h
    induction h using Relation.ReflTransGen.head_induction_on with
    | refl => exact .here (by simp)
    | head hb _ ih => exact .step (by simp) hb ih

theorem Avoids.reach (h : Avoids r vis a b) : Relation.ReflTransGen r a b :=
  avoids_nil.mp (h.mono (by simp))

/-- Reachability over successor lists. -/
abbrev Reach (succ : α → List α) : α → α → Prop := Relation.ReflTransGen fun x y => y ∈ succ x

/-- No node lies on a cycle that `a` can reach. -/
def AcyclicFrom (succ : α → List α) (a : α) : Prop :=
  ∀ b, Reach succ a b → ¬ Relation.TransGen (fun x y => y ∈ succ x) b b

theorem AcyclicFrom.tail (h : AcyclicFrom succ a) (hb : b ∈ succ a) : AcyclicFrom succ b :=
  fun c hc => h c (.head hb hc)

/-! ## Adding an edge -/

theorem transGen_insert {x y : α} (h : Relation.TransGen (fun a b => r a b ∨ a = x ∧ b = y) a b) :
    Relation.TransGen r a b ∨ Relation.ReflTransGen r a x ∧ Relation.ReflTransGen r y b := by
  induction h with
  | single h =>
    rcases h with h | ⟨rfl, rfl⟩
    · exact Or.inl (.single h)
    · exact Or.inr ⟨.refl, .refl⟩
  | tail _ h ih =>
    rcases ih with ih | ⟨before, after⟩ <;> rcases h with h | ⟨rfl, rfl⟩
    · exact Or.inl (.tail ih h)
    · exact Or.inr ⟨ih.to_reflTransGen, .refl⟩
    · exact Or.inr ⟨before, .tail after h⟩
    · exact Or.inr ⟨before, .refl⟩

/-- An edge to a node that leads nowhere back closes no cycle. -/
theorem acyclic_insert {x y : α} (h : ∀ a, ¬ Relation.TransGen r a a) (hxy : ¬ Relation.ReflTransGen r y x)
    (a : α) : ¬ Relation.TransGen (fun a b => r a b ∨ a = x ∧ b = y) a a := by
  intro cycle
  rcases transGen_insert cycle with cycle | ⟨before, after⟩
  · exact h a cycle
  · exact hxy (after.trans before)

/-- In an acyclic relation, some member of a finite set leads to no other. -/
theorem exists_sink (h : ∀ a, ¬ Relation.TransGen r a a) {l : List α} (hl : l ≠ []) :
    ∃ a ∈ l, ∀ b ∈ l, ¬ r a b := by
  let back : {a // a ∈ l} → {a // a ∈ l} → Prop := fun a b => Relation.TransGen r b.1 a.1
  have : IsTrans _ back := ⟨fun a b c hab hbc => hbc.trans hab⟩
  have : Std.Irrefl back := ⟨fun a => h a.1⟩
  have : Finite {a // a ∈ l} := List.finite_toSet l
  have wf : WellFounded back := Finite.wellFounded_of_trans_of_irrefl back
  obtain ⟨x, hx⟩ := List.exists_mem_of_ne_nil l hl
  obtain ⟨⟨a, ha⟩, -, hmin⟩ := wf.has_min Set.univ ⟨⟨x, hx⟩, trivial⟩
  exact ⟨a, ha, fun b hb hab => hmin ⟨b, hb⟩ trivial (.single hab)⟩

section Remaining

variable [DecidableEq α]

/-- Nodes of the universe `u` that are not marked yet. -/
def remaining (u vis : List α) : Nat := (u.filter fun x => x ∉ vis).length

theorem remaining_lt {u : List α} (hu : a ∈ u) (ha : a ∉ vis) :
    remaining u (a :: vis) < remaining u vis := by
  unfold remaining
  rw [show (u.filter fun x => x ∉ a :: vis) =
      (u.filter fun x => x ∉ vis).filter (fun x => x ≠ a) by
    rw [List.filter_filter]
    exact List.filter_congr (fun x _ => by simp)]
  refine List.length_filter_lt_length_iff_exists.mpr ⟨a, ?_, by simp⟩
  simp [hu, ha]

theorem remaining_le (u vis : List α) : remaining u vis ≤ u.length := List.length_filter_le _ _

end Remaining

end Fluo.Search
