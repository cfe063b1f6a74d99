import Mathlib.Order.Lattice
import Mathlib.Data.List.Induction

/-!
# First choices

The member of a list that a search in order of preference finds: of those that
qualify the one of the least rank, and among equals the first.
-/

namespace Fluo.Preference

variable {α ρ : Type} [LinearOrder ρ] {p q : α → Prop} {rank : α → ρ} {l : List α}

/-- `a` at position `i` comes before `b` at position `j`. -/
def Before (rank : α → ρ) (i : Nat) (a : α) (j : Nat) (b : α) : Prop := rank a < rank b ∨ rank a = rank b ∧ i < j

theorem Before.irrefl {i : Nat} {a : α} (h : Before rank i a i a) : False := by
  rcases h with less | ⟨-, less⟩
  · exact lt_irrefl _ less
  · exact Nat.lt_irrefl i less

theorem Before.asymm {i j : Nat} {a b : α} (h : Before rank i a j b) (h' : Before rank j b i a) : False := by
  rcases h with less | ⟨same, less⟩ <;> rcases h' with less' | ⟨same', less'⟩
  · exact lt_asymm less less'
  · exact lt_irrefl _ (same' ▸ less)
  · exact lt_irrefl _ (same ▸ less')
  · exact Nat.lt_asymm less less'

/-- The choice is the first by rank and position, or there is none. -/
def Best (p : α → Prop) (rank : α → ρ) (l : List α) : Option α → Prop
  | none => ∀ a ∈ l, ¬ p a
  | some a => ∃ i, l[i]? = some a ∧ p a ∧ ∀ j b, l[j]? = some b → p b → j ≠ i → Before rank i a j b

theorem Best.congr {rank' : α → ρ} {r : Option α} (h : Best p rank l r) (same : ∀ a ∈ l, q a ↔ p a)
    (ranks : ∀ a ∈ l, p a → rank' a = rank a) : Best q rank' l r := by
  cases r with
  | none => exact fun a mem holds => h a mem ((same a mem).mp holds)
  | some a =>
    obtain ⟨i, found, holds, first⟩ := h
    have mem := List.mem_of_getElem? found
    refine ⟨i, found, (same a mem).mpr holds, fun j b at_ holds' differs => ?_⟩
    have memB := List.mem_of_getElem? at_
    have holdsB := (same b memB).mp holds'
    rw [Before, ranks a mem holds, ranks b memB holdsB]
    exact first j b at_ holdsB differs

theorem exists_best (p : α → Prop) (rank : α → ρ) (l : List α) : ∃ r, Best p rank l r := by
  classical
  induction l with
  | nil => exact ⟨none, nofun⟩
  | cons a l ih =>
    obtain ⟨r, best⟩ := ih
    by_cases holds : p a
    · cases r with
      | none =>
        refine ⟨some a, 0, rfl, holds, fun j b at_ holds' differs => ?_⟩
        obtain ⟨k, rfl⟩ := Nat.exists_eq_succ_of_ne_zero differs
        exact absurd holds' (best b (List.mem_of_getElem? at_))
      | some c =>
        obtain ⟨i, found, holdsC, first⟩ := best
        by_cases later : rank c < rank a
        · refine ⟨some c, i + 1, found, holdsC, fun j b at_ holds' differs => ?_⟩
          cases j with
          | zero =>
            cases at_
            exact .inl later
          | succ k =>
            exact (first k b at_ holds' (by omega)).imp id fun both => ⟨both.1, by omega⟩
        · refine ⟨some a, 0, rfl, holds, fun j b at_ holds' differs => ?_⟩
          obtain ⟨k, rfl⟩ := Nat.exists_eq_succ_of_ne_zero differs
          have le : rank a ≤ rank b := by
            by_cases same : k = i
            · rw [same] at at_
              have eq : b = c := Option.some.inj (at_.symm.trans found)
              rw [eq]
              exact not_lt.mp later
            · rcases first k b at_ holds' same with less | ⟨eq, -⟩
              · exact (not_lt.mp later).trans less.le
              · exact (not_lt.mp later).trans_eq eq
          exact le.lt_or_eq.imp id fun eq => ⟨eq, Nat.succ_pos k⟩
    · cases r with
      | none =>
        refine ⟨none, fun b mem => ?_⟩
        rcases List.mem_cons.mp mem with rfl | mem
        · exact holds
        · exact best b mem
      | some c =>
        obtain ⟨i, found, holdsC, first⟩ := best
        refine ⟨some c, i + 1, found, holdsC, fun j b at_ holds' differs => ?_⟩
        cases j with
        | zero =>
          cases at_
          exact absurd holds' holds
        | succ k => exact (first k b at_ holds' (by omega)).imp id fun both => ⟨both.1, by omega⟩

theorem Best.unique {r r' : Option α} (h : Best p rank l r) (h' : Best p rank l r') : r = r' := by
  cases r with
  | none =>
    cases r' with
    | none => rfl
    | some b =>
      obtain ⟨j, found, holds, -⟩ := h'
      exact absurd holds (h b (List.mem_of_getElem? found))
  | some a =>
    obtain ⟨i, found, holds, first⟩ := h
    cases r' with
    | none => exact absurd holds (h' a (List.mem_of_getElem? found))
    | some b =>
      obtain ⟨j, found', holds', first'⟩ := h'
      by_cases same : j = i
      · rw [same] at found'
        exact found.symm.trans found'
      · exact ((first j b found' holds' same).asymm (first' i a found holds (Ne.symm same))).elim

/-- A search finds the first of those that it cannot tell apart. -/
theorem best_find {p : α → Bool} (alike : ∀ a ∈ l, ∀ b ∈ l, p a = true → p b = true → rank a = rank b) :
    Best (fun a => p a = true) rank l (l.find? p) := by
  induction l with
  | nil => exact nofun
  | cons a l ih =>
    rw [List.find?_cons]
    cases holds : p a with
    | true =>
      refine ⟨0, rfl, holds, fun j b at_ holds' differs => .inr ⟨?_, Nat.pos_of_ne_zero differs⟩⟩
      exact alike a List.mem_cons_self b (List.mem_of_getElem? at_) holds holds'
    | false =>
      have notHead : ¬ p a = true := Bool.eq_false_iff.mp holds
      have ih := ih fun b mem c mem' => alike b (List.mem_cons_of_mem a mem) c (List.mem_cons_of_mem a mem')
      cases found : l.find? p with
      | none =>
        rw [found] at ih
        intro b mem
        rcases List.mem_cons.mp mem with rfl | mem
        · exact notHead
        · exact ih b mem
      | some c =>
        rw [found] at ih
        obtain ⟨i, at_, holdsC, first⟩ := ih
        refine ⟨i + 1, at_, holdsC, fun j b atB holds' differs => ?_⟩
        cases j with
        | zero =>
          cases atB
          exact absurd holds' notHead
        | succ k => exact (first k b atB holds' (by omega)).imp id fun both => ⟨both.1, by omega⟩

/-- A search that finds nothing goes on with a second one for what ranks behind. -/
theorem Best.or {x y : Option α} (h : Best p rank l x) (h' : (∀ a ∈ l, ¬ p a) → Best q rank l y)
    (behind : ∀ a ∈ l, ∀ b ∈ l, p a → ¬ p b → q b → rank a < rank b) : Best (fun a => p a ∨ q a) rank l (x.or y) := by
  cases x with
  | none =>
    rw [Option.none_or]
    exact (h' h).congr (fun a mem => ⟨fun both => both.resolve_left (h a mem), .inr⟩) fun _ _ _ => rfl
  | some a =>
    obtain ⟨i, found, holds, first⟩ := h
    refine ⟨i, found, .inl holds, fun j b at_ holds' differs => ?_⟩
    by_cases holdsB : p b
    · exact first j b at_ holdsB differs
    · exact .inl (behind a (List.mem_of_getElem? found) b (List.mem_of_getElem? at_) holds holdsB
        (holds'.resolve_left holdsB))

/-- A single pass finds the first choice when it replaces what it has exactly by
what ranks before it. `R` is what holds of two members in their order. -/
theorem best_foldl {R : α → α → Prop} {f : Option α → α → Option α} (pairs : l.Pairwise R)
    (skip : ∀ r a, (∀ s, r = some s → p s) → ¬ p a → f r a = r) (first : ∀ a, p a → f none a = some a)
    (next : ∀ s a, R s a → p s → p a → f (some s) a = if rank a < rank s then some a else some s) :
    Best p rank l (l.foldl f none) := by
  induction l using List.reverseRecOn with
  | nil => exact nofun
  | append_singleton l a ih =>
    obtain ⟨before, -, order⟩ := List.pairwise_append.mp pairs
    have best := ih before
    rw [List.foldl_append, List.foldl_cons, List.foldl_nil]
    have last {j : Nat} {b : α} (at_ : (l ++ [a])[j]? = some b) : l[j]? = some b ∨ j = l.length ∧ b = a := by
      rcases Nat.lt_or_ge j l.length with lt | ge
      · exact .inl (by rwa [List.getElem?_append_left lt] at at_)
      · rw [List.getElem?_append_right ge] at at_
        obtain ⟨zero, rfl⟩ := List.getElem?_eq_some_iff.mp at_
        rw [List.length_singleton] at zero
        exact .inr ⟨by omega, by simp⟩
    by_cases holds : p a
    · cases chosen : l.foldl f none with
      | none =>
        rw [chosen] at best
        rw [first a holds]
        refine ⟨l.length, by simp, holds, fun j b at_ holdsB differs => ?_⟩
        rcases last at_ with at_ | ⟨same, -⟩
        · exact absurd holdsB (best b (List.mem_of_getElem? at_))
        · exact absurd same differs
      | some s =>
        rw [chosen] at best
        obtain ⟨i, found, holdsS, firstS⟩ := best
        have lt : i < l.length := (List.getElem?_eq_some_iff.mp found).1
        rw [next s a (order s (List.mem_of_getElem? found) a List.mem_cons_self) holdsS holds]
        split
        · next less =>
          refine ⟨l.length, by simp, holds, fun j b at_ holdsB differs => ?_⟩
          rcases last at_ with at_ | ⟨same, -⟩
          · by_cases same : j = i
            · rw [same] at at_
              rw [Option.some.inj (at_.symm.trans found)]
              exact .inl less
            · rcases firstS j b at_ holdsB same with lessB | ⟨eq, -⟩
              · exact .inl (less.trans lessB)
              · exact .inl (less.trans_eq eq)
          · exact absurd same differs
        · next notLess =>
          refine ⟨i, by rwa [List.getElem?_append_left lt], holdsS, fun j b at_ holdsB differs => ?_⟩
          rcases last at_ with at_ | ⟨rfl, rfl⟩
          · exact firstS j b at_ holdsB differs
          · exact (not_lt.mp notLess).lt_or_eq.imp id fun eq => ⟨eq, lt⟩
    · cases chosen : l.foldl f none with
      | none =>
        rw [chosen] at best
        rw [skip none a nofun holds]
        intro b mem
        rcases List.mem_append.mp mem with mem | mem
        · exact best b mem
        · exact List.mem_singleton.mp mem ▸ holds
      | some s =>
        rw [chosen] at best
        obtain ⟨i, found, holdsS, firstS⟩ := best
        have lt : i < l.length := (List.getElem?_eq_some_iff.mp found).1
        rw [skip (some s) a (fun _ same => Option.some.inj same ▸ holdsS) holds]
        refine ⟨i, by rwa [List.getElem?_append_left lt], holdsS, fun j b at_ holdsB differs => ?_⟩
        rcases last at_ with at_ | ⟨-, rfl⟩
        · exact firstS j b at_ holdsB differs
        · exact absurd holdsB holds

end Fluo.Preference
