import Mathlib.Data.List.Basic

/-!
# Histories

Two operators on the list of what has happened, the latest last: something has
happened once, and something has happened with nothing of a kind since.
-/

namespace Fluo.History

variable {ε : Type}

/-- Some event of the history met `P` with what had happened before it. -/
def Once (P : List ε → ε → Prop) (history : List ε) : Prop :=
  ∃ before event after, history = before ++ event :: after ∧ P before event

/-- Some event met `P`, and none that came after it met `Q`. -/
def Since (P : List ε → ε → Prop) (Q : ε → Prop) (history : List ε) : Prop :=
  ∃ before event after, history = before ++ event :: after ∧ P before event ∧ ∀ later ∈ after, ¬ Q later

theorem snoc_eq_append_cons {history before after : List ε} {last event : ε} :
    history ++ [last] = before ++ event :: after ↔
      (after = [] ∧ before = history ∧ event = last) ∨
        ∃ rest, after = rest ++ [last] ∧ history = before ++ event :: rest := by
  rcases List.eq_nil_or_concat after with rfl | ⟨rest, e, rfl⟩
  · constructor
    · intro e
      obtain ⟨front, back⟩ := List.append_inj' e rfl
      exact .inl ⟨rfl, front.symm, (List.cons.inj back).1.symm⟩
    · rintro (⟨-, rfl, rfl⟩ | ⟨rest, e, -⟩)
      · rfl
      · exact absurd e.symm (by simp)
  · rw [List.concat_eq_append, ← List.cons_append, ← List.append_assoc]
    constructor
    · intro e
      obtain ⟨front, back⟩ := List.append_inj' e rfl
      exact .inr ⟨rest, by rw [(List.cons.inj back).1], front⟩
    · rintro (⟨e, -⟩ | ⟨rest', e, rfl⟩)
      · exact absurd e (by simp)
      · obtain ⟨rfl, back⟩ := List.append_inj' e rfl
        rw [(List.cons.inj back).1]

theorem once_snoc {P : List ε → ε → Prop} {history : List ε} {last : ε} :
    Once P (history ++ [last]) ↔ Once P history ∨ P history last := by
  constructor
  · rintro ⟨before, event, after, e, h⟩
    rcases snoc_eq_append_cons.mp e with ⟨rfl, rfl, rfl⟩ | ⟨rest, rfl, earlier⟩
    · exact .inr h
    · exact .inl ⟨before, event, rest, earlier, h⟩
  · rintro (⟨before, event, after, rfl, h⟩ | h)
    · exact ⟨before, event, after ++ [last], by simp, h⟩
    · exact ⟨history, last, [], rfl, h⟩

theorem since_snoc {P : List ε → ε → Prop} {Q : ε → Prop} {history : List ε} {last : ε} :
    Since P Q (history ++ [last]) ↔ (Since P Q history ∧ ¬ Q last) ∨ P history last := by
  constructor
  · rintro ⟨before, event, after, e, h, none⟩
    rcases snoc_eq_append_cons.mp e with ⟨rfl, rfl, rfl⟩ | ⟨rest, rfl, earlier⟩
    · exact .inr h
    · refine .inl ⟨⟨before, event, rest, earlier, h, fun later mem => none later (by simp [mem])⟩, none last (by simp)⟩
  · rintro (⟨⟨before, event, after, rfl, h, none⟩, free⟩ | h)
    · refine ⟨before, event, after ++ [last], by simp, h, fun later mem => ?_⟩
      rcases List.mem_append.mp mem with old | new
      · exact none later old
      · rw [List.mem_singleton.mp new]
        exact free
    · exact ⟨history, last, [], rfl, h, by simp⟩

theorem Once.later {P : List ε → ε → Prop} {history more : List ε} (h : Once P history) : Once P (history ++ more) := by
  obtain ⟨before, event, after, rfl, holds⟩ := h
  exact ⟨before, event, after ++ more, by simp, holds⟩

end Fluo.History
