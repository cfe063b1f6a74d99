import Mathlib.Data.List.Basic

/-!
# Stateful computations that always return the same answer

`Returns I x a`: from every state satisfying `I`, the computation `x` answers
`a` and leaves a state satisfying `I`. The rules compose such computations, so
a program over memoized lookups is compared with the same program over pure
lookups by following its text.
-/

namespace Fluo

section Loops

variable {m : Type → Type} [Monad m] {α : Type}

/-- `some`, stopping at the first hit. -/
def anyOf (f : α → m Bool) : List α → m Bool
  | [] => pure false
  | a :: rest => do if ← f a then pure true else anyOf f rest

def firstOf (f : α → m Bool) : List α → m (Option α)
  | [] => pure none
  | a :: rest => do if ← f a then pure (some a) else firstOf f rest

end Loops

variable {σ α β : Type} {I : σ → Prop}

def Returns (I : σ → Prop) (x : StateM σ α) (a : α) : Prop :=
  ∀ s, I s → (x s).1 = a ∧ I (x s).2

namespace Returns

theorem ret (a : α) : Returns I (pure a) a := fun _ h => ⟨rfl, h⟩

theorem bind {x : StateM σ α} {f : α → StateM σ β} {a : α} {b : β}
    (hx : Returns I x a) (hf : Returns I (f a) b) : Returns I (x >>= f) b := by
  intro s hs
  obtain ⟨ha, hs'⟩ := hx s hs
  have := hf (x s).2 hs'
  rw [← ha] at this
  exact this

theorem map {x : StateM σ α} {a : α} (f : α → β) (hx : Returns I x a) :
    Returns I (f <$> x) (f a) :=
  hx.bind (f := fun a => pure (f a)) (.ret (f a))

/-- The pure program on the right is written in `Id`. -/
theorem bind' {x : StateM σ α} {f : α → StateM σ β} {a : Id α} {g : α → Id β}
    (hx : Returns I x a) (hf : ∀ a, Returns I (f a) (g a)) : Returns I (x >>= f) (a >>= g) :=
  hx.bind (hf a)

theorem ite {c : Prop} [Decidable c] {x y : StateM σ α} {a b : α}
    (hx : c → Returns I x a) (hy : ¬ c → Returns I y b) :
    Returns I (if c then x else y) (if c then a else b) := by
  split
  · exact hx (by assumption)
  · exact hy (by assumption)

theorem anyOf {f : α → StateM σ Bool} {g : α → Id Bool} (h : ∀ a, Returns I (f a) (g a))
    (l : List α) : Returns I (anyOf f l) (Fluo.anyOf g l) := by
  induction l with
  | nil => exact .ret false
  | cons a rest ih => exact .bind' (h a) fun b => .ite (fun _ => .ret true) (fun _ => ih)

theorem firstOf {f : α → StateM σ Bool} {g : α → Id Bool} (h : ∀ a, Returns I (f a) (g a))
    (l : List α) : Returns I (firstOf f l) (Fluo.firstOf g l) := by
  induction l with
  | nil => exact .ret none
  | cons a rest ih => exact .bind' (h a) fun b => .ite (fun _ => .ret (some a)) (fun _ => ih)

end Returns

end Fluo
