import Mathlib.Data.List.Induction

/-!
# Result boundaries

Policies on results in one native attempt: a rejected result makes the attempt
roll back, and the root's own failure is returned once the rollback is confirmed.
-/

namespace Fluo.Persistence

variable {α : Type}

/-- A value that is evaluated in an attempt, by a nested policy that rejects it
or not or by the root's policy. `error` is the error that would be created. -/
inductive Evaluation (α : Type) where
  | nested (rejects : Bool) (error : Nat)
  | root (value : α) (error : Nat)

/-- `rollbackOnly` of the owner and `failure` of its root boundary. -/
structure ResultBoundary (α : Type) where
  rollbackOnly : Option Nat
  failure : Option (α × Nat)

namespace ResultBoundary

def initial : ResultBoundary α := ⟨none, none⟩

/-- `evaluateResult` and `ResultBoundary.evaluate`. -/
def evaluate (shouldRollback : Option (α → Bool)) (b : ResultBoundary α) : Evaluation α → ResultBoundary α
  | .nested rejects error => if rejects then { b with rollbackOnly := some (b.rollbackOnly.getD error) } else b
  | .root value error =>
    if shouldRollback.any (· value) then
      ⟨some (b.rollbackOnly.getD error), some (value, b.rollbackOnly.getD error)⟩
    else b

def evaluateAll (shouldRollback : Option (α → Bool)) (evaluations : List (Evaluation α)) : ResultBoundary α :=
  evaluations.foldl (evaluate shouldRollback) initial

end ResultBoundary

/-- Why `recover` rejects. -/
inductive RecoverError (ε : Type) where
  | original (error : Nat)
  | unconfirmed
  | observed (error : ε)

/-- `recover` of an error; the observation is `confirmRollback` of the attempt,
and `later` is the boundary when it has answered. -/
def ResultBoundary.recover {ε : Type} (b later : ResultBoundary α) (error : Nat)
    (observation : Option (Except ε Bool)) : Except (RecoverError ε) α :=
  if b.rollbackOnly = some error then
    match observation with
    | none => .error .unconfirmed
    | some (.error failure) => .error (.observed failure)
    | some (.ok false) => .error .unconfirmed
    | some (.ok true) =>
      match later.failure with
      | some (value, own) => if error = own then .ok value else .error (.original error)
      | none => .error (.original error)
  else .error (.original error)

/-- The failure of a boundary is a value that its policy has rejected. -/
theorem ResultBoundary.failure_rejected {shouldRollback : Option (α → Bool)} {evaluations : List (Evaluation α)} {value : α}
    {own : Nat} (h : (evaluateAll shouldRollback evaluations).failure = some (value, own)) :
    (∃ error, .root value error ∈ evaluations) ∧ shouldRollback.any (· value) = true := by
  induction evaluations using List.reverseRecOn with
  | nil => cases h
  | append_singleton evaluations last ih =>
    rw [evaluateAll, List.foldl_append, List.foldl_cons, List.foldl_nil] at h
    have earlier (h : (evaluateAll shouldRollback evaluations).failure = some (value, own)) :
        (∃ error, .root value error ∈ evaluations ++ [last]) ∧ shouldRollback.any (· value) = true :=
      ⟨(ih h).1.imp fun _ mem => List.mem_append_left _ mem, (ih h).2⟩
    cases last with
    | nested rejects error =>
      refine earlier ?_
      cases rejects <;> exact h
    | root value' error =>
      simp only [evaluate] at h
      split at h
      next rejected =>
        cases h
        exact ⟨⟨error, by simp⟩, rejected⟩
      next => exact earlier h

/-- A value that is recovered was rejected by the root's policy, and the rollback
was confirmed. -/
theorem ResultBoundary.recover_ok {ε : Type} {shouldRollback : Option (α → Bool)} {before evaluations : List (Evaluation α)}
    {error : Nat} {observation : Option (Except ε Bool)} {value : α}
    (h : (evaluateAll shouldRollback before).recover (evaluateAll shouldRollback evaluations) error observation = .ok value) :
    ((∃ error, .root value error ∈ evaluations) ∧ shouldRollback.any (· value) = true) ∧
      observation = some (.ok true) := by
  unfold recover at h
  split at h
  next =>
    split at h
    next => cases h
    next => cases h
    next => cases h
    next =>
      refine ⟨?_, rfl⟩
      split at h
      next value' own here =>
        split at h
        next =>
          cases h
          exact failure_rejected here
        next => cases h
      next => cases h
  next => cases h

end Fluo.Persistence
