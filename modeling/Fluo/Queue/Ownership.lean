import Fluo.Queue.Lifecycle

/-!
# Who owns a queue resource

Every resource whose close has not been attempted is held by a start attempt,
registered with the service, or on the list of one teardown, and the service and
each teardown only know resources of their own attempt.
-/

namespace Fluo.Queue

open Js

/-- What a start attempt has created or still has to close, and has not handed on. -/
def Phase.held : Phase → List Nat
  | .initializing _ connections => connections
  | .connecting _ connections connection => connection :: connections
  | .waiting _ resources => [resources.worker, resources.queue, resources.workerConnection, resources.queueConnection]
  | .cleaning rest => rest
  | .next | .fulfilled | .rejected => []

/-- In progress, and nothing has thrown. -/
def Phase.sound : Phase → Bool
  | .next | .initializing _ _ | .connecting _ _ _ | .waiting _ _ => true
  | .cleaning _ | .fulfilled | .rejected => false

def Attempt.pending (attempt : Attempt) : List JsString :=
  match attempt.phase with
  | .initializing jobName _ | .connecting jobName _ _ | .waiting jobName _ => jobName :: attempt.descriptors
  | _ => attempt.descriptors

namespace State

def phase (s : State) (i : Nat) : Phase := (s.attempts.get i).phase

def owner (s : State) (r : Nat) : Nat := (s.resources.get r).attempt

def Open (s : State) (r : Nat) : Prop := r ∉ s.closeAttempts

def Tracked (s : State) (r : Nat) : Prop :=
  r ∈ s.initialized ∨ (∃ i < s.attempts.size, r ∈ (s.phase i).held) ∨
    (∃ h < s.handlers.size, r ∈ (s.handlers.get h).teardown.rest) ∨
    (∃ teardown, s.startupFailureRollbackPromise = some teardown ∧ r ∈ teardown.rest) ∨
    ∃ teardown, s.shutdownPromise = some (.tearingDown teardown) ∧ r ∈ teardown.rest

/-- The registered resources have not been taken by a rollback or by shutdown,
and the attempt has not failed. -/
def Live (s : State) : Prop :=
  s.startupFailureRollbackPromise = none ∧ (∀ teardown, s.shutdownPromise ≠ some (.tearingDown teardown)) ∧
    ∃ i, i + 1 = s.attempts.size ∧ s.phase i ≠ .rejected

end State

/-- The attempts, promises and the lifecycle state fit together. -/
structure Control (s : State) : Prop where
  promised : ∀ i, s.startPromise = some i → i < s.attempts.size
  inProgress : ∀ i < s.attempts.size, (s.phase i).inProgress = true →
    i + 1 = s.attempts.size ∧ s.startPromise = some i ∧ 0 < (s.attempts.get i).waiters ∧
      s.startupFailureRollbackPromise = none ∧
      (s.lifecycleState = .starting ∧ s.shutdownPromise = none ∨
        s.lifecycleState = .stopping ∧ s.shutdownPromise = some (.awaitingStart (some i)))
  fulfilled : ∀ i < s.attempts.size, s.phase i = .fulfilled →
    i + 1 = s.attempts.size ∧ s.startPromise = none ∧ s.lifecycleState ≠ .idle ∧ s.lifecycleState ≠ .starting
  started : s.lifecycleState = .started →
    s.startupFailureRollbackPromise = none ∧ ∃ i, i + 1 = s.attempts.size ∧ s.phase i = .fulfilled
  handled : ∀ h < s.handlers.size,
    (s.handlers.get h).attempt < s.attempts.size ∧ s.phase (s.handlers.get h).attempt = .rejected
  failed : s.lifecycleState = .failed → s.startupFailureRollbackPromise ≠ none
  rolledBack : s.startupFailureRollbackPromise ≠ none →
    (s.lifecycleState = .failed ∨ s.lifecycleState = .stopping) ∧
      ∀ teardown, s.shutdownPromise ≠ some (.tearingDown teardown)
  shut : s.shutdownPromise = none ↔ s.lifecycleState ≠ .stopping ∧ s.lifecycleState ≠ .stopped
  ran : s.ran ≠ [] ∨ s.scheduled ≠ none → s.lifecycleState ≠ .idle ∧ s.lifecycleState ≠ .starting

structure Books (s : State) : Prop where
  created : ∀ r < s.resources.size, s.owner r < s.attempts.size
  initialized : ∀ r ∈ s.initialized, r < s.resources.size ∧ s.owner r + 1 = s.attempts.size
  live : s.initialized ≠ [] → s.Live
  held : ∀ i < s.attempts.size, ∀ r ∈ (s.phase i).held, r < s.resources.size ∧ s.owner r = i
  closing : ∀ h < s.handlers.size, ∀ r ∈ (s.handlers.get h).teardown.rest,
    r < s.resources.size ∧ s.owner r = (s.handlers.get h).attempt
  pending : ∀ i < s.attempts.size, (s.phase i).sound = true →
    (s.attempts.get i).pending.Nodup ∧ ∀ jobName ∈ (s.attempts.get i).pending,
      s.queuesByJobName.get jobName = none ∧ s.workersByJobName.get jobName = none
  /-- Shutdown has begun to close when no handler had anything left. -/
  swept : ∀ teardown, s.shutdownPromise = some (.tearingDown teardown) →
    ∀ h < s.handlers.size, (s.handlers.get h).teardown.rest = []

/-- What is open is tracked, and what is in use is open. -/
structure Care (s : State) : Prop where
  tracked : ∀ r < s.resources.size, s.Open r → s.Tracked r
  sound : ∀ i < s.attempts.size, (s.phase i).sound = true → ∀ r < s.resources.size, s.owner r = i →
    s.Open r ∧ (r ∈ (s.phase i).held ∨ r ∈ s.initialized)
  used : s.lifecycleState = .started → ∀ i, i + 1 = s.attempts.size → ∀ r < s.resources.size, s.owner r = i →
    s.Open r ∧ r ∈ s.initialized

structure Inv (s : State) : Prop extends Control s, Books s, Care s

theorem Inv.initial : Inv .initial where
  promised := nofun
  inProgress := nofun
  fulfilled := nofun
  started := nofun
  handled := nofun
  failed := nofun
  rolledBack := fun h => absurd rfl h
  shut := ⟨fun _ => ⟨nofun, nofun⟩, fun _ => rfl⟩
  ran := by
    rintro (h | h)
    · exact absurd rfl h
    · exact absurd rfl h
  created := nofun
  initialized := nofun
  live := fun h => absurd rfl h
  held := nofun
  closing := nofun
  pending := nofun
  swept := nofun
  tracked := nofun
  sound := nofun
  used := nofun

end Fluo.Queue
