import Fluo.Runtime.PlatformShellConsistent

/-!
# A stop of the platform attempts everything that runs

Whatever the transition before has come to, a `stop()` calls the `stop()` of each
component that runs when it is called.
-/

namespace Fluo.Runtime.Platform

open Js Search

/-- The stop in progress has to attempt the component yet: it ran when the call
came. -/
def neglected : List Action → JsString → Prop
  | [], _ => False
  | .called .start :: _, _ => False
  | .called .stop :: before, id => running before id
  | .stopComponent stopped :: before, id => id ≠ stopped ∧ neglected before id
  | .componentStopped _ _ :: before, id | .conflict _ _ :: before, id | .startComponent _ :: before, id
  | .settled _ _ :: before, id | .componentStarted _ _ :: before, id => neglected before id

theorem attempted_of_not_neglected {during older : List Action} {id : JsString}
    (one : ∀ operation, Action.called operation ∉ during) (runs : running older id)
    (h : ¬ neglected (during ++ .called .stop :: older) id) : .stopComponent id ∈ during := by
  induction during with
  | nil => exact absurd runs h
  | cons action rest ih =>
    have later : ¬ neglected (rest ++ .called .stop :: older) id → .stopComponent id ∈ action :: rest := fun h =>
      List.mem_cons_of_mem action (ih (fun op mem => one op (List.mem_cons_of_mem action mem)) h)
    cases action with
    | called op => exact absurd List.mem_cons_self (one op)
    | stopComponent stopped =>
      by_cases e : id = stopped
      · exact e ▸ List.mem_cons_self
      · exact later fun o => h ⟨e, o⟩
    | componentStopped | conflict | startComponent | settled | componentStarted => exact later h

variable {components : List RegisteredPlatformComponent} {s : System}

/-- What a stop has to attempt yet has its turn. -/
def Attempting (s : System) : Prop :=
  match s.shell.activeLifecycleTransition with
  | some ⟨_, .stop _ rest _ _ _⟩ => ∀ id, neglected s.log id → id ∈ ids rest
  | _ => ∀ id, ¬ neglected s.log id

theorem attempting_settle (none : ∀ id, ¬ neglected s.log id) (operation : PlatformLifecycleOperation)
    (outcome : Except PlatformShellError Unit) : Attempting (s.settle operation outcome) := none

theorem attempting_startNext (none : ∀ id, ¬ neglected s.log id)
    (startedComponents rest : List RegisteredPlatformComponent) : Attempting (s.startNext startedComponents rest) := by
  cases rest with
  | nil => exact none
  | cons => exact none

theorem attempting_validateNext (none : ∀ id, ¬ neglected s.log id) (failures : List PlatformDiagnosticIssue)
    (rest : List RegisteredPlatformComponent) : Attempting (s.validateNext components failures rest) := by
  cases rest with
  | cons => exact none
  | nil =>
    rw [System.validateNext]
    split
    · exact attempting_settle none _ _
    split
    · exact attempting_settle none _ _
    · next ordered _ => exact attempting_startNext (s := s.withOrdered ordered) none _ _

theorem attempting_checkGraph (none : ∀ id, ¬ neglected s.log id) : Attempting (s.checkGraph components) := by
  unfold System.checkGraph
  split
  · exact attempting_settle none _ _
  · exact attempting_validateNext none _ _

theorem attempting_afterStop (none : ∀ id, ¬ neglected s.log id) (purpose : StopPurpose) :
    Attempting (s.afterStop components purpose) := by
  cases purpose with
  | stop | startRollback => exact attempting_settle none _ _
  | beforeStart => exact attempting_checkGraph none

theorem attempting_stopNext {rest : List RegisteredPlatformComponent}
    (turns : ∀ id, neglected s.log id → id ∈ ids rest) (purpose : StopPurpose) (errors : List JsString)
    (pendingComponents : List RegisteredPlatformComponent) :
    Attempting (s.stopNext components purpose errors pendingComponents rest) := by
  cases rest with
  | nil =>
    have none (id : JsString) : ¬ neglected s.log id := fun h => nomatch turns id h
    rw [System.stopNext]
    split
    · exact attempting_settle (s := s.withPending _) none _ _
    · exact attempting_afterStop (s := s.withPending []) none purpose
  | cons component rest =>
    intro id h
    rcases List.mem_cons.mp (turns id h.2) with e | mem
    · exact absurd e h.1
    · exact mem

theorem AtRest.attempting_stopComponents (rest : AtRest components s) :
    Attempting ((s.record (.called .stop)).stopComponents components .stop) := by
  unfold System.stopComponents
  split
  · next idle =>
    have still := (rest.stopped idle.1).1
    rw [show s.shell.rollbackPendingComponents = [] from idle.2] at still
    exact attempting_afterStop (s := s.record (.called .stop)) (fun id h => nomatch (still id).mp h) .stop
  next busy =>
  refine attempting_stopNext (s := (s.record (.called .stop)).withStarted false) (fun id runs => ?_) _ _ _
  have runs : running s.log id := runs
  suffices id ∈ ids (if s.shell.rollbackPendingComponents.length > 0 then s.shell.rollbackPendingComponents
      else if s.shell.orderedComponents.length > 0 then s.shell.orderedComponents else components) by
    simpa [ids, System.record] using this
  cases started : s.shell.started with
  | false =>
    have pending : s.shell.rollbackPendingComponents ≠ [] := fun h => busy ⟨started, h⟩
    rw [if_pos (List.length_pos_iff.mpr pending)]
    exact ((rest.stopped started).1 id).mp runs
  | true =>
    obtain ⟨-, -, pending, exact, -⟩ := rest.started started
    have ordered := (exact id).mp runs
    have some : s.shell.orderedComponents.length > 0 := by
      obtain ⟨c, hc, -⟩ := List.mem_map.mp ordered
      exact List.length_pos_of_mem hc
    rw [if_neg (by simp [pending]), if_pos some]
    exact ordered

theorem attempting_startComponents : Attempting ((s.record (.called .start)).startComponents components) := by
  have none (id : JsString) : ¬ neglected (s.record (.called .start)).log id := not_false
  unfold System.startComponents
  split
  · exact attempting_settle none _ _
  split
  · unfold System.stopComponents
    split
    · exact attempting_afterStop none _
    · exact attempting_stopNext (s := (s.record (.called .start)).withStarted false) (fun id h => absurd h (none id)) _ _ _
  · exact attempting_checkGraph none

theorem Attempting.call (h : Attempting s) (inv : Inv components s) (operation : PlatformLifecycleOperation) :
    Attempting (s.runLifecycleTransition components operation) := by
  unfold System.runLifecycleTransition
  split
  · exact h
  next idle =>
  have rest : AtRest components s := by simpa [idle, Progress] using inv.progress
  cases operation with
  | start => exact attempting_startComponents
  | stop => exact rest.attempting_stopComponents

theorem Attempting.step {s' : System} {event : Event} (h : Attempting s) (inv : Inv components s)
    (taken : step components s event = some s') : Attempting s' := by
  cases event with
  | call operation =>
    cases taken
    exact h.call inv operation
  | validated result =>
    simp only [Platform.step] at taken
    split at taken
    · next active =>
      simp only [Attempting, active] at h
      cases taken
      exact attempting_validateNext h _ _
    · cases taken
  | componentSettled failure =>
    simp only [Platform.step] at taken
    split at taken
    · next active =>
      simp only [Attempting, active] at h
      cases failure with
      | none =>
        cases taken
        exact attempting_startNext (s := s.record (.componentStarted _ true)) h _ _
      | some message =>
        cases taken
        exact attempting_stopNext (s := s.record (.componentStarted _ false)) (fun id o => absurd o (h id)) _ _ _
    · next active =>
      simp only [Attempting, active] at h
      cases failure with
      | none =>
        cases taken
        exact attempting_stopNext (s := s.record (.componentStopped _ true)) h _ _ _
      | some message =>
        cases taken
        exact attempting_stopNext (s := s.record (.componentStopped _ false)) h _ _ _
    · cases taken
  | reaction =>
    simp only [Platform.step] at taken
    split at taken
    · next active =>
      simp only [Attempting, active] at h
      cases taken
      exact h
    · cases taken

end Fluo.Runtime.Platform
