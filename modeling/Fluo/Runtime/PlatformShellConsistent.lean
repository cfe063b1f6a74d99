import Fluo.Runtime.PlatformShell

/-!
# What the platform shell keeps consistent

Which components run is read off the actions seen. The flag, the ordered list and
the pending list of the shell stand for that set at rest (`AtRest`), and each
transition for what is left of it (`Inv`); so every action is `Justified` by
those before it.
-/

namespace Fluo.Runtime.Platform

open Js Search

/-! ## Reading a log -/

/-- The component has started and not been stopped since. -/
def running : List Action → JsString → Prop
  | [], _ => False
  | .componentStarted started true :: before, id => id = started ∨ running before id
  | .componentStopped stopped true :: before, id => id ≠ stopped ∧ running before id
  | .called _ :: before, id | .conflict _ _ :: before, id | .startComponent _ :: before, id
  | .stopComponent _ :: before, id | .settled _ _ :: before, id
  | .componentStarted _ false :: before, id | .componentStopped _ false :: before, id => running before id

/-- A component has failed to stop in the last transition. -/
def failedStop : List Action → Bool
  | [] | .called _ :: _ => false
  | .componentStopped _ false :: _ => true
  | .componentStopped _ true :: before | .conflict _ _ :: before | .startComponent _ :: before
  | .stopComponent _ :: before | .settled _ _ :: before | .componentStarted _ _ :: before => failedStop before

def rejected : List Action → Bool
  | [] | .settled _ (.ok _) :: _ => false
  | .settled _ (.error _) :: _ => true
  | .componentStopped _ _ :: before | .conflict _ _ :: before | .startComponent _ :: before
  | .stopComponent _ :: before | .called _ :: before | .componentStarted _ _ :: before => rejected before

/-- The last transition has to stop the component yet: it ran when the call came,
and the transition before had rejected. -/
def owed : List Action → JsString → Prop
  | [], _ => False
  | .called _ :: before, id => rejected before = true ∧ running before id
  | .stopComponent stopped :: before, id => id ≠ stopped ∧ owed before id
  | .componentStopped _ _ :: before, id | .conflict _ _ :: before, id | .startComponent _ :: before, id
  | .settled _ _ :: before, id | .componentStarted _ _ :: before, id => owed before id

theorem stopped_of_not_owed {during older : List Action} {operation : PlatformLifecycleOperation} {id : JsString}
    (one : ∀ operation, Action.called operation ∉ during) (failed : rejected older = true) (runs : running older id)
    (h : ¬ owed (during ++ .called operation :: older) id) : .stopComponent id ∈ during := by
  induction during with
  | nil => exact absurd ⟨failed, runs⟩ h
  | cons action rest ih =>
    have later : ¬ owed (rest ++ .called operation :: older) id → .stopComponent id ∈ action :: rest := fun h =>
      List.mem_cons_of_mem action (ih (fun op mem => one op (List.mem_cons_of_mem action mem)) h)
    cases action with
    | called op => exact absurd List.mem_cons_self (one op)
    | stopComponent stopped =>
      by_cases e : id = stopped
      · exact e ▸ List.mem_cons_self
      · exact later fun o => h ⟨e, o⟩
    | componentStopped | conflict | startComponent | settled | componentStarted => exact later h

/-! ## What justifies an action -/

variable {components : List RegisteredPlatformComponent}

def Sound (components : List RegisteredPlatformComponent) : Prop := WellFormed components ∧ Acyclic components

def Justified (components : List RegisteredPlatformComponent) (older : List Action) : Action → Prop
  | .startComponent id =>
    Sound components ∧ ¬ running older id ∧ ∀ d, dependsOn components id d → running older d
  | .stopComponent id =>
    running older id ∧ (failedStop older = false → ∀ d, dependsOn components d id → ¬ running older d)
  | .settled .start (.ok _) => Sound components ∧ (∀ c ∈ components, running older c.id) ∧ ∀ id, ¬ owed older id
  | .settled .stop (.ok _) => (∀ id, ¬ running older id) ∧ ∀ id, ¬ owed older id
  | .settled _ (.error _) => ∀ id, ¬ owed older id
  | .called _ | .conflict _ _ | .componentStarted _ _ | .componentStopped _ _ => True

/-- Every action is justified by those before it. -/
def Accounted (components : List RegisteredPlatformComponent) : List Action → Prop
  | [] => True
  | action :: older => Justified components older action ∧ Accounted components older

theorem Accounted.split {log older : List Action} {action : Action} (h : Accounted components log)
    (newer : List Action) (e : log = newer ++ action :: older) : Justified components older action := by
  induction newer generalizing log with
  | nil => subst e; exact h.1
  | cons first newer ih => subst e; exact ih h.2 rfl

/-! ## The invariant -/

/-- A part of the order in which the components start. -/
def Listed (components l : List RegisteredPlatformComponent) : Prop :=
  Sound components ∧ ∃ ordered, StartOrder components ordered ∧ l.Sublist ordered

def Runs (log : List Action) (l : List RegisteredPlatformComponent) : Prop := ∀ id, running log id ↔ id ∈ ids l

/-- At rest the flag and the lists of the shell say what runs. -/
structure AtRest (components : List RegisteredPlatformComponent) (s : System) : Prop where
  started : s.shell.started = true → Sound components ∧ StartOrder components s.shell.orderedComponents ∧
    s.shell.rollbackPendingComponents = [] ∧ Runs s.log s.shell.orderedComponents ∧ rejected s.log = false
  stopped : s.shell.started = false → Runs s.log s.shell.rollbackPendingComponents ∧
    (s.shell.rollbackPendingComponents ≠ [] → Listed components s.shell.rollbackPendingComponents)

/-- Nothing runs and nothing is to be stopped. -/
structure Quiet (s : System) : Prop where
  started : s.shell.started = false
  pending : s.shell.rollbackPendingComponents = []
  runs : Runs s.log []
  paid : ∀ id, ¬ owed s.log id

/-- A stop under way: the components `left` run, `rest` has its turn yet and
`pendingComponents` have failed to stop. -/
structure Stopping (components : List RegisteredPlatformComponent) (s : System)
    (left rest pendingComponents : List RegisteredPlatformComponent) (errors : List JsString) : Prop where
  started : s.shell.started = false
  runs : Runs s.log left
  listed : left ≠ [] → Listed components left
  failures : pendingComponents = [] ↔ errors = []
  failed : pendingComponents ≠ [] → failedStop s.log = true
  paid : ∀ id, owed s.log id → id ∈ ids rest

structure Starting (components : List RegisteredPlatformComponent) (s : System)
    (startedComponents rest : List RegisteredPlatformComponent) : Prop where
  started : s.shell.started = false
  pending : s.shell.rollbackPendingComponents = []
  sound : Sound components
  order : StartOrder components s.shell.orderedComponents
  ordered : s.shell.orderedComponents = startedComponents ++ rest
  runs : Runs s.log startedComponents
  paid : ∀ id, ¬ owed s.log id

def Progress (components : List RegisteredPlatformComponent) (s : System) : Option PlatformLifecycleTransition → Prop
  | none | some ⟨_, .settled⟩ => AtRest components s
  | some ⟨operation, .validate _ _ _⟩ => operation = .start ∧ WellFormed components ∧ Quiet s
  | some ⟨operation, .start component startedComponents rest⟩ =>
    operation = .start ∧ Starting components s startedComponents (component :: rest)
  | some ⟨operation, .stop component rest errors pendingComponents purpose⟩ =>
    operation = purpose.operation ∧
      Stopping components s (rest.reverse ++ component :: pendingComponents) rest pendingComponents errors

structure Inv (components : List RegisteredPlatformComponent) (s : System) : Prop where
  accounted : Accounted components s.log
  progress : Progress components s s.shell.activeLifecycleTransition

theorem Listed.mem {l : List RegisteredPlatformComponent} (h : Listed components l) {c : RegisteredPlatformComponent}
    (hc : c ∈ l) : c ∈ components := by
  obtain ⟨-, ordered, order, sub⟩ := h
  exact (order.mem c).mp (sub.mem hc)

theorem Listed.sublist {l l' : List RegisteredPlatformComponent} (h : Listed components l) (sub : l'.Sublist l) :
    Listed components l' := by
  obtain ⟨sound, ordered, order, sub'⟩ := h
  exact ⟨sound, ordered, order, sub.trans sub'⟩

/-- What depends on the last component of a part is not in it. -/
theorem Listed.last {l : List RegisteredPlatformComponent} {c : RegisteredPlatformComponent}
    (h : Listed components (l ++ [c])) {d : JsString} (edge : dependsOn components d c.id) :
    d ∉ ids (l ++ [c]) := by
  obtain ⟨⟨wf, -⟩, ordered, order, sub⟩ := h
  intro mem
  have ranked := (order.first.pairwise order.distinct).sublist (sub.map (·.id))
  rw [List.map_append] at ranked
  rw [ids, List.map_append, List.mem_append] at mem
  rcases mem with mem | mem
  · exact (List.pairwise_append.mp ranked).2.2 d mem c.id (by simp) ((mem_dependencies wf.distinct).mpr edge)
  · obtain rfl : d = c.id := by simpa using mem
    exact wf.loopless _ edge

/-! ## What each function keeps -/

section Functions

variable {s : System} {startedComponents pendingComponents rest : List RegisteredPlatformComponent}
  {errors : List JsString}

theorem inv_settle_error (acc : Accounted components s.log) (started : s.shell.started = false)
    (runs : Runs s.log s.shell.rollbackPendingComponents)
    (listed : s.shell.rollbackPendingComponents ≠ [] → Listed components s.shell.rollbackPendingComponents)
    (paid : ∀ id, ¬ owed s.log id) (operation : PlatformLifecycleOperation) (error : PlatformShellError) :
    Inv components (s.settle operation (.error error)) where
  accounted := ⟨by cases operation <;> exact paid, acc⟩
  progress := ⟨fun h => absurd (started.symm.trans h) nofun, fun _ => ⟨runs, listed⟩⟩

theorem Quiet.inv_settle_error (quiet : Quiet s) (acc : Accounted components s.log)
    (operation : PlatformLifecycleOperation) (error : PlatformShellError) :
    Inv components (s.settle operation (.error error)) :=
  Platform.inv_settle_error acc quiet.started (quiet.pending ▸ quiet.runs) (fun h => absurd quiet.pending h) quiet.paid
    operation error

theorem Starting.inv_startNext (h : Starting components s startedComponents rest) (acc : Accounted components s.log) :
    Inv components (s.startNext startedComponents rest) := by
  cases rest with
  | nil =>
    have all : s.shell.orderedComponents = startedComponents := by simpa using h.ordered
    refine ⟨⟨⟨h.sound, fun c hc => ?_, h.paid⟩, acc⟩, ⟨fun _ => ⟨h.sound, h.order, rfl, all ▸ h.runs, rfl⟩, nofun⟩⟩
    exact (h.runs c.id).mpr (all ▸ List.mem_map_of_mem ((h.order.mem c).mpr hc))
  | cons component rest =>
    have split : ids s.shell.orderedComponents = ids startedComponents ++ component.id :: ids rest := by
      simp [h.ordered, ids]
    refine ⟨⟨⟨h.sound, ?_, fun d edge => ?_⟩, acc⟩,
      ⟨rfl, h.started, h.pending, h.sound, h.order, h.ordered, h.runs, h.paid⟩⟩
    · intro runs
      have twice := h.order.distinct
      rw [split] at twice
      exact (List.nodup_append.mp twice).2.2 _ ((h.runs _).mp runs) _ List.mem_cons_self rfl
    · refine (h.runs d).mpr (h.order.first _ _ _ split d ?_)
      exact (mem_dependencies h.sound.1.distinct).mpr edge

theorem Quiet.inv_validateNext (quiet : Quiet s) (acc : Accounted components s.log) (wf : WellFormed components)
    (failures : List PlatformDiagnosticIssue) (rest : List RegisteredPlatformComponent) :
    Inv components (s.validateNext components failures rest) := by
  cases rest with
  | cons component rest => exact ⟨acc, rfl, wf, quiet.started, quiet.pending, quiet.runs, quiet.paid⟩
  | nil =>
    rw [System.validateNext]
    split
    · exact quiet.inv_settle_error acc _ _
    split
    · exact quiet.inv_settle_error acc _ _
    next ordered h =>
    have order := orderPlatformComponents_ok wf h
    have starting : Starting components (s.withOrdered ordered) [] ordered :=
      ⟨quiet.started, quiet.pending, ⟨wf, acyclic_of_startOrder wf order⟩, order, rfl, quiet.runs, quiet.paid⟩
    exact starting.inv_startNext acc

theorem Quiet.inv_checkGraph (quiet : Quiet s) (acc : Accounted components s.log) :
    Inv components (s.checkGraph components) := by
  unfold System.checkGraph
  split
  · exact quiet.inv_settle_error acc _ _
  · next h => exact quiet.inv_validateNext acc (assertValidPlatformComponentGraph_ok.mp h) _ _

theorem Quiet.inv_afterStop (quiet : Quiet s) (acc : Accounted components s.log) (purpose : StopPurpose) :
    Inv components (s.afterStop components purpose) := by
  cases purpose with
  | beforeStart => exact quiet.inv_checkGraph acc
  | startRollback id message => exact quiet.inv_settle_error acc _ _
  | stop =>
    refine ⟨⟨⟨fun id h => ?_, quiet.paid⟩, acc⟩, ⟨fun h => absurd (quiet.started.symm.trans h) nofun, fun _ => ?_⟩⟩
    · simpa [ids] using (quiet.runs id).mp h
    · exact ⟨quiet.pending ▸ quiet.runs, fun h => absurd quiet.pending h⟩

theorem Stopping.inv_stopNext {left : List RegisteredPlatformComponent}
    (h : Stopping components s left rest pendingComponents errors) (all : left = rest.reverse ++ pendingComponents)
    (acc : Accounted components s.log) (purpose : StopPurpose) :
    Inv components (s.stopNext components purpose errors pendingComponents rest) := by
  subst all
  cases rest with
  | nil =>
    have none (id : JsString) : ¬ owed s.log id := fun o => by simpa [ids] using h.paid id o
    rw [System.stopNext]
    split
    · exact inv_settle_error (s := s.withPending pendingComponents) acc h.started h.runs h.listed none _ _
    · next empty =>
      have noErrors : errors = [] := List.length_eq_zero_iff.mp (by omega)
      have stopped := h.failures.mpr noErrors
      subst stopped
      have quiet : Quiet (s.withPending []) := ⟨h.started, rfl, h.runs, none⟩
      exact quiet.inv_afterStop acc purpose
  | cons component rest =>
    have left : (component :: rest).reverse ++ pendingComponents = rest.reverse ++ component :: pendingComponents := by
      simp
    rw [left] at h
    have runs : running s.log component.id := (h.runs _).mpr (by simp [ids])
    refine ⟨⟨⟨runs, fun clean d edge => ?_⟩, acc⟩,
      ⟨rfl, h.started, h.runs, h.listed, h.failures, h.failed, fun id o => ?_⟩⟩
    · have stopped : pendingComponents = [] := by
        by_contra pending
        simp [h.failed pending] at clean
      subst stopped
      exact fun runs => (h.listed (by simp)).last edge ((h.runs d).mp runs)
    · rcases List.mem_cons.mp (h.paid id o.2) with e | mem
      · exact absurd e o.1
      · exact mem

/-- What runs at rest is what a stop is going to stop. -/
theorem AtRest.inv_stopComponents (rest : AtRest components s) (acc : Accounted components s.log)
    (operation : PlatformLifecycleOperation) (purpose : StopPurpose) :
    Inv components ((s.record (.called operation)).stopComponents components purpose) := by
  have acc : Accounted components (s.record (.called operation)).log := ⟨trivial, acc⟩
  have stopping (l : List RegisteredPlatformComponent) (runs : Runs s.log l) (listed : l ≠ [] → Listed components l) :
      Inv components (((s.record (.called operation)).withStarted false).stopNext components purpose [] [] l.reverse) := by
    have stopping : Stopping components ((s.record (.called operation)).withStarted false) l l.reverse [] [] :=
      ⟨rfl, runs, listed, by simp, fun h => absurd rfl h, fun id o => by simpa [ids] using (runs id).mp o.2⟩
    exact stopping.inv_stopNext (by simp) acc purpose
  unfold System.stopComponents
  split
  · next idle =>
    have still := (rest.stopped idle.1).1
    rw [show s.shell.rollbackPendingComponents = [] from idle.2] at still
    have quiet : Quiet (s.record (.called operation)) :=
      ⟨idle.1, idle.2, still, fun id o => by simpa [ids] using (still id).mp o.2⟩
    exact quiet.inv_afterStop acc purpose
  next busy =>
  cases started : s.shell.started with
  | false =>
    have pending : s.shell.rollbackPendingComponents ≠ [] := fun h => busy ⟨started, h⟩
    have some : (s.record (.called operation)).shell.rollbackPendingComponents.length > 0 :=
      List.length_pos_iff.mpr pending
    rw [if_pos some]
    exact stopping _ (rest.stopped started).1 (rest.stopped started).2
  | true =>
    obtain ⟨sound, order, pending, runs, -⟩ := rest.started started
    have none : ¬ (s.record (.called operation)).shell.rollbackPendingComponents.length > 0 := by
      simp [System.record, pending]
    have all : (if (s.record (.called operation)).shell.orderedComponents.length > 0
        then (s.record (.called operation)).shell.orderedComponents else components) = s.shell.orderedComponents := by
      split
      · rfl
      · next empty =>
        have empty : s.shell.orderedComponents = [] := List.length_eq_zero_iff.mp (by simpa [System.record] using empty)
        rw [empty]
        exact List.eq_nil_iff_forall_not_mem.mpr fun c hc => by simpa [empty] using (order.mem c).mpr hc
    rw [if_neg none]
    simp only [all]
    exact stopping _ runs fun _ => ⟨sound, _, order, .refl _⟩

theorem sound_nil : Sound [] := by
  have edgeless (id dependency : JsString) : ¬ dependsOn [] id dependency := by
    rintro ⟨_, mem, -⟩
    cases mem
  refine ⟨⟨nofun, List.nodup_nil, fun id d edge => absurd edge (edgeless id d), fun id => edgeless id id⟩, fun id cycle => ?_⟩
  obtain ⟨d, edge, -⟩ := Relation.TransGen.head'_iff.mp cycle
  exact edgeless id d edge

theorem AtRest.not_running_of_nil (rest : AtRest [] s) (id : JsString) : ¬ running s.log id := by
  intro runs
  cases started : s.shell.started with
  | true =>
    obtain ⟨-, order, -, exact, -⟩ := rest.started started
    obtain ⟨c, hc, -⟩ := List.mem_map.mp ((exact id).mp runs)
    cases (order.mem c).mp hc
  | false =>
    obtain ⟨exact, listed⟩ := rest.stopped started
    obtain ⟨c, hc, -⟩ := List.mem_map.mp ((exact id).mp runs)
    cases (listed (List.ne_nil_of_mem hc)).mem hc

theorem AtRest.inv_startComponents (rest : AtRest components s) (acc : Accounted components s.log) :
    Inv components ((s.record (.called .start)).startComponents components) := by
  have acc' : Accounted components (s.record (.called .start)).log := ⟨trivial, acc⟩
  unfold System.startComponents
  split
  · next returns =>
    have justified : Justified components (s.record (.called .start)).log (.settled .start (.ok ())) := by
      rcases returns with rfl | started
      · exact ⟨sound_nil, nofun, fun id o => rest.not_running_of_nil id o.2⟩
      · obtain ⟨sound, order, -, runs, ok⟩ := rest.started started
        refine ⟨sound, fun c hc => (runs c.id).mpr (List.mem_map_of_mem ((order.mem c).mpr hc)), fun id o => ?_⟩
        exact Bool.noConfusion (ok.symm.trans o.1)
    refine ⟨⟨justified, acc'⟩, ⟨fun started => ?_, rest.stopped⟩⟩
    obtain ⟨sound, order, pending, runs, -⟩ := rest.started started
    exact ⟨sound, order, pending, runs, rfl⟩
  next goes =>
  have stopped : s.shell.started = false := by
    cases started : s.shell.started with
    | false => rfl
    | true => exact absurd (Or.inr started) goes
  split
  · exact rest.inv_stopComponents acc .start .beforeStart
  · next empty =>
    have pending : s.shell.rollbackPendingComponents = [] :=
      List.length_eq_zero_iff.mp (by simpa [System.record] using empty)
    have still := (rest.stopped stopped).1
    rw [pending] at still
    have quiet : Quiet (s.record (.called .start)) :=
      ⟨stopped, pending, still, fun id o => by simpa [ids] using (still id).mp o.2⟩
    exact quiet.inv_checkGraph acc'

end Functions

/-! ## Steps -/

section Settlements

variable {s : System} {component : RegisteredPlatformComponent}
  {startedComponents pendingComponents rest : List RegisteredPlatformComponent} {errors : List JsString}

theorem Starting.componentStarted (h : Starting components s startedComponents (component :: rest)) :
    Starting components (s.record (.componentStarted component.id true)) (startedComponents ++ [component]) rest where
  started := h.started
  pending := h.pending
  sound := h.sound
  order := h.order
  ordered := by simpa [System.record] using h.ordered
  runs id := by
    change id = component.id ∨ running s.log id ↔ _
    rw [h.runs id, ids, ids, List.map_append, List.mem_append, or_comm]
    simp
  paid := h.paid

theorem Starting.rollback (h : Starting components s startedComponents (component :: rest)) :
    Stopping components (s.record (.componentStarted component.id false)) startedComponents startedComponents.reverse
      [] [] where
  started := h.started
  runs := h.runs
  listed _ := ⟨h.sound, _, h.order, h.ordered ▸ List.sublist_append_left _ _⟩
  failures := by simp
  failed h := absurd rfl h
  paid id o := absurd o (h.paid id)

theorem Stopping.componentStopped
    (h : Stopping components s (rest.reverse ++ component :: pendingComponents) rest pendingComponents errors) :
    Stopping components (s.record (.componentStopped component.id true)) (rest.reverse ++ pendingComponents) rest
      pendingComponents errors := by
  have listed := h.listed (by simp)
  refine ⟨h.started, fun id => ?_, fun _ => listed.sublist (by simp), h.failures, h.failed, h.paid⟩
  obtain ⟨-, ordered, order, sub⟩ := listed
  have distinct := order.distinct.sublist (sub.map RegisteredPlatformComponent.id)
  change id ≠ component.id ∧ running s.log id ↔ _
  rw [h.runs id]
  simp only [ids, List.map_append, List.map_cons] at distinct ⊢
  rw [List.nodup_middle, List.nodup_cons] at distinct
  constructor
  · rintro ⟨other, mem⟩
    simpa [other] using mem
  · intro mem
    refine ⟨fun e => distinct.1 (e ▸ mem), ?_⟩
    rcases List.mem_append.mp mem with mem | mem
    · exact List.mem_append_left _ mem
    · exact List.mem_append_right _ (List.mem_cons_of_mem _ mem)

theorem Stopping.failure
    (h : Stopping components s (rest.reverse ++ component :: pendingComponents) rest pendingComponents errors)
    (message : JsString) :
    Stopping components (s.record (.componentStopped component.id false))
      (rest.reverse ++ component :: pendingComponents) rest (component :: pendingComponents) (errors ++ [message]) where
  started := h.started
  runs := h.runs
  listed := h.listed
  failures := by simp
  failed _ := rfl
  paid := h.paid

end Settlements

theorem inv_initial : Inv components System.initial where
  accounted := trivial
  progress := ⟨nofun, fun _ => ⟨fun id => by simp [System.initial, running, ids], fun h => absurd rfl h⟩⟩

theorem Inv.call {s : System} (h : Inv components s) (operation : PlatformLifecycleOperation) :
    Inv components (s.runLifecycleTransition components operation) := by
  obtain ⟨acc, progress⟩ := h
  unfold System.runLifecycleTransition
  cases active : s.shell.activeLifecycleTransition with
  | none =>
    rw [active] at progress
    cases operation with
    | start => exact AtRest.inv_startComponents progress acc
    | stop => exact AtRest.inv_stopComponents progress acc .stop .stop
  | some transition =>
    refine ⟨⟨trivial, acc⟩, ?_⟩
    change Progress components _ s.shell.activeLifecycleTransition
    rw [active] at progress ⊢
    obtain ⟨_, await⟩ := transition
    cases await with
    | settled => exact ⟨progress.started, progress.stopped⟩
    | validate =>
      obtain ⟨op, wf, quiet⟩ := progress
      exact ⟨op, wf, quiet.started, quiet.pending, quiet.runs, quiet.paid⟩
    | start =>
      obtain ⟨op, h⟩ := progress
      exact ⟨op, h.started, h.pending, h.sound, h.order, h.ordered, h.runs, h.paid⟩
    | stop =>
      obtain ⟨op, h⟩ := progress
      exact ⟨op, h.started, h.runs, h.listed, h.failures, h.failed, h.paid⟩

theorem Inv.step {s s' : System} {event : Event} (h : Inv components s) (taken : step components s event = some s') :
    Inv components s' := by
  obtain ⟨acc, progress⟩ := h
  cases event with
  | call operation =>
    cases taken
    exact Inv.call ⟨acc, progress⟩ operation
  | validated result =>
    simp only [Platform.step] at taken
    split at taken
    · next active =>
      cases taken
      rw [active] at progress
      exact progress.2.2.inv_validateNext acc progress.2.1 _ _
    · cases taken
  | reaction =>
    simp only [Platform.step] at taken
    split at taken
    · next active =>
      cases taken
      rw [active] at progress
      have rest : AtRest components s := progress
      exact ⟨acc, rest.started, rest.stopped⟩
    · cases taken
  | componentSettled failure =>
    simp only [Platform.step] at taken
    split at taken
    · next component startedComponents rest active =>
      rw [active] at progress
      have starting : Starting components s startedComponents (component :: rest) := progress.2
      cases failure with
      | none =>
        cases taken
        exact starting.componentStarted.inv_startNext ⟨trivial, acc⟩
      | some message =>
        cases taken
        exact starting.rollback.inv_stopNext (by simp) ⟨trivial, acc⟩ _
    · next component rest errors pendingComponents purpose active =>
      rw [active] at progress
      have stopping : Stopping components s (rest.reverse ++ component :: pendingComponents) rest pendingComponents
        errors := progress.2
      cases failure with
      | none =>
        cases taken
        exact stopping.componentStopped.inv_stopNext rfl ⟨trivial, acc⟩ purpose
      | some message =>
        cases taken
        exact (stopping.failure message).inv_stopNext rfl ⟨trivial, acc⟩ purpose
    · cases taken

theorem inv_run {events : List Event} {s : System} (run : Run.run (step components) System.initial events = some s) :
    Inv components s :=
  Run.keeps (fun _ _ _ h taken => h.step taken) inv_initial run

/-! ## Every call settles -/

def StopPurpose.awaits (components : List RegisteredPlatformComponent) : StopPurpose → Nat
  | .beforeStart => 3 * components.length
  | .stop | .startRollback .. => 0

/-- How often a transition awaits a component yet, at most. -/
def awaits (components : List RegisteredPlatformComponent) : Await → Nat
  | .validate _ rest _ => rest.length + 1 + 2 * components.length
  | .start _ startedComponents rest => startedComponents.length + 2 * (rest.length + 1)
  | .stop _ rest _ _ purpose => rest.length + 1 + purpose.awaits components
  | .settled => 0

/-- The transition goes on from a log, or has just settled. -/
structure Continues (components : List RegisteredPlatformComponent) (log : List Action)
    (operation : PlatformLifecycleOperation) (bound : Nat) (s : System) : Prop where
  active : ∃ await, s.shell.activeLifecycleTransition = some ⟨operation, await⟩ ∧ awaits components await ≤ bound
  log : ∃ new, s.log = new ++ log ∧ (∀ other, .called other ∉ new) ∧
    (s.shell.activeLifecycleTransition = some ⟨operation, .settled⟩ →
      ∃ outcome older, new = .settled operation outcome :: older)

theorem continues_settle {s : System} (operation : PlatformLifecycleOperation)
    (outcome : Except PlatformShellError Unit) (bound : Nat) :
    Continues components s.log operation bound (s.settle operation outcome) :=
  ⟨⟨.settled, rfl, Nat.zero_le _⟩, [.settled operation outcome], rfl, by simp, fun _ => ⟨outcome, [], rfl⟩⟩

theorem continues_await {s : System} (operation : PlatformLifecycleOperation) (await : Await) (actions : List Action)
    (waits : await ≠ .settled) (quiet : ∀ other, Action.called other ∉ actions) {bound : Nat}
    (enough : awaits components await ≤ bound) :
    Continues components s.log operation bound (s.await operation await actions) :=
  ⟨⟨await, rfl, enough⟩, actions, rfl, quiet, fun h => absurd (by simpa [System.await] using h) waits⟩

theorem StartOrder.length_le {ordered : List RegisteredPlatformComponent} (h : StartOrder components ordered) :
    ordered.length ≤ components.length :=
  (List.subperm_of_subset h.distinct.of_map fun c hc => (h.mem c).mp hc).length_le

theorem continues_startNext (components : List RegisteredPlatformComponent) (s : System)
    (startedComponents rest : List RegisteredPlatformComponent) :
    Continues components s.log .start (startedComponents.length + 2 * rest.length) (s.startNext startedComponents rest) := by
  cases rest with
  | nil => exact continues_settle (s := (s.withStarted true).withPending []) _ _ _
  | cons component rest => refine continues_await _ _ _ ?_ ?_ ?_ <;> simp [awaits]

theorem continues_validateNext (wf : WellFormed components) (s : System) (failures : List PlatformDiagnosticIssue)
    (rest : List RegisteredPlatformComponent) :
    Continues components s.log .start (rest.length + 2 * components.length) (s.validateNext components failures rest) := by
  cases rest with
  | cons component rest => refine continues_await _ _ _ ?_ ?_ ?_ <;> simp [awaits]
  | nil =>
    rw [System.validateNext]
    split
    · exact continues_settle _ _ _
    split
    · exact continues_settle _ _ _
    next ordered h =>
    have bound := (orderPlatformComponents_ok wf h).length_le
    obtain ⟨⟨await, active, enough⟩, log⟩ := continues_startNext components (s.withOrdered ordered) [] ordered
    exact ⟨⟨await, active, by simp at enough ⊢; omega⟩, log⟩

theorem continues_checkGraph (s : System) :
    Continues components s.log .start (3 * components.length) (s.checkGraph components) := by
  unfold System.checkGraph
  split
  · exact continues_settle _ _ _
  · next h =>
    have := continues_validateNext (assertValidPlatformComponentGraph_ok.mp h) s [] components
    rwa [show components.length + 2 * components.length = 3 * components.length by omega] at this

theorem continues_afterStop (s : System) (purpose : StopPurpose) :
    Continues components s.log purpose.operation (purpose.awaits components)
      (s.afterStop components purpose) := by
  cases purpose with
  | beforeStart => exact continues_checkGraph s
  | stop | startRollback => exact continues_settle _ _ _

theorem continues_stopNext (s : System) (purpose : StopPurpose) (errors : List JsString)
    (pendingComponents rest : List RegisteredPlatformComponent) :
    Continues components s.log purpose.operation (rest.length + purpose.awaits components)
      (s.stopNext components purpose errors pendingComponents rest) := by
  cases rest with
  | cons component rest => refine continues_await _ _ _ ?_ ?_ ?_ <;> simp [awaits]
  | nil =>
    rw [System.stopNext]
    split
    · exact continues_settle (s := s.withPending pendingComponents) _ _ _
    · rw [List.length_nil, Nat.zero_add]
      exact continues_afterStop (s.withPending []) purpose

theorem Continues.mono {log : List Action} {operation : PlatformLifecycleOperation} {bound bound' : Nat} {s : System}
    (h : Continues components log operation bound s) (le : bound ≤ bound') :
    Continues components log operation bound' s := by
  obtain ⟨⟨await, active, enough⟩, log⟩ := h
  exact ⟨⟨await, active, enough.trans le⟩, log⟩

theorem Continues.since {log recent : List Action} {operation : PlatformLifecycleOperation} {bound : Nat} {s : System}
    (h : Continues components (recent ++ log) operation bound s) (quiet : ∀ other, .called other ∉ recent) :
    Continues components log operation bound s := by
  obtain ⟨active, new, e, uncalled, last⟩ := h
  refine ⟨active, new ++ recent, by rw [e, List.append_assoc], fun other => ?_, fun settled => ?_⟩
  · rw [List.mem_append]
    exact fun mem => mem.elim (uncalled other) (quiet other)
  · obtain ⟨outcome, older, rfl⟩ := last settled
    exact ⟨outcome, older ++ recent, rfl⟩

theorem Continues.before {log : List Action} {operation : PlatformLifecycleOperation} {bound bound' : Nat} {s : System}
    {action : Action} (h : Continues components (action :: log) operation bound s)
    (quiet : ∀ other, .called other ≠ action) (le : bound ≤ bound') : Continues components log operation bound' s := by
  have quiet : ∀ other, .called other ∉ [action] := by simpa using quiet
  exact (h.since quiet).mono le

theorem Listed.length_le {l : List RegisteredPlatformComponent} (h : Listed components l) :
    l.length ≤ components.length := by
  obtain ⟨-, ordered, order, sub⟩ := h
  exact sub.length_le.trans order.length_le

theorem AtRest.continues_stopComponents {s : System} (rest : AtRest components s)
    (operation : PlatformLifecycleOperation) (purpose : StopPurpose) :
    Continues components (.called operation :: s.log) purpose.operation (components.length + purpose.awaits components)
      ((s.record (.called operation)).stopComponents components purpose) := by
  have stopping {l : List RegisteredPlatformComponent} (le : l.length ≤ components.length) :
      Continues components (.called operation :: s.log) purpose.operation (components.length + purpose.awaits components)
        (((s.record (.called operation)).withStarted false).stopNext components purpose [] [] l.reverse) :=
    (continues_stopNext ((s.record (.called operation)).withStarted false) purpose [] [] l.reverse).mono
      (by simpa using le)
  unfold System.stopComponents
  split
  · exact (continues_afterStop (s.record (.called operation)) purpose).mono (Nat.le_add_left _ _)
  next busy =>
  refine stopping ?_
  cases started : s.shell.started with
  | false =>
    have pending : s.shell.rollbackPendingComponents ≠ [] := fun h => busy ⟨started, h⟩
    rw [if_pos (show (s.record (.called operation)).shell.rollbackPendingComponents.length > 0 from
      List.length_pos_iff.mpr pending)]
    exact ((rest.stopped started).2 pending).length_le
  | true =>
    obtain ⟨-, order, pending, -⟩ := rest.started started
    rw [if_neg (by simp [System.record, pending])]
    split
    · exact order.length_le
    · exact Nat.le_refl _

theorem Inv.continues_call {s : System} (h : Inv components s) (idle : s.shell.activeLifecycleTransition = none)
    (operation : PlatformLifecycleOperation) :
    Continues components (.called operation :: s.log) operation (4 * components.length)
      (s.runLifecycleTransition components operation) := by
  have rest : AtRest components s := by simpa [idle, Progress] using h.progress
  simp only [System.runLifecycleTransition, idle]
  cases operation with
  | stop =>
    exact (rest.continues_stopComponents .stop .stop).mono (by simp only [StopPurpose.awaits]; omega)
  | start =>
    change Continues components _ _ _ ((s.record (.called .start)).startComponents components)
    unfold System.startComponents
    split
    · exact continues_settle (s := s.record (.called .start)) _ _ _
    split
    · exact (rest.continues_stopComponents .start .beforeStart).mono (by simp only [StopPurpose.awaits]; omega)
    · exact (continues_checkGraph (s.record (.called .start))).mono (by omega)

def Event.completes : Event → Bool
  | .validated _ | .componentSettled _ => true
  | .call _ | .reaction => false

theorem Inv.continues_step {s s' : System} {event : Event} {operation : PlatformLifecycleOperation} {await : Await}
    (h : Inv components s) (active : s.shell.activeLifecycleTransition = some ⟨operation, await⟩)
    (waits : await ≠ .settled) (taken : Platform.step components s event = some s') :
    Continues components s.log operation (awaits components await - if event.completes then 1 else 0) s' := by
  have progress := h.progress
  rw [active] at progress
  cases event with
  | call other =>
    cases taken
    simp only [System.runLifecycleTransition, active]
    exact ⟨⟨await, active, Nat.le_refl _⟩, [.conflict operation other], rfl, by simp,
      fun settled => absurd (by simpa [System.record, active] using settled) waits⟩
  | reaction =>
    simp only [Platform.step, active] at taken
    cases await with
    | settled => exact absurd rfl waits
    | validate | start | stop => cases taken
  | validated result =>
    simp only [Platform.step, active] at taken
    cases await with
    | settled | start | stop => cases taken
    | validate component rest failures =>
      cases taken
      obtain ⟨rfl, wf, -⟩ := progress
      exact (continues_validateNext wf s _ rest).mono (by simp [awaits, Event.completes])
  | componentSettled failure =>
    simp only [Platform.step, active] at taken
    cases await with
    | settled | validate => cases taken
    | start component startedComponents rest =>
      obtain ⟨rfl, -⟩ := progress
      cases failure with
      | none =>
        cases taken
        refine (continues_startNext components (s.record (.componentStarted component.id true)) (startedComponents ++ [component])
          rest).before nofun ?_
        simp [awaits, Event.completes]
        omega
      | some message =>
        cases taken
        refine (continues_stopNext (s.record (.componentStarted component.id false)) (.startRollback component.id message)
          [] [] startedComponents.reverse).before nofun ?_
        simp [awaits, Event.completes, StopPurpose.awaits]
        omega
    | stop component rest errors pendingComponents purpose =>
      obtain ⟨rfl, -⟩ := progress
      have enough : rest.length + purpose.awaits components ≤
          awaits components (.stop component rest errors pendingComponents purpose) - 1 := by
        simp only [awaits]
        omega
      cases failure with
      | none =>
        cases taken
        exact (continues_stopNext (s.record (.componentStopped component.id true)) purpose errors pendingComponents
          rest).before nofun enough
      | some message =>
        cases taken
        exact (continues_stopNext (s.record (.componentStopped component.id false)) purpose (errors ++ [message])
          (component :: pendingComponents) rest).before nofun enough

theorem awaits_pos (components : List RegisteredPlatformComponent) {await : Await} (waits : await ≠ .settled) : 0 < awaits components await := by
  cases await with
  | settled => exact absurd rfl waits
  | validate | start | stop => simp only [awaits]; omega

/-- A transition settles once the components it awaits have settled; other calls
in between change nothing. -/
theorem settles {log : List Action} {operation : PlatformLifecycleOperation} {later : List Event} {s s' : System}
    (inv : Inv components s) (h : Continues components log operation (later.countP Event.completes) s)
    (ran : Run.run (step components) s later = some s') :
    ∃ first rest reached outcome during, later = first ++ rest ∧ Run.run (step components) s first = some reached ∧
      reached.log = .settled operation outcome :: (during ++ log) ∧ ∀ other, .called other ∉ during := by
  induction later generalizing s with
  | nil =>
    obtain ⟨⟨await, active, enough⟩, new, e, uncalled, last⟩ := h
    have settled : await = .settled := by
      by_contra waits
      have := awaits_pos components waits
      simp at enough
      omega
    obtain ⟨outcome, during, rfl⟩ := last (settled ▸ active)
    exact ⟨[], [], s, outcome, during, rfl, rfl, e, fun other mem => uncalled other (List.mem_cons_of_mem _ mem)⟩
  | cons event later ih =>
    obtain ⟨⟨await, active, enough⟩, new, e, uncalled, last⟩ := h
    by_cases waits : await = .settled
    · obtain ⟨outcome, during, rfl⟩ := last (waits ▸ active)
      exact ⟨[], _, s, outcome, during, rfl, rfl, e, fun other mem => uncalled other (List.mem_cons_of_mem _ mem)⟩
    obtain ⟨next, taken, ran⟩ := Run.run_cons ran
    have goes := inv.continues_step active waits taken
    rw [e] at goes
    have fewer : awaits components await - (if event.completes then 1 else 0) ≤ later.countP Event.completes := by
      rw [List.countP_cons] at enough
      omega
    have goes := (goes.since uncalled).mono fewer
    obtain ⟨first, rest, reached, outcome, during, rfl, before, log, quiet⟩ := ih (inv.step taken) goes ran
    refine ⟨event :: first, rest, reached, outcome, during, rfl, ?_, log, quiet⟩
    rw [Run.run, taken]
    exact before

/-! ## Consistency -/

inductive Invalid (components : List RegisteredPlatformComponent) : Prop where
  | duplicateId (h : ¬ (ids components).Nodup)
  | unknownDependency (id dependency : JsString) (edge : dependsOn components id dependency)
      (unknown : dependency ∉ ids components)
  | cycle (id : JsString) (h : Relation.TransGen (dependsOn components) id id)

theorem Invalid.not_sound (h : Invalid components) : ¬ Sound components := by
  rintro ⟨wf, acyclic⟩
  cases h with
  | duplicateId h => exact h wf.distinct
  | unknownDependency id d edge unknown => exact unknown (wf.known id d edge)
  | cycle id h => exact acyclic id h

/-- What holds after any calls and outcomes; `retried` is about the first call
that is accepted after a rejected one. -/
structure Consistent (components : List RegisteredPlatformComponent) (s : System) : Prop where
  start : ∀ newer id older, s.log = newer ++ .startComponent id :: older →
    ¬ running older id ∧ ∀ d, dependsOn components id d → running older d
  stop : ∀ newer id older, s.log = newer ++ .stopComponent id :: older → running older id
  dependentsFirst : ∀ newer id older, s.log = newer ++ .stopComponent id :: older → failedStop older = false →
    ∀ d, dependsOn components d id → ¬ running older d
  retried : ∀ newer operation outcome during call older,
    s.log = newer ++ .settled operation outcome :: (during ++ .called call :: older) →
    (∀ other, .called other ∉ during) → rejected older = true → ∀ id, running older id → .stopComponent id ∈ during
  stopFulfils : ∀ newer older, s.log = newer ++ .settled .stop (.ok ()) :: older → ∀ id, ¬ running older id
  startFulfils : ∀ newer older, s.log = newer ++ .settled .start (.ok ()) :: older → ∀ c ∈ components, running older c.id
  invalid : Invalid components → ∀ id, .startComponent id ∉ s.log
  settles : s.shell.activeLifecycleTransition = none → ∀ operation later s',
    Run.run (step components) s (.call operation :: later) = some s' →
    4 * components.length ≤ later.countP Event.completes →
    ∃ first rest reached outcome during, later = first ++ rest ∧
      Run.run (step components) s (.call operation :: first) = some reached ∧
      reached.log = .settled operation outcome :: (during ++ .called operation :: s.log) ∧
      (∀ other, .called other ∉ during) ∧ (Invalid components → operation = .start → ∃ error, outcome = .error error)

theorem Accounted.not_owed {newer older : List Action} {log : List Action} {operation : PlatformLifecycleOperation}
    {outcome : Except PlatformShellError Unit} {id : JsString} (h : Accounted components log)
    (e : log = newer ++ .settled operation outcome :: older) : ¬ owed older id := by
  have justified := h.split newer e
  cases operation with
  | start =>
    cases outcome with
    | ok => exact justified.2.2 id
    | error => exact justified id
  | stop =>
    cases outcome with
    | ok => exact justified.2 id
    | error => exact justified id

/-- Whatever the components answer, and when: they start behind their dependencies and
stop before their dependents, what failed to stop is stopped by the next call, and
each call settles. -/
theorem shell_consistent (components : List RegisteredPlatformComponent) (events : List Event) (s : System)
    (run : Run.run (step components) System.initial events = some s) : Consistent components s := by
  have inv := inv_run run
  have acc := inv.accounted
  refine ⟨fun newer id older e => (acc.split newer e).2, fun newer id older e => (acc.split newer e).1,
    fun newer id older e => (acc.split newer e).2, ?_, fun newer older e => (acc.split newer e).1, fun newer older e => (acc.split newer e).2.1,
    ?_, ?_⟩
  · intro newer operation outcome during call older e one failed id runs
    exact stopped_of_not_owed one failed runs (acc.not_owed e)
  · intro bad id mem
    obtain ⟨newer, older, e⟩ := List.append_of_mem mem
    exact bad.not_sound (acc.split newer e).1
  · intro idle operation later s' ran enough
    obtain ⟨next, taken, ran⟩ := Run.run_cons ran
    have called : next = s.runLifecycleTransition components operation := (Option.some.inj taken).symm
    have goes := (inv.continues_call idle operation).mono enough
    rw [← called] at goes
    obtain ⟨first, rest, reached, outcome, during, rfl, before, log, quiet⟩ := settles (inv.step taken) goes ran
    have reaches : Run.run (step components) s (.call operation :: first) = some reached := by
      rw [Run.run, taken]
      exact before
    refine ⟨first, rest, reached, outcome, during, rfl, reaches, log, quiet, ?_⟩
    rintro bad rfl
    have accounted : Accounted components reached.log :=
      (Run.keeps (fun _ _ _ h taken => Inv.step h taken) inv reaches).accounted
    cases outcome with
    | error error => exact ⟨error, rfl⟩
    | ok => exact absurd (accounted.split [] log).1 bad.not_sound

/-- The second of two components fails to start and the first to stop; the next
`stop()` stops it. -/
def retriedRun : List Event :=
  [.call .start, .validated (some ⟨true, []⟩), .validated (some ⟨true, []⟩), .componentSettled none,
    .componentSettled (some []), .call .stop, .componentSettled (some []), .reaction, .call .stop, .componentSettled none]

theorem shell_consistent_retried :
    ∃ s, Run.run (step [⟨[1], []⟩, ⟨[2], [[1]]⟩]) System.initial retriedRun = some s ∧
      Consistent [⟨[1], []⟩, ⟨[2], [[1]]⟩] s :=
  ⟨_, rfl, shell_consistent _ retriedRun _ rfl⟩

end Fluo.Runtime.Platform
