import Fluo.Cron.ScheduleConsistent
import Fluo.Cron.Ticks

/-!
# Retired work

What an execution of a task finds when it starts, in every run of the service
and its ticks.
-/

namespace Fluo.Cron

open Fluo.Run

/-! ## What leaves the ticks alone -/

/-- A step that starts no tick and ends none. -/
structure Idle (s t : CronState) : Prop where
  run : ∀ r, (s.run r).phase ≠ .left → t.run r = s.run r
  runCount : t.runCount = s.runCount
  grows : s.taskCount ≤ t.taskCount
  running : ∀ i < s.taskCount, (t.task i).running = (s.task i).running
  named : ∀ name i, t.tasks.get name = some i → s.tasks.get name = some i ∨ i < t.taskCount

theorem Idle.trans {s t u : CronState} (first : Idle s t) (second : Idle t u) : Idle s u where
  run r on := (second.run r (first.run r on ▸ on)).trans (first.run r on)
  runCount := second.runCount.trans first.runCount
  grows := Nat.le_trans first.grows second.grows
  running i inside := (second.running i (Nat.lt_of_lt_of_le inside first.grows)).trans (first.running i inside)
  named name i at_ := by
    rcases second.named name i at_ with before | inside
    · rcases first.named name i before with before | inside
      · exact .inl before
      · exact .inr (Nat.lt_of_lt_of_le inside second.grows)
    · exact .inr inside

theorem Idle.of_tasks {s t : CronState} (run : t.run = s.run) (runCount : t.runCount = s.runCount)
    (taskCount : t.taskCount = s.taskCount) (running : ∀ i, (t.task i).running = (s.task i).running)
    (tasks : t.tasks = s.tasks) : Idle s t :=
  ⟨fun _ _ => run ▸ rfl, runCount, Nat.le_of_eq taskCount.symm, fun i _ => running i, fun _ _ at_ => .inl (tasks ▸ at_)⟩

/-- Such a step that leaves the lifecycle alone too. -/
structure Still (s t : CronState) : Prop extends Idle s t where
  lifecycleState : t.lifecycleState = s.lifecycleState
  shutdownPromise : t.shutdownPromise = s.shutdownPromise
  started : t.started = s.started

theorem Still.refl (s : CronState) : Still s s := ⟨.of_tasks rfl rfl rfl (fun _ => rfl) rfl, rfl, rfl, rfl⟩

theorem Still.trans {s t u : CronState} (first : Still s t) (second : Still t u) : Still s u :=
  ⟨first.toIdle.trans second.toIdle, second.lifecycleState.trans first.lifecycleState,
    second.shutdownPromise.trans first.shutdownPromise, second.started.trans first.started⟩

theorem Still.of_tasks {s t : CronState} (run : t.run = s.run) (runCount : t.runCount = s.runCount)
    (taskCount : t.taskCount = s.taskCount) (running : ∀ i, (t.task i).running = (s.task i).running)
    (tasks : t.tasks = s.tasks) (lifecycleState : t.lifecycleState = s.lifecycleState)
    (shutdownPromise : t.shutdownPromise = s.shutdownPromise) (started : t.started = s.started) : Still s t :=
  ⟨.of_tasks run runCount taskCount running tasks, lifecycleState, shutdownPromise, started⟩

theorem update_running {task : Nat → RuntimeTaskState} {i : Nat} {new : RuntimeTaskState}
    (same : new.running = (task i).running) (j : Nat) : (Function.update task i new j).running = (task j).running := by
  by_cases here : j = i
  · subst here
    rw [Function.update_self, same]
  · rw [Function.update_of_ne here]

theorem still_modify {s : CronState} {i : Nat} {f : RuntimeTaskState → RuntimeTaskState}
    (same : (f (s.task i)).running = (s.task i).running) : Still s (s.modify i f) :=
  .of_tasks rfl rfl rfl (update_running same) rfl rfl rfl rfl

theorem still_stop (s : CronState) (h : Nat) : Still s (s.stop h) :=
  .of_tasks rfl rfl rfl (fun _ => rfl) rfl rfl rfl rfl

theorem still_createScheduledHandle {s t : CronState} {i : Nat} {creates : Bool}
    (made : createScheduledHandle s i creates = some t) : Still s t := by
  obtain rfl := createScheduledHandle_some made
  exact .of_tasks rfl rfl rfl (fun _ => rfl) rfl rfl rfl rfl

theorem still_scheduleTask {s t : CronState} {i : Nat} {creates : Bool} (made : scheduleTask s i creates = some t) :
    Still s t := by
  unfold scheduleTask at made
  split at made
  · cases made
    exact .refl s
  · obtain ⟨u, created, rfl⟩ := Option.map_eq_some_iff.mp made
    exact (still_createScheduledHandle created).trans (still_modify rfl)

theorem still_stopPending (s : CronState) (i : Nat) (stops : Nat → Bool) : Still s (stopPending s i stops) :=
  .of_tasks rfl rfl rfl (update_running rfl) rfl rfl rfl rfl

theorem still_unscheduleTask (s : CronState) (i : Nat) (stops : Nat → Bool) : Still s (unscheduleTask s i stops).2 := by
  unfold unscheduleTask
  split
  next stopped t is =>
    refine Still.trans ?_ (still_stopPending t i stops)
    split at is
    · cases is
      exact .refl s
    · split at is
      · cases is
        exact (still_stop s _).trans (still_modify rfl)
      · cases is
        exact .refl s

theorem still_stopAll (stops : Nat → Bool) (places : List Nat) (s : CronState) : Still s (stopAll stops places s).2 := by
  induction places generalizing s with
  | nil => exact .refl s
  | cons i rest ih => exact (still_unscheduleTask s i stops).trans (ih _)

theorem still_registerTask {options : CronOptions} {s t : CronState} {descriptor : CronTaskDescriptor} {creates : Bool}
    (made : registerTask options s descriptor creates = some t) : Still s t := by
  unfold registerTask at made
  split at made
  · cases made
  · obtain ⟨u, placed, rfl⟩ := Option.map_eq_some_iff.mp made
    let new := { s with task := Function.update s.task s.taskCount (newTask descriptor), taskCount := s.taskCount + 1 }
    have added : Still s new := by
      refine ⟨⟨fun _ _ => rfl, rfl, Nat.le_succ _, fun i inside => ?_, fun _ _ => .inl⟩, rfl, rfl, rfl⟩
      exact congrArg _ (Function.update_of_ne (Nat.ne_of_lt inside) _ _)
    have scheduled : Still new u := by
      split at placed
      · exact still_scheduleTask placed
      · cases placed
        exact .refl new
    have both := added.trans scheduled
    refine ⟨⟨both.run, both.runCount, both.grows, both.running, fun name i at_ => ?_⟩, both.lifecycleState,
      both.shutdownPromise, both.started⟩
    dsimp only at at_ ⊢
    rw [OrderedMap.get_set] at at_
    split at at_
    · cases at_
      exact .inr (Nat.lt_of_lt_of_le (Nat.lt_succ_self _) scheduled.grows)
    · exact both.named name i at_

theorem Still.getD {s : CronState} {made : Option CronState} (is : ∀ t, made = some t → Still s t) :
    Still s (made.getD s) := by
  cases made with
  | none => exact .refl s
  | some t => exact is t rfl

theorem still_remove (s : CronState) (name : Js.JsString) (stops : Nat → Bool) : Still s (remove s name stops).2 := by
  unfold remove
  split
  · exact .refl s
  · next i at_ =>
    have unscheduled := still_unscheduleTask s i stops
    split
    · next t is =>
      rw [is] at unscheduled
      refine unscheduled.trans ⟨⟨fun _ _ => rfl, rfl, Nat.le_refl _, fun _ _ => rfl, fun other j at_ => .inl ?_⟩, rfl, rfl, rfl⟩
      dsimp only at at_
      rw [OrderedMap.get_erase] at at_
      split at at_
      · cases at_
      · exact at_
    · next t is =>
      rw [is] at unscheduled
      exact unscheduled

theorem still_enable {s t : CronState} {name : Js.JsString} {creates : Bool} (made : enable s name creates = some t) :
    Still s t := by
  unfold enable at made
  split at made
  · cases made
    exact .refl s
  · split at made
    · cases made
      exact .refl s
    · have enabled (i : Nat) : Still s (s.modify i ({ · with enabled := true })) := still_modify rfl
      dsimp only at made
      split at made
      · exact (enabled _).trans (still_scheduleTask made)
      · cases made
        exact enabled _

theorem still_disable (s : CronState) (name : Js.JsString) (stops : Nat → Bool) : Still s (disable s name stops).2 := by
  unfold disable
  split
  · exact .refl s
  · dsimp only
    split
    · exact .refl s
    · exact Still.trans (still_modify rfl) (still_unscheduleTask _ _ stops)

theorem still_updateSchedule (s : CronState) (name : Js.JsString) (kind : SchedulingTaskKind)
    (change : CronTaskDescriptor → CronTaskDescriptor) (creates : Bool) (stops : Nat → Bool) :
    Still s (updateSchedule s name kind change creates stops).2 := by
  unfold updateSchedule
  split
  · exact .refl s
  · next i at_ =>
    dsimp only
    split
    · exact .refl s
    · have changed : Still s (s.modify i fun task => { task with descriptor := change task.descriptor }) :=
        still_modify rfl
      split
      · exact changed
      · split
        · exact .refl s
        · next t made =>
          have created := changed.trans (still_createScheduledHandle made)
          split
          · exact created.trans (still_modify rfl)
          · next h is =>
            split
            · exact (created.trans (still_stop t h)).trans (still_modify rfl)
            · have restored : Still s (t.modify i fun _ => s.task i) := by
                refine ⟨⟨created.run, created.runCount, created.grows, fun j inside => ?_, created.named⟩,
                  created.lifecycleState, created.shutdownPromise, created.started⟩
                by_cases here : j = i
                · subst here
                  exact congrArg _ (Function.update_self _ _ _)
                · exact (congrArg _ (Function.update_of_ne here _ _)).trans (created.running j inside)
              split
              · exact restored.trans (still_stop _ _)
              · refine restored.trans ?_
                dsimp only
                exact still_modify rfl

theorem still_completeTimeoutTask (s : CronState) (taskName : Js.JsString) (token : Nat) :
    Still s (completeTimeoutTask s taskName token) := by
  unfold completeTimeoutTask
  split
  · exact .refl s
  · split
    · exact still_modify rfl
    · exact .refl s

theorem still_registerAll (options : CronOptions) (creates : Nat → Bool) (descriptors : List CronTaskDescriptor)
    (s : CronState) : Still s (registerAll options creates descriptors s).2 := by
  induction descriptors generalizing s with
  | nil => exact .refl s
  | cons descriptor rest ih =>
    rw [registerAll]
    split
    · exact .refl s
    · next t registered => exact (still_registerTask registered).trans (ih t)

theorem still_scheduleAll (creates : Nat → Bool) (places : List Nat) (s : CronState) :
    Still s (scheduleAll creates places s).2 := by
  induction places generalizing s with
  | nil => exact .refl s
  | cons i rest ih =>
    rw [scheduleAll]
    split
    · exact .refl s
    · next t scheduled => exact (still_scheduleTask scheduled).trans (ih t)

/-! ## Accepted ticks -/

/-- The tasks of the ticks that are not over run, each for one tick. -/
structure Tracked (s : TickState) : Prop where
  named : ∀ name i, s.cron.tasks.get name = some i → i < s.cron.taskCount
  runs : ∀ r < s.cron.runCount, s.stage r ≠ .over →
    (s.cron.run r).task < s.cron.taskCount ∧ (s.cron.task (s.cron.run r).task).running = true ∧
      ((s.cron.run r).phase = .executing ∨ (s.cron.run r).phase = .executed)
  alone : ∀ r < s.cron.runCount, ∀ r' < s.cron.runCount, s.stage r ≠ .over → s.stage r' ≠ .over →
    (s.cron.run r).task = (s.cron.run r').task → r = r'

theorem Tracked.present {s : TickState} (tracked : Tracked s) {r : Nat} (inside : r < s.cron.runCount)
    (on : s.stage r ≠ .over) : (s.cron.run r).phase ≠ .left := by
  rcases (tracked.runs r inside on).2.2 with is | is
  · rw [is]
    nofun
  · rw [is]
    nofun

theorem Tracked.idle {s : TickState} {t : CronState} (tracked : Tracked s) (idle : Idle s.cron t) :
    Tracked { s with cron := t } := by
  refine ⟨fun name i at_ => ?_, fun r inside on => ?_, fun r inside r' inside' on on' same => ?_⟩
  · rcases idle.named name i at_ with before | inside
    · exact Nat.lt_of_lt_of_le (tracked.named name i before) idle.grows
    · exact inside
  · dsimp only at inside ⊢
    rw [idle.runCount] at inside
    obtain ⟨known, running, phase⟩ := tracked.runs r inside on
    rw [idle.run r (tracked.present inside on)]
    exact ⟨Nat.lt_of_lt_of_le known idle.grows, (idle.running _ known).trans running, phase⟩
  · dsimp only at inside inside' same
    rw [idle.runCount] at inside inside'
    rw [idle.run r (tracked.present inside on), idle.run r' (tracked.present inside' on')] at same
    exact tracked.alone r inside r' inside' on on' same

theorem Tracked.begin {s u : TickState} {i : Nat} (tracked : Tracked s) (token : Nat) (known : i < s.cron.taskCount)
    (idle : (s.cron.task i).running = false) (tasks : u.cron.tasks = s.cron.tasks)
    (taskCount : u.cron.taskCount = s.cron.taskCount)
    (run : u.cron.run = Function.update s.cron.run s.cron.runCount ⟨i, token, .executing⟩)
    (runCount : u.cron.runCount = s.cron.runCount + 1)
    (task : u.cron.task = Function.update s.cron.task i { s.cron.task i with running := true })
    (stage : ∀ r, r ≠ s.cron.runCount → u.stage r = s.stage r) : Tracked u := by
  have old {r : Nat} (inside : r < s.cron.runCount) : u.cron.run r = s.cron.run r := by
    rw [run]
    exact Function.update_of_ne (Nat.ne_of_lt inside) _ _
  have new : u.cron.run s.cron.runCount = ⟨i, token, .executing⟩ := by
    rw [run]
    exact Function.update_self _ _ _
  have on {r : Nat} (inside : r < s.cron.runCount) (is : u.stage r ≠ .over) : s.stage r ≠ .over :=
    stage r (Nat.ne_of_lt inside) ▸ is
  -- No earlier tick of the task goes on.
  have apart {r : Nat} (inside : r < s.cron.runCount) (is : u.stage r ≠ .over) : (s.cron.run r).task ≠ i := by
    rintro rfl
    have running := (tracked.runs r inside (on inside is)).2.1
    rw [idle] at running
    cases running
  refine ⟨fun name j at_ => ?_, fun r inside is => ?_, fun r inside r' inside' is is' same => ?_⟩
  · rw [tasks] at at_
    rw [taskCount]
    exact tracked.named name j at_
  · rw [taskCount, task]
    rcases Nat.lt_succ_iff_lt_or_eq.mp (runCount ▸ inside) with before | rfl
    · obtain ⟨known', running, phase⟩ := tracked.runs r before (on before is)
      rw [old before, Function.update_of_ne (apart before is)]
      exact ⟨known', running, phase⟩
    · rw [new, Function.update_self]
      exact ⟨known, rfl, .inl rfl⟩
  · rcases Nat.lt_succ_iff_lt_or_eq.mp (runCount ▸ inside) with before | rfl
    · rcases Nat.lt_succ_iff_lt_or_eq.mp (runCount ▸ inside') with before' | rfl
      · rw [old before, old before'] at same
        exact tracked.alone r before r' before' (on before is) (on before' is') same
      · rw [old before, new] at same
        exact absurd same (apart before is)
    · rcases Nat.lt_succ_iff_lt_or_eq.mp (runCount ▸ inside') with before' | rfl
      · rw [old before', new] at same
        exact absurd same.symm (apart before' is')
      · rfl

theorem Tracked.stage {s : TickState} {r : Nat} {stage : TickStage} {entries : List Entry} (tracked : Tracked s)
    (on : s.stage r ≠ .over) : Tracked { s with stage := Function.update s.stage r stage, entries } := by
  have kept (r' : Nat) (is : Function.update s.stage r stage r' ≠ .over) : s.stage r' ≠ .over := by
    by_cases here : r' = r
    · exact here ▸ on
    · rwa [Function.update_of_ne here] at is
  exact ⟨tracked.named, fun r' inside is => tracked.runs r' inside (kept r' is),
    fun r' inside r'' inside' is is' => tracked.alone r' inside r'' inside' (kept r' is) (kept r'' is')⟩

theorem acceptedTask_current {s : CronState} {h i : Nat} (accepted : acceptedTask s h = some i) :
    s.tasks.get (s.handle h).taskName = some i ∧ s.started = true ∧ isTaskTickCurrent s h i = true ∧
      (s.task i).running = false := by
  obtain ⟨at_, able⟩ := Option.filter_eq_some_iff.mp accepted
  simp only [Bool.and_eq_true, Bool.not_eq_true'] at able
  exact ⟨at_, able.1.1, able.1.2, able.2⟩

theorem beginRun_cron (options : CronOptions) (s : TickState) (now : CronState) (r i token : Nat) (client : Bool) :
    (s.beginRun options now r i token client).cron = s.cron ∧
      ∀ r', r' ≠ r → (s.beginRun options now r i token client).stage r' = s.stage r' := by
  unfold TickState.beginRun
  split
  · exact ⟨rfl, fun r' other => Function.update_of_ne other _ _⟩
  · exact ⟨rfl, fun r' other => Function.update_of_ne other _ _⟩

/-! ## Steps -/

/-- What a handle does: its tick is accepted, or it leaves all ticks alone. -/
theorem tick_spec {s t : CronState} {h : Nat} (is : tick s h = some t) :
    match acceptedTask s h with
    | some i =>
      t.tasks = s.tasks ∧ t.taskCount = s.taskCount ∧ t.run = Function.update s.run s.runCount ⟨i, h, .executing⟩ ∧
        t.runCount = s.runCount + 1 ∧ t.task = Function.update s.task i { s.task i with running := true } ∧
        t.lifecycleState = s.lifecycleState ∧ t.started = s.started
    | none => Still s t := by
  unfold tick at is
  dsimp only at is
  split at is
  · cases is
  · cases accepted : acceptedTask s h with
    | some i =>
      rw [accepted] at is
      cases is
      dsimp only
      split
      · exact ⟨rfl, rfl, rfl, rfl, rfl, rfl, rfl⟩
      · exact ⟨rfl, rfl, rfl, rfl, rfl, rfl, rfl⟩
    | none =>
      rw [accepted] at is
      cases is
      dsimp only
      split
      · have fired : Still s
            { s with handle := Function.update s.handle h { s.handle h with fired := true } } :=
          .of_tasks rfl rfl rfl (fun _ => rfl) rfl rfl rfl rfl
        exact fired.trans (still_completeTimeoutTask _ _ h)
      · exact .refl s

/-- What the registry, the timers, bootstraps and shutdowns do. -/
structure Serves (e : CronEvent) (s t : CronState) : Prop extends Idle s t where
  lifecycle : (TickEvent.service e).bootstraps = false →
    t.lifecycleState = s.lifecycleState ∨ t.lifecycleState.closed = true
  started : (TickEvent.service e).schedules = false → t.started = true → s.started = true

theorem Still.serves {e : CronEvent} {s t : CronState} (still : Still s t) : Serves e s t :=
  ⟨still.toIdle, fun _ => .inl still.lifecycleState, fun _ on => still.started ▸ on⟩

theorem serves_resolveBootstrap {options : CronOptions} {s t : CronState} {b : Nat} {resolves : Bool}
    {creates : Nat → Bool} (is : resolveBootstrap options s b resolves creates = some t) :
    Serves (.resolveBootstrap b resolves creates) s t := by
  have moved (u : CronState) (phase : Bootstrap) : Still u (u.setBootstrap b phase) :=
    .of_tasks rfl rfl rfl (fun _ => rfl) rfl rfl rfl rfl
  -- `started` is set between the registration and the scheduling of the tasks.
  have goes : Idle s (startLifecycle options s creates).2 ∧
      (startLifecycle options s creates).2.lifecycleState = s.lifecycleState := by
    have registered := still_registerAll options creates options.decorators s
    unfold startLifecycle
    split
    · next u is => rw [is] at registered; exact ⟨registered.toIdle, registered.lifecycleState⟩
    · next u is =>
      rw [is] at registered
      have on : Idle u { u with started := true } := .of_tasks rfl rfl rfl (fun _ => rfl) rfl
      have scheduled := still_scheduleAll creates u.tasks.values { u with started := true }
      exact ⟨(registered.toIdle.trans on).trans scheduled.toIdle,
        scheduled.lifecycleState.trans registered.lifecycleState⟩
  unfold resolveBootstrap at is
  split at is
  · cases is
  · split at is
    · obtain ⟨idle, lifecycle⟩ := goes
      split at is
      · next u made =>
        cases is
        rw [made] at idle lifecycle
        exact ⟨idle.trans (moved u .succeeded).toIdle, fun _ => .inl lifecycle, nofun⟩
      · next u made =>
        cases is
        rw [made] at idle lifecycle
        exact ⟨idle.trans (moved u .failing).toIdle, fun _ => .inl lifecycle, nofun⟩
    · cases is
      exact (moved s .failing).serves

theorem serves_settleBootstrap {s t : CronState} {b : Nat} {stops : Nat → Bool}
    (is : settleBootstrap s b stops = some t) : Serves (.settleBootstrap b stops) s t := by
  unfold settleBootstrap at is
  split at is
  · cases is
  · split at is
    · cases is
      exact ⟨.of_tasks rfl rfl rfl (fun _ => rfl) rfl, nofun, fun _ on => on⟩
    · cases is
      let failed := { s with lifecycleState := .failed, started := false }
      have begun : Idle s failed := .of_tasks rfl rfl rfl (fun _ => rfl) rfl
      have stopped := still_stopAll stops failed.tasks.values failed
      refine ⟨(begun.trans stopped.toIdle).trans (.of_tasks rfl rfl rfl (fun _ => rfl) rfl), nofun, fun _ on => ?_⟩
      exact absurd (stopped.started.symm.trans on) nofun
    · cases is
      exact ⟨⟨fun _ _ => rfl, rfl, Nat.le_refl _, fun _ _ => rfl, nofun⟩, nofun, fun _ on => on⟩
    · cases is
      exact ⟨.of_tasks rfl rfl rfl (fun _ => rfl) rfl, nofun, fun _ on => on⟩
    · cases is
    · cases is

theorem serves_shutdown {s t : CronState} {stops : Nat → Bool} (is : shutdown s stops = some t) :
    Serves (.shutdown stops) s t := by
  unfold shutdown at is
  split at is
  · cases is
    let closed := { s with shutdownPromise := some false, lifecycleState := .stopping, started := false }
    have begun : Idle s closed := .of_tasks rfl rfl rfl (fun _ => rfl) rfl
    have stopped := still_stopAll stops closed.tasks.values closed
    refine ⟨begun.trans stopped.toIdle, fun _ => .inr ?_, fun _ on => absurd (stopped.started.symm.trans on) nofun⟩
    rw [stopAllScheduledTasks, stopped.lifecycleState]
    rfl
  · cases is
  · cases is
    exact (still_stopAll stops s.tasks.values s).serves

theorem serves_completeRun {s t : CronState} {r : Nat} (is : completeRun s r = some t) : Serves (.completeRun r) s t := by
  unfold completeRun at is
  dsimp only at is
  split at is
  · cases is
  · next able =>
    cases is
    simp only [not_or, Nat.not_le, ne_eq, not_not] at able
    have completed : Still s (s.setPhase r .completed) := by
      refine ⟨⟨fun r' on => Function.update_of_ne ?_ _ _, rfl, Nat.le_refl _, fun _ _ => rfl, fun _ _ => .inl⟩, rfl, rfl,
        rfl⟩
      rintro rfl
      exact on able.2
    exact (completed.trans (still_completeTimeoutTask _ _ _)).serves

theorem service_serves {options : CronOptions} {s t : CronState} {e : CronEvent} (is : step options s e = some t)
    (other : e.ticks = false) : Serves e s t := by
  cases e with
  | addCron =>
    cases is
    exact (Still.getD fun t made => still_registerTask (Option.ite_none_right_eq_some.mp made).2).serves
  | addInterval =>
    cases is
    exact (Still.getD fun t made => still_registerTask (Option.ite_none_right_eq_some.mp made).2).serves
  | addTimeout =>
    cases is
    exact (Still.getD fun t made => still_registerTask (Option.ite_none_right_eq_some.mp made).2).serves
  | remove name stops => cases is; exact (still_remove s name stops).serves
  | enable => cases is; exact (Still.getD fun t made => still_enable made).serves
  | disable name stops => cases is; exact (still_disable s name stops).serves
  | updateCronExpression name expression creates stops =>
    cases is
    unfold updateCronExpression
    split
    · exact (still_updateSchedule s name .cron _ creates stops).serves
    · exact (Still.refl s).serves
  | updateIntervalMs name ms creates stops =>
    cases is
    unfold updateIntervalMs
    split
    · exact (still_updateSchedule s name .interval _ creates stops).serves
    · exact (Still.refl s).serves
  | tick | endExecution | leaveTick => cases other
  | completeRun r => exact serves_completeRun is
  | beginBootstrap =>
    cases is
    unfold beginBootstrap
    split
    · exact (Still.refl s).serves
    · exact ⟨.of_tasks rfl rfl rfl (fun _ => rfl) rfl, nofun, fun _ on => on⟩
  | resolveBootstrap => exact serves_resolveBootstrap is
  | settleBootstrap => exact serves_settleBootstrap is
  | shutdown => exact serves_shutdown is
  | settleShutdown =>
    simp only [step, settleShutdown] at is
    split at is
    · cases is
      exact ⟨.of_tasks rfl rfl rfl (fun _ => rfl) rfl, fun _ => .inr rfl, fun _ on => on⟩
    · cases is

theorem tickStep_service {options : CronOptions} {s t : TickState} {e : CronEvent}
    (is : tickStep options s (.service e) = some t) :
    Serves e s.cron t.cron ∧ t.stage = s.stage ∧ t.entries = s.entries := by
  obtain ⟨other, is⟩ := Option.ite_none_left_eq_some.mp is
  obtain ⟨u, made, rfl⟩ := Option.map_eq_some_iff.mp is
  exact ⟨service_serves made (Bool.eq_false_iff.mpr other), rfl, rfl⟩

/-! ## What an execution finds -/

/-- The service is open, and the token is the active one of an enabled task. Only a tick that has waited for its lock may
find startup rolled back instead. -/
structure Entry.Guarded (entry : Entry) : Prop where
  accepting : entry.lifecycleState.closed = false
  current : entry.current = true ∨ entry.locked = true ∧ entry.lifecycleState = .failed

theorem observe_guarded {s : CronState} {r i token : Nat} {name : Js.JsString} {locked : Bool}
    (at_ : s.tasks.get name = some i) (current : isTaskTickCurrent s token i = true) :
    (observe s r i token locked).Guarded := by
  simp only [isTaskTickCurrent, Bool.and_eq_true, decide_eq_true_eq] at current
  obtain ⟨⟨⟨stopping, stopped⟩, enabled⟩, active⟩ := current
  refine ⟨?_, .inl ?_⟩
  · simp [LifecycleState.closed, observe, stopping, stopped]
  · have mem : i ∈ s.tasks.values := OrderedMap.mem_values.mpr ⟨name, at_⟩
    simp [Entry.current, observe, enabled, active, mem]

/-- What a step adds to the executions that have started. -/
structure Enters (s t : TickState) (now : CronState) (r i token : Nat) (locked : Bool) : Prop where
  entries : t.entries = s.entries ++ [observe now r i token locked]
  guarded : (observe now r i token locked).Guarded
  lifecycle : now.lifecycleState = s.cron.lifecycleState
  tick : r < s.cron.runCount ∧ s.stage r = .acquiring ∨ s.cron.started = true

theorem beginRun_enters (options : CronOptions) (s u : TickState) (now : CronState) (r i token : Nat)
    (client : Bool) (entries : u.entries = s.entries) (lifecycle : now.lifecycleState = s.cron.lifecycleState)
    (on : s.cron.started = true) (guarded : (observe now r i token false).Guarded) :
    (u.beginRun options now r i token client).entries = s.entries ∨
      Enters s (u.beginRun options now r i token client) now r i token false := by
  unfold TickState.beginRun
  split
  · exact .inl entries
  · exact .inr ⟨congrArg (· ++ _) entries, guarded, lifecycle, .inr on⟩

theorem acquired_enters {s t : TickState} {r : Nat} {lease : Bool} (is : acquired s r lease = some t) :
    t.entries = s.entries ∨ ∃ i token, Enters s t s.cron r i token true := by
  unfold acquired at is
  dsimp only at is
  split at is
  · cases is
  · next able =>
    simp only [not_or, Nat.not_le, ne_eq, not_not] at able
    split at is
    · cases is
      exact .inl rfl
    · next passes =>
      cases is
      refine .inr ⟨_, _, rfl, ?_, rfl, .inl able⟩
      simp only [Bool.or_eq_true, Bool.and_eq_true, Bool.not_eq_true', decide_eq_true_eq, not_or, not_and,
        Bool.not_eq_false] at passes
      by_cases failed : s.cron.lifecycleState = .failed
      · exact ⟨by simp [LifecycleState.closed, observe, failed], .inr ⟨rfl, failed⟩⟩
      · obtain ⟨current, registered⟩ := passes.2 failed
        exact observe_guarded (of_decide_eq_true registered) current

theorem tickStep_enters {options : CronOptions} {s t : TickState} {e : TickEvent} (is : tickStep options s e = some t) :
    t.entries = s.entries ∨ ∃ now r i token locked, Enters s t now r i token locked := by
  cases e with
  | tick h client =>
    obtain ⟨u, ticked, rfl⟩ := Option.map_eq_some_iff.mp is
    split
    · next i accepted =>
      obtain ⟨at_, on, current, -⟩ := acceptedTask_current accepted
      exact (beginRun_enters options s { s with cron := u } s.cron s.cron.runCount i h client rfl rfl on
        (observe_guarded at_ current)).imp_right fun enters => ⟨_, _, _, _, _, enters⟩
    · exact .inl rfl
  | tickLost name client =>
    simp only [tickStep, tickLost] at is
    split at is
    · cases is
    · next i at_ =>
      split at is
      · cases is
      · split at is
        · cases is
        · next j accepted =>
          cases is
          obtain ⟨at_, on, current, -⟩ := acceptedTask_current accepted
          exact (beginRun_enters options s { s with cron := lose s.cron (scheduling s.cron i) j } (scheduling s.cron i)
            s.cron.runCount j s.cron.handleCount client rfl rfl on (observe_guarded at_ current)).imp_right
              fun enters => ⟨_, _, _, _, _, enters⟩
  | acquired r lease =>
    rcases acquired_enters is with none | ⟨i, token, enters⟩
    · exact .inl none
    · exact .inr ⟨_, _, _, _, _, enters⟩
  | endExecution r =>
    obtain ⟨-, is⟩ := Option.ite_none_left_eq_some.mp is
    obtain ⟨u, -, rfl⟩ := Option.map_eq_some_iff.mp is
    exact .inl rfl
  | leaveTick r =>
    obtain ⟨-, is⟩ := Option.ite_none_left_eq_some.mp is
    obtain ⟨u, -, rfl⟩ := Option.map_eq_some_iff.mp is
    exact .inl rfl
  | service e => exact .inl (tickStep_service is).2.2

/-! ## Overlap -/

theorem Tracked.setPhase {s : TickState} {r : Nat} (tracked : Tracked s) :
    Tracked { s with cron := s.cron.setPhase r .executed } := by
  have here : (s.cron.setPhase r .executed).run r = { s.cron.run r with phase := .executed } :=
    Function.update_self _ _ _
  have others {r' : Nat} (ne : r' ≠ r) : (s.cron.setPhase r .executed).run r' = s.cron.run r' :=
    Function.update_of_ne ne _ _
  have task (r' : Nat) : ((s.cron.setPhase r .executed).run r').task = (s.cron.run r').task := by
    by_cases same : r' = r
    · subst same
      rw [here]
    · rw [others same]
  refine ⟨tracked.named, fun r' inside on => ?_, fun r' inside r'' inside' on on' same => ?_⟩
  · obtain ⟨known, running, phase⟩ := tracked.runs r' inside on
    dsimp only
    rw [task]
    refine ⟨known, running, ?_⟩
    by_cases same : r' = r
    · subst same
      rw [here]
      exact .inr rfl
    · rw [others same]
      exact phase
  · dsimp only at same
    rw [task, task] at same
    exact tracked.alone r' inside r'' inside' on on' same

theorem Tracked.endRun {s t : TickState} {r : Nat} (tracked : Tracked s) (is : endRun s r = some t) : Tracked t := by
  obtain ⟨able, is⟩ := Option.ite_none_left_eq_some.mp is
  have on : s.stage r ≠ .over := by
    rw [not_not.mp able]
    nofun
  obtain ⟨u, ended, rfl⟩ := Option.map_eq_some_iff.mp is
  suffices after : Tracked { s with cron := u } from after.stage on
  unfold endExecution at ended
  dsimp only at ended
  split at ended
  · cases ended
  · cases ended
    split
    · exact tracked.setPhase.idle (still_modify rfl).toIdle
    · exact tracked.setPhase

theorem Tracked.leaveRun {s t : TickState} {r : Nat} (tracked : Tracked s) (is : leaveRun s r = some t) : Tracked t := by
  obtain ⟨able, is⟩ := Option.ite_none_left_eq_some.mp is
  have on : s.stage r ≠ .over := by
    rw [not_not.mp able]
    nofun
  obtain ⟨u, left, rfl⟩ := Option.map_eq_some_iff.mp is
  unfold leaveTick at left
  dsimp only at left
  split at left
  · cases left
  · next inside =>
    cases left
    have inside : r < s.cron.runCount := Nat.lt_of_not_le fun above => inside (.inl above)
    -- What is not over is another tick, and of another task.
    have other {r' : Nat} (is : Function.update s.stage r .over r' ≠ .over) : r' ≠ r ∧ s.stage r' ≠ .over := by
      have ne : r' ≠ r := by
        rintro rfl
        exact is (Function.update_self _ _ _)
      rw [Function.update_of_ne ne] at is
      exact ⟨ne, is⟩
    refine ⟨tracked.named, fun r' inside' is => ?_, fun r' inside' r'' inside'' is is' same => ?_⟩
    · obtain ⟨ne, on'⟩ := other is
      obtain ⟨known, running, phase⟩ := tracked.runs r' inside' on'
      have apart : (s.cron.run r').task ≠ (s.cron.run r).task :=
        fun same => ne (tracked.alone r' inside' r inside on' on same)
      simp only [CronState.modify, CronState.setPhase, Function.update_of_ne ne, Function.update_of_ne apart]
      exact ⟨known, running, phase⟩
    · obtain ⟨ne, on'⟩ := other is
      obtain ⟨ne', on''⟩ := other is'
      simp only [CronState.modify, CronState.setPhase, Function.update_of_ne ne, Function.update_of_ne ne'] at same
      exact tracked.alone r' inside' r'' inside'' on' on'' same

theorem Tracked.step {options : CronOptions} {s t : TickState} {e : TickEvent} (tracked : Tracked s)
    (is : tickStep options s e = some t) : Tracked t := by
  cases e with
  | tick h client =>
    obtain ⟨u, ticked, rfl⟩ := Option.map_eq_some_iff.mp is
    have spec := tick_spec ticked
    split
    · next i accepted =>
      rw [accepted] at spec
      obtain ⟨tasks, taskCount, run, runCount, task, -, -⟩ := spec
      obtain ⟨at_, -, -, idle⟩ := acceptedTask_current accepted
      obtain ⟨cron, stage⟩ := beginRun_cron options { s with cron := u } s.cron s.cron.runCount i h client
      refine tracked.begin h (tracked.named _ i at_) idle ?_ ?_ ?_ ?_ ?_ stage <;> rw [cron] <;> assumption
    · next refused =>
      rw [refused] at spec
      exact tracked.idle spec.toIdle
  | tickLost name client =>
    simp only [tickStep, tickLost] at is
    split at is
    · cases is
    · next i at_ =>
      split at is
      · cases is
      · split at is
        · cases is
        · next j accepted =>
          cases is
          obtain ⟨at_, -, -, idle⟩ := acceptedTask_current accepted
          have same : ((scheduling s.cron i).task j).running = (s.cron.task j).running := by
            by_cases here : j = i
            · subst here
              have placed : (scheduling s.cron j).task j =
                  { s.cron.task j with enabled := true, activeScheduleToken := some s.cron.handleCount } :=
                Function.update_self _ _ _
              rw [placed]
            · exact congrArg RuntimeTaskState.running (Function.update_of_ne here _ _)
          rw [same] at idle
          refine tracked.begin s.cron.handleCount (tracked.named _ j at_) idle ?_ ?_ ?_ ?_ ?_ (beginRun_cron _ _ _ _ _ _ _).2 <;>
            rw [(beginRun_cron _ _ _ _ _ _ _).1] <;> rfl
  | acquired r lease =>
    simp only [tickStep, acquired] at is
    split at is
    · cases is
    · next able =>
      have on : s.stage r ≠ .over := by
        simp only [not_or, Nat.not_le, ne_eq, not_not] at able
        rw [able.2]
        nofun
      split at is
      · cases is
        exact tracked.stage on
      · cases is
        exact tracked.stage on
  | endExecution r => exact tracked.endRun is
  | leaveTick r => exact tracked.leaveRun is
  | service e =>
    obtain ⟨serves, stage, entries⟩ := tickStep_service is
    have moved := tracked.idle serves.toIdle
    obtain ⟨cron, stage', entries'⟩ := t
    cases stage
    exact ⟨moved.named, moved.runs, moved.alone⟩

/-! ## Runs -/

/-- Two executions of one task do not overlap. -/
def NoOverlap (s : TickState) : Prop :=
  ∀ r < s.cron.runCount, ∀ r' < s.cron.runCount, s.stage r = .executing → s.stage r' = .executing →
    (s.cron.run r).task = (s.cron.run r').task → r = r'

theorem Tracked.noOverlap {s : TickState} (tracked : Tracked s) : NoOverlap s := by
  intro r inside r' inside' on on' same
  exact tracked.alone r inside r' inside' (on ▸ nofun) (on' ▸ nofun) same

/-- Who opens the service, and who lets ticks begin. -/
structure Frame (e : TickEvent) (s t : TickState) : Prop where
  lifecycle : e.bootstraps = false →
    t.cron.lifecycleState = s.cron.lifecycleState ∨ t.cron.lifecycleState.closed = true
  started : e.schedules = false → t.cron.started = true → s.cron.started = true
  begins : s.cron.started = false →
    t.cron.runCount = s.cron.runCount ∧ ∀ r, t.stage r = .acquiring → s.stage r = .acquiring

theorem Frame.of_eq {e : TickEvent} {s t : TickState} (lifecycle : t.cron.lifecycleState = s.cron.lifecycleState)
    (started : t.cron.started = s.cron.started)
    (begins : s.cron.started = false →
      t.cron.runCount = s.cron.runCount ∧ ∀ r, t.stage r = .acquiring → s.stage r = .acquiring) : Frame e s t :=
  ⟨fun _ => .inl lifecycle, fun _ on => started ▸ on, begins⟩

theorem update_acquiring {stage : Nat → TickStage} {r r' : Nat} {new : TickStage} (goes : new ≠ .acquiring)
    (is : Function.update stage r new r' = .acquiring) : stage r' = .acquiring := by
  by_cases here : r' = r
  · subst here
    rw [Function.update_self] at is
    exact absurd is goes
  · rwa [Function.update_of_ne here] at is

theorem tickStep_frame {options : CronOptions} {s t : TickState} {e : TickEvent} (is : tickStep options s e = some t) :
    Frame e s t := by
  cases e with
  | tick h client =>
    obtain ⟨u, ticked, rfl⟩ := Option.map_eq_some_iff.mp is
    have spec := tick_spec ticked
    split
    · next i accepted =>
      rw [accepted] at spec
      obtain ⟨-, -, -, -, -, lifecycle, started⟩ := spec
      obtain ⟨-, on, -, -⟩ := acceptedTask_current accepted
      have cron := (beginRun_cron options { s with cron := u } s.cron s.cron.runCount i h client).1
      refine .of_eq ?_ ?_ fun off => absurd (on.symm.trans off) (by decide)
      · rw [cron]
        exact lifecycle
      · rw [cron]
        exact started
    · next refused =>
      rw [refused] at spec
      exact .of_eq spec.lifecycleState spec.started fun _ => ⟨spec.runCount, fun _ => id⟩
  | tickLost name client =>
    simp only [tickStep, tickLost] at is
    split at is
    · cases is
    · split at is
      · cases is
      · split at is
        · cases is
        · next j accepted =>
          cases is
          have on : s.cron.started = true := (acceptedTask_current accepted).2.1
          refine .of_eq ?_ ?_ fun off => absurd (on.symm.trans off) (by decide)
          · rw [(beginRun_cron _ _ _ _ _ _ _).1]
            rfl
          · rw [(beginRun_cron _ _ _ _ _ _ _).1]
            rfl
  | acquired r lease =>
    simp only [tickStep, acquired] at is
    split at is
    · cases is
    · split at is
      · cases is
        exact .of_eq rfl rfl fun _ => ⟨rfl, fun _ => update_acquiring (fun same => by cases same)⟩
      · cases is
        exact .of_eq rfl rfl fun _ => ⟨rfl, fun _ => update_acquiring (fun same => by cases same)⟩
  | endExecution r =>
    obtain ⟨-, is⟩ := Option.ite_none_left_eq_some.mp is
    obtain ⟨u, ended, rfl⟩ := Option.map_eq_some_iff.mp is
    unfold endExecution at ended
    dsimp only at ended
    split at ended
    · cases ended
    · cases ended
      split
      · exact .of_eq rfl rfl fun _ => ⟨rfl, fun _ => update_acquiring (fun same => by cases same)⟩
      · exact .of_eq rfl rfl fun _ => ⟨rfl, fun _ => update_acquiring (fun same => by cases same)⟩
  | leaveTick r =>
    obtain ⟨-, is⟩ := Option.ite_none_left_eq_some.mp is
    obtain ⟨u, left, rfl⟩ := Option.map_eq_some_iff.mp is
    unfold leaveTick at left
    dsimp only at left
    split at left
    · cases left
    · cases left
      exact .of_eq rfl rfl fun _ => ⟨rfl, fun _ => update_acquiring (fun same => by cases same)⟩
  | service e =>
    obtain ⟨serves, stage, -⟩ := tickStep_service is
    exact ⟨serves.lifecycle, serves.started, fun _ => ⟨serves.runCount, fun r is => stage ▸ is⟩⟩

theorem closed_step {options : CronOptions} {s t : TickState} {e : TickEvent} (is : tickStep options s e = some t)
    (other : e.bootstraps = false) (closed : s.cron.lifecycleState.closed = true) :
    t.cron.lifecycleState.closed = true ∧ t.entries = s.entries := by
  constructor
  · rcases (tickStep_frame is).lifecycle other with same | closed
    · rw [same]
      exact closed
    · exact closed
  · rcases tickStep_enters is with none | ⟨now, r, i, token, locked, enters⟩
    · exact none
    · have accepting : now.lifecycleState.closed = false := enters.guarded.accepting
      rw [enters.lifecycle, closed] at accepting
      cases accepting

theorem closed_run {options : CronOptions} {s t : TickState} {es : List TickEvent}
    (others : ∀ e ∈ es, e.bootstraps = false) (closed : s.cron.lifecycleState.closed = true)
    (reached : run (tickStep options) s es = some t) : t.entries = s.entries := by
  induction es generalizing s with
  | nil =>
    cases reached
    rfl
  | cons e rest ih =>
    obtain ⟨u, is, reached⟩ := run_cons reached
    obtain ⟨closed', same⟩ := closed_step is (others e List.mem_cons_self) closed
    exact (ih (fun e mem => others e (List.mem_cons_of_mem _ mem)) closed' reached).trans same

/-- Behind startup rollback only ticks that wait for their lock can start. -/
structure Waning (s t : TickState) : Prop where
  off : t.cron.started = false
  runCount : t.cron.runCount = s.cron.runCount
  acquiring : ∀ r, t.stage r = .acquiring → s.stage r = .acquiring
  entries : ∀ entry ∈ t.entries, entry ∈ s.entries ∨ entry.run < s.cron.runCount ∧ s.stage entry.run = .acquiring

theorem Waning.step {options : CronOptions} {s t u : TickState} {e : TickEvent} (waning : Waning s t)
    (is : tickStep options t e = some u) (other : e.schedules = false) : Waning s u := by
  have frame := tickStep_frame is
  obtain ⟨runCount, acquiring⟩ := frame.begins waning.off
  refine ⟨Bool.eq_false_iff.mpr fun on => ?_, runCount.trans waning.runCount, fun r is => waning.acquiring r (acquiring r is),
    fun entry mem => ?_⟩
  · have on := frame.started other on
    rw [waning.off] at on
    cases on
  · rcases tickStep_enters is with none | ⟨now, r, i, token, locked, enters⟩
    · exact waning.entries entry (none ▸ mem)
    · rw [enters.entries] at mem
      rcases List.mem_append.mp mem with before | here
      · exact waning.entries entry before
      · rcases enters.tick with ⟨inside, on⟩ | on
        · rw [List.mem_singleton.mp here]
          exact .inr ⟨waning.runCount ▸ inside, waning.acquiring r on⟩
        · rw [waning.off] at on
          cases on

theorem Waning.run {options : CronOptions} {s t u : TickState} {es : List TickEvent} (waning : Waning s t)
    (others : ∀ e ∈ es, e.schedules = false) (reached : run (tickStep options) t es = some u) : Waning s u := by
  induction es generalizing t with
  | nil =>
    cases reached
    exact waning
  | cons e rest ih =>
    obtain ⟨v, is, reached⟩ := run_cons reached
    exact ih (waning.step is (others e List.mem_cons_self)) (fun e mem => others e (List.mem_cons_of_mem _ mem)) reached

theorem waning_rollback {options : CronOptions} {s t : TickState} {b : Nat} {stops : Nat → Bool}
    (failing : s.cron.bootstrap b = .failing) (is : tickStep options s (.service (.settleBootstrap b stops)) = some t) :
    Waning s t := by
  obtain ⟨serves, stage, entries⟩ := tickStep_service is
  refine ⟨?_, serves.runCount, fun r is => stage ▸ is, fun entry mem => .inl (entries ▸ mem)⟩
  have made : (settleBootstrap s.cron b stops).map (fun t => { s with cron := t }) = some t := is
  obtain ⟨u, settled, rfl⟩ := Option.map_eq_some_iff.mp made
  simp only [settleBootstrap, failing] at settled
  obtain ⟨-, settled⟩ := Option.ite_none_left_eq_some.mp settled
  cases settled
  exact (still_stopAll stops s.cron.tasks.values { s.cron with lifecycleState := .failed, started := false }).started

theorem closed_shutdown {options : CronOptions} {s t : TickState} {stops : Nat → Bool}
    (first : s.cron.shutdownPromise = none) (is : tickStep options s (.service (.shutdown stops)) = some t) :
    t.cron.lifecycleState.closed = true ∧ t.entries = s.entries := by
  refine ⟨?_, (tickStep_service is).2.2⟩
  have made : (shutdown s.cron stops).map (fun t => { s with cron := t }) = some t := is
  obtain ⟨u, closed, rfl⟩ := Option.map_eq_some_iff.mp made
  simp only [shutdown, first] at closed
  cases closed
  have stopped := still_stopAll stops s.cron.tasks.values
    { s.cron with shutdownPromise := some false, lifecycleState := .stopping, started := false }
  exact (congrArg LifecycleState.closed stopped.lifecycleState).trans rfl

structure Respects (options : CronOptions) (s : TickState) : Prop where
  guarded : ∀ entry ∈ s.entries, entry.Guarded
  alone : NoOverlap s
  /-- From the first shutdown on nothing starts, until a bootstrap begins or comes to its end. -/
  shutdown : s.cron.shutdownPromise = none → ∀ stops t es u,
    tickStep options s (.service (.shutdown stops)) = some t → (∀ e ∈ es, e.bootstraps = false) →
      run (tickStep options) t es = some u → u.entries = s.entries
  /-- From the rollback of a startup on only ticks start that wait for their lock, until a bootstrap schedules again. -/
  rollback : ∀ b stops t es u, s.cron.bootstrap b = .failing →
    tickStep options s (.service (.settleBootstrap b stops)) = some t → (∀ e ∈ es, e.schedules = false) →
      run (tickStep options) t es = some u → ∀ entry ∈ u.entries, entry ∈ s.entries ∨
        entry.run < s.cron.runCount ∧ s.stage entry.run = .acquiring

/-- In every run a started execution has passed the guards of its tick, no two of one
task overlap, and behind a shutdown or a rolled-back startup nothing starts but ticks
that wait for their lock, until a later bootstrap. -/
theorem retired_work_respected (options : CronOptions) (es : List TickEvent) (s : TickState)
    (reached : run (tickStep options) .initial es = some s) : Respects options s := by
  have tracked : Tracked s := by
    refine keeps (fun _ _ _ => Tracked.step) ?_ reached
    exact ⟨nofun, nofun, nofun⟩
  have guarded : ∀ entry ∈ s.entries, entry.Guarded := by
    refine keeps (I := fun s => ∀ entry ∈ s.entries, entry.Guarded) (fun t e u guarded is entry mem => ?_) nofun reached
    rcases tickStep_enters is with none | ⟨now, r, i, token, locked, enters⟩
    · exact guarded entry (none ▸ mem)
    · rw [enters.entries] at mem
      rcases List.mem_append.mp mem with before | here
      · exact guarded entry before
      · rw [List.mem_singleton.mp here]
        exact enters.guarded
  refine ⟨guarded, tracked.noOverlap, fun first stops t es u is others reached => ?_,
    fun b stops t es u failing is others reached => ?_⟩
  · obtain ⟨closed, same⟩ := closed_shutdown first is
    exact (closed_run others closed reached).trans same
  · exact ((waning_rollback failing is).run others reached).entries

/-! ## Startup rollback -/

/-- Every execution starts under the active token of its task, before a shutdown and a rollback. -/
structure NeverRetired (s : TickState) : Prop where
  entries : ∀ entry ∈ s.entries, entry.current = true ∧ entry.shutDown = false ∧ entry.lifecycleState.closed = false ∧
    entry.lifecycleState ≠ .failed
  alone : NoOverlap s

def lockedOptions : CronOptions where
  validExpression _ := true
  distributedEnabled := true
  decorators := [⟨[97], .cron, some [42], none, true, 5000⟩, ⟨[98], .cron, some [42], none, true, 5000⟩]

/-- The second task cannot be scheduled, and the first has ticked before. -/
def rolledBackRun : List TickEvent :=
  [.service .beginBootstrap, .service (.resolveBootstrap 0 true fun i => i = 0), .tick 0 true,
    .service (.settleBootstrap 0 fun _ => true), .acquired 0 true]

theorem retired_work_respected_rolled_back :
    ∃ s, run (tickStep lockedOptions) .initial rolledBackRun = some s ∧ s.entries.length = 1 ∧ Respects lockedOptions s := by
  have reached : ((run (tickStep lockedOptions) .initial rolledBackRun).map (·.entries.length)) = some 1 := by decide
  obtain ⟨s, reached, entered⟩ := Option.map_eq_some_iff.mp reached
  exact ⟨s, reached, entered, retired_work_respected lockedOptions rolledBackRun s reached⟩

/-- A tick that gets its lock behind the rollback starts its task, whose token is gone. -/
theorem rolled_back_tick_starts :
    ¬ ∀ options es s, run (tickStep options) .initial es = some s → NeverRetired s := by
  intro always
  have reached : ((run (tickStep lockedOptions) .initial rolledBackRun).map (·.entries)) =
      some [⟨0, true, false, .failed, true, true, false⟩] := by decide
  obtain ⟨s, reached, entries⟩ := Option.map_eq_some_iff.mp reached
  have current := ((always lockedOptions rolledBackRun s reached).entries _ (entries ▸ List.mem_singleton_self _)).1
  cases current

/-- A bootstrap that goes on after a shutdown opens the service again. -/
example : ((run (tickStep plainOptions) .initial [.service (.addInterval [97] 5 false 0 true), .service .beginBootstrap,
    .service (.shutdown fun _ => true), .service .settleShutdown, .service (.resolveBootstrap 0 true fun _ => true),
    .service (.settleBootstrap 0 fun _ => true), .tick 0 false]).map (·.entries)) =
    some [⟨0, false, true, .ready, true, true, true⟩] := by decide

end Fluo.Cron
