import Fluo.Cron.Schedule

/-!
# Schedule consistency

An enabled task of a started service has one handle that can run it, in every
run whose steps are calm.
-/

namespace Fluo.Cron

open Fluo.Run

/-! ## Ticks -/

/-- A handle that has fired, or a run that is over, leaves the timeout to be completed. -/
theorem Linked.complete {s : CronState} {h : Nat} {taskName : Js.JsString} (linked : Linked s)
    (inside : h < s.handleCount) (timeout : (s.handle h).kind = .timeout) (called : (s.handle h).taskName = taskName)
    (fired : ∀ name i k, k ≠ h → s.tasks.get name = some i → (s.task i).scheduledHandle = some k →
      (s.handle k).fired = true → ∃ r < s.runCount, (s.run r).token = k ∧ (s.run r).phase ≠ .completed) :
    Sound (completeTimeoutTask s taskName h) := by
  subst called
  have completed {name : Js.JsString} {i : Nat} (at_ : s.tasks.get name = some i)
      (is : (s.task i).scheduledHandle = some h) : s.tasks.get (s.handle h).taskName = some i ∧
        (s.task i).descriptor.kind = .timeout ∧ (s.task i).activeScheduleToken = some h := by
    obtain ⟨-, own, -⟩ := (linked.tasks i).own h is
    obtain ⟨-, taskName, kind, -⟩ := linked.handles h inside
    rw [own] at taskName kind
    rw [taskName, (linked.named name i at_).2]
    exact ⟨at_, kind.symm.trans timeout, (linked.tasks i).active.trans is⟩
  unfold completeTimeoutTask
  split
  · next absent =>
    refine ⟨linked, fun name i k at_ is hasFired => fired name i k ?_ at_ is hasFired⟩
    rintro rfl
    rw [(completed at_ is).1] at absent
    cases absent
  · next i here =>
    split
    · next current =>
      have step : Local i s (s.modify i (·.finish)) := local_modify (linked.tasks i) rfl rfl (.inl rfl) rfl rfl
      refine ⟨linked.local (linked.named _ i here).1 step, fun name j k at_ is hasFired => ?_⟩
      by_cases same : j = i
      · subst same
        simp [CronState.modify, RuntimeTaskState.finish, RuntimeTaskState.unschedule] at is
      · rw [step.others j same] at is
        refine fired name j k ?_ at_ is hasFired
        rintro rfl
        have here' := (completed at_ is).1
        rw [here] at here'
        exact same (Option.some.inj here').symm
    · next other =>
      refine ⟨linked, fun name j k at_ is hasFired => fired name j k ?_ at_ is hasFired⟩
      rintro rfl
      obtain ⟨here', current⟩ := completed at_ is
      rw [here] at here'
      cases here'
      exact other current

theorem Linked.fire {s : CronState} {h : Nat} (linked : Linked s) (timeout : (s.handle h).kind = .timeout) :
    Linked { s with handle := Function.update s.handle h { s.handle h with fired := true } } := by
  have handle (k : Nat) : ∃ fired, Function.update s.handle h { s.handle h with fired := true } k =
      { s.handle k with fired := fired } ∧ (fired = true → (s.handle k).fired = true ∨ (s.handle k).kind = .timeout) := by
    by_cases same : k = h
    · subst same
      exact ⟨true, Function.update_self _ _ _, fun _ => .inr timeout⟩
    · exact ⟨(s.handle k).fired, Function.update_of_ne same _ _, .inl⟩
  refine ⟨fun i => ⟨(linked.tasks i).active, fun k is => ?_, fun k mem => ?_⟩, linked.named, fun k inside => ?_,
    fun r inside => ?_⟩
  · obtain ⟨fired, same, -⟩ := handle k
    dsimp only
    rw [same]
    exact (linked.tasks i).own k is
  · obtain ⟨fired, same, -⟩ := handle k
    dsimp only
    rw [same]
    exact (linked.tasks i).pending k mem
  · obtain ⟨fired, same, isFired⟩ := handle k
    obtain ⟨known, taskName, kind, fired'⟩ := linked.handles k inside
    dsimp only
    rw [same]
    refine ⟨known, taskName, kind, fun is => ?_⟩
    rcases isFired is with was | is
    · exact fired' was
    · exact is
  · obtain ⟨fired, same, -⟩ := handle (s.run r).token
    dsimp only
    rw [same]
    exact linked.runs r inside

theorem Linked.setPhase {s : CronState} {r : Nat} {phase : RunPhase} (linked : Linked s)
    (left : phase = .left → (s.handle (s.run r).token).kind = .timeout) : Linked (s.setPhase r phase) := by
  refine ⟨fun i => ⟨(linked.tasks i).active, (linked.tasks i).own, (linked.tasks i).pending⟩, linked.named, linked.handles,
    fun k inside => ?_⟩
  obtain ⟨token, task, left'⟩ := linked.runs k inside
  by_cases same : k = r
  · subst same
    have here : (s.setPhase k phase).run k = { s.run k with phase } := Function.update_self _ _ _
    rw [here]
    exact ⟨token, task, left⟩
  · have here : (s.setPhase r phase).run k = s.run k := Function.update_of_ne same _ _
    rw [here]
    exact ⟨token, task, left'⟩

theorem Sound.setPhase {s : CronState} {r : Nat} {phase : RunPhase} (sound : Sound s) (goes : phase ≠ .completed)
    (left : phase = .left → (s.handle (s.run r).token).kind = .timeout) : Sound (s.setPhase r phase) := by
  refine ⟨sound.toLinked.setPhase left, fun name i h at_ is fired => ?_⟩
  obtain ⟨k, inside, token, before⟩ := sound.fired name i h at_ is fired
  refine ⟨k, inside, ?_⟩
  by_cases same : k = r
  · subst same
    have here : (s.setPhase k phase).run k = { s.run k with phase } := Function.update_self _ _ _
    rw [here]
    exact ⟨token, goes⟩
  · have here : (s.setPhase r phase).run k = s.run k := Function.update_of_ne same _ _
    rw [here]
    exact ⟨token, before⟩

theorem Linked.begin {s : CronState} {h i : Nat} (linked : Linked s) (inside : h < s.handleCount)
    (own : (s.handle h).task = i)
    (fired : ∀ name i k, k ≠ h → s.tasks.get name = some i → (s.task i).scheduledHandle = some k →
      (s.handle k).fired = true → ∃ r < s.runCount, (s.run r).token = k ∧ (s.run r).phase ≠ .completed) :
    Sound { s with run := Function.update s.run s.runCount ⟨i, h, .executing⟩, runCount := s.runCount + 1 } := by
  have here : Function.update s.run s.runCount ⟨i, h, .executing⟩ s.runCount = ⟨i, h, .executing⟩ :=
    Function.update_self _ _ _
  have old (r : Nat) (before : r < s.runCount) : Function.update s.run s.runCount ⟨i, h, .executing⟩ r = s.run r :=
    Function.update_of_ne (Nat.ne_of_lt before) _ _
  refine ⟨⟨fun i => ⟨(linked.tasks i).active, (linked.tasks i).own, (linked.tasks i).pending⟩, linked.named, linked.handles,
    fun r below => ?_⟩, fun name j k at_ is hasFired => ?_⟩
  · dsimp only at below ⊢
    rcases Nat.lt_succ_iff_lt_or_eq.mp below with before | rfl
    · rw [old r before]
      exact linked.runs r before
    · rw [here]
      exact ⟨inside, own.symm, nofun⟩
  · by_cases same : k = h
    · subst same
      refine ⟨s.runCount, Nat.lt_succ_self _, ?_⟩
      dsimp only
      rw [here]
      exact ⟨rfl, nofun⟩
    · obtain ⟨r, before, token, goes⟩ := fired name j k same at_ is hasFired
      refine ⟨r, Nat.lt_succ_of_lt before, ?_⟩
      dsimp only
      rw [old r before]
      exact ⟨token, goes⟩

theorem Scheduled.complete {s : CronState} (scheduled : Scheduled s) (taskName : Js.JsString) (token : Nat) :
    Scheduled (completeTimeoutTask s taskName token) := by
  unfold completeTimeoutTask
  split
  · exact scheduled
  · next i here =>
    split
    · intro on settled name j at_ enabled
      have before := scheduled on settled name j at_
      by_cases same : j = i
      · subst same
        simp [CronState.modify, RuntimeTaskState.finish] at enabled
      · have other : (s.modify i (·.finish)).task j = s.task j := Function.update_of_ne same _ _
        rw [other] at enabled ⊢
        exact before enabled
    · exact scheduled

theorem acceptedTask_some {s : CronState} {h i : Nat} (accepted : acceptedTask s h = some i) :
    s.tasks.get (s.handle h).taskName = some i ∧ (s.task i).activeScheduleToken = some h := by
  obtain ⟨at_, current⟩ := Option.filter_eq_some_iff.mp accepted
  simp only [isTaskTickCurrent, Bool.and_eq_true, decide_eq_true_eq] at current
  exact ⟨at_, current.1.2.2⟩

/-- The timers that have fired, all but that of one handle, have a run that goes on. -/
def FiredBut (s : CronState) (h : Nat) : Prop :=
  ∀ name i k, k ≠ h → s.tasks.get name = some i → (s.task i).scheduledHandle = some k → (s.handle k).fired = true →
    ∃ r < s.runCount, (s.run r).token = k ∧ (s.run r).phase ≠ .completed

theorem accept_keeps {s : CronState} {h i : Nat} (linked : Linked s) (scheduled : Scheduled s) (fired : FiredBut s h)
    (active : (s.task i).activeScheduleToken = some h) (known : i < s.taskCount) :
    Invariant { s with
      run := Function.update s.run s.runCount ⟨i, h, .executing⟩
      runCount := s.runCount + 1
      task := Function.update s.task i { s.task i with running := true } } := by
  have step : Local i s (s.modify i ({ · with running := true })) :=
    local_modify (linked.tasks i) rfl rfl (.inr rfl) (linked.tasks i).active rfl
  have here : (s.modify i ({ · with running := true })).task i = { s.task i with running := true } :=
    Function.update_self _ _ _
  obtain ⟨inside, own, -⟩ := (linked.tasks i).own h ((linked.tasks i).active.symm.trans active)
  refine ⟨(linked.local known step).begin inside own fun name j k other at_ is hasFired => ?_, ?_⟩
  · refine fired name j k other at_ ?_ hasFired
    by_cases same : j = i
    · subst same
      rw [here] at is
      exact is
    · rw [step.others j same] at is
      exact is
  · have scheduled' : Scheduled (s.modify i ({ · with running := true })) := scheduled.local step fun _ before => by
      rw [here]
      exact before
    exact scheduled'

theorem tick_keeps {s t : CronState} {h : Nat} (inv : Invariant s) (is : tick s h = some t) : Invariant t := by
  obtain ⟨sound, scheduled⟩ := inv
  have fired : FiredBut s h := fun name i k _ => sound.fired name i k
  unfold tick at is
  dsimp only at is
  split at is
  · cases is
  · next able =>
    have inside : h < s.handleCount := by
      simp only [not_or, not_le] at able
      exact able.1
    by_cases timeout : (s.handle h).kind = .timeout
    · rw [if_pos timeout, if_pos timeout] at is
      have linked := sound.toLinked.fire timeout
      have here : Function.update s.handle h { s.handle h with fired := true } h = { s.handle h with fired := true } :=
        Function.update_self _ _ _
      have fired' : FiredBut { s with handle := Function.update s.handle h { s.handle h with fired := true } } h := by
        intro name i k other at_ scheduled hasFired
        dsimp only at hasFired
        rw [Function.update_of_ne other] at hasFired
        exact fired name i k other at_ scheduled hasFired
      have scheduled' : Scheduled { s with handle := Function.update s.handle h { s.handle h with fired := true } } :=
        scheduled
      split at is
      · next i accepted =>
        obtain ⟨at_, active⟩ := acceptedTask_some accepted
        cases is
        exact accept_keeps linked scheduled fired' active (sound.named _ i at_).1
      · cases is
        exact ⟨linked.complete inside ((congrArg (·.kind) here).trans timeout) (congrArg (·.taskName) here) fired',
          scheduled'.complete _ _⟩
    · rw [if_neg timeout, if_neg timeout] at is
      split at is
      · next i accepted =>
        obtain ⟨at_, active⟩ := acceptedTask_some accepted
        cases is
        exact accept_keeps sound.toLinked scheduled fired active (sound.named _ i at_).1
      · cases is
        exact ⟨sound, scheduled⟩

theorem run_known {s : CronState} {r : Nat} (sound : Sound s) (inside : r < s.runCount) : (s.run r).task < s.taskCount := by
  obtain ⟨token, task, -⟩ := sound.runs r inside
  rw [task]
  exact (sound.handles _ token).1

theorem endExecution_keeps {s t : CronState} {r : Nat} (inv : Invariant s) (is : endExecution s r = some t) :
    Invariant t := by
  unfold endExecution at is
  split at is
  · cases is
  · next able =>
    cases is
    have sound : Sound (s.setPhase r .executed) := inv.sound.setPhase nofun nofun
    have known : (s.run r).task < s.taskCount := run_known inv.sound (by omega)
    split
    · have step : Local (s.run r).task (s.setPhase r .executed) ((s.setPhase r .executed).modify (s.run r).task (·.finish)) :=
        local_modify (sound.tasks _) rfl rfl (.inl rfl) rfl rfl
      have scheduled : Scheduled (s.setPhase r .executed) := inv.scheduled
      refine ⟨sound.local known step, scheduled.local step fun _ _ enabled => ?_⟩
      simp [CronState.modify, RuntimeTaskState.finish] at enabled
    · exact ⟨sound, inv.scheduled⟩

theorem leaveTick_keeps {s t : CronState} {r : Nat} (inv : Invariant s) (is : leaveTick s r = some t) : Invariant t := by
  unfold leaveTick at is
  dsimp only at is
  split at is
  · cases is
  · next able =>
    cases is
    have inside : r < s.runCount := by omega
    have known := run_known inv.sound inside
    obtain ⟨token, -⟩ := inv.sound.runs r inside
    generalize phaseIs : (if (s.handle (s.run r).token).kind = .timeout then RunPhase.left else .completed) = phase
    have sound : Sound (s.setPhase r phase) := by
      by_cases timeout : (s.handle (s.run r).token).kind = .timeout
      · rw [if_pos timeout] at phaseIs
        exact inv.sound.setPhase (phaseIs ▸ nofun) fun _ => timeout
      · rw [if_neg timeout] at phaseIs
        refine ⟨inv.sound.toLinked.setPhase (phaseIs ▸ nofun), fun name i h at_ is fired => ?_⟩
        obtain ⟨k, inside', token', goes⟩ := inv.sound.fired name i h at_ is fired
        have other : k ≠ r := by
          rintro rfl
          rw [token'] at timeout token
          exact timeout ((inv.sound.handles h token).2.2.2 fired)
        have here : (s.setPhase r phase).run k = s.run k := Function.update_of_ne other _ _
        refine ⟨k, inside', ?_⟩
        rw [here]
        exact ⟨token', goes⟩
    have step : Local (s.run r).task (s.setPhase r phase) ((s.setPhase r phase).modify (s.run r).task ({ · with running := false })) :=
      local_modify (sound.tasks _) rfl rfl (.inr rfl) (sound.tasks _).active rfl
    have scheduled : Scheduled (s.setPhase r phase) := inv.scheduled
    refine ⟨sound.local known step, scheduled.local step fun _ before => ?_⟩
    simpa [CronState.modify] using before

theorem completeRun_keeps {s t : CronState} {r : Nat} (inv : Invariant s) (is : completeRun s r = some t) : Invariant t := by
  unfold completeRun at is
  dsimp only at is
  split at is
  · cases is
  · next able =>
    cases is
    simp only [not_or, not_le, ne_eq, not_not] at able
    obtain ⟨inside, left⟩ := able
    obtain ⟨token, -, timeout⟩ := inv.sound.runs r inside
    have scheduled : Scheduled (s.setPhase r .completed) := inv.scheduled
    have linked : Linked (s.setPhase r .completed) := inv.sound.toLinked.setPhase nofun
    refine ⟨linked.complete token (timeout left) rfl fun name i h other at_ is fired => ?_,
      scheduled.complete _ _⟩
    obtain ⟨k, inside', token', goes⟩ := inv.sound.fired name i h at_ is fired
    have another : k ≠ r := by
      rintro rfl
      exact other token'.symm
    have here : (s.setPhase r .completed).run k = s.run k := Function.update_of_ne another _ _
    refine ⟨k, inside', ?_⟩
    rw [here]
    exact ⟨token', goes⟩

/-! ## Bootstrap and shutdown -/

theorem stopAll_started {s : CronState} (stops : Nat → Bool) (sound : Sound s) (off : s.started = false) :
    Invariant (stopAllScheduledTasks s stops).2 ∧ (stopAllScheduledTasks s stops).2.started = false := by
  obtain ⟨sound', started, -⟩ := stopAll_keeps stops s.tasks.values sound sound.values
  rw [off] at started
  refine ⟨⟨sound', fun on => ?_⟩, started⟩
  rw [stopAllScheduledTasks, started] at on
  cases on

theorem beginBootstrap_keeps {s : CronState} (inv : Invariant s) : Invariant (beginBootstrap s) := by
  unfold beginBootstrap
  split
  · exact inv
  · next off => exact ⟨inv.sound.congr rfl rfl (fun _ _ => id) rfl rfl rfl rfl, fun on => absurd on off⟩

/-- A bootstrap that goes on leaves the schedules, unless it hides one that has thrown. -/
theorem Scheduled.setBootstrap {s : CronState} {b : Nat} {phase : Bootstrap} (scheduled : Scheduled s)
    (before : s.bootstrap b ≠ .failing) : Scheduled (s.setBootstrap b phase) := by
  intro on settled
  refine scheduled on fun k inside => ?_
  by_cases same : k = b
  · rw [same]
    exact before
  · have here : (s.setBootstrap b phase).bootstrap k = s.bootstrap k := Function.update_of_ne same _ _
    exact here ▸ settled k inside

theorem Sound.setBootstrap {s : CronState} (sound : Sound s) (b : Nat) (phase : Bootstrap) : Sound (s.setBootstrap b phase) :=
  sound.congr rfl rfl (fun _ _ => id) rfl rfl rfl rfl

theorem Scheduled.failing {s : CronState} {b : Nat} (inside : b < s.bootstrapCount) :
    Scheduled (s.setBootstrap b .failing) := by
  intro _ settled
  exact absurd (Function.update_self b _ _) (settled b inside)

theorem startLifecycle_keeps (options : CronOptions) {s : CronState} (creates : Nat → Bool) (inv : Invariant s) :
    let result := startLifecycle options s creates
    Sound result.2 ∧ result.2.bootstrap = s.bootstrap ∧ result.2.bootstrapCount = s.bootstrapCount ∧
      (result.1 = true → Scheduled result.2) := by
  obtain ⟨sound, bootstrap, bootstrapCount⟩ := registerAll_keeps options creates options.decorators inv.sound
  unfold startLifecycle
  split
  · next t registered =>
    rw [registered] at sound bootstrap bootstrapCount
    exact ⟨sound, bootstrap, bootstrapCount, nofun⟩
  · next t registered =>
    rw [registered] at sound bootstrap bootstrapCount
    have sound' : Sound { t with started := true } := sound.congr rfl rfl (fun _ _ => id) rfl rfl rfl rfl
    obtain ⟨sound'', tasks, bootstrap', bootstrapCount', scheduled⟩ :=
      scheduleAll_keeps creates t.tasks.values sound' sound.values
    refine ⟨sound'', bootstrap'.trans bootstrap, bootstrapCount'.trans bootstrapCount, fun all _ _ name i at_ enabled => ?_⟩
    obtain ⟨enabled', -, reached⟩ := scheduled i
    rw [enabled'] at enabled
    rw [tasks] at at_
    exact reached all (OrderedMap.mem_values.mpr ⟨name, at_⟩) enabled

theorem resolveBootstrap_keeps {options : CronOptions} {s t : CronState} {b : Nat} {resolves : Bool} {creates : Nat → Bool}
    (inv : Invariant s) (is : resolveBootstrap options s b resolves creates = some t) : Invariant t := by
  obtain ⟨sound, bootstrap, bootstrapCount, scheduled⟩ := startLifecycle_keeps options creates inv
  unfold resolveBootstrap at is
  split at is
  · cases is
  · next able =>
    simp only [not_or, not_le, ne_eq, not_not] at able
    obtain ⟨inside, resolving⟩ := able
    split at is
    · split at is
      · next started =>
        rw [started] at sound bootstrap scheduled
        cases is
        refine ⟨sound.setBootstrap b _, (scheduled rfl).setBootstrap ?_⟩
        rw [bootstrap, resolving]
        nofun
      · next started =>
        rw [started] at sound bootstrapCount
        cases is
        exact ⟨sound.setBootstrap b _, Scheduled.failing (bootstrapCount ▸ inside)⟩
    · cases is
      exact ⟨inv.sound.setBootstrap b _, Scheduled.failing inside⟩

theorem settleBootstrap_keeps {s t : CronState} {b : Nat} {stops : Nat → Bool} (inv : Invariant s)
    (is : settleBootstrap s b stops = some t) : Invariant t := by
  unfold settleBootstrap at is
  split at is
  · cases is
  · split at is
    · next succeeded =>
      cases is
      have scheduled : Scheduled (s.setBootstrap b .settled) := inv.scheduled.setBootstrap (succeeded ▸ nofun)
      exact ⟨inv.sound.congr rfl rfl (fun _ _ => id) rfl rfl rfl rfl, scheduled⟩
    · cases is
      have sound : Sound { s with lifecycleState := .failed, started := false } :=
        inv.sound.congr rfl rfl (fun _ _ => id) rfl rfl rfl rfl
      obtain ⟨⟨sound', -⟩, off⟩ := stopAll_started stops sound rfl
      exact ⟨sound'.setBootstrap b _, fun on => absurd (off.symm.trans on) nofun⟩
    · cases is
      exact ⟨inv.sound.congr rfl rfl nofun rfl rfl rfl rfl, nofun⟩
    · next cleaning =>
      cases is
      exact ⟨inv.sound.setBootstrap b _, inv.scheduled.setBootstrap (cleaning ▸ nofun)⟩
    · cases is
    · cases is

theorem shutdown_keeps {s t : CronState} {stops : Nat → Bool} (inv : Invariant s)
    (first : s.shutdownPromise = some true → s.started = false) (is : shutdown s stops = some t) : Invariant t := by
  unfold shutdown at is
  split at is
  · cases is
    have sound : Sound { s with shutdownPromise := some false, lifecycleState := .stopping, started := false } :=
      inv.sound.congr rfl rfl (fun _ _ => id) rfl rfl rfl rfl
    exact (stopAll_started stops sound rfl).1
  · cases is
  · next done =>
    cases is
    exact (stopAll_started stops inv.sound (first done)).1

theorem settleShutdown_keeps {s t : CronState} (inv : Invariant s) (is : settleShutdown s = some t) : Invariant t := by
  unfold settleShutdown at is
  split at is
  · cases is
    have scheduled : Scheduled { s with shutdownPromise := some true, lifecycleState := .stopped } := inv.scheduled
    exact ⟨inv.sound.congr rfl rfl (fun _ _ => id) rfl rfl rfl rfl, scheduled⟩
  · cases is

/-! ## Runs -/

/-- A step that does not reach one of the paths that forget the schedule: the end of the execution of a timeout finds
its own token or none, a removal stops all handles or not the scheduled one, and a repeated shutdown finds the service
stopped. -/
def Calm (s : CronState) : CronEvent → Prop
  | .endExecution r =>
    (s.task (s.run r).task).descriptor.kind = .timeout →
      (s.task (s.run r).task).activeScheduleToken = none ∨
        (s.task (s.run r).task).activeScheduleToken = some (s.run r).token
  | .remove name stops => StopsWhole s name stops
  | .shutdown _ => s.shutdownPromise = some true → s.started = false
  | _ => True

theorem step_keeps {options : CronOptions} {s t : CronState} {e : CronEvent} (calm : Calm s e) (inv : Invariant s)
    (is : step options s e = some t) : Invariant t := by
  cases e with
  | addCron => cases is; exact addCron_keeps inv
  | addInterval => cases is; exact addInterval_keeps inv
  | addTimeout => cases is; exact addTimeout_keeps inv
  | remove => cases is; exact remove_keeps inv calm
  | enable => cases is; exact enable_keeps inv
  | disable => cases is; exact disable_keeps inv
  | updateCronExpression => cases is; exact (updateCronExpression_keeps inv).1
  | updateIntervalMs => cases is; exact (updateIntervalMs_keeps inv).1
  | tick => exact tick_keeps inv is
  | endExecution => exact endExecution_keeps inv is
  | leaveTick => exact leaveTick_keeps inv is
  | completeRun => exact completeRun_keeps inv is
  | beginBootstrap => cases is; exact beginBootstrap_keeps inv
  | resolveBootstrap => exact resolveBootstrap_keeps inv is
  | settleBootstrap => exact settleBootstrap_keeps inv is
  | shutdown => exact shutdown_keeps inv calm is
  | settleShutdown => exact settleShutdown_keeps inv is

theorem invariant_initial : Invariant initial :=
  ⟨⟨⟨fun _ => ⟨rfl, nofun, nofun⟩, nofun, nofun, nofun⟩, nofun⟩, nofun⟩

/-- The one handle of an enabled task. A timer that has fired has its run under way. -/
structure Held (s : CronState) (i h : Nat) : Prop where
  scheduled : (s.task i).scheduledHandle = some h
  active : (s.task i).activeScheduleToken = some h
  own : h < s.handleCount ∧ (s.handle h).task = i
  unstopped : (s.handle h).stopped = false
  kept : h ∉ (s.task i).pendingStopHandles
  goes : (s.handle h).fired = true → (s.handle h).kind = .timeout ∧
    ∃ r < s.runCount, (s.run r).token = h ∧ (s.run r).task = i ∧ (s.run r).phase ≠ .completed

structure Consistent (s : CronState) : Prop where
  enabled : s.started = true → Settled s → ∀ name i, s.tasks.get name = some i → (s.task i).enabled = true →
    ∃ h, Held s i h
  others : ∀ h < s.handleCount, (s.task (s.handle h).task).scheduledHandle ≠ some h →
    (s.handle h).stopped = true ∨ h ∈ (s.task (s.handle h).task).pendingStopHandles ∨ acceptedTask s h = none

/-- An update that throws leaves the schedules, and a completion those of other tokens. -/
def Faithful (options : CronOptions) (s t : CronState) : CronEvent → Prop
  | .updateCronExpression name expression creates stops =>
    (updateCronExpression options s name expression creates stops).1 = true → Untouched s t
  | .updateIntervalMs name ms creates stops => (updateIntervalMs s name ms creates stops).1 = true → Untouched s t
  | .tick h => ∀ i token, (s.task i).activeScheduleToken = some token → token ≠ h → t.task i = s.task i
  | .endExecution r | .completeRun r =>
    ∀ i token, (s.task i).activeScheduleToken = some token → token ≠ (s.run r).token → t.task i = s.task i
  | _ => True

theorem Invariant.consistent {s : CronState} (inv : Invariant s) : Consistent s := by
  obtain ⟨sound, scheduled⟩ := inv
  refine ⟨fun on settled name i at_ enabled => ?_, fun h inside other => .inr (.inr ?_)⟩
  · obtain ⟨h, is⟩ := Option.ne_none_iff_exists'.mp (scheduled on settled name i at_ enabled)
    obtain ⟨inside, own, unstopped⟩ := (sound.tasks i).own h is
    refine ⟨h, is, (sound.tasks i).active.trans is, ⟨inside, own⟩, unstopped,
      fun mem => ((sound.tasks i).pending h mem).2.2 is, fun fired => ⟨(sound.handles h inside).2.2.2 fired, ?_⟩⟩
    obtain ⟨r, below, token, goes⟩ := sound.fired name i h at_ is fired
    refine ⟨r, below, token, ?_, goes⟩
    rw [(sound.runs r below).2.1, token, own]
  · refine Option.eq_none_iff_forall_ne_some.mpr fun i accepted => other ?_
    have is := (sound.tasks i).active.symm.trans (acceptedTask_some accepted).2
    rw [((sound.tasks i).own h is).2.1]
    exact is

theorem completeTimeoutTask_other {s : CronState} {taskName : Js.JsString} {token i token' : Nat}
    (active : (s.task i).activeScheduleToken = some token') (other : token' ≠ token) :
    (completeTimeoutTask s taskName token).task i = s.task i := by
  unfold completeTimeoutTask
  split
  · rfl
  · next j here =>
    split
    · next current =>
      refine Function.update_of_ne ?_ _ _
      rintro rfl
      rw [active] at current
      exact other (Option.some.inj current.2)
    · rfl

theorem tick_other {s t : CronState} {h i token : Nat} (is : tick s h = some t)
    (active : (s.task i).activeScheduleToken = some token) (other : token ≠ h) : t.task i = s.task i := by
  unfold tick at is
  dsimp only at is
  split at is
  · cases is
  · split at is
    · next j accepted =>
      cases is
      refine Function.update_of_ne ?_ _ _
      rintro rfl
      rw [(acceptedTask_some accepted).2] at active
      exact other (Option.some.inj active).symm
    · cases is
      split
      · exact completeTimeoutTask_other (s := { s with handle := _ }) active other
      · rfl

theorem endExecution_other {s t : CronState} {r i token : Nat} (calm : Calm s (.endExecution r))
    (is : endExecution s r = some t) (active : (s.task i).activeScheduleToken = some token)
    (other : token ≠ (s.run r).token) : t.task i = s.task i := by
  unfold endExecution at is
  dsimp only at is
  split at is
  · cases is
  · cases is
    split
    · next timeout =>
      refine Function.update_of_ne ?_ _ _
      rintro rfl
      rcases calm timeout with none | own
      · rw [none] at active
        cases active
      · rw [own] at active
        exact other (Option.some.inj active).symm
    · rfl

theorem completeRun_other {s t : CronState} {r i token : Nat} (is : completeRun s r = some t)
    (active : (s.task i).activeScheduleToken = some token) (other : token ≠ (s.run r).token) : t.task i = s.task i := by
  unfold completeRun at is
  dsimp only at is
  split at is
  · cases is
  · cases is
    exact completeTimeoutTask_other (s := s.setPhase r .completed) active other

theorem faithful_step {options : CronOptions} {s t : CronState} {e : CronEvent} (calm : Calm s e) (inv : Invariant s)
    (is : step options s e = some t) : Faithful options s t e := by
  cases e with
  | updateCronExpression => cases is; exact (updateCronExpression_keeps inv).2
  | updateIntervalMs => cases is; exact (updateIntervalMs_keeps inv).2
  | tick h => exact fun i token active other => tick_other is active other
  | endExecution r => exact fun i token active other => endExecution_other calm is active other
  | completeRun r => exact fun i token active other => completeRun_other is active other
  | _ => trivial

/-- In a calm run every enabled task of the started service has one live handle, under its active token, whatever
creations and stops fail, and the next calm step is faithful. -/
theorem calm_runs_consistent (options : CronOptions) (es : List CronEvent) (s : CronState)
    (calm : Throughout (step options) Calm initial es) (reached : run (step options) initial es = some s) :
    Consistent s ∧ ∀ e t, Calm s e → step options s e = some t → Faithful options s t e := by
  have inv : Invariant s := keeps_throughout (fun s e t => step_keeps) invariant_initial calm reached
  exact ⟨inv.consistent, fun e t calm is => faithful_step calm inv is⟩

def plainOptions : CronOptions := ⟨fun _ => true, false, []⟩

/-- A timeout that is disabled and enabled again while it runs. -/
def rescheduledRun : List CronEvent :=
  [.addTimeout [97] 5 false 0 true, .beginBootstrap, .resolveBootstrap 0 true fun _ => true,
    .settleBootstrap 0 fun _ => true, .tick 0, .disable [97] fun _ => true, .enable [97] true]

theorem calm_runs_consistent_rescheduled :
    ∃ s, run (step plainOptions) initial rescheduledRun = some s ∧ s.started = true ∧ Consistent s ∧
      ∀ e t, Calm s e → step plainOptions s e = some t → Faithful plainOptions s t e := by
  have reached : ((run (step plainOptions) initial rescheduledRun).map (·.started)) = some true := by decide
  obtain ⟨s, reached, started⟩ := Option.map_eq_some_iff.mp reached
  exact ⟨s, reached, started, calm_runs_consistent plainOptions rescheduledRun s (by simp [rescheduledRun, Throughout, Calm])
    reached⟩

/-- The end of the first execution disables the schedule that replaced it. -/
theorem rescheduled_timeout_forgotten :
    ¬ ∀ options es s, run (step options) initial es = some s →
      Consistent s ∧ ∀ e t, step options s e = some t → Faithful options s t e := by
  intro always
  have reached : ((run (step plainOptions) initial rescheduledRun).bind fun s =>
      (step plainOptions s (.endExecution 0)).map fun t =>
        ((s.task 0).activeScheduleToken, (s.run 0).token, (s.task 0).enabled, (t.task 0).enabled)) =
      some (some 1, 0, true, false) := by decide
  obtain ⟨s, reached, ended⟩ := Option.bind_eq_some_iff.mp reached
  obtain ⟨t, ended, facts⟩ := Option.map_eq_some_iff.mp ended
  simp only [Prod.mk.injEq] at facts
  obtain ⟨active, token, before, after⟩ := facts
  have same := (always plainOptions rescheduledRun s reached).2 (.endExecution 0) t ended 0 1 active (by rw [token]; decide)
  rw [same, before] at after
  cases after

/-- A removal that cannot stop a pending handle leaves an enabled task without a handle. -/
example : (run (step plainOptions) initial [.addInterval [97] 5 false 0 true, .beginBootstrap,
    .resolveBootstrap 0 true fun _ => true, .settleBootstrap 0 fun _ => true,
    .updateIntervalMs [97] 7 true fun _ => false, .remove [97] fun h => h = 0]).map (fun s =>
      (s.started, s.tasks.get [97], (s.task 0).enabled, (s.task 0).scheduledHandle)) =
    some (true, some 0, true, none) := by decide

/-- So does a repeated shutdown of a service that a late bootstrap has started. -/
example : (run (step plainOptions) initial [.addInterval [97] 5 false 0 true, .beginBootstrap, .shutdown fun _ => true,
    .settleShutdown, .resolveBootstrap 0 true fun _ => true, .settleBootstrap 0 fun _ => true,
    .shutdown fun _ => true]).map (fun s =>
      (s.started, s.tasks.get [97], (s.task 0).enabled, (s.task 0).scheduledHandle)) =
    some (true, some 0, true, none) := by decide

end Fluo.Cron
