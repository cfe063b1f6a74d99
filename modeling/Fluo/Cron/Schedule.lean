import Fluo.Cron.Service

/-!
# Schedules

What a task says of its handles, and that the registry operations keep it
whatever creations and stops fail.
-/

namespace Fluo.Cron

open Fluo.Run

structure TaskSound (s : CronState) (i : Nat) : Prop where
  active : (s.task i).activeScheduleToken = (s.task i).scheduledHandle
  own : ∀ h, (s.task i).scheduledHandle = some h →
    h < s.handleCount ∧ (s.handle h).task = i ∧ (s.handle h).stopped = false
  pending : ∀ h ∈ (s.task i).pendingStopHandles,
    h < s.handleCount ∧ (s.handle h).task = i ∧ (s.task i).scheduledHandle ≠ some h

structure Linked (s : CronState) : Prop where
  tasks : ∀ i, TaskSound s i
  named : ∀ name i, s.tasks.get name = some i → i < s.taskCount ∧ (s.task i).descriptor.taskName = name
  handles : ∀ h < s.handleCount, (s.handle h).task < s.taskCount ∧
    (s.handle h).taskName = (s.task (s.handle h).task).descriptor.taskName ∧
    (s.handle h).kind = (s.task (s.handle h).task).descriptor.kind ∧
    ((s.handle h).fired = true → (s.handle h).kind = .timeout)
  runs : ∀ r < s.runCount, (s.run r).token < s.handleCount ∧ (s.run r).task = (s.handle (s.run r).token).task ∧
    ((s.run r).phase = .left → (s.handle (s.run r).token).kind = .timeout)

structure Sound (s : CronState) : Prop extends Linked s where
  /-- The timer of a scheduled timeout has fired only for a run that goes on. -/
  fired : ∀ name i h, s.tasks.get name = some i → (s.task i).scheduledHandle = some h → (s.handle h).fired = true →
    ∃ r < s.runCount, (s.run r).token = h ∧ (s.run r).phase ≠ .completed

/-- A step that concerns one task and the handles that are its own. -/
structure Local (i : Nat) (s t : CronState) : Prop where
  frame : t.tasks = s.tasks ∧ t.taskCount = s.taskCount ∧ t.run = s.run ∧ t.runCount = s.runCount ∧
    t.started = s.started ∧ t.bootstrap = s.bootstrap ∧ t.bootstrapCount = s.bootstrapCount
  others : ∀ j, j ≠ i → t.task j = s.task j
  name : (t.task i).descriptor.taskName = (s.task i).descriptor.taskName
  kind : (t.task i).descriptor.kind = (s.task i).descriptor.kind
  grows : s.handleCount ≤ t.handleCount
  old : ∀ h < s.handleCount, t.handle h = s.handle h ∨
    (s.handle h).task = i ∧ t.handle h = { s.handle h with stopped := true }
  new : ∀ h, s.handleCount ≤ h → h < t.handleCount → ∃ stopped,
    t.handle h = ⟨i, (s.task i).descriptor.taskName, (s.task i).descriptor.kind, stopped, false⟩
  sound : TaskSound t i
  kept : ∀ h, (t.task i).scheduledHandle = some h → (s.task i).scheduledHandle = some h ∨ s.handleCount ≤ h

theorem Local.handle {i : Nat} {s t : CronState} (step : Local i s t) {h : Nat} (inside : h < s.handleCount) :
    (t.handle h).task = (s.handle h).task ∧ (t.handle h).taskName = (s.handle h).taskName ∧
      (t.handle h).kind = (s.handle h).kind ∧ (t.handle h).fired = (s.handle h).fired ∧
      ((s.handle h).task ≠ i → (t.handle h).stopped = (s.handle h).stopped) := by
  rcases step.old h inside with same | ⟨own, same⟩
  · rw [same]
    exact ⟨rfl, rfl, rfl, rfl, fun _ => rfl⟩
  · rw [same]
    exact ⟨rfl, rfl, rfl, rfl, fun other => absurd own other⟩

theorem Linked.local {s t : CronState} {i : Nat} (linked : Linked s) (known : i < s.taskCount) (step : Local i s t) :
    Linked t := by
  obtain ⟨tasks, taskCount, run, runCount, -⟩ := step.frame
  have descriptor (j : Nat) : (t.task j).descriptor.taskName = (s.task j).descriptor.taskName ∧
      (t.task j).descriptor.kind = (s.task j).descriptor.kind := by
    by_cases here : j = i
    · rw [here]
      exact ⟨step.name, step.kind⟩
    · rw [step.others j here]
      exact ⟨rfl, rfl⟩
  refine ⟨fun j => ?_, fun name j at_ => ?_, fun h inside => ?_, fun r inside => ?_⟩
  · by_cases here : j = i
    · exact here ▸ step.sound
    · have old := linked.tasks j
      refine ⟨?_, fun h scheduled => ?_, fun h pending => ?_⟩
      · rw [step.others j here, old.active]
      · rw [step.others j here] at scheduled
        obtain ⟨inside, task, unstopped⟩ := old.own h scheduled
        obtain ⟨task', -, -, -, stopped⟩ := step.handle inside
        exact ⟨Nat.lt_of_lt_of_le inside step.grows, task'.trans task, (stopped (task ▸ here)).trans unstopped⟩
      · rw [step.others j here] at pending ⊢
        obtain ⟨inside, task, other⟩ := old.pending h pending
        exact ⟨Nat.lt_of_lt_of_le inside step.grows, (step.handle inside).1.trans task, other⟩
  · rw [tasks] at at_
    rw [taskCount, (descriptor j).1]
    exact linked.named name j at_
  · by_cases old : h < s.handleCount
    · obtain ⟨task, taskName, kind, fired, -⟩ := step.handle old
      obtain ⟨below, name', kind', fired'⟩ := linked.handles h old
      rw [task, taskName, kind, fired, taskCount, (descriptor _).1, (descriptor _).2]
      exact ⟨below, name', kind', fired'⟩
    · obtain ⟨stopped, made⟩ := step.new h (Nat.le_of_not_lt old) inside
      rw [made, taskCount, step.name, step.kind]
      exact ⟨known, rfl, rfl, nofun⟩
  · rw [runCount] at inside
    rw [run]
    obtain ⟨token, task, left⟩ := linked.runs r inside
    exact ⟨Nat.lt_of_lt_of_le token step.grows, task.trans (step.handle token).1.symm,
      fun is => (step.handle token).2.2.1.trans (left is)⟩

theorem Sound.local {s t : CronState} {i : Nat} (sound : Sound s) (known : i < s.taskCount) (step : Local i s t) :
    Sound t := by
  obtain ⟨tasks, -, run, runCount, -⟩ := step.frame
  refine ⟨sound.toLinked.local known step, fun name j h at_ scheduled fired => ?_⟩
  rw [tasks] at at_
  rw [run, runCount]
  by_cases here : j = i
  · subst here
    rcases step.kept h scheduled with before | new
    · have inside := ((sound.tasks j).own h before).1
      rw [(step.handle inside).2.2.2.1] at fired
      exact sound.fired name j h at_ before fired
    · obtain ⟨stopped, made⟩ := step.new h new (step.sound.own h scheduled).1
      rw [made] at fired
      cases fired
  · rw [step.others j here] at scheduled
    have inside := ((sound.tasks j).own h scheduled).1
    rw [(step.handle inside).2.2.2.1] at fired
    exact sound.fired name j h at_ scheduled fired

/-! ## The steps of one task -/

theorem Local.refl {s : CronState} {i : Nat} (sound : TaskSound s i) : Local i s s where
  frame := ⟨rfl, rfl, rfl, rfl, rfl, rfl, rfl⟩
  others _ _ := rfl
  name := rfl
  kind := rfl
  grows := Nat.le_refl _
  old _ _ := .inl rfl
  new _ above below := absurd below (Nat.not_lt.mpr above)
  sound := sound
  kept _ is := .inl is

theorem Local.trans {s t u : CronState} {i : Nat} (first : Local i s t) (second : Local i t u) : Local i s u where
  frame := by
    obtain ⟨tasks, taskCount, run, runCount, started, bootstrap, bootstrapCount⟩ := second.frame
    rw [tasks, taskCount, run, runCount, started, bootstrap, bootstrapCount]
    exact first.frame
  others j other := (second.others j other).trans (first.others j other)
  name := second.name.trans first.name
  kind := second.kind.trans first.kind
  grows := Nat.le_trans first.grows second.grows
  old h inside := by
    have inside' := Nat.lt_of_lt_of_le inside first.grows
    rcases first.old h inside with same | ⟨own, stopped⟩
    · rcases second.old h inside' with same' | ⟨own', stopped'⟩
      · exact .inl (same'.trans same)
      · rw [same] at own' stopped'
        exact .inr ⟨own', stopped'⟩
    · refine .inr ⟨own, ?_⟩
      rcases second.old h inside' with same' | ⟨-, stopped'⟩
      · exact same'.trans stopped
      · rw [stopped', stopped]
  new h above below := by
    by_cases inside : h < t.handleCount
    · obtain ⟨stopped, made⟩ := first.new h above inside
      rcases second.old h inside with same | ⟨-, same⟩
      · exact ⟨stopped, same.trans made⟩
      · exact ⟨true, by rw [same, made]⟩
    · obtain ⟨stopped, made⟩ := second.new h (Nat.le_of_not_lt inside) below
      exact ⟨stopped, by rw [made, first.name, first.kind]⟩
  sound := second.sound
  kept h is := by
    rcases second.kept h is with before | new
    · exact first.kept h before
    · exact .inr (Nat.le_trans first.grows new)

/-- A change that keeps the schedule of a task, or takes it away. -/
theorem local_modify {s : CronState} {i : Nat} (sound : TaskSound s i) {f : RuntimeTaskState → RuntimeTaskState}
    (name : (f (s.task i)).descriptor.taskName = (s.task i).descriptor.taskName)
    (kind : (f (s.task i)).descriptor.kind = (s.task i).descriptor.kind)
    (scheduled : (f (s.task i)).scheduledHandle = none ∨ (f (s.task i)).scheduledHandle = (s.task i).scheduledHandle)
    (active : (f (s.task i)).activeScheduleToken = (f (s.task i)).scheduledHandle)
    (pending : (f (s.task i)).pendingStopHandles = (s.task i).pendingStopHandles) : Local i s (s.modify i f) := by
  have here : (s.modify i f).task i = f (s.task i) := Function.update_self i _ _
  refine ⟨⟨rfl, rfl, rfl, rfl, rfl, rfl, rfl⟩, fun j other => Function.update_of_ne other _ _, by rw [here, name], by rw [here, kind],
    Nat.le_refl _, fun h inside => .inl rfl, fun h above below => absurd below (Nat.not_lt.mpr above),
    ⟨by rw [here, active], ?_, ?_⟩, fun h kept => ?_⟩
  · rw [here]
    rcases scheduled with none | same
    · rw [none]
      nofun
    · rw [same]
      exact sound.own
  · rw [here, pending]
    intro h mem
    obtain ⟨inside, task, other⟩ := sound.pending h mem
    refine ⟨inside, task, ?_⟩
    rcases scheduled with none | same
    · rw [none]
      nofun
    · rw [same]
      exact other
  · rw [here] at kept
    rcases scheduled with none | same
    · rw [none] at kept
      cases kept
    · exact .inl (same ▸ kept)

theorem createScheduledHandle_some {s t : CronState} {i : Nat} {creates : Bool}
    (h : createScheduledHandle s i creates = some t) :
    t = { s with
      handle := Function.update s.handle s.handleCount
        ⟨i, (s.task i).descriptor.taskName, (s.task i).descriptor.kind, false, false⟩
      handleCount := s.handleCount + 1 } := by
  unfold createScheduledHandle at h
  dsimp only at h
  rw [Option.ite_none_right_eq_some] at h
  exact (Option.some.inj h.2).symm

/-- A new handle is scheduled, and handles of the task may be stopped. -/
theorem local_schedule {s t : CronState} {i : Nat} (sound : TaskSound s i)
    (frame : t.tasks = s.tasks ∧ t.taskCount = s.taskCount ∧ t.run = s.run ∧ t.runCount = s.runCount ∧
      t.started = s.started ∧ t.bootstrap = s.bootstrap ∧ t.bootstrapCount = s.bootstrapCount)
    (others : ∀ j, j ≠ i → t.task j = s.task j)
    (name : (t.task i).descriptor.taskName = (s.task i).descriptor.taskName)
    (kind : (t.task i).descriptor.kind = (s.task i).descriptor.kind)
    (scheduled : (t.task i).scheduledHandle = some s.handleCount)
    (active : (t.task i).activeScheduleToken = some s.handleCount)
    (pending : (t.task i).pendingStopHandles = (s.task i).pendingStopHandles) (count : t.handleCount = s.handleCount + 1)
    (old : ∀ h < s.handleCount, t.handle h = s.handle h ∨
      (s.handle h).task = i ∧ t.handle h = { s.handle h with stopped := true })
    (new : t.handle s.handleCount = ⟨i, (s.task i).descriptor.taskName, (s.task i).descriptor.kind, false, false⟩) :
    Local i s t where
  frame := frame
  others := others
  name := name
  kind := kind
  grows := by omega
  old := old
  new h above below := by
    obtain rfl : h = s.handleCount := by omega
    exact ⟨false, new⟩
  sound := by
    refine ⟨by rw [active, scheduled], fun h is => ?_, fun h mem => ?_⟩
    · rw [scheduled] at is
      cases is
      rw [new, count]
      exact ⟨Nat.lt_succ_self _, rfl, rfl⟩
    · rw [pending] at mem
      obtain ⟨inside, task, -⟩ := sound.pending h mem
      refine ⟨by omega, ?_, ?_⟩
      · rcases old h inside with same | ⟨-, same⟩ <;> rw [same] <;> exact task
      · rw [scheduled]
        rintro ⟨⟩
        exact Nat.lt_irrefl _ inside
  kept h kept := by
    rw [scheduled] at kept
    cases kept
    exact .inr (Nat.le_refl _)

theorem local_scheduleTask {s t : CronState} {i : Nat} {creates : Bool} (sound : TaskSound s i)
    (h : scheduleTask s i creates = some t) : Local i s t ∧ (t.task i).enabled = (s.task i).enabled ∧
      ((s.task i).enabled = true ∨ (s.task i).scheduledHandle ≠ none → (t.task i).scheduledHandle ≠ none) := by
  unfold scheduleTask at h
  split at h
  · next idle =>
    cases h
    refine ⟨⟨⟨rfl, rfl, rfl, rfl, rfl, rfl, rfl⟩, fun _ _ => rfl, rfl, rfl, Nat.le_refl _, fun _ _ => .inl rfl,
      fun h above below => absurd below (Nat.not_lt.mpr above), sound, fun _ is => .inl is⟩, rfl, fun enabled => ?_⟩
    rcases idle with disabled | scheduled
    · rw [disabled] at enabled
      exact enabled.resolve_left nofun
    · exact Option.isSome_iff_ne_none.mp scheduled
  · obtain ⟨u, created, rfl⟩ := Option.map_eq_some_iff.mp h
    obtain rfl := createScheduledHandle_some created
    refine ⟨local_schedule sound ⟨rfl, rfl, rfl, rfl, rfl, rfl, rfl⟩ (fun j other => Function.update_of_ne other _ _) ?_ ?_ ?_ ?_ ?_ rfl
      (fun h inside => .inl (Function.update_of_ne (Nat.ne_of_lt inside) _ _)) (Function.update_self _ _ _), ?_, fun _ => ?_⟩
    all_goals simp [CronState.modify, RuntimeTaskState.schedule]

theorem local_unschedule {s : CronState} {i h : Nat} (sound : TaskSound s i) (is : (s.task i).scheduledHandle = some h) :
    Local i s ((s.stop h).modify i (·.unschedule)) := by
  have here : ((s.stop h).modify i (·.unschedule)).task i = (s.task i).unschedule := Function.update_self i _ _
  refine ⟨⟨rfl, rfl, rfl, rfl, rfl, rfl, rfl⟩, fun j other => Function.update_of_ne other _ _, by rw [here]; rfl, by rw [here]; rfl,
    Nat.le_refl _, fun k inside => ?_, fun k above below => absurd below (Nat.not_lt.mpr above), ⟨by rw [here]; rfl, ?_, ?_⟩,
    fun k kept => ?_⟩
  · by_cases same : k = h
    · subst same
      exact .inr ⟨(sound.own k is).2.1, Function.update_self k _ _⟩
    · exact .inl (Function.update_of_ne same _ _)
  · rw [here]
    nofun
  · rw [here]
    intro k mem
    obtain ⟨inside, task, -⟩ := sound.pending k mem
    refine ⟨inside, ?_, nofun⟩
    by_cases same : k = h
    · subst same
      exact (congrArg RuntimeScheduledTask.task (Function.update_self k { s.handle k with stopped := true } s.handle)).trans
        task
    · exact (congrArg RuntimeScheduledTask.task (Function.update_of_ne same _ _)).trans task
  · rw [here] at kept
    cases kept

theorem local_stopPending {s : CronState} {i : Nat} (sound : TaskSound s i) (stops : Nat → Bool) :
    Local i s (stopPending s i stops) := by
  have here : (stopPending s i stops).task i =
      { s.task i with pendingStopHandles := (s.task i).pendingStopHandles.filter (!stops ·) } := Function.update_self i _ _
  have handle (h : Nat) : (stopPending s i stops).handle h = s.handle h ∨
      h ∈ (s.task i).pendingStopHandles ∧ (stopPending s i stops).handle h = { s.handle h with stopped := true } := by
    by_cases mem : h ∈ (s.task i).pendingStopHandles ∧ stops h = true
    · exact .inr ⟨mem.1, if_pos mem⟩
    · exact .inl (if_neg mem)
  refine ⟨⟨rfl, rfl, rfl, rfl, rfl, rfl, rfl⟩, fun j other => Function.update_of_ne other _ _, by rw [here], by rw [here],
    Nat.le_refl _, fun h inside => ?_, fun h above below => absurd below (Nat.not_lt.mpr above),
    ⟨by rw [here]; exact sound.active, ?_, ?_⟩, fun h kept => .inl ?_⟩
  · rcases handle h with same | ⟨mem, same⟩
    · exact .inl same
    · exact .inr ⟨(sound.pending h mem).2.1, same⟩
  · rw [here]
    intro h is
    obtain ⟨inside, task, unstopped⟩ := sound.own h is
    rcases handle h with same | ⟨mem, -⟩
    · rw [same]
      exact ⟨inside, task, unstopped⟩
    · exact absurd is (sound.pending h mem).2.2
  · rw [here]
    intro h mem
    obtain ⟨inside, task, other⟩ := sound.pending h (List.mem_filter.mp mem).1
    refine ⟨inside, ?_, other⟩
    rcases handle h with same | ⟨-, same⟩ <;> rw [same] <;> exact task
  · rw [here] at kept
    exact kept

theorem local_unscheduleTask {s : CronState} {i : Nat} (sound : TaskSound s i) (stops : Nat → Bool) :
    Local i s (unscheduleTask s i stops).2 ∧ ((unscheduleTask s i stops).2.task i).enabled = (s.task i).enabled ∧
      ((unscheduleTask s i stops).1 = false →
        (∀ h, (s.task i).scheduledHandle = some h → stops h = true →
          (s.task i).pendingStopHandles.all stops = true) →
        ((unscheduleTask s i stops).2.task i).scheduledHandle = (s.task i).scheduledHandle) := by
  have pending (t : CronState) : ((stopPending t i stops).task i).enabled = (t.task i).enabled ∧
      ((stopPending t i stops).task i).scheduledHandle = (t.task i).scheduledHandle := by
    simp [stopPending]
  unfold unscheduleTask
  cases is : (s.task i).scheduledHandle with
  | none => exact ⟨local_stopPending sound stops, (pending s).1, fun _ _ => (pending s).2.trans is⟩
  | some h =>
    by_cases stop : stops h = true
    · simp only [stop, ↓reduceIte]
      have first := local_unschedule sound is
      refine ⟨first.trans (local_stopPending first.sound stops), (pending _).1.trans ?_, fun fails all => ?_⟩
      · simp [CronState.modify, CronState.stop, RuntimeTaskState.unschedule]
      · simp only [Bool.true_and] at fails
        rw [all h rfl stop] at fails
        cases fails
    · simp only [stop, Bool.false_eq_true, ↓reduceIte]
      exact ⟨local_stopPending sound stops, (pending s).1, fun _ _ => (pending s).2.trans is⟩

/-! ## The registry -/

/-- No bootstrap has thrown without having cleaned up. -/
def Settled (s : CronState) : Prop := ∀ b < s.bootstrapCount, s.bootstrap b ≠ .failing

/-- The enabled tasks of a started service have a handle. -/
def Scheduled (s : CronState) : Prop :=
  s.started = true → Settled s → ∀ name i, s.tasks.get name = some i → (s.task i).enabled = true →
    (s.task i).scheduledHandle ≠ none

theorem Scheduled.local {s t : CronState} {i : Nat} (scheduled : Scheduled s) (step : Local i s t)
    (own : s.started = true → ((s.task i).enabled = true → (s.task i).scheduledHandle ≠ none) →
      (t.task i).enabled = true → (t.task i).scheduledHandle ≠ none) : Scheduled t := by
  obtain ⟨tasks, -, -, -, started, bootstrap, bootstrapCount⟩ := step.frame
  intro on settled name j at_
  rw [started] at on
  rw [Settled, bootstrapCount, bootstrap] at settled
  rw [tasks] at at_
  have before := scheduled on settled name j at_
  by_cases here : j = i
  · subst here
    exact own on before
  · rw [step.others j here]
    exact before

/-- The schedules do not depend on how far the service is. -/
theorem Sound.congr {s t : CronState} (sound : Sound s) (task : t.task = s.task) (taskCount : t.taskCount = s.taskCount)
    (tasks : ∀ name i, t.tasks.get name = some i → s.tasks.get name = some i) (handle : t.handle = s.handle)
    (handleCount : t.handleCount = s.handleCount) (run : t.run = s.run) (runCount : t.runCount = s.runCount) : Sound t := by
  refine ⟨⟨fun i => ?_, fun name i at_ => ?_, ?_, ?_⟩, fun name i h at_ => ?_⟩
  · obtain ⟨active, own, pending⟩ := sound.tasks i
    constructor <;> rw [task]
    · exact active
    · rw [handle, handleCount]
      exact own
    · rw [handle, handleCount]
      exact pending
  · rw [task, taskCount]
    exact sound.named name i (tasks name i at_)
  · rw [handle, handleCount, task, taskCount]
    exact sound.handles
  · rw [handle, handleCount, run, runCount]
    exact sound.runs
  · rw [task, handle, run, runCount]
    exact sound.fired name i h (tasks name i at_)

theorem sound_newTask {s : CronState} (sound : Sound s) (descriptor : CronTaskDescriptor) :
    Sound { s with task := Function.update s.task s.taskCount (newTask descriptor), taskCount := s.taskCount + 1 } := by
  have old {j : Nat} (known : j < s.taskCount) : Function.update s.task s.taskCount (newTask descriptor) j = s.task j :=
    Function.update_of_ne (Nat.ne_of_lt known) _ _
  refine ⟨⟨fun i => ?_, fun name i at_ => ?_, fun h inside => ?_, sound.runs⟩, fun name i h at_ scheduled => ?_⟩
  · by_cases new : i = s.taskCount
    · subst new
      have here : Function.update s.task s.taskCount (newTask descriptor) s.taskCount = newTask descriptor :=
        Function.update_self _ _ _
      refine ⟨?_, ?_, ?_⟩ <;> dsimp only <;> rw [here]
      · rfl
      · nofun
      · nofun
    · obtain ⟨active, own, pending⟩ := sound.tasks i
      have here : Function.update s.task s.taskCount (newTask descriptor) i = s.task i := Function.update_of_ne new _ _
      refine ⟨?_, ?_, ?_⟩ <;> dsimp only <;> rw [here] <;> assumption
  · obtain ⟨known, named⟩ := sound.named name i at_
    exact ⟨Nat.lt_succ_of_lt known, (congrArg (·.descriptor.taskName) (old known)).trans named⟩
  · obtain ⟨known, taskName, kind, fired⟩ := sound.handles h inside
    dsimp only
    rw [old known]
    exact ⟨Nat.lt_succ_of_lt known, taskName, kind, fired⟩
  · dsimp only at scheduled ⊢
    rw [old (sound.named name i at_).1] at scheduled
    exact sound.fired name i h at_ scheduled

theorem registerTask_keeps {options : CronOptions} {s t : CronState} {descriptor : CronTaskDescriptor} {creates : Bool}
    (sound : Sound s) (h : registerTask options s descriptor creates = some t) :
    Sound t ∧ (Scheduled s → Scheduled t) ∧ t.bootstrap = s.bootstrap ∧ t.bootstrapCount = s.bootstrapCount := by
  unfold registerTask at h
  split at h
  · cases h
  · next valid =>
    have absent : s.tasks.get descriptor.taskName = none := by
      simp only [Bool.or_eq_true, not_or, OrderedMap.has, Bool.not_eq_true, Option.isSome_eq_false_iff,
        Option.isNone_iff_eq_none] at valid
      exact valid.1.2
    obtain ⟨u, made, rfl⟩ := Option.map_eq_some_iff.mp h
    let new := { s with task := Function.update s.task s.taskCount (newTask descriptor), taskCount := s.taskCount + 1 }
    have here : new.task s.taskCount = newTask descriptor := Function.update_self _ _ _
    have sound' : Sound new := sound_newTask sound descriptor
    obtain ⟨step, enabled⟩ : Local s.taskCount new u ∧
        (s.started = true → (u.task s.taskCount).scheduledHandle ≠ none) := by
      split at made
      · obtain ⟨step, -, scheduled⟩ := local_scheduleTask (sound'.tasks s.taskCount) made
        exact ⟨step, fun _ => scheduled (.inl (by rw [here]; rfl))⟩
      · next off =>
        cases made
        exact ⟨Local.refl (sound'.tasks _), fun on => absurd on off⟩
    obtain ⟨tasks, taskCount, run, runCount, started, bootstrap, bootstrapCount⟩ := step.frame
    have sound'' := sound'.local (Nat.lt_succ_self _) step
    have get (name : Js.JsString) (i : Nat) (at_ : (u.tasks.set descriptor.taskName s.taskCount).get name = some i) :
        name = descriptor.taskName ∧ i = s.taskCount ∨ s.tasks.get name = some i ∧ i ≠ s.taskCount := by
      rw [OrderedMap.get_set] at at_
      split at at_
      · next same => exact .inl ⟨same, (Option.some.inj at_).symm⟩
      · rw [tasks] at at_
        exact .inr ⟨at_, Nat.ne_of_lt (sound.named name i at_).1⟩
    refine ⟨⟨⟨fun i => ?_, fun name i at_ => ?_, sound''.handles, sound''.runs⟩, fun name i h at_ scheduled fired => ?_⟩,
      fun scheduled on settled name i at_ => ?_, bootstrap, bootstrapCount⟩
    · exact ⟨(sound''.tasks i).active, (sound''.tasks i).own, (sound''.tasks i).pending⟩
    · rcases get name i at_ with ⟨rfl, rfl⟩ | ⟨at_, -⟩
      · refine ⟨?_, step.name.trans (congrArg (·.descriptor.taskName) here)⟩
        dsimp only
        rw [taskCount]
        exact Nat.lt_succ_self _
      · exact sound''.named name i (tasks ▸ at_)
    · rcases get name i at_ with ⟨-, rfl⟩ | ⟨at_, -⟩
      · rcases step.kept h scheduled with before | above
        · rw [here] at before
          cases before
        · obtain ⟨stopped, made⟩ := step.new h above (step.sound.own h scheduled).1
          rw [made] at fired
          cases fired
      · exact sound''.fired name i h (tasks ▸ at_) scheduled fired
    · have on' : s.started = true := started ▸ on
      rcases get name i at_ with ⟨-, rfl⟩ | ⟨at_, other⟩
      · exact fun _ => enabled on'
      · have settled' : Settled s := by
          intro b
          rw [Settled] at settled
          dsimp only at settled
          rw [bootstrap, bootstrapCount] at settled
          exact settled b
        have before := scheduled on' settled' name i at_
        have same : u.task i = s.task i := (step.others i other).trans (Function.update_of_ne other _ _)
        dsimp only
        rw [same]
        exact before

theorem registerAll_keeps (options : CronOptions) (creates : Nat → Bool) (descriptors : List CronTaskDescriptor)
    {s : CronState} (sound : Sound s) :
    Sound (registerAll options creates descriptors s).2 ∧
      (registerAll options creates descriptors s).2.bootstrap = s.bootstrap ∧
      (registerAll options creates descriptors s).2.bootstrapCount = s.bootstrapCount := by
  induction descriptors generalizing s with
  | nil => exact ⟨sound, rfl, rfl⟩
  | cons descriptor rest ih =>
    rw [registerAll]
    split
    · exact ⟨sound, rfl, rfl⟩
    · next t registered =>
      obtain ⟨sound', -, bootstrap, bootstrapCount⟩ := registerTask_keeps sound registered
      obtain ⟨sound'', bootstrap', bootstrapCount'⟩ := ih sound'
      exact ⟨sound'', bootstrap'.trans bootstrap, bootstrapCount'.trans bootstrapCount⟩

/-- The tasks that are reached get a handle, the others keep theirs. -/
theorem scheduleAll_keeps (creates : Nat → Bool) (places : List Nat) {s : CronState} (sound : Sound s)
    (known : ∀ i ∈ places, i < s.taskCount) :
    let result := scheduleAll creates places s
    Sound result.2 ∧ result.2.tasks = s.tasks ∧ result.2.bootstrap = s.bootstrap ∧
      result.2.bootstrapCount = s.bootstrapCount ∧ ∀ i, (result.2.task i).enabled = (s.task i).enabled ∧
        ((s.task i).scheduledHandle ≠ none → (result.2.task i).scheduledHandle ≠ none) ∧
        (result.1 = true → i ∈ places → (s.task i).enabled = true → (result.2.task i).scheduledHandle ≠ none) := by
  induction places generalizing s with
  | nil => exact ⟨sound, rfl, rfl, rfl, fun i => ⟨rfl, id, nofun⟩⟩
  | cons j rest ih =>
    rw [scheduleAll]
    split
    · exact ⟨sound, rfl, rfl, rfl, fun i => ⟨rfl, id, nofun⟩⟩
    · next t scheduled =>
      obtain ⟨step, enabled, handles⟩ := local_scheduleTask (sound.tasks j) scheduled
      obtain ⟨tasks, taskCount, -, -, -, bootstrap, bootstrapCount⟩ := step.frame
      obtain ⟨sound', tasks', bootstrap', bootstrapCount', others⟩ :=
        ih (sound.local (known j List.mem_cons_self) step) fun i mem => taskCount ▸ known i (List.mem_cons_of_mem _ mem)
      refine ⟨sound', tasks'.trans tasks, bootstrap'.trans bootstrap, bootstrapCount'.trans bootstrapCount, fun i => ?_⟩
      obtain ⟨enabled', kept, reached⟩ := others i
      by_cases here : i = j
      · subst here
        exact ⟨enabled'.trans enabled, fun is => kept (handles (.inr is)), fun _ _ on => kept (handles (.inl on))⟩
      · rw [step.others i here] at enabled' kept reached
        exact ⟨enabled', kept, fun all mem => reached all (List.mem_of_ne_of_mem here mem)⟩

theorem stopAll_keeps (stops : Nat → Bool) (places : List Nat) {s : CronState} (sound : Sound s)
    (known : ∀ i ∈ places, i < s.taskCount) :
    let result := (stopAll stops places s).2
    Sound result ∧ result.started = s.started ∧ result.bootstrap = s.bootstrap ∧
      result.bootstrapCount = s.bootstrapCount := by
  induction places generalizing s with
  | nil => exact ⟨sound, rfl, rfl, rfl⟩
  | cons j rest ih =>
    obtain ⟨step, -⟩ := local_unscheduleTask (sound.tasks j) stops
    obtain ⟨-, taskCount, -, -, started, bootstrap, bootstrapCount⟩ := step.frame
    obtain ⟨sound', started', bootstrap', bootstrapCount'⟩ :=
      ih (sound.local (known j List.mem_cons_self) step) fun i mem => taskCount ▸ known i (List.mem_cons_of_mem _ mem)
    exact ⟨sound', started'.trans started, bootstrap'.trans bootstrap, bootstrapCount'.trans bootstrapCount⟩

theorem Sound.values {s : CronState} (sound : Sound s) : ∀ i ∈ s.tasks.values, i < s.taskCount := by
  intro i mem
  obtain ⟨name, at_⟩ := OrderedMap.mem_values.mp mem
  exact (sound.named name i at_).1

/-- A schedule that both an operation and what it is prepared by keep. -/
structure Invariant (s : CronState) : Prop where
  sound : Sound s
  scheduled : Scheduled s

theorem Invariant.local {s t : CronState} {name : Js.JsString} {i : Nat} (inv : Invariant s) (at_ : s.tasks.get name = some i)
    (step : Local i s t) (own : s.started = true → ((s.task i).enabled = true → (s.task i).scheduledHandle ≠ none) →
      (t.task i).enabled = true → (t.task i).scheduledHandle ≠ none) : Invariant t :=
  ⟨inv.sound.local (inv.sound.named name i at_).1 step, inv.scheduled.local step own⟩

theorem registered_keeps {options : CronOptions} {s : CronState} {descriptor : CronTaskDescriptor} {creates : Bool}
    (inv : Invariant s) : Invariant ((registerTask options s descriptor creates).getD s) := by
  cases registered : registerTask options s descriptor creates with
  | none => exact inv
  | some t =>
    obtain ⟨sound, scheduled, -⟩ := registerTask_keeps inv.sound registered
    exact ⟨sound, scheduled inv.scheduled⟩

theorem addCron_keeps {options : CronOptions} {s : CronState} {name expression : Js.JsString} {distributed : Bool}
    {lockTtlMs : Nat} {creates : Bool} (inv : Invariant s) :
    Invariant ((addCron options s name expression distributed lockTtlMs creates).getD s) := by
  unfold addCron
  split
  · exact registered_keeps inv
  · exact inv

theorem addInterval_keeps {options : CronOptions} {s : CronState} {name : Js.JsString} {ms : Nat} {distributed : Bool}
    {lockTtlMs : Nat} {creates : Bool} (inv : Invariant s) :
    Invariant ((addInterval options s name ms distributed lockTtlMs creates).getD s) := by
  unfold addInterval
  split
  · exact registered_keeps inv
  · exact inv

theorem addTimeout_keeps {options : CronOptions} {s : CronState} {name : Js.JsString} {ms : Nat} {distributed : Bool}
    {lockTtlMs : Nat} {creates : Bool} (inv : Invariant s) :
    Invariant ((addTimeout options s name ms distributed lockTtlMs creates).getD s) := by
  unfold addTimeout
  split
  · exact registered_keeps inv
  · exact inv

/-- The removal of an enabled task stops all of its handles, or not the one that is scheduled. -/
def StopsWhole (s : CronState) (name : Js.JsString) (stops : Nat → Bool) : Prop :=
  s.started = true → ∀ i, s.tasks.get name = some i → (s.task i).enabled = true →
    (s.task i).scheduledHandle.any stops = true → (s.task i).pendingStopHandles.all stops = true

theorem remove_keeps {s : CronState} {name : Js.JsString} {stops : Nat → Bool} (inv : Invariant s)
    (whole : StopsWhole s name stops) : Invariant (remove s name stops).2 := by
  unfold remove
  split
  · exact inv
  · next i at_ =>
    obtain ⟨step, enabled, kept⟩ := local_unscheduleTask (inv.sound.tasks i) stops
    split
    · next t unscheduled =>
      simp only [unscheduled] at step enabled
      have known := (inv.sound.named name i at_).1
      have sound := inv.sound.local known step
      have get (name' : Js.JsString) (j : Nat) (at' : (t.tasks.erase name).get name' = some j) :
          t.tasks.get name' = some j ∧ j ≠ i := by
        rw [OrderedMap.get_erase] at at'
        split at at'
        · cases at'
        · next other =>
          refine ⟨at', ?_⟩
          rintro rfl
          rw [step.frame.1] at at'
          exact other ((inv.sound.named name' j at').2.symm.trans (inv.sound.named name j at_).2)
      refine ⟨sound.congr rfl rfl (fun name' j at' => (get name' j at').1) rfl rfl rfl rfl, ?_⟩
      intro on settled name' j at'
      obtain ⟨tasks, -, -, -, started, bootstrap, bootstrapCount⟩ := step.frame
      obtain ⟨before, other⟩ := get name' j at'
      dsimp only at on ⊢
      rw [step.others j other]
      refine inv.scheduled (started ▸ on) (fun b => ?_) name' j (tasks ▸ before)
      rw [← bootstrapCount, ← bootstrap]
      exact settled b
    · next t unscheduled =>
      simp only [unscheduled] at step enabled kept
      refine inv.local at_ step fun on before isEnabled => ?_
      rw [enabled] at isEnabled
      rw [kept trivial]
      · exact before isEnabled
      · intro h is stop
        refine whole on i at_ isEnabled ?_
        rw [is]
        exact stop

theorem enable_keeps {s : CronState} {name : Js.JsString} {creates : Bool} (inv : Invariant s) :
    Invariant ((enable s name creates).getD s) := by
  unfold enable
  split
  · exact inv
  · next i at_ =>
    split
    · exact inv
    · have first : Local i s (s.modify i ({ · with enabled := true })) :=
        local_modify (inv.sound.tasks i) rfl rfl (.inr rfl) (inv.sound.tasks i).active rfl
      have here : ((s.modify i ({ · with enabled := true })).task i).enabled = true := by simp [CronState.modify]
      dsimp only
      split
      · cases scheduled : scheduleTask (s.modify i ({ · with enabled := true })) i creates with
        | none => exact inv
        | some t =>
          obtain ⟨second, -, handles⟩ := local_scheduleTask first.sound scheduled
          exact inv.local at_ (first.trans second) fun _ _ _ => handles (.inl here)
      · next off => exact inv.local at_ first fun on => absurd on off

theorem disable_keeps {s : CronState} {name : Js.JsString} {stops : Nat → Bool} (inv : Invariant s) :
    Invariant (disable s name stops).2 := by
  unfold disable
  split
  · exact inv
  · next i at_ =>
    dsimp only
    split
    · exact inv
    · have first : Local i s (s.modify i ({ · with enabled := false })) :=
        local_modify (inv.sound.tasks i) rfl rfl (.inr rfl) (inv.sound.tasks i).active rfl
      obtain ⟨second, enabled, -⟩ := local_unscheduleTask first.sound stops
      refine inv.local at_ (first.trans second) fun _ _ isEnabled => ?_
      rw [enabled] at isEnabled
      simp [CronState.modify] at isEnabled

/-! ## Updates -/

/-- An operation leaves the descriptor, the handle and the token of every task, and every handle, as they were. -/
structure Untouched (s t : CronState) : Prop where
  tasks : t.tasks = s.tasks
  enabled : ∀ i, (t.task i).enabled = (s.task i).enabled
  descriptor : ∀ i, (t.task i).descriptor = (s.task i).descriptor
  scheduledHandle : ∀ i, (t.task i).scheduledHandle = (s.task i).scheduledHandle
  activeScheduleToken : ∀ i, (t.task i).activeScheduleToken = (s.task i).activeScheduleToken
  handles : ∀ h < s.handleCount, t.handle h = s.handle h

theorem Untouched.refl (s : CronState) : Untouched s s :=
  ⟨rfl, fun _ => rfl, fun _ => rfl, fun _ => rfl, fun _ => rfl, fun _ _ => rfl⟩

/-- A replacement that is given up leaves the task with one more pending handle, or none. -/
theorem untouched_of_pending {s t : CronState} {i : Nat} (tasks : t.tasks = s.tasks)
    (others : ∀ j, j ≠ i → t.task j = s.task j) {pending : List Nat}
    (here : t.task i = { s.task i with pendingStopHandles := pending })
    (handles : ∀ h < s.handleCount, t.handle h = s.handle h) : Untouched s t := by
  refine ⟨tasks, fun j => ?_, fun j => ?_, fun j => ?_, fun j => ?_, handles⟩ <;> by_cases same : j = i
  all_goals first
    | rw [same, here]
    | rw [others j same]

theorem local_abandon {s t : CronState} {i : Nat} (sound : TaskSound s i)
    (frame : t.tasks = s.tasks ∧ t.taskCount = s.taskCount ∧ t.run = s.run ∧ t.runCount = s.runCount ∧
      t.started = s.started ∧ t.bootstrap = s.bootstrap ∧ t.bootstrapCount = s.bootstrapCount)
    (others : ∀ j, j ≠ i → t.task j = s.task j) {pending : List Nat}
    (here : t.task i = { s.task i with pendingStopHandles := pending })
    (kept : ∀ h ∈ pending, h ∈ (s.task i).pendingStopHandles ∨ h = s.handleCount)
    (count : t.handleCount = s.handleCount + 1) (handles : ∀ h < s.handleCount, t.handle h = s.handle h) {stopped : Bool}
    (new : t.handle s.handleCount = ⟨i, (s.task i).descriptor.taskName, (s.task i).descriptor.kind, stopped, false⟩) :
    Local i s t where
  frame := frame
  others := others
  name := by rw [here]
  kind := by rw [here]
  grows := by omega
  old h inside := .inl (handles h inside)
  new h above below := by
    obtain rfl : h = s.handleCount := by omega
    exact ⟨stopped, new⟩
  sound := by
    refine ⟨by rw [here]; exact sound.active, fun h is => ?_, fun h mem => ?_⟩
    · rw [here] at is
      obtain ⟨inside, task, unstopped⟩ := sound.own h is
      rw [handles h inside, count]
      exact ⟨Nat.lt_succ_of_lt inside, task, unstopped⟩
    · rw [here] at mem ⊢
      rw [count]
      rcases kept h mem with old | rfl
      · obtain ⟨inside, task, other⟩ := sound.pending h old
        rw [handles h inside]
        exact ⟨Nat.lt_succ_of_lt inside, task, other⟩
      · rw [new]
        exact ⟨Nat.lt_succ_self _, rfl, fun is => Nat.lt_irrefl _ (sound.own _ is).1⟩
  kept h is := by
    rw [here] at is
    exact .inl is

theorem abandon_keeps {s t : CronState} {name : Js.JsString} {i : Nat} {throws : Bool} (pending : List Nat)
    (stopped : Bool) (inv : Invariant s) (at_ : s.tasks.get name = some i)
    (frame : t.tasks = s.tasks ∧ t.taskCount = s.taskCount ∧ t.run = s.run ∧ t.runCount = s.runCount ∧
      t.started = s.started ∧ t.bootstrap = s.bootstrap ∧ t.bootstrapCount = s.bootstrapCount)
    (others : ∀ j, j ≠ i → t.task j = s.task j)
    (here : t.task i = { s.task i with pendingStopHandles := pending })
    (kept : ∀ h ∈ pending, h ∈ (s.task i).pendingStopHandles ∨ h = s.handleCount)
    (count : t.handleCount = s.handleCount + 1) (handles : ∀ h < s.handleCount, t.handle h = s.handle h)
    (new : t.handle s.handleCount = ⟨i, (s.task i).descriptor.taskName, (s.task i).descriptor.kind, stopped, false⟩) :
    Invariant t ∧ (throws = true → Untouched s t) := by
  refine ⟨inv.local at_ (local_abandon (inv.sound.tasks i) frame others here kept count handles new) fun _ before => ?_,
    fun _ => untouched_of_pending frame.1 others here handles⟩
  rw [here]
  exact before

theorem updateSchedule_keeps {s : CronState} {name : Js.JsString} {kind : SchedulingTaskKind}
    {change : CronTaskDescriptor → CronTaskDescriptor} {creates : Bool} {stops : Nat → Bool} (inv : Invariant s)
    (sameName : ∀ d, (change d).taskName = d.taskName) (sameKind : ∀ d, (change d).kind = d.kind) :
    let result := updateSchedule s name kind change creates stops
    Invariant result.2 ∧ (result.1 = true → Untouched s result.2) := by
  unfold updateSchedule
  split
  · exact ⟨inv, fun _ => Untouched.refl s⟩
  · next i at_ =>
    have task := inv.sound.tasks i
    dsimp only
    split
    · exact ⟨inv, fun _ => Untouched.refl s⟩
    · split
      · have step : Local i s (s.modify i fun task => { task with descriptor := change task.descriptor }) :=
          local_modify task (sameName _) (sameKind _) (.inr rfl) task.active rfl
        refine ⟨inv.local at_ step fun on before => ?_, nofun⟩
        simpa [CronState.modify] using before
      · split
        · exact ⟨inv, fun _ => Untouched.refl s⟩
        · next t created =>
          obtain rfl := createScheduledHandle_some created
          have newHandle : (⟨i, (change (s.task i).descriptor).taskName, (change (s.task i).descriptor).kind, false, false⟩ :
              RuntimeScheduledTask) = ⟨i, (s.task i).descriptor.taskName, (s.task i).descriptor.kind, false, false⟩ := by
            rw [sameName, sameKind]
          have old (h : Nat) (inside : h < s.handleCount) (made : RuntimeScheduledTask) :
              Function.update s.handle s.handleCount made h = s.handle h :=
            Function.update_of_ne (Nat.ne_of_lt inside) _ _
          split
          · next none =>
            refine ⟨inv.local at_ (local_schedule task ⟨rfl, rfl, rfl, rfl, rfl, rfl, rfl⟩ (fun j other => ?_) ?_ ?_ ?_ ?_ ?_
              rfl (fun h inside => .inl (old h inside _)) ?_) fun _ _ _ => ?_, nofun⟩
            all_goals simp [CronState.modify, RuntimeTaskState.schedule, sameName, sameKind]
            exact Function.update_of_ne other _ _
          · next h is =>
            obtain ⟨inside, own, -⟩ := task.own h is
            have apart : s.handleCount ≠ h := (Nat.ne_of_lt inside).symm
            split
            · refine ⟨inv.local at_ (local_schedule task ⟨rfl, rfl, rfl, rfl, rfl, rfl, rfl⟩ (fun j other => ?_) ?_ ?_ ?_ ?_
                ?_ rfl (fun k inside' => ?_) ?_) fun _ _ _ => ?_, nofun⟩
              case refine_7 =>
                by_cases same : k = h
                · subst same
                  exact .inr ⟨own, by simp [CronState.modify, CronState.stop, apart.symm]⟩
                · exact .inl ((Function.update_of_ne same _ _).trans (old k inside' _))
              all_goals simp [CronState.modify, CronState.stop, RuntimeTaskState.schedule, sameName, sameKind, apart]
              exact Function.update_of_ne other _ _
            · next keeps =>
              split
              · refine abandon_keeps (s.task i).pendingStopHandles true inv at_ ⟨rfl, rfl, rfl, rfl, rfl, rfl, rfl⟩
                  (fun j other => ?_) ?_ (fun k mem => .inl mem) rfl (fun k inside' => ?_) ?_
                · simp [CronState.modify, CronState.stop]
                · simp [CronState.modify, CronState.stop]
                · simp [CronState.modify, CronState.stop, Nat.ne_of_lt inside']
                · simp [CronState.modify, CronState.stop, sameName, sameKind]
              · refine abandon_keeps ((s.task i).pendingStopHandles ++ [s.handleCount]) false inv at_
                  ⟨rfl, rfl, rfl, rfl, rfl, rfl, rfl⟩ (fun j other => ?_) ?_ (fun k mem => by simpa using mem) rfl
                  (fun k inside' => ?_) ?_
                · simp [CronState.modify, other]
                · simp [CronState.modify]
                · simp [CronState.modify, Nat.ne_of_lt inside']
                · simp [CronState.modify, sameName, sameKind]

theorem updateCronExpression_keeps {options : CronOptions} {s : CronState} {name expression : Js.JsString} {creates : Bool}
    {stops : Nat → Bool} (inv : Invariant s) :
    let result := updateCronExpression options s name expression creates stops
    Invariant result.2 ∧ (result.1 = true → Untouched s result.2) := by
  unfold updateCronExpression
  split
  · exact updateSchedule_keeps inv (fun _ => rfl) fun _ => rfl
  · exact ⟨inv, fun _ => Untouched.refl s⟩

theorem updateIntervalMs_keeps {s : CronState} {name : Js.JsString} {ms : Nat} {creates : Bool} {stops : Nat → Bool}
    (inv : Invariant s) :
    let result := updateIntervalMs s name ms creates stops
    Invariant result.2 ∧ (result.1 = true → Untouched s result.2) := by
  unfold updateIntervalMs
  split
  · exact updateSchedule_keeps inv (fun _ => rfl) fun _ => rfl
  · exact ⟨inv, fun _ => Untouched.refl s⟩

end Fluo.Cron
