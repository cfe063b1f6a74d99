import Fluo.Runtime.BootstrapCalls

/-!
# A failed creation releases what it has acquired

The calls of a creation are in every state a part of those of the boot, followed
by readiness resets, cleanup callbacks and a part of the release (`Failing`). The
platform's log says what the stop in the release attempts (`Stopping`).
-/

namespace Fluo.Runtime.Bootstrap

open Di Js

variable {setup : Setup} {s : State}

/-! ## The invariant -/

/-- The order of the lifecycle instances is that of the resolved entries. -/
def FollowsProviders (setup : Setup) (s : State) : Prop :=
  ∀ effective results, .resolved effective results ∈ s.log →
    s.lifecycleInstances.filter (· ≠ .platform) =
      (resolvedInstances setup.hooks (lifecycleEntries setup.program setup.hooks effective) results).map .object

structure Base (setup : Setup) (s : State) : Prop where
  shell : Platform.Inv setup.components s.shell
  attempting : Platform.Attempting s.shell
  platform : .platform ∈ s.lifecycleInstances ∨ s.shell.log = []
  distinct : (setup.having hasLifecycleHook s.lifecycleInstances).Nodup
  order : FollowsProviders setup s

def Idle (s : State) : Prop := s.shell.shell.activeLifecycleTransition = none

structure Fresh (s : State) : Prop where
  calls : calls s.log = []
  error : failingStep s.log = none
  unresolved : ∀ effective results, .resolved effective results ∉ s.log
  idle : Idle s
  platform : s.shell.log = []
  instances : s.lifecycleInstances = []

structure Booting (setup : Setup) (s : State) (rest : List Call) : Prop where
  error : failingStep s.log = none
  platform : .platform ∈ s.lifecycleInstances
  calls : calls s.log ++ rest = setup.bootstrapCalls s.bootstrappedModules s.lifecycleInstances

structure Failing (setup : Setup) (s : State) (error : BootstrapError) (boot : List Call) (resets : List ModuleType)
    (cleanups : List Nat) (releases : List Call) : Prop where
  error : failingStep s.log = some error
  calls : calls s.log = trace boot resets cleanups releases
  boot : boot <+: setup.bootstrapCalls s.bootstrappedModules s.lifecycleInstances

/-- Nothing has been asked of the platform since the failure. -/
structure AtFailure (s : State) : Prop where
  idle : Idle s
  platform : s.shell.log = s.failedAt

/-- The callbacks below the index have been called. -/
def Swept (s : State) (next : Nat) (cleanups : List Nat) : Prop :=
  s.displaced = false → next ≤ s.runtimeCleanup.length ∧ ∀ callback ∈ s.runtimeCleanup.take next, callback ∈ cleanups

def Cleaned (s : State) (cleanups : List Nat) : Prop :=
  s.displaced = false → ∀ callback ∈ s.registered, callback ∈ cleanups

/-- The stop of what ran at the failure has been attempted. -/
def Stopped (s : State) : Prop :=
  ∀ id, Platform.running s.failedAt id → ∃ during, s.shell.log = during ++ s.failedAt ∧ .stopComponent id ∈ during

/-- A stop that was called first behind the failure is in progress. -/
def StopInProgress (s : State) : Prop :=
  ∃ during, s.shell.log = during ++ .called .stop :: s.failedAt ∧ ∀ operation, Platform.Action.called operation ∉ during

/-- How far the release is with the platform when it waits for a call. -/
structure Stopping (s : State) (c : Call) (rest : List Call) : Prop where
  waits : c = .onModuleDestroy .platform → .platform ∈ s.lifecycleInstances ∧ (Stopped s ∨ StopInProgress s)
  idle : c.operation = none → Idle s ∧ (Stopped s ∨ .onModuleDestroy .platform ∈ rest ∧ s.shell.log = s.failedAt)

def Progress (setup : Setup) (s : State) : Stage → Prop
  | .bootstrapping | .resolving _ => Fresh s
  | .booting c rest => Booting setup s rest ∧ (c.operation = none → Idle s)
  | .created => Booting setup s []
  | .resetting error rest =>
    ∃ boot resets, Failing setup s error boot resets [] [] ∧ AtFailure s ∧ ∀ c ∈ rest, ∃ m, c = .markStarting m
  | .cleaning error next =>
    ∃ boot resets cleanups, Failing setup s error boot resets cleanups [] ∧ AtFailure s ∧ Swept s next cleanups
  | .releasing error c rest =>
    ∃ boot resets cleanups releases, Failing setup s error boot resets cleanups releases ∧
      releases ++ rest = setup.releaseCalls s.lifecycleInstances s.bootstrappedContainer ∧ Cleaned s cleanups ∧
      Stopping s c rest
  | .rejected error =>
    ∃ boot resets cleanups, Failing setup s error boot resets cleanups
      (setup.releaseCalls s.lifecycleInstances s.bootstrappedContainer) ∧ Cleaned s cleanups ∧ Stopped s

structure Inv (setup : Setup) (s : State) : Prop extends Base setup s where
  progress : Progress setup s s.stage

/-! ## One call -/

@[simp] theorem call_log (c : Call) : (s.call setup c).log = s.log ++ [Action.called c] := rfl

@[simp] theorem calls_called (c : Call) : calls [.called c] = [c] := rfl

@[simp] theorem calls_settled (error : Option BootstrapError) : calls [.settled error] = [] := rfl

@[simp] theorem failingStep_called (c : Call) : failingStep [.called c] = none := rfl

@[simp] theorem failingStep_settled (error : Option BootstrapError) : failingStep [.settled error] = error := by
  cases error <;> rfl

theorem call_shell {c : Call} (asks : c.operation = none) : (s.call setup c).shell = s.shell := by
  simp [State.call, asks]

theorem Base.call (h : Base setup s) (c : Call) (acquired : c.operation = none ∨ .platform ∈ s.lifecycleInstances) :
    Base setup (s.call setup c) := by
  have order : FollowsProviders setup (s.call setup c) := fun effective results mem =>
    h.order effective results (by simpa using mem)
  cases asks : c.operation with
  | none =>
    have same : (s.call setup c).shell = s.shell := call_shell asks
    exact ⟨same ▸ h.shell, same ▸ h.attempting, same ▸ h.platform, h.distinct, order⟩
  | some operation =>
    have shell : (s.call setup c).shell = s.shell.runLifecycleTransition setup.components operation := by
      simp [State.call, asks]
    have acquired := acquired.resolve_left (by simp [asks])
    exact ⟨shell ▸ h.shell.call operation, shell ▸ h.attempting.call h.shell operation, .inl acquired, h.distinct, order⟩

theorem Base.settled (h : Base setup s) (error : Option BootstrapError) : Base setup (s.record (.settled error)) :=
  ⟨h.shell, h.attempting, h.platform, h.distinct, fun effective results mem =>
    h.order effective results (by simpa [State.record] using mem)⟩

theorem Failing.settled {failure : BootstrapError} {boot releases : List Call} {resets : List ModuleType}
    {cleanups : List Nat} (h : Failing setup s failure boot resets cleanups releases) (error : Option BootstrapError) :
    Failing setup (s.record (.settled error)) failure boot resets cleanups releases where
  error := by simp [State.record, h.error]
  calls := by simp [State.record, h.calls]
  boot := h.boot

/-- The call that is made next extends the part that is in progress. -/
theorem Failing.call {failure : BootstrapError} {boot releases releases' : List Call} {resets resets' : List ModuleType}
    {cleanups cleanups' : List Nat} (h : Failing setup s failure boot resets cleanups releases) (c : Call)
    (next : trace boot resets cleanups releases ++ [c] = trace boot resets' cleanups' releases') :
    Failing setup (s.call setup c) failure boot resets' cleanups' releases' where
  error := by simp [h.error]
  calls := by simp [h.calls, next]
  boot := h.boot

/-! ## The platform in a release -/

theorem Stopped.later {s' : State} (h : Stopped s) {l : List Platform.Action} (log : s'.shell.log = l ++ s.shell.log)
    (same : s'.failedAt = s.failedAt) : Stopped s' := by
  intro id runs
  obtain ⟨during, e, attempted⟩ := h id (same ▸ runs)
  exact ⟨l ++ during, by rw [log, e, same, List.append_assoc], List.mem_append_right l attempted⟩

theorem stopped_of_nothing (none : s.failedAt = []) : Stopped s := by
  intro id runs
  rw [none] at runs
  exact runs.elim

theorem StopInProgress.stopped (h : StopInProgress s) (attempting : Platform.Attempting s.shell) (idle : Idle s) :
    Stopped s := by
  intro id runs
  obtain ⟨during, log, one⟩ := h
  have none : ¬ Platform.neglected s.shell.log id := by
    have attempting := attempting
    unfold Platform.Attempting at attempting
    rw [show s.shell.shell.activeLifecycleTransition = none from idle] at attempting
    exact attempting id
  rw [log] at none
  refine ⟨during ++ [Platform.Action.called .stop], by simp [log], ?_⟩
  exact List.mem_append_left _ (Platform.attempted_of_not_neglected one runs none)

/-- `stop()` is called and what ran at the failure has its turn. -/
theorem Base.stopCalled (h : Base setup s) (idle : Idle s) (log : s.shell.log = s.failedAt) :
    StopInProgress (s.call setup (.onModuleDestroy .platform)) := by
  obtain ⟨new, e, one, -⟩ := (h.shell.continues_call idle .stop).log
  exact ⟨new, by simpa [State.call, Call.operation, State.record, log] using e, one⟩

theorem stop_acquired {c : Call} {instances : List LifecycleInstance} {container : Bool}
    (mem : c ∈ setup.releaseCalls instances container) (asks : c.operation ≠ none) :
    c = .onModuleDestroy .platform ∧ .platform ∈ instances := by
  have owner : ∃ i ∈ instances, c = .onModuleDestroy i := by
    simp only [Setup.releaseCalls, Setup.shutdownHooks, List.mem_append, List.mem_map, List.mem_reverse] at mem
    rcases mem with ((⟨i, hi, rfl⟩ | ⟨i, -, rfl⟩) | adapter) | container
    · exact ⟨i, List.mem_of_mem_filter hi, rfl⟩
    · exact absurd rfl asks
    · split at adapter <;> simp_all [Call.operation]
    · split at container <;> simp_all [Call.operation]
  obtain ⟨i, hi, rfl⟩ := owner
  cases i with
  | object => exact absurd rfl asks
  | platform => exact ⟨rfl, hi⟩

theorem release_inv {error : BootstrapError} {boot releases rest : List Call} {resets : List ModuleType}
    {cleanups : List Nat} (base : Base setup s) (h : Failing setup s error boot resets cleanups releases)
    (parts : releases ++ rest = setup.releaseCalls s.lifecycleInstances s.bootstrappedContainer)
    (cleaned : Cleaned s cleanups) (idle : Idle s)
    (stop : Stopped s ∨ .onModuleDestroy .platform ∈ rest ∧ s.shell.log = s.failedAt) :
    Inv setup (s.release setup error rest) := by
  cases rest with
  | nil =>
    have stopped := stop.resolve_right (by simp)
    rw [List.append_nil] at parts
    exact ⟨{ base with }, boot, resets, cleanups, parts ▸ { h with }, cleaned, stopped⟩
  | cons c rest =>
    have turn : c ∈ setup.releaseCalls s.lifecycleInstances s.bootstrappedContainer := by simp [← parts]
    have acquired : c.operation = none ∨ .platform ∈ s.lifecycleInstances := by
      by_cases asks : c.operation = none
      · exact .inl asks
      · exact .inr (stop_acquired turn asks).2
    have base' : Base setup { s with stage := .releasing error c rest } := { base with }
    have called : Failing setup { s with stage := .releasing error c rest } error boot resets cleanups releases :=
      { h with }
    refine ⟨base'.call c acquired, boot, resets, cleanups, releases ++ [c], called.call c (by simp [trace]), ?_, cleaned, ?_, ?_⟩
    · rw [List.append_assoc]
      exact parts
    · rintro rfl
      refine ⟨(stop_acquired turn (by simp [Call.operation])).2, ?_⟩
      rcases stop with stopped | ⟨-, log⟩
      · obtain ⟨new, e, -⟩ := (base.shell.continues_call idle .stop).log
        refine .inl (stopped.later (l := new ++ [Platform.Action.called .stop]) ?_ rfl)
        simpa [State.release, State.call, Call.operation] using e
      · exact .inr (base'.stopCalled idle log)
    · intro asks
      have same : (s.release setup error (c :: rest)).shell = s.shell := call_shell asks
      refine ⟨?_, ?_⟩
      · rw [Idle, same]
        exact idle
      · rcases stop with stopped | ⟨mem, log⟩
        · exact .inl (stopped.later (l := []) (by rw [same]; rfl) rfl)
        · refine .inr ⟨?_, by rw [same]; exact log⟩
          refine (List.mem_cons.mp mem).resolve_left fun e => ?_
          subst e
          cases asks

/-! ## The catch block -/

theorem Base.release_begins (h : Base setup s) (log : s.shell.log = s.failedAt) (container : Bool) :
    Stopped s ∨ .onModuleDestroy .platform ∈ setup.releaseCalls s.lifecycleInstances container ∧
      s.shell.log = s.failedAt := by
  rcases h.platform with acquired | none
  · refine .inr ⟨?_, log⟩
    have hooked : LifecycleInstance.platform ∈ setup.having Hooks.onModuleDestroy s.lifecycleInstances :=
      List.mem_filter.mpr ⟨acquired, rfl⟩
    simp [Setup.releaseCalls, Setup.shutdownHooks, hooked]
  · exact .inl (stopped_of_nothing (log ▸ none))

theorem cleanupNext_inv {error : BootstrapError} {next : Nat} {boot : List Call} {resets : List ModuleType}
    {cleanups : List Nat} (base : Base setup s) (h : Failing setup s error boot resets cleanups [])
    (platform : AtFailure s) (swept : Swept s next cleanups) : Inv setup (s.cleanupNext setup error next) := by
  unfold State.cleanupNext
  split
  next callback here =>
    have base : Base setup { s with stage := .cleaning error (next + 1) } := { base with }
    have h : Failing setup { s with stage := .cleaning error (next + 1) } error boot resets cleanups [] := { h with }
    refine ⟨base.call _ (.inl rfl), boot, resets, cleanups ++ [callback], h.call _ (by simp [trace]), ?_, ?_⟩
    · exact ⟨platform.idle, platform.platform⟩
    · intro undisplaced
      obtain ⟨-, called⟩ := swept undisplaced
      refine ⟨(List.getElem?_eq_some_iff.mp here).1, ?_⟩
      change ∀ c ∈ s.runtimeCleanup.take (next + 1), c ∈ cleanups ++ [callback]
      rw [List.take_add_one, here]
      intro c mem
      rcases List.mem_append.mp mem with before | now
      · exact List.mem_append_left _ (called c before)
      · exact List.mem_append_right _ now
  next beyond =>
    have cleaned : Cleaned { s with registered := s.runtimeCleanup } cleanups := by
      intro undisplaced callback mem
      obtain ⟨-, called⟩ := swept undisplaced
      rw [List.take_of_length_le (List.getElem?_eq_none_iff.mp beyond)] at called
      exact called callback mem
    have base' : Base setup { s with registered := s.runtimeCleanup } := { base with }
    exact release_inv base' { h with } rfl cleaned platform.idle (base'.release_begins platform.platform _)

theorem reset_inv {error : BootstrapError} {rest boot : List Call} {resets : List ModuleType} (base : Base setup s)
    (h : Failing setup s error boot resets [] []) (platform : AtFailure s)
    (marks : ∀ c ∈ rest, ∃ m, c = .markStarting m) : Inv setup (s.reset setup error rest) := by
  cases rest with
  | nil => exact cleanupNext_inv base h platform fun _ => ⟨Nat.zero_le _, by simp⟩
  | cons c rest =>
    obtain ⟨m, rfl⟩ := marks c List.mem_cons_self
    have base : Base setup { s with stage := .resetting error rest } := { base with }
    have h : Failing setup { s with stage := .resetting error rest } error boot resets [] [] := { h with }
    refine ⟨base.call _ (.inl rfl), boot, resets ++ [m], h.call _ (by simp [trace]), ?_, ?_⟩
    · exact ⟨platform.idle, platform.platform⟩
    · exact fun c mem => marks c (List.mem_cons_of_mem _ mem)

theorem fail_inv {error : BootstrapError} (base : Base setup s) (idle : Idle s)
    (failed : failingStep s.log = some error)
    (boot : calls s.log <+: setup.bootstrapCalls s.bootstrappedModules s.lifecycleInstances) :
    Inv setup (s.fail setup error) := by
  have base : Base setup { s with failedAt := s.shell.log } := { base with }
  have failing : Failing setup { s with failedAt := s.shell.log } error (calls s.log) [] [] [] := ⟨failed, by simp [trace], boot⟩
  refine reset_inv base failing ⟨idle, rfl⟩ ?_
  intro c mem
  obtain ⟨m, -, rfl⟩ := List.mem_map.mp mem
  exact ⟨m, rfl⟩

/-! ## The boot -/

theorem boot_inv {rest : List Call} (base : Base setup s) (h : Booting setup s rest) (idle : Idle s) :
    Inv setup (s.boot setup rest) := by
  cases rest with
  | nil => exact ⟨{ base with }, { h with }⟩
  | cons c rest =>
    have base : Base setup { s with stage := .booting c rest } := { base with }
    have grown : calls (s.log ++ [Action.called c]) ++ rest =
        setup.bootstrapCalls s.bootstrappedModules s.lifecycleInstances := by
      simpa using h.calls
    refine ⟨base.call c (.inr h.platform), ⟨?_, h.platform, grown⟩, fun asks => ?_⟩
    · simp [State.boot, h.error]
    · have same : (s.boot setup (c :: rest)).shell = s.shell := call_shell asks
      rw [Idle, same]
      exact idle

theorem proceed_inv {rest : List Call} {error : Option BootstrapError} (base : Base setup s) (h : Booting setup s rest)
    (idle : Idle s) : Inv setup ((s.record (.settled error)).proceed setup error rest) := by
  cases error with
  | none =>
    have same : calls (s.log ++ [Action.settled none]) ++ rest =
        setup.bootstrapCalls s.bootstrappedModules s.lifecycleInstances := by
      simpa using h.calls
    exact boot_inv (base.settled none) ⟨by simp [State.record, h.error], h.platform, same⟩ idle
  | some error =>
    have part : calls (s.log ++ [Action.settled (some error)]) <+:
        setup.bootstrapCalls s.bootstrappedModules s.lifecycleInstances :=
      ⟨rest, by simpa using h.calls⟩
    exact fail_inv (base.settled _) idle (by simp [State.record, h.error]) part

/-! ## The lifecycle instances -/

theorem resolvedInstances_sublist (hooks : Nat → Hooks) (entries : List LifecycleEntry)
    (results : List (Except Nat Nat)) :
    ((resolvedInstances hooks entries results).filter fun v => hasLifecycleHook (hooks v)).Sublist
      (hookedObjects hooks results) := by
  fun_induction resolvedInstances hooks entries results with
  | case1 entry entries value results _ ih =>
    by_cases hooked : hasLifecycleHook (hooks value) = true
    · simpa [hookedObjects, hooked] using ih
    · simpa [hookedObjects, hooked] using ih
  | case2 entry entries value results dropped ih =>
    have unhooked : hasLifecycleHook (hooks value) = false := by simp_all
    simpa [hookedObjects, unhooked] using ih
  | case3 entry entries error results ih => simpa [hookedObjects] using ih
  | case4 => exact List.nil_sublist _

theorem having_objects (hook : Hooks → Bool) (values : List Nat) :
    setup.having hook (values.map .object) = (values.filter fun v => hook (setup.hooks v)).map .object :=
  List.filter_map

theorem objects_nodup {values : List Nat}
    (distinct : (values.filter fun v => hasLifecycleHook (setup.hooks v)).Nodup) :
    (setup.having hasLifecycleHook (values.map .object)).Nodup := by
  rw [having_objects]
  exact distinct.map fun a b e => LifecycleInstance.object.inj e

theorem objects_filter (values : List Nat) :
    (values.map LifecycleInstance.object).filter (· ≠ .platform) = values.map .object := by
  rw [List.filter_map]
  simp [Function.comp_def]

theorem Fresh.base (h : Fresh s) (shell : Platform.Inv setup.components s.shell)
    (attempting : Platform.Attempting s.shell) {effective : BootstrapEffectiveProviders}
    {results : List (Except Nat Nat)} {instances : List LifecycleInstance}
    (resolved : instances.filter (· ≠ .platform) =
      (resolvedInstances setup.hooks (lifecycleEntries setup.program setup.hooks effective) results).map .object)
    (nodup : (setup.having hasLifecycleHook instances).Nodup) :
    Base setup { s.record (.resolved effective results) with lifecycleInstances := instances } := by
  refine ⟨shell, attempting, .inr h.platform, nodup, fun e r mem => ?_⟩
  have last : (Action.resolved e r) = .resolved effective results := by
    rcases List.mem_append.mp mem with before | now
    · exact absurd before (h.unresolved e r)
    · exact List.mem_singleton.mp now
  cases last
  exact resolved

theorem resolveLifecycle_inv (h : Fresh s) (base : Base setup s) {effective : BootstrapEffectiveProviders}
    {results : List (Except Nat Nat)} (distinct : (hookedObjects setup.hooks results).Nodup) :
    Inv setup (s.resolveLifecycle setup effective results) := by
  have nodup : (setup.having hasLifecycleHook _).Nodup := objects_nodup
    (distinct.sublist (resolvedInstances_sublist _ (lifecycleEntries setup.program setup.hooks effective) results))
  have logged : failingStep (s.log ++ [Action.resolved effective results]) = resolutionError results := by
    rw [failingStep_append, h.error]
    cases e : resolutionError results <;> simp [failingStep, Action.error?, e]
  have uncalled : calls (s.log ++ [Action.resolved effective results]) = [] := by
    rw [calls_append, h.calls]
    rfl
  unfold State.resolveLifecycle
  dsimp only
  split
  · next error rejected =>
    refine fail_inv (h.base base.shell base.attempting (objects_filter _) nodup) h.idle (logged.trans rejected) ?_
    exact uncalled ▸ List.nil_prefix
  · next fulfilled =>
    refine boot_inv (h.base base.shell base.attempting ?_ ?_)
      ⟨logged.trans fulfilled, List.mem_cons_self, ?_⟩ h.idle
    · rw [List.filter_cons_of_neg (by simp)]
      exact objects_filter _
    · have apart (values : List Nat) : LifecycleInstance.platform ∉ setup.having hasLifecycleHook (values.map .object) := by
        simp [Setup.having]
      exact List.nodup_cons.mpr ⟨apart _, nodup⟩
    · exact congrArg (· ++ _) uncalled

/-! ## Steps -/

theorem initial_inv (setup : Setup) : Inv setup (State.initial setup) where
  shell := Platform.inv_initial
  attempting := fun _ => not_false
  platform := .inr rfl
  distinct := List.nodup_nil
  order := fun _ _ mem => nomatch mem
  progress := ⟨rfl, rfl, fun _ _ mem => (nomatch mem), rfl, rfl, rfl⟩

theorem bootstrapModule_ok {compiled : Except Nat (List CompiledModule)} {registered : Option Nat} {s' : State}
    (h : s.bootstrapModule setup compiled registered = .ok s') : ∃ modules effective,
      s' = { s with bootstrappedContainer := true, bootstrappedModules := modules, stage := .resolving effective } := by
  unfold State.bootstrapModule at h
  obtain ⟨modules, -, h⟩ := bind_eq_ok.mp h
  obtain ⟨effective, -, h⟩ := bind_eq_ok.mp h
  split at h
  · cases h
  · cases h
    exact ⟨_, effective, rfl⟩

theorem bootstrapped_inv (inv : Inv setup s) {compiled : Except Nat (List CompiledModule)} {registered : Option Nat}
    {s' : State} (taken : step setup s (.bootstrapped compiled registered) = some s') : Inv setup s' := by
  simp only [step] at taken
  split at taken
  case h_2 => cases taken
  case h_1 stage =>
  have fresh : Fresh s := by simpa [Progress, stage] using inv.progress
  have order (error : Option BootstrapError) : ∀ e r, Action.resolved e r ∉ s.log ++ [Action.bootstrapped error] := by
    simpa using fresh.unresolved
  split at taken
  next error _ =>
    cases taken
    have base : Base setup (s.record (.bootstrapped (some error))) :=
      ⟨inv.shell, inv.attempting, inv.platform, inv.distinct, fun e r mem => absurd mem (order _ e r)⟩
    have failed : failingStep (s.log ++ [Action.bootstrapped (some error)]) = some error := by
      rw [failingStep_append, fresh.error]
      rfl
    have uncalled : calls (s.log ++ [Action.bootstrapped (some error)]) = [] := by
      rw [calls_append, fresh.calls]
      rfl
    exact fail_inv base fresh.idle failed (uncalled ▸ List.nil_prefix)
  next s₁ accepted =>
    cases taken
    obtain ⟨modules, effective, rfl⟩ := bootstrapModule_ok accepted
    refine ⟨⟨inv.shell, inv.attempting, inv.platform, inv.distinct, fun e r mem => absurd mem (order _ e r)⟩, ?_⟩
    refine ⟨?_, ?_, order _, fresh.idle, fresh.platform, fresh.instances⟩
    · simp only [State.record, calls_append, fresh.calls]
      rfl
    · simp only [State.record, failingStep_append, fresh.error]
      rfl

theorem returned_inv (inv : Inv setup s) {error : Option Nat} {s' : State} (careful : Careful setup s (.returned error))
    (taken : step setup s (.returned error) = some s') : Inv setup s' := by
  have base := inv.toBase.settled (error.map .thrown)
  have progress := inv.progress
  simp only [step] at taken
  split at taken
  next c rest stage =>
    rw [stage] at progress
    split at taken
    · cases taken
    next asks =>
    cases taken
    have asks : c.operation = none := by simpa using asks
    exact proceed_inv inv.toBase progress.1 (progress.2 asks)
  next failure rest stage =>
    rw [stage] at progress
    obtain ⟨boot, resets, h, platform, marks⟩ := progress
    obtain rfl : error = none := by simpa [Careful, stage] using careful
    cases taken
    exact reset_inv base (h.settled _) ⟨platform.idle, platform.platform⟩ marks
  next failure next stage =>
    rw [stage] at progress
    obtain ⟨boot, resets, cleanups, h, platform, swept⟩ := progress
    cases taken
    exact cleanupNext_inv base (h.settled _) ⟨platform.idle, platform.platform⟩ swept
  next failure c rest stage =>
    rw [stage] at progress
    obtain ⟨boot, resets, cleanups, releases, h, parts, cleaned, stopping⟩ := progress
    split at taken
    · cases taken
    next asks =>
    cases taken
    obtain ⟨idle, stop⟩ := stopping.idle (by simpa using asks)
    exact release_inv base (h.settled _) parts cleaned idle stop
  next => cases taken

/-- The log of the platform grows, with no call as long as the creation waits. -/
theorem platform_log {shell shell' : Platform.System} {event : Platform.Event}
    (inv : Platform.Inv setup.components shell) (own : isLifecycleCall event = false)
    (taken : Platform.step setup.components shell event = some shell') :
    ∃ new, shell'.log = new ++ shell.log ∧ ∀ operation, Platform.Action.called operation ∉ new := by
  cases active : shell.shell.activeLifecycleTransition with
  | none => cases event <;> simp_all [Platform.step, isLifecycleCall]
  | some transition =>
    obtain ⟨operation, await⟩ := transition
    by_cases settled : await = .settled
    · subst settled
      cases event with
      | call => cases own
      | validated | componentSettled => simp [Platform.step, active] at taken
      | reaction =>
        simp only [Platform.step, active, Option.some.injEq] at taken
        subst taken
        exact ⟨[], rfl, fun _ => List.not_mem_nil⟩
    · obtain ⟨new, e, one, -⟩ := (inv.continues_step active settled taken).log
      exact ⟨new, e, one⟩

theorem platform_inv (inv : Inv setup s) {event : Platform.Event} {s' : State}
    (taken : step setup s (.platform event) = some s') : Inv setup s' := by
  have progress := inv.progress
  simp only [step] at taken
  split at taken
  next rest stage =>
    rw [stage] at progress
    unfold State.platformSettled at taken
    split at taken
    · cases taken
    next own =>
    obtain ⟨shell, stepped, taken⟩ := Option.map_eq_some_iff.mp taken
    have base : Base setup { s with shell := shell } :=
      ⟨inv.shell.step stepped, inv.attempting.step inv.shell stepped, .inl progress.1.platform, inv.distinct, inv.order⟩
    have booting : Booting setup { s with shell := shell } rest := { progress.1 with }
    dsimp only at taken
    split at taken
    next idle =>
      subst taken
      exact proceed_inv base booting idle
    next =>
      subst taken
      have waiting : Progress setup { s with shell := shell } (.booting .startPlatform rest) :=
        ⟨booting, fun asks => nomatch asks⟩
      exact ⟨base, (congrArg (Progress setup _) stage).mpr waiting⟩
  next failure rest stage =>
    rw [stage] at progress
    obtain ⟨boot, resets, cleanups, releases, h, parts, cleaned, stopping⟩ := progress
    unfold State.platformSettled at taken
    split at taken
    · cases taken
    next own =>
    obtain ⟨shell, stepped, taken⟩ := Option.map_eq_some_iff.mp taken
    obtain ⟨new, log, one⟩ := platform_log inv.shell (by simpa using own) stepped
    obtain ⟨acquired, stop⟩ := stopping.waits rfl
    have base : Base setup { s with shell := shell } :=
      ⟨inv.shell.step stepped, inv.attempting.step inv.shell stepped, .inl acquired, inv.distinct, inv.order⟩
    have h : Failing setup { s with shell := shell } failure boot resets cleanups releases := { h with }
    have waits : Stopped { s with shell := shell } ∨ StopInProgress { s with shell := shell } := by
      rcases stop with stopped | ⟨during, e, quiet⟩
      · exact .inl (stopped.later log rfl)
      · refine .inr ⟨new ++ during, ?_, fun operation => ?_⟩
        · simp [log, e]
        · simp [one operation, quiet operation]
    dsimp only at taken
    split at taken
    next idle =>
      subst taken
      have stopped : Stopped { s with shell := shell } := waits.elim id fun h => h.stopped base.attempting idle
      exact release_inv (base.settled _) (h.settled _) parts cleaned idle (.inl stopped)
    next =>
      subst taken
      have waiting : Progress setup { s with shell := shell } (.releasing failure (.onModuleDestroy .platform) rest) :=
        ⟨boot, resets, cleanups, releases, h, parts, cleaned, fun _ => ⟨acquired, waits⟩, fun asks => nomatch asks⟩
      exact ⟨base, (congrArg (Progress setup _) stage).mpr waiting⟩
  next => cases taken

theorem Progress.frame {stage : Stage} (h : Progress setup s stage) (runtimeCleanup : List Nat) (displaced : Bool)
    (undisplaced : displaced = false → s.displaced = false)
    (swept : ∀ error next cleanups, stage = .cleaning error next → Swept s next cleanups →
      Swept { s with runtimeCleanup := runtimeCleanup, displaced := displaced } next cleanups) :
    Progress setup { s with runtimeCleanup := runtimeCleanup, displaced := displaced } stage := by
  cases stage with
  | bootstrapping | resolving => exact ⟨h.calls, h.error, h.unresolved, h.idle, h.platform, h.instances⟩
  | booting c rest => exact ⟨⟨h.1.error, h.1.platform, h.1.calls⟩, h.2⟩
  | created => exact ⟨h.error, h.platform, h.calls⟩
  | resetting error rest =>
    obtain ⟨boot, resets, h, platform, marks⟩ := h
    exact ⟨boot, resets, { h with }, ⟨platform.idle, platform.platform⟩, marks⟩
  | cleaning error next =>
    obtain ⟨boot, resets, cleanups, h, platform, called⟩ := h
    exact ⟨boot, resets, cleanups, { h with }, ⟨platform.idle, platform.platform⟩, swept error next cleanups rfl called⟩
  | releasing error c rest =>
    obtain ⟨boot, resets, cleanups, releases, h, parts, cleaned, stopping⟩ := h
    exact ⟨boot, resets, cleanups, releases, { h with }, parts, fun d => cleaned (undisplaced d), stopping.waits, stopping.idle⟩
  | rejected error =>
    obtain ⟨boot, resets, cleanups, h, cleaned, stopped⟩ := h
    exact ⟨boot, resets, cleanups, { h with }, fun d => cleaned (undisplaced d), stopped⟩

theorem registerCleanup_inv (inv : Inv setup s) (callback : Nat) :
    Inv setup { s with runtimeCleanup := s.runtimeCleanup ++ [callback] } := by
  refine ⟨{ inv.toBase with }, inv.progress.frame _ s.displaced id fun error next cleanups _ swept undisplaced => ?_⟩
  obtain ⟨bound, called⟩ := swept undisplaced
  simp only [List.take_append_of_le_length bound, List.length_append]
  exact ⟨by omega, called⟩

theorem unregisterCleanup_inv (inv : Inv setup s) (callback : Nat) : Inv setup (s.unregisterCleanup callback) := by
  refine ⟨{ inv.toBase with }, inv.progress.frame _ _ (fun d => ?_) fun error next cleanups stage swept undisturbed => ?_⟩
  · exact (Bool.or_eq_false_iff.mp d).1
  obtain ⟨undisplaced, later⟩ : s.displaced = false ∧ next ≤ s.runtimeCleanup.idxOf callback := by
    simpa [stage] using undisturbed
  obtain ⟨bound, called⟩ := swept undisplaced
  -- What has been called stands before the entry that is removed.
  dsimp only
  rw [List.erase_eq_eraseIdx_of_idxOf rfl, List.take_eraseIdx_eq_take_of_le _ _ _ later, List.length_eraseIdx]
  refine ⟨?_, called⟩
  split <;> omega

theorem step_inv {event : Event} {s' : State} (inv : Inv setup s) (careful : Careful setup s event)
    (taken : step setup s event = some s') : Inv setup s' := by
  cases event with
  | bootstrapped compiled registered => exact bootstrapped_inv inv taken
  | returned error => exact returned_inv inv careful taken
  | platform event => exact platform_inv inv taken
  | registerCleanup callback =>
    cases taken
    exact registerCleanup_inv inv callback
  | unregisterCleanup callback =>
    cases taken
    exact unregisterCleanup_inv inv callback
  | resolved results =>
    simp only [step] at taken
    split at taken
    case h_2 => cases taken
    case h_1 effective stage =>
    have fresh : Fresh s := by simpa [Progress, stage] using inv.progress
    split at taken
    · cases taken
      exact resolveLifecycle_inv fresh inv.toBase careful
    · cases taken

theorem run_inv {events : List Event} {s : State} (run : Run.run (step setup) (State.initial setup) events = some s)
    (careful : Run.Throughout (step setup) (Careful setup) (State.initial setup) events) : Inv setup s :=
  Run.keeps_throughout (fun _ _ _ careful inv taken => step_inv inv careful taken) (initial_inv setup) careful run

/-! ## The parts of a trace -/

/-- In every stage the calls are a trace of parts of a boot and of a release. -/
theorem Inv.traced (inv : Inv setup s) : ∃ boot resets cleanups releases, calls s.log = trace boot resets cleanups releases ∧
    boot <+: setup.bootstrapCalls s.bootstrappedModules s.lifecycleInstances ∧
    releases <+: setup.releaseCalls s.lifecycleInstances s.bootstrappedContainer := by
  have progress := inv.progress
  cases stage : s.stage with
  | bootstrapping | resolving =>
    rw [stage] at progress
    exact ⟨[], [], [], [], progress.calls, List.nil_prefix, List.nil_prefix⟩
  | booting c rest =>
    rw [stage] at progress
    exact ⟨calls s.log, [], [], [], by simp [trace], ⟨rest, progress.1.calls⟩, List.nil_prefix⟩
  | created =>
    rw [stage] at progress
    exact ⟨calls s.log, [], [], [], by simp [trace], ⟨[], progress.calls⟩, List.nil_prefix⟩
  | resetting error rest =>
    rw [stage] at progress
    obtain ⟨boot, resets, h, -⟩ := progress
    exact ⟨boot, resets, [], [], h.calls, h.boot, List.nil_prefix⟩
  | cleaning error next =>
    rw [stage] at progress
    obtain ⟨boot, resets, cleanups, h, -⟩ := progress
    exact ⟨boot, resets, cleanups, [], h.calls, h.boot, List.nil_prefix⟩
  | releasing error c rest =>
    rw [stage] at progress
    obtain ⟨boot, resets, cleanups, releases, h, parts, -⟩ := progress
    exact ⟨boot, resets, cleanups, releases, h.calls, h.boot, ⟨rest, parts⟩⟩
  | rejected error =>
    rw [stage] at progress
    obtain ⟨boot, resets, cleanups, h, -⟩ := progress
    exact ⟨boot, resets, cleanups, _, h.calls, h.boot, List.prefix_refl _⟩

theorem having_nodup {hook : Hooks → Bool} {instances : List LifecycleInstance}
    (hooked : ∀ hooks, hook hooks = true → hasLifecycleHook hooks = true)
    (distinct : (setup.having hasLifecycleHook instances).Nodup) : (setup.having hook instances).Nodup :=
  distinct.sublist (List.monotone_filter_right _ fun _ h => hooked _ h)

/-- A hook that is called once for each of some distinct instances. -/
theorem Inv.hook_once (inv : Inv setup s) (c : Call) (hook : c.isHook = true) : (calls s.log).count c ≤ 1 := by
  obtain ⟨boot, resets, cleanups, releases, e, hb, hr⟩ := inv.traced
  have distinct := inv.distinct
  rw [e]
  cases c with
  | onModuleInit i =>
    refine count_le_one (f := Call.onModuleInit?) rfl ?_
    rw [trace_filterMap _ (fun _ => rfl) (fun _ => rfl), filterMap_prefix_nil hr (by simp), List.append_nil]
    have part := hb.filterMap Call.onModuleInit?
    rw [onModuleInit?_bootstrapCalls] at part
    exact (having_nodup (by simp +contextual [hasLifecycleHook]) distinct).sublist part.sublist
  | onApplicationBootstrap i =>
    refine count_le_one (f := Call.onApplicationBootstrap?) rfl ?_
    rw [trace_filterMap _ (fun _ => rfl) (fun _ => rfl), filterMap_prefix_nil hr (by simp), List.append_nil]
    have part := hb.filterMap Call.onApplicationBootstrap?
    rw [onApplicationBootstrap?_bootstrapCalls] at part
    exact (having_nodup (by simp +contextual [hasLifecycleHook]) distinct).sublist part.sublist
  | onModuleDestroy i =>
    refine count_le_one (f := Call.onModuleDestroy?) rfl ?_
    rw [trace_filterMap _ (fun _ => rfl) (fun _ => rfl), filterMap_prefix_nil hb (by simp), List.nil_append]
    have part := hr.filterMap Call.onModuleDestroy?
    rw [onModuleDestroy?_releaseCalls] at part
    exact (List.nodup_reverse.mpr (having_nodup (by simp +contextual [hasLifecycleHook]) distinct)).sublist part.sublist
  | onApplicationShutdown i =>
    refine count_le_one (f := Call.onApplicationShutdown?) rfl ?_
    rw [trace_filterMap _ (fun _ => rfl) (fun _ => rfl), filterMap_prefix_nil hb (by simp), List.nil_append]
    have part := hr.filterMap Call.onApplicationShutdown?
    rw [onApplicationShutdown?_releaseCalls] at part
    exact (List.nodup_reverse.mpr (having_nodup (by simp +contextual [hasLifecycleHook]) distinct)).sublist part.sublist
  | _ => cases hook

structure Plain (f : Call → Option LifecycleInstance) : Prop where
  marks : ∀ m, f (.markStarting m) = none
  cleans : ∀ c, f (.cleanup c) = none

theorem Plain.middle {f : Call → Option LifecycleInstance} (plain : Plain f) (resets : List ModuleType)
    (cleanups : List Nat) : (resets.map Call.markStarting ++ cleanups.map Call.cleanup).filterMap f = [] := by
  have read := trace_filterMap f plain.marks plain.cleans [] [] resets cleanups
  simpa [trace, -List.filterMap_eq_nil_iff] using read

theorem before_trace {first second : Call → Option LifecycleInstance} {boot releases : List Call} (hf : Plain first)
    (hs : Plain second) (hb : Before first second boot) (hr : Before first second releases)
    (none : boot.filterMap second = [] ∨ releases.filterMap first = []) (resets : List ModuleType)
    (cleanups : List Nat) : Before first second (trace boot resets cleanups releases) := by
  have early := hb.append (before_of_no_first (hf.middle resets cleanups)) (.inr (hf.middle resets cleanups))
  refine early.append hr (none.imp_left fun none => ?_)
  rw [List.filterMap_append, none, hs.middle]
  rfl

theorem Collection.add_tokens (P : Program) (hooks : Nat → Hooks) (c : Collection) (provider : Provider) :
    ∃ new, (c.add P hooks provider).lifecycleEntries.map (·.token) = c.lifecycleEntries.map (·.token) ++ new ∧
      new.Sublist [P.providerToken provider] := by
  unfold Collection.add
  dsimp only
  have same (c' : Collection) (e : c'.lifecycleEntries = c.lifecycleEntries) : ∃ new,
      c'.lifecycleEntries.map (·.token) = c.lifecycleEntries.map (·.token) ++ new ∧
        new.Sublist [P.providerToken provider] :=
    ⟨[], by simp [e], List.nil_sublist _⟩
  have pushed (c' : Collection) (e : c'.lifecycleEntries = c.lifecycleEntries) (entry : LifecycleEntry)
      (token : entry.token = P.providerToken provider) : ∃ new,
      (c'.push entry).lifecycleEntries.map (·.token) = c.lifecycleEntries.map (·.token) ++ new ∧
        new.Sublist [P.providerToken provider] :=
    ⟨[entry.token], by simp [Collection.push, e], by rw [token]⟩
  split
  · split
    · exact pushed _ rfl _ rfl
    · split
      · exact pushed _ rfl _ rfl
      · exact same _ rfl
  · split
    · exact same _ rfl
    · split
      · exact pushed _ rfl _ rfl
      · split
        · exact pushed _ rfl _ rfl
        · exact same _ rfl

theorem lifecycleEntries_order (P : Program) (hooks : Nat → Hooks) (effective : BootstrapEffectiveProviders) :
    ((lifecycleEntries P hooks effective).map (·.token)).Sublist (effective.lifecycleProviders.map P.providerToken) := by
  have collected (providers : List Provider) (c : Collection) : ∃ new,
      (providers.foldl (Collection.add P hooks) c).lifecycleEntries.map (·.token) =
        c.lifecycleEntries.map (·.token) ++ new ∧ new.Sublist (providers.map P.providerToken) := by
    induction providers generalizing c with
    | nil => exact ⟨[], by simp, List.nil_sublist _⟩
    | cons provider rest ih =>
      obtain ⟨new, e, sub⟩ := ih (c.add P hooks provider)
      obtain ⟨first, e', sub'⟩ := c.add_tokens P hooks provider
      refine ⟨first ++ new, ?_, sub'.append sub⟩
      rw [List.foldl_cons, e, e', List.append_assoc]
  obtain ⟨new, e, sub⟩ := collected effective.lifecycleProviders ⟨[], [], OrderedMap.empty⟩
  rw [lifecycleEntries, e]
  exact sub

/-! ## Creations -/

theorem count_closeAdapter (instances : List LifecycleInstance) (container : Bool) :
    (setup.releaseCalls instances container).count .closeAdapter = if setup.method = .create then 1 else 0 := by
  have none : .closeAdapter ∉ setup.shutdownHooks instances := by simp [Setup.shutdownHooks]
  rw [Setup.releaseCalls, List.count_append, List.count_append, List.count_eq_zero_of_not_mem none]
  split <;> split <;> rfl

theorem count_disposeContainer (instances : List LifecycleInstance) (container : Bool) :
    (setup.releaseCalls instances container).count .disposeContainer = if container then 1 else 0 := by
  have none : .disposeContainer ∉ setup.shutdownHooks instances := by simp [Setup.shutdownHooks]
  rw [Setup.releaseCalls, List.count_append, List.count_append, List.count_eq_zero_of_not_mem none]
  split <;> split <;> rfl

theorem Inv.released (inv : Inv setup s) {error : BootstrapError} (stage : s.stage = .rejected error) :
    Released setup s error := by
  have progress := inv.progress
  rw [stage] at progress
  obtain ⟨boot, resets, cleanups, h, cleaned, stopped⟩ := progress
  have adapter : .closeAdapter ∉ boot := fun mem => by
    simpa [Setup.bootstrapCalls, Setup.resetReadinessState] using h.boot.subset mem
  have container : .disposeContainer ∉ boot := fun mem => by
    simpa [Setup.bootstrapCalls, Setup.resetReadinessState] using h.boot.subset mem
  refine ⟨failingStep_some.mp h.error, ?_, ?_, ?_, stopped, ?_, ?_, fun undisplaced callback mem => ?_⟩
  · rw [h.calls, trace_filterMap _ (fun _ => rfl) (fun _ => rfl), filterMap_prefix_nil h.boot (by simp)]
    simp
  · rw [h.calls, trace_filterMap _ (fun _ => rfl) (fun _ => rfl), filterMap_prefix_nil h.boot (by simp)]
    simp
  · rw [h.calls]
    have none := filterMap_prefix_nil h.boot (onApplicationShutdown?_bootstrapCalls _ _)
    exact before_trace ⟨fun _ => rfl, fun _ => rfl⟩ ⟨fun _ => rfl, fun _ => rfl⟩ (before_of_no_second none)
      (before_releaseCalls _ _) (.inl none) _ _
  · rw [h.calls, trace, List.count_append, List.count_append, List.count_eq_zero_of_not_mem adapter,
      List.count_eq_zero_of_not_mem (by simp)]
    exact (Nat.zero_add _).trans (count_closeAdapter ..)
  · rw [h.calls, trace, List.count_append, List.count_append, List.count_eq_zero_of_not_mem container,
      List.count_eq_zero_of_not_mem (by simp)]
    exact (Nat.zero_add _).trans (count_disposeContainer ..)
  · rw [h.calls]
    simp [trace, cleaned undisplaced callback mem]

theorem Inv.creation (inv : Inv setup s) : Creation setup s := by
  obtain ⟨boot, resets, cleanups, releases, e, hb, hr⟩ := inv.traced
  refine ⟨inv.hook_once, ?_, ?_, ?_, fun effective results mem =>
    ⟨resolvedInstances_eq .. ▸ inv.order effective results mem, lifecycleEntries_order _ _ _⟩,
    fun error stage => inv.released stage⟩
  · rw [e, trace_filterMap _ (fun _ => rfl) (fun _ => rfl), filterMap_prefix_nil hr (by simp), List.append_nil,
      ← onModuleInit?_bootstrapCalls s.bootstrappedModules]
    exact hb.filterMap _
  · rw [e, trace_filterMap _ (fun _ => rfl) (fun _ => rfl), filterMap_prefix_nil hr (by simp), List.append_nil,
      ← onApplicationBootstrap?_bootstrapCalls s.bootstrappedModules]
    exact hb.filterMap _
  · rw [e]
    have none := filterMap_prefix_nil hr (onModuleInit?_releaseCalls _ _)
    exact before_trace ⟨fun _ => rfl, fun _ => rfl⟩ ⟨fun _ => rfl, fun _ => rfl⟩
      ((before_bootstrapCalls _ _).earlier hb) (before_of_no_first none) (.inr none) _ _

/-- Objects 7 and 8 have all hooks; two providers have the values given. -/
def twoProviders (first second : Nat) : Setup where
  method := .create
  program := ⟨⟨[], [], fun _ => false⟩, fun _ => false, fun _ => 0, OrderedMap.empty⟩
  hooks value := if value = 7 ∨ value = 8 then ⟨true, true, true, true⟩ else ⟨false, false, false, false⟩
  providers := [.valueProvider (.sym 2) first false, .valueProvider (.sym 3) second false]
  bootstrapProviderTokens := 0
  logger := 1
  duplicateProviderPolicy := .warn
  components := [⟨[1], []⟩]
  readinessAware _ := true
  runtimeCleanup := [9]

def onlyModule : CompiledModule :=
  ⟨4, ⟨false, [], [], [], []⟩, OrderedMap.empty, OrderedMap.empty, OrderedMap.empty, OrderedMap.empty⟩

/-- The platform has started when the dispatcher cannot be created; the cleanup
callback fails too. -/
def dispatcherFails : List Event :=
  [.bootstrapped (.ok [onlyModule]) none, .resolved [.ok 7, .ok 8], .returned none, .returned none, .returned none,
    .returned none, .returned none, .platform (.validated (some ⟨true, []⟩)), .platform (.componentSettled none),
    .platform .reaction, .returned none, .returned none, .returned (some 5), .returned none, .returned (some 6),
    .returned none, .returned none, .platform (.componentSettled none), .platform .reaction, .returned none,
    .returned none, .returned none, .returned none]

end Fluo.Runtime.Bootstrap
