import Fluo.Config.Reload

/-!
# When a watched reloader converges

The timer skips a reload when the files have the recorded hash, but only watch
reloads record it. The snapshot is the one of the present files in every quiet
state, as long as no timer finds the recorded hash after another reload has
applied something else.
-/

namespace Fluo.Config

open Js Run Code

variable {δ ε : Type} (o : LoadOptions δ ε) (sha : Sha256)

/-- The files agree on the paths that are read. -/
def SameFiles (f g : Files) : Prop := ∀ envFile ∈ o.envFiles, f envFile = g envFile

theorem resolveConfigSnapshot_congr {f g : Files} (same : SameFiles o f g) :
    resolveConfigSnapshot o f = resolveConfigSnapshot o g := by
  have layers : o.envFiles.filterMap f = o.envFiles.filterMap g := List.filterMap_congr same
  rw [resolveConfigSnapshot, resolveConfigSnapshot, buildMergedConfig, buildMergedConfig, readEnvFileValues,
    readEnvFileValues, layers]

/-! ## The hash -/

/-- SHA-256 in hexadecimal has no collision among what occurs. -/
structure Collisionless (Occurs : Files → Prop) : Prop where
  hex : ∀ content, 0 ∉ sha.ofBytes content ∧ sha.ofBytes content ≠ []
  bytes : ∀ f g p q a b, Occurs f → Occurs g → f p = some a → g q = some b → sha.ofBytes a = sha.ofBytes b → a = b
  text : ∀ f g, Occurs f → Occurs g →
    sha.ofText (hashedText sha f o.envFiles) = sha.ofText (hashedText sha g o.envFiles) →
    hashedText sha f o.envFiles = hashedText sha g o.envFiles

section Hash

variable {o sha} {Occurs : Files → Prop} (distinct : Collisionless o sha Occurs) {f g : Files}
include distinct

theorem hashEnvFileContent_inj (f_occurs : Occurs f) (g_occurs : Occurs g) {envFile : JsString}
    (same : hashEnvFileContent sha f envFile = hashEnvFileContent sha g envFile) : f envFile = g envFile := by
  rw [hashEnvFileContent, hashEnvFileContent] at same
  cases a : f envFile with
  | none =>
    cases b : g envFile with
    | none => rfl
    | some b' => simp [a, b] at same
  | some a' =>
    cases b : g envFile with
    | none => simp [a, b] at same
    | some b' =>
      rw [a, b] at same
      exact congrArg some (distinct.bytes f g envFile envFile a' b' f_occurs g_occurs a b (Option.some.inj same))

theorem hash_hex (f : Files) (envFile : JsString) : 0 ∉ (hashEnvFileContent sha f envFile).getD [] := by
  cases content : f envFile with
  | none => simp [hashEnvFileContent, content]
  | some bytes => simpa [hashEnvFileContent, content] using (distinct.hex bytes).1

theorem getD_hash_inj (envFile : JsString)
    (same : (hashEnvFileContent sha f envFile).getD [] = (hashEnvFileContent sha g envFile).getD []) :
    hashEnvFileContent sha f envFile = hashEnvFileContent sha g envFile := by
  cases a : f envFile with
  | none =>
    cases b : g envFile with
    | none => simp [hashEnvFileContent, a, b]
    | some b' =>
      simp only [hashEnvFileContent, a, b, Option.map_none, Option.map_some, Option.getD_none, Option.getD_some] at same
      exact absurd same.symm (distinct.hex b').2
  | some a' =>
    cases b : g envFile with
    | none =>
      simp only [hashEnvFileContent, a, b, Option.map_none, Option.map_some, Option.getD_none, Option.getD_some] at same
      exact absurd same (distinct.hex a').2
    | some b' => simpa [hashEnvFileContent, a, b] using same

/-- The NUL after each path and hash lets the text be read back. -/
theorem hashedText_inj (envFiles : List JsString) (same : hashedText sha f envFiles = hashedText sha g envFiles) :
    ∀ envFile ∈ envFiles, hashEnvFileContent sha f envFile = hashEnvFileContent sha g envFile := by
  induction envFiles with
  | nil => exact nofun
  | cons envFile rest ih =>
    simp only [hashedText, List.flatMap_cons, List.append_assoc, List.append_cancel_left_eq, List.cons_append,
      List.cons.injEq, true_and, List.nil_append] at same
    obtain ⟨here, tail⟩ := readable_word _ _ _ _ (hash_hex distinct f envFile) (hash_hex distinct g envFile)
      (show Stops (· = 0) (0 :: _) from rfl) (show Stops (· = 0) (0 :: _) from rfl) same
    have below := (List.cons.inj tail).2
    intro e mem
    rcases List.mem_cons.mp mem with rfl | mem
    · exact getD_hash_inj distinct e here
    · exact ih below e mem

theorem sameFiles_of_hash (f_occurs : Occurs f) (g_occurs : Occurs g)
    (same : hashEnvFileListContent sha f o.envFiles = hashEnvFileListContent sha g o.envFiles) :
    SameFiles o f g := by
  rw [hashEnvFileListContent, hashEnvFileListContent] at same
  intro envFile mem
  refine hashEnvFileContent_inj distinct f_occurs g_occurs ?_
  split at same
  · split at same
    · exact hashedText_inj distinct o.envFiles (distinct.text f g f_occurs g_occurs (Option.some.inj same)) envFile mem
    · cases same
  · next noneF =>
    split at same
    · cases same
    · next noneG =>
      have empty : ∀ h : Files, ¬ o.envFiles.any (fun e => (hashEnvFileContent sha h e).isSome) = true →
          hashEnvFileContent sha h envFile = none := by
        intro h none_
        simp only [List.any_eq_true, not_exists, not_and, Bool.not_eq_true, Option.isSome_eq_false_iff,
          Option.isNone_iff_eq_none] at none_
        exact none_ envFile mem
      rw [empty f noneF, empty g noneG]

end Hash

/-! ## Passes -/

def Files.afterActs (files : Files) : List Act → Files
  | [] => files
  | .reload :: acts => files.afterActs acts
  | .write path content :: acts => (files.write path content).afterActs acts

def Written (Occurs : Files → Prop) : Files → List Act → Prop
  | _, [] => True
  | files, .reload :: acts => Written Occurs files acts
  | files, .write path content :: acts =>
    Occurs (files.write path content) ∧ Written Occurs (files.write path content) acts

/-- Listeners that do not throw, in pass after pass. -/
def Calm (Occurs : Files → Prop) : Files → List (Pass ε) → Prop
  | _, [] => True
  | files, pass :: script =>
    pass.thrown = none ∧ Written Occurs files pass.acts ∧ Calm Occurs (files.afterActs pass.acts) script

/-- The snapshot is that of contents that were read and have not changed unseen. -/
structure Fresh (Occurs : Files → Prop) (s : Reloader δ ε) : Prop where
  present : Occurs s.files
  past : Occurs s.applied
  computed : resolveConfigSnapshot o s.applied = .ok s.current
  aligned : s.unseen = true ∨ s.files = s.applied

section Passes

variable {o} {Occurs : Files → Prop}

theorem perform_acts (acts : List Act) {s : Reloader δ ε} (written : Written Occurs s.files acts) (here : Occurs s.files) :
    let t := acts.foldl Reloader.perform s
    Occurs t.files ∧ t.files = s.files.afterActs acts ∧ t.current = s.current ∧ t.applied = s.applied ∧
      (t.unseen = true ∨ t.files = s.files ∧ t.unseen = s.unseen) := by
  induction acts generalizing s with
  | nil => exact ⟨here, rfl, rfl, rfl, .inr ⟨rfl, rfl⟩⟩
  | cons act acts ih =>
    cases act with
    | reload => exact ih (s := s.perform .reload) written here
    | write path content =>
      obtain ⟨occurs, files, current, applied, unseen⟩ := ih (s := s.change path content) written.2 written.1
      exact ⟨occurs, files, current, applied, .inl (unseen.elim id fun same => same.2)⟩

/-- A pass over contents that occur, with listeners that do not throw. -/
theorem applyFor_fresh (accepts : ∀ f, Occurs f → ∃ d, resolveConfigSnapshot o f = .ok d) (reason : Reason)
    (pass : Pass ε) {s : Reloader δ ε} (here : Occurs s.files) (quiet : pass.thrown = none)
    (written : Written Occurs s.files pass.acts) :
    ∃ next t, applyFor o reason s pass = (.ok next, t) ∧ Fresh o Occurs t ∧ t.files = s.files.afterActs pass.acts := by
  obtain ⟨next, resolved⟩ := accepts s.files here
  obtain ⟨occurs, files, current, applied, unseen⟩ := perform_acts pass.acts
    (s := { s with current := next, applied := s.files }) written here
  refine ⟨next, pass.acts.foldl Reloader.perform { s with current := next, applied := s.files }, ?_, ⟨occurs, ?_, ?_, ?_⟩,
    files⟩
  · simp only [applyFor, applyReloadNow, resolved, quiet]
    rfl
  · rw [applied]
    exact here
  · rw [applied, current]
    exact resolved
  · rw [applied]
    exact unseen.imp_right And.left

theorem applyPending_fresh (accepts : ∀ f, Occurs f → ∃ d, resolveConfigSnapshot o f = .ok d)
    (script : List (Pass ε)) {s : Reloader δ ε} (latest : δ) (fresh : Fresh o Occurs s)
    (calm : Calm Occurs s.files script) :
    ∃ result t, applyPending o s latest script = (.ok result, t) ∧ Fresh o Occurs t := by
  induction script generalizing s latest with
  | nil =>
    rw [applyPending]
    cases s.pendingReloadReason with
    | none => exact ⟨latest, s, rfl, fresh⟩
    | some reason =>
      obtain ⟨next, t, done, after, -⟩ := applyFor_fresh accepts reason .quiet
        (s := { s with pendingReloadReason := none }) fresh.present rfl trivial
      exact ⟨next, t, done, after⟩
  | cons pass script ih =>
    rw [applyPending]
    cases s.pendingReloadReason with
    | none => exact ⟨latest, s, rfl, fresh⟩
    | some reason =>
      obtain ⟨quiet, written, later⟩ := calm
      obtain ⟨next, t, done, after, files⟩ := applyFor_fresh accepts reason pass
        (s := { s with pendingReloadReason := none }) fresh.present quiet written
      simp only [done]
      exact ih next after (files ▸ later)

theorem applyReload_fresh (accepts : ∀ f, Occurs f → ∃ d, resolveConfigSnapshot o f = .ok d) (reason : Reason)
    {script : List (Pass ε)} {s : Reloader δ ε} (here : Occurs s.files) (calm : Calm Occurs s.files script) :
    ∃ result t, applyReload o s reason script = (.ok result, t) ∧ Fresh o Occurs t := by
  have first : ∃ next t, applyFor o reason { s with reloading := true } (script.headD .quiet) = (.ok next, t) ∧
      Fresh o Occurs t ∧ Calm Occurs t.files script.tail := by
    cases script with
    | nil =>
      obtain ⟨next, t, done, fresh, -⟩ := applyFor_fresh accepts reason .quiet
        (s := { s with reloading := true }) here rfl trivial
      exact ⟨next, t, done, fresh, trivial⟩
    | cons pass script =>
      obtain ⟨next, t, done, fresh, files⟩ := applyFor_fresh accepts reason pass
        (s := { s with reloading := true }) here calm.1 calm.2.1
      exact ⟨next, t, done, fresh, files ▸ calm.2.2⟩
  obtain ⟨next, mid, done, fresh, later⟩ := first
  obtain ⟨result, t, passed, after⟩ := applyPending_fresh accepts script.tail next fresh later
  refine ⟨result, { t with pendingReloadReason := none, reloading := false }, ?_, ⟨after.1, after.2, after.3, after.4⟩⟩
  simp only [applyReload, applyPasses, done, passed]

end Passes

/-! ## Runs -/

/-- What happens stays among the contents that occur, and no listener throws. -/
def Admitted (Occurs : Files → Prop) (s : Reloader δ ε) : ReloadEvent ε → Prop
  | .write path content => Occurs (s.files.write path content)
  | .watchEvent => True
  | .reload script => Calm Occurs s.files script
  | .timer script => Calm Occurs s.files script

/-- No timer finds the recorded hash after a reload that read contents with another. -/
def Recorded (s : Reloader δ ε) : ReloadEvent ε → Prop
  | .timer _ => hashEnvFileListContent sha s.files o.envFiles = s.watchedEnvFileHash →
      hashEnvFileListContent sha s.applied o.envFiles = s.watchedEnvFileHash
  | _ => True

/-- In a quiet state the files are those that the snapshot was computed from. -/
structure Settled (Occurs : Files → Prop) (s : Reloader δ ε) : Prop where
  present : Occurs s.files
  past : Occurs s.applied
  computed : resolveConfigSnapshot o s.applied = .ok s.current
  aligned : s.watchReloadTimer = false → s.unseen = false → SameFiles o s.files s.applied

theorem Fresh.settled {Occurs : Files → Prop} {s : Reloader δ ε} (fresh : Fresh o Occurs s) : Settled o Occurs s where
  present := fresh.present
  past := fresh.past
  computed := fresh.computed
  aligned _ seen := by
    rcases fresh.aligned with unseen | same
    · rw [seen] at unseen
      cases unseen
    · exact fun _ _ => congrFun same _

theorem settled_step {Occurs : Files → Prop} (accepts : ∀ f, Occurs f → ∃ d, resolveConfigSnapshot o f = .ok d)
    (distinct : Collisionless o sha Occurs) (s : Reloader δ ε) (event : ReloadEvent ε) (t : Reloader δ ε)
    (regular : Admitted Occurs s event ∧ Recorded o sha s event) (settled : Settled o Occurs s)
    (stepped : reloadStep o sha s event = some t) : Settled o Occurs t := by
  cases event with
  | write path content =>
    cases stepped
    exact ⟨regular.1, settled.past, settled.computed, fun _ => nofun⟩
  | watchEvent =>
    cases stepped
    exact ⟨settled.present, settled.past, settled.computed, nofun⟩
  | reload script =>
    obtain ⟨_, after, done, fresh⟩ := applyReload_fresh accepts .manual settled.present regular.1
    simp only [reloadStep, done, Option.some.injEq] at stepped
    exact stepped ▸ fresh.settled
  | timer script =>
    rw [reloadStep] at stepped
    split at stepped
    · cases stepped
      rw [fireTimer]
      split
      · next found =>
        -- the recorded hash is that of the applied contents, so these are present
        have same : SameFiles o s.files s.applied :=
          sameFiles_of_hash distinct settled.present settled.past (found.trans (regular.2 found).symm)
        exact ⟨settled.present, settled.past, settled.computed, fun _ _ => same⟩
      · obtain ⟨_, after, done, fresh⟩ := applyReload_fresh accepts .watch
          (s := { s with watchReloadTimer := false }) settled.present regular.1
        simp only [done]
        exact ⟨fresh.present, fresh.past, fresh.computed, fresh.settled.aligned⟩
    · cases stepped

/-! ## Failing passes -/

/-- A reload fails: over the files, with the listeners' passes still to come, its
first pass cannot be resolved or is thrown out of by a listener, or that pass has
replaced the snapshot and asked for another, which fails. The snapshot left is the
one before the pass that failed. -/
inductive Fails : δ → Files → List (Pass ε) → ε → δ → Prop where
  | unresolved {current : δ} {files : Files} {script : List (Pass ε)} {error : ε} :
      resolveConfigSnapshot o files = .error error → Fails current files script error current
  | thrown {current next : δ} {files : Files} {script : List (Pass ε)} {error : ε} :
      resolveConfigSnapshot o files = .ok next → (script.headD .quiet).thrown = some error →
      Fails current files script error current
  | later {current next left : δ} {files : Files} {script : List (Pass ε)} {error : ε} :
      resolveConfigSnapshot o files = .ok next → (script.headD .quiet).thrown = none →
      .reload ∈ (script.headD .quiet).acts →
      Fails next (files.afterActs (script.headD .quiet).acts) script.tail error left →
      Fails current files script error left

section Failing

variable {o}

theorem perform_all (acts : List Act) (s : Reloader δ ε) :
    let t := acts.foldl Reloader.perform s
    t.files = s.files.afterActs acts ∧ t.current = s.current ∧
      (t.pendingReloadReason ≠ none → s.pendingReloadReason = none → .reload ∈ acts) := by
  induction acts generalizing s with
  | nil => exact ⟨rfl, rfl, fun pending idle => absurd idle pending⟩
  | cons act acts ih =>
    cases act with
    | reload =>
      obtain ⟨files, current, -⟩ := ih (s.perform .reload)
      exact ⟨files, current, fun _ _ => List.mem_cons_self⟩
    | write path content =>
      obtain ⟨files, current, asked⟩ := ih (s.change path content)
      exact ⟨files, current, fun pending idle => List.mem_cons_of_mem _ (asked pending idle)⟩

theorem applyFor_error {reason : Reason} {s t : Reloader δ ε} {pass : Pass ε} {failure : ε × Reason}
    (failed : applyFor o reason s pass = (.error failure, t)) :
    (resolveConfigSnapshot o s.files = .error failure.1 ∨
      (∃ next, resolveConfigSnapshot o s.files = .ok next) ∧ pass.thrown = some failure.1) ∧ t.current = s.current := by
  rw [applyFor, applyReloadNow] at failed
  cases resolved : resolveConfigSnapshot o s.files with
  | error error =>
    simp only [resolved] at failed
    cases failed
    exact ⟨.inl rfl, rfl⟩
  | ok next =>
    simp only [resolved] at failed
    cases thrown : pass.thrown with
    | none =>
      simp only [thrown] at failed
      cases failed
    | some error =>
      simp only [thrown] at failed
      cases failed
      exact ⟨.inr ⟨⟨next, rfl⟩, rfl⟩, rfl⟩

theorem applyFor_ok {reason : Reason} {s t : Reloader δ ε} {pass : Pass ε} {next : δ}
    (done : applyFor o reason s pass = (.ok next, t)) :
    resolveConfigSnapshot o s.files = .ok next ∧ pass.thrown = none ∧ t.current = next ∧
      t.files = s.files.afterActs pass.acts ∧
      (t.pendingReloadReason ≠ none → s.pendingReloadReason = none → .reload ∈ pass.acts) := by
  rw [applyFor, applyReloadNow] at done
  cases resolved : resolveConfigSnapshot o s.files with
  | error error =>
    simp only [resolved] at done
    cases done
  | ok value =>
    simp only [resolved] at done
    cases thrown : pass.thrown with
    | some error =>
      simp only [thrown] at done
      cases done
    | none =>
      simp only [thrown] at done
      cases done
      obtain ⟨files, current, asked⟩ := perform_all pass.acts { s with current := next, applied := s.files }
      exact ⟨rfl, rfl, current, files, asked⟩

/-- A pass that fails is the first of what is left of the script. -/
theorem applyFor_fails (script : List (Pass ε)) {reason : Reason} {s t : Reloader δ ε} {failure : ε × Reason}
    (failed : applyFor o reason s (script.headD .quiet) = (.error failure, t)) :
    Fails o s.current s.files script failure.1 t.current := by
  obtain ⟨why, kept⟩ := applyFor_error failed
  rw [kept]
  rcases why with unresolved | ⟨⟨next, resolved⟩, thrown⟩
  · exact .unresolved unresolved
  · exact .thrown resolved thrown

theorem applyPending_fails (script : List (Pass ε)) {s t : Reloader δ ε} {latest : δ} {failure : ε × Reason}
    (failed : applyPending o s latest script = (.error failure, t)) :
    s.pendingReloadReason ≠ none ∧ Fails o s.current s.files script failure.1 t.current := by
  induction script generalizing s latest with
  | nil =>
    rw [applyPending] at failed
    split at failed
    · cases failed
    · next reason pending =>
      exact ⟨by simp [pending], applyFor_fails [] (s := { s with pendingReloadReason := none }) failed⟩
  | cons pass script ih =>
    rw [applyPending] at failed
    split at failed
    · cases failed
    · next reason pending =>
      refine ⟨by simp [pending], ?_⟩
      split at failed
      · next failing =>
        cases failed
        exact applyFor_fails (pass :: script) (s := { s with pendingReloadReason := none }) failing
      · next next after done =>
        obtain ⟨resolved, quiet, current, files, asked⟩ := applyFor_ok done
        obtain ⟨again, fails⟩ := ih failed
        rw [current, files] at fails
        exact .later resolved quiet (asked again rfl) fails

/-- A reload that throws leaves the snapshot that the failing pass found. -/
theorem applyReload_fails {script : List (Pass ε)} {s t : Reloader δ ε} {reason : Reason} {failure : ε × Reason}
    (idle : s.pendingReloadReason = none) (failed : applyReload o s reason script = (.error failure, t)) :
    Fails o s.current s.files script failure.1 t.current := by
  rw [applyReload] at failed
  generalize passed : applyPasses o { s with reloading := true } reason script = out at failed
  obtain ⟨result, after⟩ := out
  cases failed
  rw [applyPasses] at passed
  split at passed
  · next failing =>
    cases passed
    have fails := applyFor_fails script (s := { s with reloading := true }) failing
    exact fails
  · next next mid done =>
    obtain ⟨resolved, quiet, current, files, asked⟩ := applyFor_ok done
    obtain ⟨again, fails⟩ := applyPending_fails script.tail passed
    rw [current, files] at fails
    exact .later resolved quiet (asked again idle) fails

theorem idle_step (s : Reloader δ ε) (event : ReloadEvent ε) (t : Reloader δ ε) (idle : s.pendingReloadReason = none)
    (stepped : reloadStep o sha s event = some t) : t.pendingReloadReason = none := by
  cases event with
  | write | watchEvent | reload =>
    cases stepped
    first | exact idle | rfl
  | timer script =>
    rw [reloadStep] at stepped
    split at stepped
    · cases stepped
      rw [fireTimer]
      split
      · exact idle
      · split
        · next done => exact (congrArg (fun out => out.2.pendingReloadReason) done).symm
        · next done => exact (congrArg (fun out => out.2.pendingReloadReason) done).symm
    · cases stepped

theorem create_idle {files : Files} {start : Reloader δ ε} (created : create o sha files = .ok start) :
    start.pendingReloadReason = none := by
  rw [create] at created
  cases resolved : resolveConfigSnapshot o files with
  | error error =>
    rw [resolved] at created
    cases created
  | ok current =>
    rw [resolved] at created
    cases created
    rfl

end Failing

/-! ## Convergence -/

section Convergence

variable {o sha}

end Convergence

/-! ### One file -/

/-- One env file whose content is the snapshot, and a hash without collisions. -/
def plainOptions : LoadOptions (List Bytes) Unit where
  defaults := []
  envFiles := [text ".env"]
  safeProcessEnv := []
  runtimeOverrides := []
  parseEnvContent content := .ok [content]
  mergeConfigSources := List.flatten
  schema := none

def plainSha : Sha256 := ⟨fun content => 1 :: content.map fun b => b.toUInt16 + 1, id⟩

theorem plain_accepts (f : Files) : ∃ d, resolveConfigSnapshot plainOptions f = .ok d := by
  cases content : f (text ".env") <;>
    simp [resolveConfigSnapshot, buildMergedConfig, readEnvFileValues, plainOptions, content, validateConfig,
      Except.map, bind, Except.bind, pure, Except.pure]

theorem plain_collisionless : Collisionless plainOptions plainSha (fun _ => True) where
  hex content := by
    refine ⟨?_, nofun⟩
    simp only [plainSha, List.mem_cons, List.mem_map, not_or, not_exists, not_and]
    refine ⟨by decide, fun b _ => ?_⟩
    have small : b.toNat < 256 := b.toNat_lt
    intro zero
    have := congrArg UInt16.toNat zero
    simp at this
    omega
  bytes f g p q a b _ _ _ _ same := by
    have injective : Function.Injective fun b : UInt8 => b.toUInt16 + 1 := by
      intro x y e
      have same : x.toUInt16 = y.toUInt16 := by simpa using e
      exact UInt8.toUInt16_inj.mp same
    exact List.map_injective_iff.mpr injective (List.cons.inj same).2
  text f g _ _ same := same

def envWith (content : Bytes) : Files := fun p => if p = text ".env" then some content else none

/-- The reloader created over the content `a`. -/
def reloaderOverA : Reloader (List Bytes) Unit where
  files := envWith [97]
  current := [[97]]
  pendingReloadReason := none
  reloading := false
  watchedEnvFileHash := hashEnvFileListContent plainSha (envWith [97]) plainOptions.envFiles
  watchReloadTimer := false
  errors := []
  unseen := false
  applied := envWith [97]

theorem create_overA : create plainOptions plainSha (envWith [97]) = .ok reloaderOverA := rfl

def changedByHand : List (ReloadEvent Unit) :=
  [.write (text ".env") (some [98]), .watchEvent, .reload [], .timer []]

end Fluo.Config
