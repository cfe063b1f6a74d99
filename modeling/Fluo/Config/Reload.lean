import Fluo.Lib.Code
import Fluo.Lib.JsString
import Fluo.Lib.Run

/-!
# Reloading watched configuration

The reloader of `load.ts`: a snapshot of the merged and validated sources, the
passes of a reload with the listeners' re-entrant calls, and the watcher, which
lets a debounce timer compare the hash of the env files with a recorded one.
-/

namespace Fluo.Config

open Js

abbrev Bytes := List UInt8

/-- The content at each path; `none` where no file is (`ENOENT`). -/
abbrev Files := JsString → Option Bytes

def Files.write (files : Files) (path : JsString) (content : Option Bytes) : Files :=
  fun p => if p = path then content else files p

/-- `createHash('sha256')` in hexadecimal, of a file and of a text. -/
structure Sha256 where
  ofBytes : Bytes → JsString
  ofText : JsString → JsString

structure LoadOptions (δ ε : Type) where
  defaults : δ
  envFiles : List JsString
  safeProcessEnv : δ
  runtimeOverrides : δ
  parseEnvContent : Bytes → Except ε δ
  mergeConfigSources : List δ → δ
  /-- A synchronous validator, and what makes of its issues an error. -/
  schema : Option (δ → Except ε δ)

section Snapshot

variable {δ ε : Type} (o : LoadOptions δ ε) (sha : Sha256)

def readEnvFileValues (files : Files) : Except ε (List δ) :=
  (o.envFiles.filterMap files).mapM o.parseEnvContent

def buildMergedConfig (files : Files) : Except ε δ :=
  (readEnvFileValues o files).map fun layers =>
    o.mergeConfigSources ([o.defaults] ++ layers ++ [o.safeProcessEnv, o.runtimeOverrides])

def validateConfig (merged : δ) : Except ε δ :=
  match o.schema with
  | none => .ok merged
  | some validate => validate merged

def resolveConfigSnapshot (files : Files) : Except ε δ :=
  (buildMergedConfig o files).bind (validateConfig o)

def hashEnvFileContent (files : Files) (envFile : JsString) : Option JsString :=
  (files envFile).map sha.ofBytes

/-- The text that the list's digest is fed: each path and its hash end in NUL. -/
def hashedText (files : Files) (envFiles : List JsString) : JsString :=
  envFiles.flatMap fun envFile =>
    envFile ++ 0 :: ((hashEnvFileContent sha files envFile).getD [] ++ [0])

def hashEnvFileListContent (files : Files) (envFiles : List JsString) : Option JsString :=
  if envFiles.any (fun envFile => (hashEnvFileContent sha files envFile).isSome) then
    some (sha.ofText (hashedText sha files envFiles))
  else none

end Snapshot

/-! ## The reloader -/

inductive Reason where
  | manual
  | watch
  deriving DecidableEq

/-- What listeners do while they are notified: call `reload()`, or write or
delete a file. -/
inductive Act where
  | reload
  | write (path : JsString) (content : Option Bytes)

/-- The notification of all the listeners in one pass, which one of them may end
by throwing. -/
structure Pass (ε : Type) where
  acts : List Act
  thrown : Option ε

def Pass.quiet {ε : Type} : Pass ε := ⟨[], none⟩

structure Reloader (δ ε : Type) where
  files : Files
  current : δ
  pendingReloadReason : Option Reason
  reloading : Bool
  watchedEnvFileHash : Option JsString
  watchReloadTimer : Bool
  errors : List (ε × Reason)
  /-- A file was changed and its watch event is still to come. -/
  unseen : Bool
  /-- The contents that the current snapshot was computed from. -/
  applied : Files

section Reloading

variable {δ ε : Type} (o : LoadOptions δ ε) (sha : Sha256)

def Reloader.change (s : Reloader δ ε) (path : JsString) (content : Option Bytes) : Reloader δ ε :=
  { s with files := s.files.write path content, unseen := true }

/-- A re-entrant `reload()` finds `reloading` set and leaves its reason. -/
def Reloader.perform (s : Reloader δ ε) : Act → Reloader δ ε
  | .reload => { s with pendingReloadReason := some .manual }
  | .write path content => s.change path content

def applyReloadNow (s : Reloader δ ε) (pass : Pass ε) : Except ε δ × Reloader δ ε :=
  match resolveConfigSnapshot o s.files with
  | .error error => (.error error, s)
  | .ok next =>
    let notified := pass.acts.foldl Reloader.perform { s with current := next, applied := s.files }
    match pass.thrown with
    | some error => (.error error, { notified with current := s.current, applied := s.applied })
    | none => (.ok next, notified)

/-- A pass, whose failure is marked with its reason. -/
def applyFor (reason : Reason) (s : Reloader δ ε) (pass : Pass ε) : Except (ε × Reason) δ × Reloader δ ε :=
  let (result, t) := applyReloadNow o s pass
  (result.mapError (·, reason), t)

/-- The loop over pending reloads. When the script is over, a pending reload is
applied with listeners that do nothing. -/
def applyPending (s : Reloader δ ε) (latest : δ) : List (Pass ε) → Except (ε × Reason) δ × Reloader δ ε
  | [] =>
    match s.pendingReloadReason with
    | none => (.ok latest, s)
    | some reason => applyFor o reason { s with pendingReloadReason := none } .quiet
  | pass :: script =>
    match s.pendingReloadReason with
    | none => (.ok latest, s)
    | some reason =>
      match applyFor o reason { s with pendingReloadReason := none } pass with
      | (.error failure, t) => (.error failure, t)
      | (.ok next, t) => applyPending t next script

def applyPasses (s : Reloader δ ε) (reason : Reason) (script : List (Pass ε)) :
    Except (ε × Reason) δ × Reloader δ ε :=
  match applyFor o reason s (script.headD .quiet) with
  | (.error failure, t) => (.error failure, t)
  | (.ok latest, t) => applyPending o t latest script.tail

/-- `applyReload` of a reloader that is not reloading. -/
def applyReload (s : Reloader δ ε) (reason : Reason) (script : List (Pass ε)) :
    Except (ε × Reason) δ × Reloader δ ε :=
  let (result, t) := applyPasses o { s with reloading := true } reason script
  (result, { t with pendingReloadReason := none, reloading := false })

def fireTimer (s : Reloader δ ε) (script : List (Pass ε)) : Reloader δ ε :=
  let s := { s with watchReloadTimer := false }
  let nextEnvFileHash := hashEnvFileListContent sha s.files o.envFiles
  if nextEnvFileHash = s.watchedEnvFileHash then s
  else
    match applyReload o s .watch script with
    | (.error failure, t) => { t with errors := t.errors ++ [failure] }
    | (.ok _, t) => { t with watchedEnvFileHash := nextEnvFileHash }

inductive ReloadEvent (ε : Type) where
  | write (path : JsString) (content : Option Bytes)
  /-- The watcher reports a change: the debounce timer is started again. -/
  | watchEvent
  /-- A manual `reload()`, with what listeners do in its passes. -/
  | reload (script : List (Pass ε))
  | timer (script : List (Pass ε))

def reloadStep (s : Reloader δ ε) : ReloadEvent ε → Option (Reloader δ ε)
  | .write path content => some (s.change path content)
  | .watchEvent => some { s with watchReloadTimer := true, unseen := false }
  | .reload script => some (applyReload o s .manual script).2
  | .timer script => if s.watchReloadTimer then some (fireTimer o sha s script) else none

/-- `ConfigReloadCore.create` in watch mode, without a snapshot from elsewhere. -/
def create (files : Files) : Except ε (Reloader δ ε) :=
  (resolveConfigSnapshot o files).map fun current =>
    { files, current, pendingReloadReason := none, reloading := false
      watchedEnvFileHash := hashEnvFileListContent sha files o.envFiles
      watchReloadTimer := false, errors := [], unseen := false, applied := files }

end Reloading

end Fluo.Config
