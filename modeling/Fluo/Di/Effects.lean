import Fluo.Di.Moves

/-!
# What a move changes

Stacks, controls, promises and caches after a move. Registrations stay, and
asking for a request cache changes who tracks whom only.
-/

namespace Fluo.Di

namespace Sys

variable {w : World} {s s' s'' : Sys}

structure Retracked (s s' : Sys) : Prop where
  rest : s' = { s with containers := s'.containers }
  size : s'.containers.size = s.containers.size
  keeps : ∀ d, ∃ scopes tracked, s'.containers.get d =
    { s.containers.get d with childScopes := scopes, trackedByParent := tracked }

namespace Retracked

theorem refl (s : Sys) : Retracked s s := ⟨rfl, rfl, fun _ => ⟨_, _, rfl⟩⟩

theorem trans (h : Retracked s s') (h' : Retracked s' s'') : Retracked s s'' := by
  refine ⟨by rw [h'.rest, h.rest], h'.size.trans h.size, fun d => ?_⟩
  obtain ⟨scopes, tracked, h⟩ := h.keeps d
  obtain ⟨scopes', tracked', h'⟩ := h'.keeps d
  exact ⟨scopes', tracked', by rw [h', h]⟩

theorem modify (s : Sys) (c : Nat) {f : Container → Container}
    (hf : ∀ x, ∃ scopes tracked, f x = { x with childScopes := scopes, trackedByParent := tracked }) :
    Retracked s (s.modifyContainer c f) := by
  refine ⟨rfl, rfl, fun d => ?_⟩
  simp only [modifyContainer, Heap.get_modify]
  split
  · rename_i e; subst e; exact hf _
  · exact ⟨_, _, rfl⟩

theorem ensureTracked (l : List Nat) (s : Sys) : Retracked s (Sys.ensureTracked l s) := by
  induction l generalizing s with
  | nil => exact refl s
  | cons c l ih =>
    cases l with
    | nil => exact refl s
    | cons parent up =>
      unfold Sys.ensureTracked
      split
      · exact refl s
      · exact ((ih s).trans (modify _ parent fun x => ⟨_, _, rfl⟩)).trans
          (modify _ c fun x => ⟨_, _, rfl⟩)

theorem touch (c : Nat) (s : Sys) : Retracked s (s.touch c) := ensureTracked _ s

theorem touchHome (touched : Option Nat) (s : Sys) : Retracked s (s.touchHome touched) := by
  cases touched with
  | none => exact refl s
  | some c => exact touch c s

variable (h : Retracked s s')

include h

theorem promises : s'.promises = s.promises := by rw [h.rest]

theorem contexts : s'.contexts = s.contexts := by rw [h.rest]

theorem objects : s'.objects = s.objects := by rw [h.rest]

theorem tasks : s'.tasks = s.tasks := by rw [h.rest]

theorem registry (d : Nat) : (s'.containers.get d).registry = (s.containers.get d).registry := by
  obtain ⟨_, _, h⟩ := h.keeps d; rw [h]

theorem ancestors (d : Nat) : (s'.containers.get d).ancestors = (s.containers.get d).ancestors := by
  obtain ⟨_, _, h⟩ := h.keeps d; rw [h]

theorem cache (d : Nat) : (s'.containers.get d).cache = (s.containers.get d).cache := by
  obtain ⟨_, _, h⟩ := h.keeps d; rw [h]

end Retracked

/-! ## The context that moves -/

namespace Move

/-- The stack of the context after the move. -/
def stack (s : Sys) (k : Nat) : Move → List Frame
  | .goto _ => s.stack k
  | .push _ frames _ => frames ++ s.stack k
  | .replace frame _ => frame :: (s.stack k).tail
  | .pop _ | .allocate _ _ _ | .fulfil _ _ _ | .reject _ _ => (s.stack k).tail
  | .create _ before frames _ => frames ++ .settle s.promises.size :: before ++ s.stack k

def ctl (s : Sys) : Move → Ctl
  | .goto ctl | .push _ _ ctl | .replace _ ctl | .pop ctl | .create _ _ _ ctl => ctl
  | .allocate _ _ uses => .ret (.object s.objects.size) uses
  | .fulfil promise v _ => .ret v [promise]
  | .reject _ e => .fail e

def promises (s : Sys) : Move → Heap Materialization
  | .create m _ _ _ => s.promises.push m
  | .fulfil promise v uses => s.promises.modify promise fun m => { m with status := .fulfilled v, uses }
  | .reject promise e => s.promises.modify promise fun m => { m with status := .rejected e, uses := [] }
  | _ => s.promises

end Move

theorem apply_contexts (s : Sys) (k : Nat) (m : Move) :
    (s.apply k m).contexts = s.contexts.set k ⟨Move.stack s k m, Move.ctl s m⟩ := by
  cases m with
  | push touched frames ctl =>
    simp only [apply, setContext, (Retracked.touchHome touched s).contexts]
    rfl
  | create m before frames ctl =>
    simp only [apply, setContext, modifyContainer, (Retracked.touch m.home s).contexts,
      (Retracked.touch m.home s).promises]
    rfl
  | goto | replace | pop | allocate | fulfil | reject => rfl

@[simp] theorem apply_contexts_size (s : Sys) (k : Nat) (m : Move) :
    (s.apply k m).contexts.size = s.contexts.size := by
  rw [apply_contexts, Heap.set_size]

theorem apply_stack (s : Sys) (k : Nat) (m : Move) (j : Nat) :
    (s.apply k m).stack j = if j = k then Move.stack s k m else s.stack j := by
  simp only [Sys.stack, apply_contexts, Heap.get_set]
  split <;> rfl

theorem apply_ctl (s : Sys) (k : Nat) (m : Move) (j : Nat) :
    (s.apply k m).ctl j = if j = k then Move.ctl s m else s.ctl j := by
  simp only [Sys.ctl, apply_contexts, Heap.get_set]
  split <;> rfl

theorem apply_promises (s : Sys) (k : Nat) (m : Move) : (s.apply k m).promises = Move.promises s m := by
  cases m with
  | push touched frames ctl => simp only [apply, setContext, (Retracked.touchHome touched s).promises]; rfl
  | create m before frames ctl =>
    simp only [apply, setContext, modifyContainer, (Retracked.touch m.home s).promises]
    rfl
  | goto | replace | pop | allocate | fulfil | reject => rfl

theorem apply_tasks (s : Sys) (k : Nat) (m : Move) : (s.apply k m).tasks = s.tasks := by
  cases m with
  | push touched => exact (Retracked.touchHome touched s).tasks
  | create m => exact (Retracked.touch m.home s).tasks
  | goto | replace | pop | allocate | fulfil | reject => rfl

/-! ## Containers -/

theorem apply_containers (s : Sys) (k : Nat) (m : Move) : (s.apply k m).containers = match m with
    | .push touched _ _ => (s.touchHome touched).containers
    | .create m _ _ _ => (s.touch m.home).containers.modify m.home fun x =>
        { x with cache := x.cache.set m.key s.promises.size }
    | .fulfil promise _ _ => s.containers.modify (s.promises.get promise).owner fun x =>
        { x with materialized := x.materialized ++ [promise] }
    | .reject promise _ => s.containers.modify (s.promises.get promise).home fun x =>
        { x with cache := x.cache.erase (s.promises.get promise).key }
    | _ => s.containers := by
  cases m with
  | create m before frames ctl =>
    simp only [apply, setContext, modifyContainer, (Retracked.touch m.home s).promises]
  | goto | push | replace | pop | allocate | fulfil | reject => rfl

theorem apply_container (s : Sys) (k : Nat) (m : Move) (d : Nat) :
    ((s.apply k m).containers.get d).registry = (s.containers.get d).registry ∧
      ((s.apply k m).containers.get d).ancestors = (s.containers.get d).ancestors := by
  rw [apply_containers]
  cases m with
  | push touched frames ctl =>
    exact ⟨(Retracked.touchHome touched s).registry d, (Retracked.touchHome touched s).ancestors d⟩
  | create m before frames ctl =>
    rw [← (Retracked.touch m.home s).registry d, ← (Retracked.touch m.home s).ancestors d]
    exact ⟨Heap.get_modify_proj _ _ _ Container.registry rfl d,
      Heap.get_modify_proj _ _ _ Container.ancestors rfl d⟩
  | goto | replace | pop | allocate => exact ⟨rfl, rfl⟩
  | fulfil | reject =>
    exact ⟨Heap.get_modify_proj _ _ _ Container.registry rfl d,
      Heap.get_modify_proj _ _ _ Container.ancestors rfl d⟩

theorem apply_containers_size (s : Sys) (k : Nat) (m : Move) :
    (s.apply k m).containers.size = s.containers.size := by
  rw [apply_containers]
  cases m with
  | push touched frames ctl => exact (Retracked.touchHome touched s).size
  | create m before frames ctl => exact (Retracked.touch m.home s).size
  | goto | replace | pop | allocate | fulfil | reject => rfl

theorem apply_nextRef (s : Sys) (k : Nat) (m : Move) : (s.apply k m).nextRef = s.nextRef := by
  cases m with
  | push touched frames ctl =>
    exact (congrArg Sys.nextRef (Retracked.touchHome touched s).rest : _)
  | create m before frames ctl => exact (congrArg Sys.nextRef (Retracked.touch m.home s).rest : _)
  | goto | replace | pop | allocate | fulfil | reject => rfl

@[simp] theorem apply_view (s : Sys) (k : Nat) (m : Move) (c : Nat) : (s.apply k m).view c = s.view c := by
  simp only [view, lineage, (apply_container s k m _).1, (apply_container s k m _).2]

theorem apply_cached (s : Sys) (k : Nat) (m : Move) (c : Nat) (key : CacheKey) :
    (s.apply k m).cached c key = match m with
      | .create m _ _ _ => if c = m.home ∧ key = m.key then some s.promises.size else s.cached c key
      | .reject promise _ =>
        if c = (s.promises.get promise).home ∧ key = (s.promises.get promise).key then none
        else s.cached c key
      | _ => s.cached c key := by
  rw [cached, apply_containers]
  cases m with
  | push touched frames ctl => simp only [cached, (Retracked.touchHome touched s).cache]
  | create m before frames ctl =>
    simp only [Heap.get_modify, cached]
    by_cases hc : c = m.home
    · subst hc
      simp [OrderedMap.get_set, (Retracked.touch m.home s).cache]
    · simp [hc, (Retracked.touch m.home s).cache]
  | goto | replace | pop | allocate => rfl
  | fulfil promise v uses =>
    simp only [cached]
    rw [Heap.get_modify_proj _ _ _ Container.cache rfl c]
  | reject promise e =>
    simp only [Heap.get_modify, cached]
    by_cases hc : c = (s.promises.get promise).home
    · subst hc
      simp [OrderedMap.get_erase]
    · simp [hc]

end Sys

end Fluo.Di
