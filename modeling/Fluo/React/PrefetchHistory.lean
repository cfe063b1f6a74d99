import Fluo.Lib.History
import Fluo.React.PrefetchOwnership
import Mathlib.Data.List.Induction

/-!
# Who holds a prefetched load

The owners, the adoption and the detachment of a load are read off the calls of
the store. In every state they are what the store has noted of its loads.
-/

namespace Fluo.React.Prefetch

open Js History

variable {Time : Type} [LT Time] [DecidableLT Time] {s : Store Time}

theorem run_snoc (actions : List (Action Time)) (action : Action Time) :
    run (actions ++ [action]) = step (run actions) action := List.foldl_append

/-! ## Readings of a history -/

/-- A call of `prefetch` by the owner that names the key. -/
def AsksFor (key : JsString) (owner : Nat) : Action Time → Prop
  | .prefetch boundary destination owner' _ _ => owner' = owner ∧ keyFor boundary destination = some key
  | _ => False

/-- A call of `cancel` by the owner that names the key. -/
def GivesUp (key : JsString) (owner : Nat) : Action Time → Prop
  | .cancel boundary destination owner' => owner' = owner ∧ keyFor boundary destination = some key
  | _ => False

/-- The owner has asked for the load, which was registered then, and has not given
it up since. -/
def Owns (actions : List (Action Time)) (key : JsString) (i owner : Nat) : Prop :=
  Since (fun before action => AsksFor key owner action ∧ (step (run before) action).prefetched.get key = some i)
    (GivesUp key owner) actions

/-- A navigation has adopted the load while it was registered. -/
def Adopted (actions : List (Action Time)) (i : Nat) : Prop :=
  Once (fun before action => ∃ key now, action = .adopt (some key) now ∧ (run before).prefetched.get key = some i) actions

/-- The load was registered when the store was detached. -/
def Detached (actions : List (Action Time)) (i : Nat) : Prop :=
  Once (fun before action => action = .detach ∧ ∃ key, (run before).prefetched.get key = some i) actions

/-- The load has completed with this expiry while it had still time. -/
def LoadedUntil (actions : List (Action Time)) (i : Nat) (expiresAt : Time) : Prop :=
  Once (fun _ action => ∃ now, action = .complete i (.ok (some expiresAt)) now ∧ now < expiresAt) actions

/-- The calls that abort a load that runs: its last owner cancels it under the key
it has, or the speculation ends, or who was handed its controller says so. -/
def Aborts (actions : List (Action Time)) (i : Nat) : Action Time → Prop
  | .cancel boundary destination owner => ∃ key, keyFor boundary destination = some key ∧
      (run actions).prefetched.get key = some i ∧ ¬ Adopted actions i ∧ ∀ other, Owns actions key i other ↔ other = owner
  | .discard except => ∃ key, (run actions).prefetched.get key = some i ∧ some key ≠ except
  | .invalidate => ∃ key, (run actions).prefetched.get key = some i
  | .abort j => j = i ∧ (Adopted actions i ∨ Detached actions i)
  | _ => False

/-! ## What a call notes -/

omit [LT Time] [DecidableLT Time] in
theorem discardEntries_maps (except : Option JsString) (l : List (JsString × Nat)) (s : Store Time) {key : JsString} {i : Nat}
    (got : (l.foldl (Store.discardEntry except) s).prefetched.get key = some i) :
    s.prefetched.get key = some i ∧ (l.foldl (Store.discardEntry except) s).cached = s.cached := by
  induction l generalizing s with
  | nil => exact ⟨got, rfl⟩
  | cons entry l ih =>
    obtain ⟨before, cached⟩ := ih _ got
    rw [List.foldl_cons, cached]
    rw [Store.discardEntry] at before ⊢
    split at before
    · next kept => exact ⟨before, by rw [if_pos kept]⟩
    · next dropped => exact ⟨erase_get before, by rw [if_neg dropped]; rfl⟩

omit [LT Time] [DecidableLT Time] in
theorem discardEntries_let_go (except : Option JsString) (l : List (JsString × Nat)) (s : Store Time) {i : Nat}
    (alive : ((l.foldl (Store.discardEntry except) s).loads.get i).aborted = false) :
    (l.foldl (Store.discardEntry except) s).loads.get i = s.loads.get i := by
  induction l generalizing s with
  | nil => rfl
  | cons entry l ih =>
    rw [List.foldl_cons] at alive ⊢
    rw [ih _ alive]
    rw [ih _ alive] at alive
    rw [Store.discardEntry] at alive ⊢
    split at alive
    · next kept => rw [if_pos kept]
    · next dropped =>
      rw [if_neg dropped]
      dsimp only [Store.drop] at alive ⊢
      rw [Heap.get_modify] at alive ⊢
      split at alive
      · cases alive
      · next other => rw [if_neg other]

/-- A registered load has no result in the cache under its key. -/
def Apart (s : Store Time) : Prop := ∀ key i, s.prefetched.get key = some i → s.cached.get key = none

omit [LT Time] [DecidableLT Time] in
theorem Apart.register (apart : Apart s) {load : Load} {owner : Nat} {throws : Bool} (free : s.cached.get load.key = none) :
    Apart (s.register load owner throws) := by
  rw [Store.register]
  split
  · exact apart
  · split
    · exact apart
    · split
      · exact apart
      · intro key i got
        dsimp only at got ⊢
        rw [OrderedMap.get_set] at got
        split at got
        · next same => rw [same]; exact free
        · exact apart key i got

omit [LT Time] [DecidableLT Time] in
theorem erase_none {ν : Type} {m : OrderedMap JsString ν} {key k : JsString} (absent : m.get k = none) :
    (m.erase key).get k = none := by
  rw [OrderedMap.get_erase]
  split
  · rfl
  · exact absent

theorem step_apart (apart : Apart s) (action : Action Time) : Apart (step s action) := by
  intro key i got
  cases action with
  | prefetch boundary destination owner now throws =>
    revert got
    rw [step, Store.prefetch]
    split
    · exact apart key i
    · next k scope found =>
      dsimp only
      split
      · next free => exact (apart.register free) key i
      · next completed cached =>
        split
        · intro got
          dsimp only at got ⊢
          have differs : key ≠ k := by
            rintro rfl
            rw [apart key i got] at cached
            cases cached
          rw [OrderedMap.get_set, if_neg differs]
          exact erase_none (apart key i got)
        · refine Apart.register (s := { s with cached := s.cached.erase k }) (fun key i got => ?_) ?_ key i
          · exact erase_none (apart key i got)
          · exact OrderedMap.get_erase_self _ _
  | cancel boundary destination owner =>
    revert got
    rw [step, Store.cancel]
    split
    · exact apart key i
    · split
      · exact apart key i
      · split
        · exact apart key i
        · dsimp only
          split
          · exact fun got => apart key i (erase_get got)
          · exact apart key i
  | adopt named now =>
    revert got
    unfold step Store.adopt
    dsimp only
    split
    · exact apart key i
    · split
      · exact apart key i
      · split
        · exact apart key i
        · split
          · exact fun got => erase_none (apart key i got)
          · exact fun got => erase_none (apart key i got)
  | discard except =>
    obtain ⟨before, same⟩ := discardEntries_maps except _ s got
    exact (congrArg (·.get key) same).trans (apart key i before)
  | invalidate =>
    obtain ⟨before, same⟩ := discardEntries_maps none _ { s with cached := .empty } got
    exact congrArg (·.get key) same
  | detach => rfl
  | abort j =>
    revert got
    rw [step, Store.abort]
    split
    · exact apart key i
    · exact apart key i
  | complete j outcome now =>
    revert got
    rw [step, Store.complete]
    dsimp only
    split
    · exact apart key i
    · split
      · exact apart key i
      · split
        · split
          · intro got
            dsimp only at got ⊢
            have differs : key ≠ (s.loads.get j).key := by
              rintro rfl
              rw [OrderedMap.get_erase_self] at got
              cases got
            have free (completed : CompletedPrefetch Time) :
                ((s.cached.erase (s.loads.get j).key).set (s.loads.get j).key completed).get key = none := by
              rw [OrderedMap.get_set, if_neg differs]
              exact erase_none (apart key i (erase_get got))
            rw [Store.trimmed]
            split
            · exact erase_none (free _)
            · exact free _
          · exact fun got => apart key i (erase_get got)
        · exact fun got => apart key i (erase_get got)

theorem run_apart (actions : List (Action Time)) : Apart (run actions) := by
  induction actions using List.reverseRecOn with
  | nil => intro key i got; cases got
  | append_singleton actions action ih =>
    rw [run_snoc]
    exact step_apart ih action

/-! ## The notes are the history -/

theorem step_adopted {i : Nat} (made : i < s.loads.size) (action : Action Time) :
    ((step s action).loads.get i).adopted = true ↔ (s.loads.get i).adopted = true ∨
      ∃ key now, action = .adopt (some key) now ∧ s.prefetched.get key = some i := by
  have stays {s' : Store Time} (same : (s'.loads.get i).adopted = (s.loads.get i).adopted)
      (other : ¬ ∃ key now, action = .adopt (some key) now ∧ s.prefetched.get key = some i) :
      (s'.loads.get i).adopted = true ↔ (s.loads.get i).adopted = true ∨
        ∃ key now, action = .adopt (some key) now ∧ s.prefetched.get key = some i := by
    rw [same, or_iff_left other]
  cases action with
  | prefetch boundary destination owner now throws =>
    exact stays (prefetch_same (·.adopted) (fun _ _ => rfl) made) (by simp)
  | cancel boundary destination owner =>
    exact stays (cancel_same (·.adopted) (fun _ _ => rfl) (fun _ => rfl) boundary destination owner i) (by simp)
  | adopt named now =>
    cases named with
    | none => exact stays rfl (by simp)
    | some key =>
      have reads : (∃ key' now', (Action.adopt (some key) now : Action Time) = .adopt (some key') now' ∧
          s.prefetched.get key' = some i) ↔ s.prefetched.get key = some i := by
        constructor
        · rintro ⟨key', now', e, got⟩
          cases e
          exact got
        · exact fun got => ⟨key, now, rfl, got⟩
      rw [reads, step, Store.adopt]
      split
      · next j got =>
        dsimp only
        rw [Heap.get_modify, got, Option.some.injEq]
        split
        · next same => simp [same]
        · next other => simp [Ne.symm other]
      · next unknown =>
        rw [unknown]
        have same : ∀ {s' : Store Time}, (s'.loads.get i).adopted = (s.loads.get i).adopted →
            ((s'.loads.get i).adopted = true ↔ (s.loads.get i).adopted = true ∨ (none : Option Nat) = some i) := by
          intro s' e
          simp [e]
        split
        · exact same rfl
        · dsimp only
          split
          · refine same ?_
            dsimp only
            exact modified_same (·.adopted) (by intro load; rfl) i
          · exact same rfl
  | discard except => exact stays (discardEntries_same (·.adopted) (fun _ => rfl) except _ s i) (by simp)
  | invalidate =>
    exact stays (discardEntries_same (·.adopted) (fun _ => rfl) none _ { s with cached := .empty } i) (by simp)
  | detach => exact stays (detached_same (·.adopted) (fun _ => rfl) _ s.loads i) (by simp)
  | abort j =>
    refine stays ?_ (by simp)
    rw [step, Store.abort]
    split
    · dsimp only
      exact modified_same (·.adopted) (by intro load; rfl) i
    · rfl
  | complete j outcome now =>
    exact stays (complete_same (·.adopted) (fun _ => rfl) (fun _ => rfl) j outcome now i) (by simp)

/-- Of a load that still runs it is noted when the store has let go of it. -/
theorem step_detached {i : Nat} (made : i < s.loads.size) (action : Action Time)
    (alive : ((step s action).loads.get i).aborted = false) :
    ((step s action).loads.get i).discarded = true ↔ (s.loads.get i).discarded = true ∨
      action = .detach ∧ ∃ key, s.prefetched.get key = some i := by
  have stays {s' : Store Time} (same : (s'.loads.get i).discarded = (s.loads.get i).discarded) (other : action ≠ .detach) :
      (s'.loads.get i).discarded = true ↔ (s.loads.get i).discarded = true ∨
        action = .detach ∧ ∃ key, s.prefetched.get key = some i := by
    rw [same, or_iff_left fun h => other h.1]
  cases action with
  | prefetch boundary destination owner now throws =>
    exact stays (prefetch_same (·.discarded) (fun _ _ => rfl) made) (by simp)
  | cancel boundary destination owner =>
    refine stays ?_ (by simp)
    revert alive
    rw [step, Store.cancel]
    split
    · exact fun _ => rfl
    · split
      · exact fun _ => rfl
      · next j got =>
        split
        · exact fun _ => rfl
        · have left (k : Nat) : ((s.loads.modify j fun load => { load with owners := load.owners.erase owner }).get k).discarded =
              (s.loads.get k).discarded := modified_same (·.discarded) (by intro load; rfl) k
          dsimp only
          split
          · intro alive
            dsimp only [Store.drop] at alive ⊢
            rw [Heap.get_modify] at alive ⊢
            split at alive
            · cases alive
            · next other =>
              rw [if_neg other]
              exact left i
          · exact fun _ => left i
  | adopt named now => exact stays (adopt_same (·.discarded) (fun _ => rfl) (fun _ => rfl) named now i) (by simp)
  | discard except => exact stays (congrArg (·.discarded) (discardEntries_let_go except _ s alive)) (by simp)
  | invalidate =>
    exact stays (congrArg (·.discarded) (discardEntries_let_go none _ { s with cached := .empty } alive)) (by simp)
  | detach =>
    have marked (l : List Nat) (loads : Heap Load) :
        ((l.foldl (fun loads i => loads.modify i fun load => { load with discarded := true }) loads).get i).discarded = true ↔
          (loads.get i).discarded = true ∨ i ∈ l := by
      induction l generalizing loads with
      | nil => simp
      | cons j l ih =>
        rw [List.foldl_cons, ih, Heap.get_modify, List.mem_cons]
        split
        · next same => simp [same]
        · next other => simp [other]
    refine (marked _ s.loads).trans ?_
    rw [OrderedMap.mem_values]
    simp
  | abort j =>
    refine stays ?_ (by simp)
    rw [step, Store.abort]
    split
    · dsimp only
      exact modified_same (·.discarded) (by intro load; rfl) i
    · rfl
  | complete j outcome now =>
    exact stays (complete_same (·.discarded) (fun _ => rfl) (fun _ => rfl) j outcome now i) (by simp)

/-- No call makes more than one load, and that one is new to everybody. -/
theorem step_size (action : Action Time) : (step s action).loads.size = s.loads.size ∨
    (step s action).loads.size = s.loads.size + 1 ∧ (∃ boundary destination owner now throws,
      action = .prefetch boundary destination owner now throws) ∧
      ((step s action).loads.get s.loads.size).adopted = false ∧
      ((step s action).loads.get s.loads.size).discarded = false := by
  have discarded (except : Option JsString) (l : List (JsString × Nat)) (s : Store Time) :
      (l.foldl (Store.discardEntry except) s).loads.size = s.loads.size := by
    induction l generalizing s with
    | nil => rfl
    | cons entry l ih =>
      rw [List.foldl_cons, ih, Store.discardEntry]
      split <;> rfl
  have detached (l : List Nat) (loads : Heap Load) :
      (l.foldl (fun loads i => loads.modify i fun load => { load with discarded := true }) loads).size = loads.size := by
    induction l generalizing loads with
    | nil => rfl
    | cons j l ih => rw [List.foldl_cons, ih, Heap.modify_size]
  have registered (s : Store Time) (load : Load) (owner : Nat) (throws : Bool) (fresh : load.adopted = false ∧ load.discarded = false) :
      (s.register load owner throws).loads.size = s.loads.size ∨
        (s.register load owner throws).loads.size = s.loads.size + 1 ∧
          ((s.register load owner throws).loads.get s.loads.size).adopted = false ∧
          ((s.register load owner throws).loads.get s.loads.size).discarded = false := by
    rw [Store.register]
    split
    · exact .inl rfl
    · split
      · exact .inl rfl
      · split
        · exact .inl rfl
        · refine .inr ⟨rfl, ?_⟩
          dsimp only
          rw [Heap.get_push_self]
          exact fresh
  cases action with
  | prefetch boundary destination owner now throws =>
    have called : ∃ b d o n t, (Action.prefetch boundary destination owner now throws : Action Time) = .prefetch b d o n t :=
      ⟨_, _, _, _, _, rfl⟩
    rw [step, Store.prefetch]
    split
    · exact .inl rfl
    · next k scope found =>
      dsimp only
      split
      · exact (registered _ _ _ _ ⟨rfl, rfl⟩).imp_right fun h => ⟨h.1, called, h.2⟩
      · split
        · exact .inl rfl
        · have made := registered { s with cached := s.cached.erase k }
            ⟨k, boundary.sessionGeneration, scope, destination, [owner], false, false, false, false, 0, false⟩
            owner throws ⟨rfl, rfl⟩
          exact made.imp_right fun h => ⟨h.1, called, h.2⟩
  | cancel boundary destination owner =>
    refine .inl ?_
    rw [step, Store.cancel]
    split
    · rfl
    · split
      · rfl
      · split
        · rfl
        · dsimp only
          split <;> rfl
  | adopt named now =>
    refine .inl ?_
    unfold step Store.adopt
    dsimp only
    split
    · rfl
    · split
      · rfl
      · split
        · rfl
        · split <;> rfl
  | discard except => exact .inl (discarded except _ s)
  | invalidate => exact .inl (discarded none _ { s with cached := .empty })
  | detach => exact .inl (detached _ s.loads)
  | abort j =>
    refine .inl ?_
    rw [step, Store.abort]
    split <;> rfl
  | complete j outcome now =>
    refine .inl ?_
    rw [step, Store.complete]
    dsimp only
    split
    · rfl
    · split
      · rfl
      · split
        · split <;> rfl
        · rfl

theorem step_size_le (action : Action Time) : s.loads.size ≤ (step s action).loads.size := by
  rcases step_size (s := s) action with same | ⟨more, -⟩ <;> omega

/-- A load that is registered was so before, or has just been made for its first owner. -/
theorem step_registered {key : JsString} {i : Nat} (action : Action Time) (got : (step s action).prefetched.get key = some i) :
    s.prefetched.get key = some i ∨ i = s.loads.size ∧ ∃ boundary destination owner now throws,
      action = .prefetch boundary destination owner now throws ∧ keyFor boundary destination = some key ∧
        ((step s action).loads.get i).owners = [owner] := by
  have registered {s : Store Time} {load : Load} {owner : Nat} {throws : Bool}
      (got : (s.register load owner throws).prefetched.get key = some i) : s.prefetched.get key = some i ∨
        i = s.loads.size ∧ load.key = key ∧ (s.register load owner throws).loads.get i = load := by
    rw [Store.register] at got ⊢
    split at got
    · exact .inl got
    · split at got
      · exact .inl got
      · split at got
        · exact .inl got
        · next unknown room quiet =>
          dsimp only at got
          rw [OrderedMap.get_set] at got
          split at got
          · next same =>
            cases got
            rw [if_neg room, if_neg quiet]
            exact .inr ⟨rfl, same.symm, Heap.get_push_self _ _⟩
          · exact .inl got
  cases action with
  | prefetch boundary destination owner now throws =>
    have named {k scope : JsString} (found : scopedKey boundary destination = some (k, scope)) :
        keyFor boundary destination = some k := by rw [keyFor, found]; rfl
    rw [step, Store.prefetch] at got ⊢
    split at got
    · exact .inl got
    · next k scope found =>
      dsimp only at got ⊢
      split at got
      · rcases registered got with before | ⟨size, rfl, made⟩
        · exact .inl before
        · exact .inr ⟨size, boundary, destination, owner, now, throws, rfl, named found, congrArg (·.owners) made⟩
      · split at got
        · exact .inl got
        · next late =>
          rcases registered got with before | ⟨size, rfl, made⟩
          · exact .inl before
          · rw [if_neg late]
            exact .inr ⟨size, boundary, destination, owner, now, throws, rfl, named found, congrArg (·.owners) made⟩
  | cancel boundary destination owner =>
    refine .inl ?_
    rw [step, Store.cancel] at got
    split at got
    · exact got
    · split at got
      · exact got
      · split at got
        · exact got
        · dsimp only at got
          split at got
          · exact erase_get got
          · exact got
  | adopt named now =>
    refine .inl ?_
    unfold step Store.adopt at got
    dsimp only at got
    split at got
    · exact got
    · split at got
      · exact got
      · split at got
        · exact got
        · split at got <;> exact got
  | discard except => exact .inl (discardEntries_maps except _ s got).1
  | invalidate => exact .inl (discardEntries_maps none _ { s with cached := .empty } got).1
  | detach => cases got
  | abort j =>
    refine .inl ?_
    rw [step, Store.abort] at got
    split at got <;> exact got
  | complete j outcome now =>
    refine .inl ?_
    rw [step, Store.complete] at got
    dsimp only at got
    split at got
    · exact got
    · split at got
      · exact got
      · split at got
        · split at got <;> exact erase_get got
        · exact erase_get got

/-- The owners of a registered load after a call. -/
def ownersAfter (key : JsString) (owners : List Nat) : Action Time → List Nat
  | .prefetch boundary destination owner _ _ =>
    if keyFor boundary destination = some key then Store.addOwner owner owners else owners
  | .cancel boundary destination owner =>
    if keyFor boundary destination = some key then owners.erase owner else owners
  | _ => owners

theorem step_owners (h : Inv s) (apart : Apart s) {key : JsString} {i : Nat} (before : s.prefetched.get key = some i)
    (unadopted : (s.loads.get i).adopted = false) (action : Action Time)
    (got : (step s action).prefetched.get key = some i) :
    ((step s action).loads.get i).owners = ownersAfter key (s.loads.get i).owners action := by
  obtain ⟨made, mine, -⟩ := h.pending before
  have others {k : JsString} {j : Nat} (got : s.prefetched.get k = some j) (differs : k ≠ key) : i ≠ j := by
    rintro rfl
    exact differs ((h.pending got).2.1.symm.trans mine)
  cases action with
  | prefetch boundary destination owner now throws =>
    rw [step, Store.prefetch, ownersAfter, keyFor]
    cases found : scopedKey boundary destination with
    | none => rfl
    | some named =>
      obtain ⟨k, scope⟩ := named
      dsimp only [Option.map_some]
      by_cases same : k = key
      · subst same
        rw [apart k i before, if_pos rfl]
        dsimp only
        rw [Store.register, before]
        dsimp only
        rw [Heap.get_modify_self]
      · rw [if_neg fun e => same (Option.some.inj e)]
        have kept (s' : Store Time) (maps : s'.prefetched = s.prefetched) (loads : s'.loads = s.loads) (load : Load)
            (made_for : load.key = k) : ((s'.register load owner throws).loads.get i).owners = (s.loads.get i).owners := by
          rw [Store.register, maps, loads, made_for]
          split
          · next j other =>
            dsimp only
            rw [Heap.get_modify_ne _ _ (others other same)]
          · split
            · rw [loads]
            · split
              · rw [loads]
              · dsimp only
                rw [Heap.get_push_lt _ made]
        split
        · exact kept s rfl rfl _ rfl
        · split
          · rfl
          · refine kept _ ?_ ?_ _ ?_ <;> rfl
  | cancel boundary destination owner =>
    rw [step, Store.cancel] at got ⊢
    rw [ownersAfter]
    cases named : keyFor boundary destination with
    | none => rfl
    | some k =>
      rw [named] at got
      dsimp only at got ⊢
      by_cases same : k = key
      · subst same
        rw [before] at got ⊢
        dsimp only at got ⊢
        rw [if_pos rfl]
        rw [if_neg (by rw [unadopted]; decide)] at got ⊢
        split at got
        · rw [Store.drop] at got
          exact absurd got (by simp)
        · next left =>
          rw [if_neg left]
          dsimp only
          rw [Heap.get_modify_self]
      · rw [if_neg fun e => same (Option.some.inj e)]
        cases other : s.prefetched.get k with
        | none => rfl
        | some j =>
          have apart := others other same
          dsimp only
          split
          · rfl
          · split
            · dsimp only [Store.drop]
              rw [Heap.get_modify_ne _ _ apart, Heap.get_modify_ne _ _ apart]
            · dsimp only
              rw [Heap.get_modify_ne _ _ apart]
  | adopt named now => exact adopt_same (·.owners) (fun _ => rfl) (fun _ => rfl) named now i
  | discard except => exact discardEntries_same (·.owners) (fun _ => rfl) except _ s i
  | invalidate => exact discardEntries_same (·.owners) (fun _ => rfl) none _ { s with cached := .empty } i
  | detach => exact detached_same (·.owners) (fun _ => rfl) _ s.loads i
  | abort j =>
    rw [step, Store.abort]
    split
    · dsimp only
      exact modified_same (·.owners) (by intro load; rfl) i
    · rfl
  | complete j outcome now => exact complete_same (·.owners) (fun _ => rfl) (fun _ => rfl) j outcome now i

omit [LT Time] [DecidableLT Time] in
theorem mem_ownersAfter {key : JsString} {owners : List Nat} (distinct : owners.Nodup) (action : Action Time) (owner : Nat) :
    (ownersAfter key owners action).Nodup ∧ (owner ∈ ownersAfter key owners action ↔
      (owner ∈ owners ∧ ¬ GivesUp key owner action) ∨ AsksFor key owner action) := by
  have same (quiet : ¬ GivesUp key owner action) (other : ¬ AsksFor key owner action) : owners.Nodup ∧ (owner ∈ owners ↔
      (owner ∈ owners ∧ ¬ GivesUp key owner action) ∨ AsksFor key owner action) :=
    ⟨distinct, by simp [quiet, other]⟩
  cases action with
  | prefetch boundary destination other now throws =>
    rw [ownersAfter]
    split
    · next named =>
      rw [Store.addOwner]
      split
      · next already =>
        refine ⟨distinct, ?_⟩
        simp only [GivesUp, AsksFor, named, not_false_eq_true, and_true]
        constructor
        · exact .inl
        · rintro (mem | rfl)
          · exact mem
          · exact already
      · next fresh =>
        refine ⟨List.nodup_append.mpr ⟨distinct, List.nodup_singleton _, ?_⟩, ?_⟩
        · rintro a mem b new rfl
          exact fresh (List.mem_singleton.mp new ▸ mem)
        · simp [GivesUp, AsksFor, named, eq_comm]
    · next elsewhere => exact same (by simp [GivesUp]) (by simp [AsksFor, elsewhere])
  | cancel boundary destination other =>
    rw [ownersAfter]
    split
    · next named =>
      refine ⟨distinct.erase _, ?_⟩
      rw [distinct.mem_erase_iff]
      simp [GivesUp, AsksFor, named, and_comm, eq_comm]
    · next elsewhere => exact same (by simp [GivesUp, elsewhere]) (by simp [AsksFor])
  | adopt | discard | invalidate | detach | abort | complete =>
    exact same (by simp [GivesUp]) (by simp [AsksFor])

/-- A result in the cache was there before, or its load has just completed in time. -/
theorem step_cached {key : JsString} {completed : CompletedPrefetch Time} (action : Action Time)
    (got : (step s action).cached.get key = some completed) : s.cached.get key = some completed ∨
      ∃ now, action = .complete completed.result (.ok (some completed.expiresAt)) now ∧ now < completed.expiresAt := by
  have registered (s : Store Time) (load : Load) (owner : Nat) (throws : Bool) :
      (s.register load owner throws).cached = s.cached := by
    rw [Store.register]
    split
    · rfl
    · split
      · rfl
      · split <;> rfl
  have discarded (except : Option JsString) (l : List (JsString × Nat)) (s : Store Time) :
      (l.foldl (Store.discardEntry except) s).cached = s.cached := by
    induction l generalizing s with
    | nil => rfl
    | cons entry l ih =>
      rw [List.foldl_cons, ih, Store.discardEntry]
      split <;> rfl
  cases action with
  | prefetch boundary destination owner now throws =>
    refine .inl ?_
    rw [step, Store.prefetch] at got
    split at got
    · exact got
    · dsimp only at got
      split at got
      · rw [registered] at got
        exact got
      · next k _ _ _ there =>
        split at got
        · dsimp only at got
          rw [OrderedMap.get_set] at got
          split at got
          · next same => rw [same, there, ← got]
          · exact erase_get got
        · rw [registered] at got
          exact erase_get got
  | cancel boundary destination owner =>
    refine .inl ?_
    rw [step, Store.cancel] at got
    split at got
    · exact got
    · split at got
      · exact got
      · split at got
        · exact got
        · dsimp only at got
          split at got <;> exact got
  | adopt named now =>
    refine .inl ?_
    unfold step Store.adopt at got
    dsimp only at got
    split at got
    · exact got
    · split at got
      · exact got
      · split at got
        · exact got
        · split at got <;> exact erase_get got
  | discard except => exact .inl (discarded except _ s ▸ got)
  | invalidate =>
    have same := discarded none s.prefetched.entries { s with cached := .empty }
    exact absurd ((congrArg (·.get key) same).symm.trans got) (by simp)
  | detach => cases got
  | abort j =>
    refine .inl ?_
    rw [step, Store.abort] at got
    split at got <;> exact got
  | complete j outcome now =>
    rw [step, Store.complete] at got
    dsimp only at got
    split at got
    · exact .inl got
    · split at got
      · exact .inl got
      · split at got
        · split at got
          · next kept =>
            have got := trimmed_get got
            rw [OrderedMap.get_set] at got
            split at got
            · cases got
              exact .inr ⟨now, rfl, kept.2.2⟩
            · exact .inl (erase_get got)
          · exact .inl got
        · exact .inl got

/-! ## Every history -/

/-- What the store has noted is what has happened. -/
structure Noted (actions : List (Action Time)) : Prop where
  adopted : ∀ i < (run actions).loads.size, ((run actions).loads.get i).adopted = true ↔ Adopted actions i
  detached : ∀ i < (run actions).loads.size, ((run actions).loads.get i).aborted = false →
    (((run actions).loads.get i).discarded = true ↔ Detached actions i)
  owners : ∀ key i, (run actions).prefetched.get key = some i → ¬ Adopted actions i →
    ((run actions).loads.get i).owners.Nodup ∧ ∀ owner, owner ∈ ((run actions).loads.get i).owners ↔ Owns actions key i owner
  cached : ∀ key completed, (run actions).cached.get key = some completed →
    LoadedUntil actions completed.result completed.expiresAt

theorem registered_made {before : List (Action Time)} {key : JsString} {i : Nat}
    (got : (run before).prefetched.get key = some i) (after : List (Action Time)) :
    i < (run (before ++ after)).loads.size := by
  induction after using List.reverseRecOn with
  | nil => simpa using ((run_inv before).pending got).1
  | append_singleton after action ih =>
    rw [← List.append_assoc, run_snoc]
    exact Nat.lt_of_lt_of_le ih (step_size_le action)

theorem Adopted.made {actions : List (Action Time)} {i : Nat} (h : Adopted actions i) : i < (run actions).loads.size := by
  obtain ⟨before, action, after, rfl, key, now, -, got⟩ := h
  exact registered_made got _

theorem Detached.made {actions : List (Action Time)} {i : Nat} (h : Detached actions i) : i < (run actions).loads.size := by
  obtain ⟨before, action, after, rfl, -, key, got⟩ := h
  exact registered_made got _

theorem Owns.made {actions : List (Action Time)} {key : JsString} {i owner : Nat} (h : Owns actions key i owner) :
    i < (run actions).loads.size := by
  obtain ⟨before, action, after, rfl, ⟨-, got⟩, -⟩ := h
  rw [← run_snoc] at got
  simpa using registered_made got after

theorem made_snoc {actions : List (Action Time)} {action : Action Time} {i : Nat}
    (made : i < (run (actions ++ [action])).loads.size) : i < (run actions).loads.size ∨
      ((run (actions ++ [action])).loads.get i).adopted = false ∧
        ((run (actions ++ [action])).loads.get i).discarded = false ∧ ¬ Adopted (actions ++ [action]) i ∧
        ¬ Detached (actions ++ [action]) i := by
  rw [run_snoc] at made
  rcases step_size (s := run actions) action with same | ⟨more, ⟨_, _, _, _, _, rfl⟩, unadopted, held⟩
  · exact .inl (same ▸ made)
  · rcases Nat.lt_succ_iff_lt_or_eq.mp (more ▸ made) with less | rfl
    · exact .inl less
    · rw [← run_snoc] at unadopted held
      refine .inr ⟨unadopted, held, fun h => ?_, fun h => ?_⟩
      · rcases once_snoc.mp h with before | ⟨key, now, e, -⟩
        · exact Nat.lt_irrefl _ (Adopted.made before)
        · cases e
      · rcases once_snoc.mp h with before | ⟨e, -⟩
        · exact Nat.lt_irrefl _ (Detached.made before)
        · cases e

theorem step_stays_aborted {i : Nat} (made : i < s.loads.size) (action : Action Time)
    (aborted : (s.loads.get i).aborted = true) : ((step s action).loads.get i).aborted = true := by
  cases action with
  | prefetch boundary destination owner now throws =>
    exact (prefetch_same (·.aborted) (fun _ _ => rfl) made).trans aborted
  | cancel boundary destination owner =>
    rw [step, Store.cancel]
    split
    · exact aborted
    · split
      · exact aborted
      · next j got =>
        have left : ((s.loads.modify j fun load => { load with owners := load.owners.erase owner }).get i).aborted = true :=
          (modified_same (·.aborted) (by intro load; rfl) i).trans aborted
        split
        · exact aborted
        · dsimp only
          split
          · dsimp only [Store.drop]
            rw [Heap.get_modify]
            split
            · rfl
            · exact left
          · exact left
  | adopt named now => exact (adopt_same (·.aborted) (fun _ => rfl) (fun _ => rfl) named now i).trans aborted
  | discard except => exact (discard_aborted s except i).mpr (.inl aborted)
  | invalidate => exact (discard_aborted { s with cached := .empty } none i).mpr (.inl aborted)
  | detach => exact (detached_same (·.aborted) (fun _ => rfl) _ s.loads i).trans aborted
  | abort j =>
    rw [step, Store.abort]
    split
    · dsimp only
      rw [Heap.get_modify]
      split
      · rfl
      · exact aborted
    · exact aborted
  | complete j outcome now => exact (complete_same (·.aborted) (fun _ => rfl) (fun _ => rfl) j outcome now i).trans aborted

theorem step_alive {i : Nat} (made : i < s.loads.size) (action : Action Time)
    (alive : ((step s action).loads.get i).aborted = false) : (s.loads.get i).aborted = false := by
  cases aborted : (s.loads.get i).aborted with
  | false => rfl
  | true =>
    rw [step_stays_aborted made action aborted] at alive
    cases alive

theorem noted_adopted {actions : List (Action Time)} (noted : Noted actions) (action : Action Time) {i : Nat}
    (made : i < (run (actions ++ [action])).loads.size) :
    ((run (actions ++ [action])).loads.get i).adopted = true ↔ Adopted (actions ++ [action]) i := by
  rcases made_snoc made with less | ⟨unadopted, -, none, -⟩
  · rw [Adopted, once_snoc, run_snoc]
    exact (step_adopted less action).trans (or_congr_left (noted.adopted i less))
  · rw [unadopted]
    exact iff_of_false Bool.false_ne_true none

theorem noted_detached {actions : List (Action Time)} (noted : Noted actions) (action : Action Time) {i : Nat}
    (made : i < (run (actions ++ [action])).loads.size)
    (alive : ((run (actions ++ [action])).loads.get i).aborted = false) :
    ((run (actions ++ [action])).loads.get i).discarded = true ↔ Detached (actions ++ [action]) i := by
  rcases made_snoc made with less | ⟨-, held, -, none⟩
  · rw [run_snoc] at alive
    rw [Detached, once_snoc, run_snoc]
    have before := step_alive less action alive
    exact (step_detached less action alive).trans (or_congr_left (noted.detached i less before))
  · rw [held]
    exact iff_of_false Bool.false_ne_true none

theorem noted_owners {actions : List (Action Time)} (noted : Noted actions) (action : Action Time) {key : JsString} {i : Nat}
    (got : (run (actions ++ [action])).prefetched.get key = some i) (unadopted : ¬ Adopted (actions ++ [action]) i) :
    ((run (actions ++ [action])).loads.get i).owners.Nodup ∧
      ∀ owner, owner ∈ ((run (actions ++ [action])).loads.get i).owners ↔ Owns (actions ++ [action]) key i owner := by
  rw [run_snoc] at got ⊢
  have asked (owner : Nat) : Owns (actions ++ [action]) key i owner ↔
      (Owns actions key i owner ∧ ¬ GivesUp key owner action) ∨ AsksFor key owner action := by
    rw [Owns, since_snoc]
    exact or_congr_right (and_iff_left got)
  rcases step_registered action got with before | ⟨rfl, boundary, destination, owner, now, throws, rfl, named, first⟩
  · have quiet : ¬ Adopted actions i := fun h => unadopted h.later
    obtain ⟨distinct, owners⟩ := noted.owners key i before quiet
    have free : ((run actions).loads.get i).adopted = false := by
      rw [← noted.adopted i ((run_inv actions).pending before).1] at quiet
      simpa using quiet
    rw [step_owners (run_inv actions) (run_apart actions) before free action got]
    refine ⟨(mem_ownersAfter distinct action 0).1, fun owner => ?_⟩
    rw [(mem_ownersAfter distinct action owner).2, owners, asked]
  · rw [first]
    refine ⟨List.nodup_singleton _, fun other => ?_⟩
    rw [asked, List.mem_singleton]
    have fresh : ¬ Owns actions key (run actions).loads.size other := fun h => Nat.lt_irrefl _ h.made
    simp [fresh, AsksFor, named, eq_comm]

theorem noted_snoc {actions : List (Action Time)} (noted : Noted actions) (action : Action Time) :
    Noted (actions ++ [action]) where
  adopted _ made := noted_adopted noted action made
  detached _ made alive := noted_detached noted action made alive
  owners _ _ got unadopted := noted_owners noted action got unadopted
  cached key completed got := by
    rw [run_snoc] at got
    refine once_snoc.mpr ?_
    rcases step_cached action got with before | now
    · exact .inl (noted.cached key completed before)
    · exact .inr now

theorem noted (actions : List (Action Time)) : Noted actions := by
  induction actions using List.reverseRecOn with
  | nil => exact ⟨nofun, nofun, nofun, nofun⟩
  | append_singleton actions action ih => exact noted_snoc ih action

theorem step_hands {i : Nat} (apart : Apart s) {key : JsString} {now expiresAt : Time}
    (got : s.cached.get key = some ⟨i, expiresAt⟩) (early : now < expiresAt) :
    (s.loads.get i).handed < ((step s (.adopt (some key) now)).loads.get i).handed := by
  have idle : s.prefetched.get key = none := by
    cases registered : s.prefetched.get key with
    | none => rfl
    | some j =>
      rw [apart key j registered] at got
      cases got
  rw [step, Store.adopt, idle, got]
  dsimp only
  rw [if_pos early]
  dsimp only
  rw [Heap.get_modify_self]
  exact Nat.lt_succ_self _

theorem ends_iff_aborts {actions : List (Action Time)} (noted : Noted actions) {i : Nat} (made : i < (run actions).loads.size)
    (alive : ((run actions).loads.get i).aborted = false) (action : Action Time) :
    Ends (run actions) i action ↔ Aborts actions i action := by
  have unadopted : ((run actions).loads.get i).adopted = false ↔ ¬ Adopted actions i := by
    rw [← noted.adopted i made, Bool.not_eq_true]
  cases action with
  | cancel boundary destination owner =>
    rw [Ends, Aborts]
    refine exists_congr fun key => and_congr_right fun _ => and_congr_right fun got => ?_
    rw [unadopted]
    refine and_congr_right fun quiet => ?_
    obtain ⟨distinct, owners⟩ := noted.owners key i got quiet
    constructor
    · intro alone other
      rw [← owners, alone, List.mem_singleton]
    · intro alone
      have only : ((run actions).loads.get i).owners.Perm [owner] := by
        refine (List.perm_ext_iff_of_nodup distinct (List.nodup_singleton _)).mpr fun other => ?_
        rw [owners, alone, List.mem_singleton]
      exact List.perm_singleton.mp only
  | abort j =>
    rw [Ends, Aborts, noted.adopted i made, noted.detached i made alive]
  | prefetch | adopt | discard | invalidate | detach | complete => exact Iff.rfl

def home : Url := ⟨text "https:", text "https://app", text "/", [], by decide⟩

def item : Url := ⟨text "https:", text "https://app", text "/item", [], by decide⟩

def visiting (current : Url) : Boundary := ⟨some ⟨current, true, some []⟩, 0⟩

end Fluo.React.Prefetch
