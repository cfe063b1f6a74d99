import Fluo.Cache.ServiceBookkeeping

/-!
# What the service keeps when it is idle

A mark outlives the loads it is meant for when the last of them ends without
putting a load in flight, and turns away the load of a later miss.
-/

namespace Fluo.Cache.CacheService

variable {V : Type} {s t : CacheService V}

/-! ## What a miss stores -/

/-- A miss with no `del` of its key and no `reset` since it began waits for a
load that nothing keeps from storing its value. -/
structure Heeded (s : CacheService V) : Prop where
  started : ∀ i, (s.remembers.get i).startedAt ≤ s.clock
  old : ∀ i, (s.remembers.get i).version ≠ s.resetVersion → ∀ k, (s.remembers.get i).startedAt < s.invalidatedAt k
  wrote : ∀ e, (s.loads.get e).result ≠ none → (s.loads.get e).storable = true → LateStage (s.stage e) →
    (s.loads.get e).wrote = true ∨ (s.loads.get e).invalidated = true ∨ (s.loads.get e).generation < s.resetVersion
  bypassed : ∀ i, (s.remembers.get i).stage = .bypass ∨ (s.remembers.get i).stage = .missed none →
    (s.remembers.get i).startedAt < s.invalidatedAt (s.remembers.get i).key
  joined : ∀ i e, (s.remembers.get i).stage = .awaiting e ∨ (s.remembers.get i).stage = .missed (some e) →
    s.invalidatedAt (s.remembers.get i).key ≤ (s.remembers.get i).startedAt →
    e < s.loads.size ∧ (s.loads.get e).key = (s.remembers.get i).key ∧ (s.loads.get e).invalidated = false ∧
      (s.loads.get e).generation = s.resetVersion ∧
      ((s.remembers.get i).stage = .missed (some e) → s.stage e = .finished)

theorem Heeded.otherFields (h : Heeded s) (remembers : t.remembers = s.remembers) (loads : t.loads = s.loads)
    (version : t.resetVersion = s.resetVersion) (clock : t.clock = s.clock)
    (invalidatedAt : t.invalidatedAt = s.invalidatedAt) : Heeded t := by
  refine ⟨?_, ?_, ?_, ?_, ?_⟩
  · rw [remembers, clock]
    exact h.started
  · rw [remembers, version, invalidatedAt]
    exact h.old
  · intro e
    rw [stage, loads, version]
    exact h.wrote e
  · rw [remembers, invalidatedAt]
    exact h.bypassed
  · intro i e
    rw [remembers, invalidatedAt, stage, loads, version]
    exact h.joined i e

theorem Heeded.callRemember (h : Heeded s) (key : String) (storable : Bool) : Heeded (s.callRemember key storable) := by
  let r : Remember V := ⟨key, s.resetVersion, storable, s.clock, .reading⟩
  have get (i : Nat) : (s.callRemember key storable).remembers.get i =
    if i = s.remembers.size then r else s.remembers.get i := rfl
  refine ⟨fun i => ?_, fun i => ?_, h.wrote, fun i => ?_, fun i e => ?_⟩
  · rw [get]
    split
    · exact Nat.le_refl _
    · exact h.started i
  · rw [get]
    split
    · intro differs
      exact absurd rfl differs
    · exact h.old i
  · rw [get]
    split
    · rintro (now | now) <;> cases now
    · exact h.bypassed i
  · rw [get]
    split
    · rintro (now | now) <;> cases now
    · exact h.joined i e

theorem Heeded.callReset (h : Heeded s) : Heeded s.callReset := by
  refine ⟨fun i => Nat.le_succ_of_le (h.started i), fun i _ k => Nat.lt_succ_of_le (h.started i), fun e result storable late => ?_,
    fun i _ => Nat.lt_succ_of_le (h.started i), fun i e _ since => ?_⟩
  · exact (h.wrote e result storable late).imp id fun rest => rest.imp id Nat.lt_succ_of_lt
  · have := h.started i
    change s.clock + 1 ≤ (s.remembers.get i).startedAt at since
    omega

theorem Heeded.callDel (h : Heeded s) (coherent : Coherent s) (key : String) : Heeded (s.callDel key) := by
  obtain ⟨loads, pending, marks, aborted, eq, size, load⟩ := callDel_fields s key
  rw [eq]
  refine ⟨fun i => Nat.le_succ_of_le (h.started i), fun i differs k => ?_, fun e result storable late => ?_,
    fun i now => ?_, fun i e now since => ?_⟩
  · have began := h.started i
    have before := h.old i differs k
    change (s.remembers.get i).startedAt < if k = key then s.clock + 1 else s.invalidatedAt k
    split <;> omega
  · simp only [stage, load] at result storable late ⊢
    rcases h.wrote e result storable late with wrote | marked | old
    · exact .inl wrote
    · exact .inr (.inl (by simp [marked]))
    · exact .inr (.inr old)
  · have began := h.started i
    have before := h.bypassed i now
    change (s.remembers.get i).startedAt < if (s.remembers.get i).key = key then s.clock + 1 else
      s.invalidatedAt (s.remembers.get i).key
    split <;> omega
  · have began := h.started i
    change (if (s.remembers.get i).key = key then s.clock + 1 else s.invalidatedAt (s.remembers.get i).key) ≤
      (s.remembers.get i).startedAt at since
    split at since
    · omega
    · next other =>
      obtain ⟨inBounds, own, unmarked, generation, past⟩ := h.joined i e now since
      have elsewhere : s.inflight.get key ≠ some e := by
        intro found
        exact other (own ▸ (coherent.registered key e found).1)
      change e < loads.size ∧ (loads.get e).key = (s.remembers.get i).key ∧ (loads.get e).invalidated = false ∧
        (loads.get e).generation = s.resetVersion ∧ (_ → (loads.get e).stage = .finished)
      rw [load, size]
      exact ⟨inBounds, own, by simp [unmarked, elsewhere], generation, past⟩

theorem Heeded.call (h : Heeded s) (coherent : Coherent s) (c : Call V) : Heeded (s.call c) := by
  cases c with
  | remember key storable => exact h.callRemember key storable
  | set key value storable => exact h.otherFields rfl rfl rfl rfl rfl
  | del key => exact h.callDel coherent key
  | reset => exact h.callReset
  | update key =>
    exact h.otherFields rfl rfl rfl rfl rfl

theorem Heeded.calls (h : Heeded s) (coherent : Coherent s) (calls : List (Call V)) :
    Heeded (calls.foldl CacheService.call s) := by
  induction calls generalizing s with
  | nil => exact h
  | cons c rest ih => exact ih (h.call coherent c) (call_coherent coherent c)

theorem call_invalidatedAt_mono (s : CacheService V) (clocked : ∀ k, s.invalidatedAt k ≤ s.clock) (c : Call V) :
    (∀ k, s.invalidatedAt k ≤ (s.call c).invalidatedAt k) ∧ ∀ k, (s.call c).invalidatedAt k ≤ (s.call c).clock := by
  cases c with
  | remember | set => exact ⟨fun k => Nat.le_refl _, clocked⟩
  | reset => exact ⟨fun k => Nat.le_succ_of_le (clocked k), fun k => Nat.le_refl _⟩
  | del key =>
    obtain ⟨loads, pending, marks, aborted, eq, -, -⟩ := callDel_fields s key
    rw [CacheService.call, eq]
    refine ⟨fun k => ?_, fun k => ?_⟩
    · have := clocked k
      change s.invalidatedAt k ≤ if k = key then s.clock + 1 else s.invalidatedAt k
      split <;> omega
    · have := clocked k
      change (if k = key then s.clock + 1 else s.invalidatedAt k) ≤ s.clock + 1
      split <;> omega
  | update key =>
    exact ⟨fun k => Nat.le_refl _, clocked⟩

theorem calls_invalidatedAt_mono (s : CacheService V) (clocked : ∀ k, s.invalidatedAt k ≤ s.clock)
    (calls : List (Call V)) (k : String) : s.invalidatedAt k ≤ (calls.foldl CacheService.call s).invalidatedAt k := by
  induction calls generalizing s with
  | nil => exact Nat.le_refl _
  | cons c rest ih =>
    obtain ⟨grows, clocked'⟩ := call_invalidatedAt_mono s clocked c
    exact Nat.le_trans (grows k) (ih (s.call c) clocked')

/-- A remember moves to a stage that says nothing wrong about what it waits
for. -/
theorem Heeded.setRemember (h : Heeded s) {i : Nat} (stage : RememberStage V)
    (bypassed : stage = .bypass ∨ stage = .missed none →
      (s.remembers.get i).startedAt < s.invalidatedAt (s.remembers.get i).key)
    (joined : ∀ e, stage = .awaiting e ∨ stage = .missed (some e) →
      s.invalidatedAt (s.remembers.get i).key ≤ (s.remembers.get i).startedAt →
      e < s.loads.size ∧ (s.loads.get e).key = (s.remembers.get i).key ∧ (s.loads.get e).invalidated = false ∧
        (s.loads.get e).generation = s.resetVersion ∧ (stage = .missed (some e) → s.stage e = .finished)) :
    Heeded (s.setRemember i stage) := by
  refine ⟨fun j => ?_, fun j => ?_, h.wrote, fun j => ?_, fun j e => ?_⟩
  all_goals by_cases same : j = i
  · rw [same, setRemember_self]
    exact h.started i
  · rw [setRemember_ne _ _ same]
    exact h.started j
  · rw [same, setRemember_self]
    exact h.old i
  · rw [setRemember_ne _ _ same]
    exact h.old j
  · rw [same, setRemember_self]
    exact bypassed
  · rw [setRemember_ne _ _ same]
    exact h.bypassed j
  · rw [same, setRemember_self]
    exact joined e
  · rw [setRemember_ne _ _ same]
    exact h.joined j e

theorem Heeded.modifyLoad (h : Heeded s) {e : Nat} (f : InflightLoad V → InflightLoad V)
    (key : (f (s.loads.get e)).key = (s.loads.get e).key)
    (generation : (f (s.loads.get e)).generation = (s.loads.get e).generation)
    (invalidated : (f (s.loads.get e)).invalidated = (s.loads.get e).invalidated)
    (finished : s.stage e = .finished → (f (s.loads.get e)).stage = .finished)
    (wrote : (f (s.loads.get e)).result ≠ none → (f (s.loads.get e)).storable = true →
      LateStage (f (s.loads.get e)).stage → (f (s.loads.get e)).wrote = true ∨
        (s.loads.get e).invalidated = true ∨ (s.loads.get e).generation < s.resetVersion) :
    Heeded { s with loads := s.loads.modify e f } := by
  have keys : ∀ d, ((s.loads.modify e f).get d).key = (s.loads.get d).key := s.loads.get_modify_proj e f _ key
  have generations : ∀ d, ((s.loads.modify e f).get d).generation = (s.loads.get d).generation :=
    s.loads.get_modify_proj e f _ generation
  have marks : ∀ d, ((s.loads.modify e f).get d).invalidated = (s.loads.get d).invalidated :=
    s.loads.get_modify_proj e f _ invalidated
  refine ⟨h.started, h.old, fun d => ?_, h.bypassed, fun i d now since => ?_⟩
  · change ((s.loads.modify e f).get d).result ≠ none → ((s.loads.modify e f).get d).storable = true →
      LateStage ((s.loads.modify e f).get d).stage → ((s.loads.modify e f).get d).wrote = true ∨
        ((s.loads.modify e f).get d).invalidated = true ∨ ((s.loads.modify e f).get d).generation < s.resetVersion
    rw [marks, generations, Heap.get_modify]
    split
    · next same =>
      rw [same]
      exact wrote
    · exact h.wrote d
  · obtain ⟨inBounds, own, unmarked, current, past⟩ := h.joined i d now since
    refine ⟨inBounds, (keys d).trans own, (marks d).trans unmarked, (generations d).trans current, fun missed => ?_⟩
    have done := past missed
    change ((s.loads.modify e f).get d).stage = .finished
    rw [Heap.get_modify]
    split
    · next same => exact finished (same ▸ done)
    · exact done

theorem Heeded.continueLoad (h : Heeded s) (coherent : Coherent s) {e : Nat} (ht : s.continueLoad e = some t) :
    Heeded t := by
  -- a load that is stale now and not over is of an older generation if it is not marked
  have stale (live : s.Unfinished e) (isStale : s.isStale e = true) :
      (s.loads.get e).invalidated = true ∨ (s.loads.get e).generation < s.resetVersion := by
    have past := coherent.past e live
    rw [CacheService.isStale, Bool.or_eq_true_iff, decide_eq_true_eq] at isStale
    exact isStale.imp id fun differs => by omega
  rw [CacheService.continueLoad] at ht
  split at ht
  · next loaded =>
    have now : s.stage e = .loaded := loaded
    have live : s.Unfinished e := by rw [Unfinished, now]; decide
    split at ht
    · next skips =>
      cases ht
      refine h.modifyLoad (fun x => { x with stage := .returning }) rfl rfl rfl
        (fun past => absurd (now.symm.trans past) (by decide)) (fun result _ _ => .inr ?_)
      exact stale live (skips.resolve_left result)
    · cases ht
      split
      · exact h.modifyLoad (fun x => { x with stage := .writing }) rfl rfl rfl
          (fun past => absurd (now.symm.trans past) (by decide)) (fun _ _ late => absurd late id)
      · next notStorable =>
        exact h.modifyLoad (fun x => { x with stage := .written }) rfl rfl rfl
          (fun past => absurd (now.symm.trans past) (by decide)) (fun _ storable _ => absurd storable notStorable)
  · next written =>
    have now : s.stage e = .written := written
    have late : LateStage (s.stage e) := by rw [now]; trivial
    cases ht
    exact h.modifyLoad (fun x => { x with stage := if s.isStale e then .deleting else .returning }) rfl rfl rfl
      (fun past => absurd (now.symm.trans past) (by decide)) (fun result storable _ => h.wrote e result storable late)
  · next returning =>
    cases ht
    have now : s.stage e = .returning := returning
    have late : LateStage (s.stage e) := by rw [now]; trivial
    have finished : Heeded { s with loads := s.loads.modify e fun x => { x with stage := .finished } } :=
      h.modifyLoad (fun x => { x with stage := .finished }) rfl rfl rfl (fun _ => rfl)
        (fun result storable _ => h.wrote e result storable late)
    exact finished.otherFields rfl rfl rfl rfl rfl
  · cases ht

theorem Heeded.effectOfLoad (h : Heeded s) {e : Nat} (ht : s.effectOfLoad e = some t) : Heeded t := by
  rw [CacheService.effectOfLoad] at ht
  split at ht
  · next value writing _ =>
    cases ht
    have now : s.stage e = .writing := writing
    have written : Heeded { s with loads := s.loads.modify e fun x => { x with wrote := true, stage := .written } } :=
      h.modifyLoad (fun x => { x with wrote := true, stage := .written }) rfl rfl rfl
        (fun past => absurd (now.symm.trans past) (by decide)) (fun _ _ _ => .inl rfl)
    exact written.otherFields rfl rfl rfl rfl rfl
  · next deleting =>
    cases ht
    have now : s.stage e = .deleting := deleting
    have late : LateStage (s.stage e) := by rw [now]; trivial
    have returning : Heeded { s with loads := s.loads.modify e fun x => { x with stage := .returning } } :=
      h.modifyLoad (fun x => { x with stage := .returning }) rfl rfl rfl
        (fun past => absurd (now.symm.trans past) (by decide)) (fun result storable _ => h.wrote e result storable late)
    exact returning.otherFields rfl rfl rfl rfl rfl
  · cases ht

/-- A remember that goes on now is turned away: by the mark of the load it
joins, or by the one left for a load that begins. -/
def turnedAway (s : CacheService V) (i : Nat) : Bool :=
  let r := s.remembers.get i
  let begins := decide (s.pendingInvalidations.get r.key = some r.version)
  match s.inflight.get r.key with
  | some e => if (s.loads.get e).generation = r.version then (s.loads.get e).invalidated else begins
  | none => begins

/-- It is so because of a `del` or a `reset` that was called since it began. -/
def HeedsOwn (s : CacheService V) (i : Nat) : Prop :=
  s.turnedAway i = true → (s.remembers.get i).startedAt < s.invalidatedAt (s.remembers.get i).key

instance (s : CacheService V) (i : Nat) : Decidable (s.HeedsOwn i) := inferInstanceAs (Decidable (_ → _))

theorem Heeded.addLoad (h : Heeded s) {i : Nat} (x : InflightLoad V) (live : x.stage = .loading)
    (joined : s.invalidatedAt (s.remembers.get i).key ≤ (s.remembers.get i).startedAt →
      x.key = (s.remembers.get i).key ∧ x.invalidated = false ∧ x.generation = s.resetVersion) :
    Heeded ({ s with
      loads := s.loads.push x
      inflight := s.inflight.set x.key s.loads.size }.setRemember i (.awaiting s.loads.size)) := by
  have get (d : Nat) : (s.loads.push x).get d = if d = s.loads.size then x else s.loads.get d := rfl
  have added : Heeded { s with loads := s.loads.push x, inflight := s.inflight.set x.key s.loads.size } := by
    refine ⟨h.started, h.old, fun d => ?_, h.bypassed, fun j d now since => ?_⟩
    · change ((s.loads.push x).get d).result ≠ none → ((s.loads.push x).get d).storable = true →
        LateStage ((s.loads.push x).get d).stage → ((s.loads.push x).get d).wrote = true ∨
          ((s.loads.push x).get d).invalidated = true ∨ ((s.loads.push x).get d).generation < s.resetVersion
      rw [get]
      split
      · rw [live]
        exact fun _ _ late => absurd late id
      · exact h.wrote d
    · obtain ⟨inBounds, own, unmarked, current, past⟩ := h.joined j d now since
      have older : (s.loads.push x).get d = s.loads.get d := Heap.get_push_lt x inBounds
      change d < s.loads.size + 1 ∧ ((s.loads.push x).get d).key = _ ∧ ((s.loads.push x).get d).invalidated = false ∧
        ((s.loads.push x).get d).generation = s.resetVersion ∧ (_ → ((s.loads.push x).get d).stage = .finished)
      rw [older]
      exact ⟨Nat.lt_succ_of_lt inBounds, own, unmarked, current, past⟩
  refine added.setRemember _ (fun now => by rcases now with now | now <;> cases now) (fun e now since => ?_)
  rcases now with now | now
  · cases now
    obtain ⟨own, unmarked, current⟩ := joined since
    refine ⟨Nat.lt_succ_self _, ?_, ?_, ?_, fun missed => by cases missed⟩
    · exact (congrArg InflightLoad.key (s.loads.get_push_self x)).trans own
    · exact (congrArg InflightLoad.invalidated (s.loads.get_push_self x)).trans unmarked
    · exact (congrArg InflightLoad.generation (s.loads.get_push_self x)).trans current
  · cases now

theorem Heeded.endRemember (h : Heeded s) {i : Nat} (stage : RememberStage V)
    (bypassed : stage = .missed none → (s.remembers.get i).stage = .bypass)
    (joined : ∀ e, stage = .missed (some e) → (s.remembers.get i).stage = .awaiting e ∧ s.stage e = .finished)
    (past : stage.isEnded = true) : Heeded (s.endRemember i stage) := by
  let p := endPendingLoad s.pendingLoads (s.remembers.get i).key (s.remembers.get i).version
  have ended : Heeded { s with pendingLoads := p } := h.otherFields rfl rfl rfl rfl rfl
  refine ended.setRemember stage (fun now => ?_) (fun e now since => ?_)
  · rcases now with now | now
    · rw [now] at past
      cases past
    · exact h.bypassed i (.inl (bypassed now))
  · rcases now with now | now
    · rw [now] at past
      cases past
    · obtain ⟨awaited, finished⟩ := joined e now
      obtain ⟨inBounds, own, unmarked, current, -⟩ := h.joined i e (.inl awaited) since
      exact ⟨inBounds, own, unmarked, current, fun _ => finished⟩

theorem Heeded.startLoad (h : Heeded s) (coherent : Coherent s) {i : Nat} {calls : List (Call V)} {throws : Bool}
    (bound : i < s.remembers.size)
    (old : ∀ e, s.inflight.get (s.remembers.get i).key = some e → (s.loads.get e).generation ≠ s.resetVersion)
    (unmarked : throws = false → s.pendingInvalidations.get (s.remembers.get i).key = some (s.remembers.get i).version →
      (s.remembers.get i).startedAt < s.invalidatedAt (s.remembers.get i).key) :
    Heeded (s.startLoad i calls throws) := by
  let s' : CacheService V := { s with inflight := s.inflight.erase (s.remembers.get i).key }
  have forgot : Heeded s' := h.otherFields rfl rfl rfl rfl rfl
  have coherent' : Coherent s' :=
    (Safe.forget (show Safe False s from ⟨coherent, False.elim, False.elim⟩) old).coherent
  have after : Heeded (calls.foldl CacheService.call s') := forgot.calls coherent' calls
  obtain ⟨same, -⟩ := calls_remembers (s := s') bound calls
  have grows := calls_invalidatedAt_mono s' coherent.clocked calls
  cases throws with
  | true =>
    rw [CacheService.startLoad, if_pos rfl]
    exact after.endRemember .threw (fun now => by cases now) (fun e now => by cases now) rfl
  | false =>
    rw [CacheService.startLoad, if_neg Bool.false_ne_true]
    let r := s.remembers.get i
    let x : InflightLoad V := ⟨r.key, r.version, decide (s.pendingInvalidations.get r.key = some r.version), r.storable,
      s.clock, .loading, none, false,
      (calls.foldl CacheService.call { s with inflight := s.inflight.erase r.key }).resetVersion⟩
    refine after.addLoad x rfl fun since => ?_
    have own : (calls.foldl CacheService.call s').remembers.get i = r := same
    have later := after.old i
    rw [own] at since later ⊢
    refine ⟨rfl, decide_eq_false fun marked => ?_, ?_⟩
    · have before := unmarked rfl marked
      have := grows r.key
      change s.invalidatedAt r.key ≤ _ at this
      change r.startedAt < s.invalidatedAt r.key at before
      omega
    · by_contra differs
      have := later differs r.key
      omega

theorem Heeded.startBypass (h : Heeded s) (coherent : Coherent s) {i : Nat} {calls : List (Call V)} {throws : Bool}
    (bound : i < s.remembers.size) (version : (s.remembers.get i).version ≠ s.resetVersion) :
    Heeded (s.startBypass i calls throws) := by
  have after := h.calls coherent calls
  obtain ⟨same, -⟩ := calls_remembers bound calls
  have grows := calls_invalidatedAt_mono s coherent.clocked calls (s.remembers.get i).key
  have before := h.old i version (s.remembers.get i).key
  cases throws with
  | true => exact after.endRemember .threw (fun now => by cases now) (fun e now => by cases now) rfl
  | false =>
    refine after.setRemember .bypass (fun _ => ?_) (fun e now => by rcases now with now | now <;> cases now)
    rw [same]
    omega

theorem Heeded.miss (h : Heeded s) (coherent : Coherent s) {i : Nat} {calls : List (Call V)} {throws : Bool}
    (bound : i < s.remembers.size) (heeds : ¬ (s.startsLoad i = true ∧ throws = true) → s.HeedsOwn i) :
    Heeded (s.miss i calls throws) := by
  rw [CacheService.miss]
  split
  · next version =>
    split
    · next e found =>
      split
      · next fresh =>
        -- it joins the load in flight
        have joins : s.startsLoad i = false := by simp [startsLoad, found, fresh]
        have own := heeds fun both => Bool.false_ne_true (joins.symm.trans both.1)
        obtain ⟨key, live⟩ := coherent.registered _ _ found
        refine h.setRemember (.awaiting e) (fun now => by rcases now with now | now <;> cases now) (fun d now since => ?_)
        rcases now with now | now
        · cases now
          refine ⟨coherent.allocated e live, key, ?_, by rw [fresh, version], fun missed => by cases missed⟩
          cases marked : (s.loads.get e).invalidated with
          | false => rfl
          | true =>
            have before := own (by simp [turnedAway, found, fresh, marked])
            omega
        · cases now
      · next differs =>
        have old : ∀ d, s.inflight.get (s.remembers.get i).key = some d → (s.loads.get d).generation ≠ s.resetVersion := by
          intro d again
          rw [found] at again
          cases again
          rwa [← version]
        refine h.startLoad coherent bound old fun keeps marked => ?_
        exact heeds (fun both => Bool.false_ne_true (keeps.symm.trans both.2)) (by simp [turnedAway, found, differs, marked])
    · next absent =>
      have old : ∀ d, s.inflight.get (s.remembers.get i).key = some d → (s.loads.get d).generation ≠ s.resetVersion := by
        intro d found
        rw [absent] at found
        cases found
      refine h.startLoad coherent bound old fun keeps marked => ?_
      exact heeds (fun both => Bool.false_ne_true (keeps.symm.trans both.2)) (by simp [turnedAway, absent, marked])
  · next version => exact h.startBypass coherent bound version

/-! ## Runs -/

def ProceedsClean (s : CacheService V) (i : Nat) (calls : List (Call V)) (throws : Bool) : Prop :=
  match (s.remembers.get i).stage with
  | .read (some _) => s.EndsClean i
  | .read none => if s.startsLoad i = true ∧ throws = true then (s.afterCalls i calls).EndsClean i else s.HeedsOwn i
  | _ => True

instance (s : CacheService V) (i : Nat) (calls : List (Call V)) (throws : Bool) :
    Decidable (s.ProceedsClean i calls throws) := by
  unfold ProceedsClean
  split <;> infer_instance

/-- A remember ends as the last pending load of its key only when no mark is
left for it, and misses without being turned away by an older mark. -/
def Reclaims (s : CacheService V) : ServiceEvent V → Prop
  | .proceed i calls throws => s.ProceedsClean i calls throws
  | .rememberEnds i => s.EndsClean i
  | _ => True

instance (s : CacheService V) : (e : ServiceEvent V) → Decidable (s.Reclaims e)
  | .proceed i calls throws => inferInstanceAs (Decidable (s.ProceedsClean i calls throws))
  | .rememberEnds i => inferInstanceAs (Decidable (s.EndsClean i))
  | .call _ | .read _ | .loaderSettles _ _ | .loadContinues _ | .loadEffect _ | .writeEffect _ | .writeEnds _
  | .commit _ _ | .updateSettles _ | .expire _ => isTrue trivial

structure Book (s : CacheService V) : Prop where
  coherent : Coherent s
  kept : Kept s
  controlled : Controlled s
  heeded : Heeded s

theorem call_controlled (h : Controlled s) (c : Call V) : Controlled (s.call c) := by
  cases c with
  | remember | set | reset => exact h.congr rfl rfl
  | del key =>
    obtain ⟨loads, pending, marks, aborted, eq, -, -⟩ := callDel_fields s key
    rw [call, eq]
    exact h.congr rfl rfl
  | update key => exact h.callUpdate key

theorem calls_controlled (h : Controlled s) (calls : List (Call V)) : Controlled (calls.foldl call s) := by
  induction calls generalizing s with
  | nil => exact h
  | cons c rest ih => exact ih (call_controlled h c)

theorem miss_controlled (h : Controlled s) (i : Nat) (calls : List (Call V)) (throws : Bool) :
    Controlled (s.miss i calls throws) := by
  have loads : Controlled (s.startLoad i calls throws) := by
    have forgot : Controlled { s with inflight := s.inflight.erase (s.remembers.get i).key } := h.congr rfl rfl
    have after := calls_controlled forgot calls
    rw [startLoad]
    cases throws with
    | true => exact after.congr rfl rfl
    | false => exact after.congr rfl rfl
  rw [miss]
  split
  · split
    · split
      · exact h.congr rfl rfl
      · exact loads
    · exact loads
  · rw [startBypass]
    cases throws with
    | true => exact (calls_controlled h calls).congr rfl rfl
    | false => exact (calls_controlled h calls).congr rfl rfl

theorem continueLoad_fields {e : Nat} (ht : s.continueLoad e = some t) :
    t.updates = s.updates ∧ t.updateCalls = s.updateCalls := by
  rw [continueLoad] at ht
  split at ht
  · split at ht <;> cases ht <;> exact ⟨rfl, rfl⟩
  · cases ht
    exact ⟨rfl, rfl⟩
  · cases ht
    exact ⟨rfl, rfl⟩
  · cases ht

theorem continueLoad_kept (h : Kept s) {e : Nat} (ht : s.continueLoad e = some t) : Kept t := by
  rw [continueLoad] at ht
  split at ht
  · split at ht <;> cases ht <;> exact h.otherFields rfl rfl rfl rfl rfl rfl
  · cases ht
    exact h.otherFields rfl rfl rfl rfl rfl rfl
  · cases ht
    exact h.finishLoad e
  · cases ht

theorem effectOfLoad_fields {e : Nat} (ht : s.effectOfLoad e = some t) :
    ∃ store loads, t = { s with store := store, loads := loads } := by
  rw [effectOfLoad] at ht
  split at ht
  · cases ht
    exact ⟨_, _, rfl⟩
  · cases ht
    exact ⟨_, _, rfl⟩
  · cases ht

theorem step_kept {e : ServiceEvent V} (reclaims : s.Reclaims e) (book : Book s) (ht : s.step e = some t) : Kept t := by
  have h := book.kept
  have opened {i : Nat} (stage : (s.remembers.get i).stage.isEnded = false) : i < s.remembers.size :=
    book.coherent.open_ i stage
  cases e with
  | call c =>
    cases ht
    exact h.call c
  | read i =>
    simp only [step] at ht
    split at ht
    · next reading =>
      cases ht
      have still : (s.remembers.get i).stage.isEnded = false := by rw [reading]; rfl
      exact h.setRemember _ (opened still) still rfl
    · cases ht
  | proceed i calls throws =>
    simp only [step] at ht
    split at ht
    · next value reading =>
      cases ht
      have still : (s.remembers.get i).stage.isEnded = false := by rw [reading]; rfl
      simp only [Reclaims, ProceedsClean, reading] at reclaims
      exact h.endRemember (.hit value) (opened still) still rfl reclaims
    · next reading =>
      cases ht
      have still : (s.remembers.get i).stage.isEnded = false := by rw [reading]; rfl
      simp only [Reclaims, ProceedsClean, reading] at reclaims
      refine h.miss (opened still) reading fun starts throwing => ?_
      rwa [if_pos ⟨starts, throwing⟩] at reclaims
    · cases ht
  | rememberEnds i =>
    simp only [step] at ht
    split at ht
    · next bypass =>
      cases ht
      have still : (s.remembers.get i).stage.isEnded = false := by rw [bypass]; rfl
      exact h.endRemember (.missed none) (opened still) still rfl reclaims
    · next e awaiting =>
      split at ht
      · cases ht
        have still : (s.remembers.get i).stage.isEnded = false := by rw [awaiting]; rfl
        exact h.endRemember (.missed (some e)) (opened still) still rfl reclaims
      · cases ht
    · cases ht
  | loadContinues e => exact continueLoad_kept h ht
  | loadEffect e =>
    obtain ⟨store, loads, rfl⟩ := effectOfLoad_fields ht
    exact h.otherFields rfl rfl rfl rfl rfl rfl
  | expire key =>
    cases ht
    exact h.otherFields rfl rfl rfl rfl rfl rfl
  | loaderSettles | writeEffect | writeEnds | commit | updateSettles =>
    simp only [step] at ht
    split at ht
    · cases ht
      exact h.otherFields rfl rfl rfl rfl rfl rfl
    · cases ht

theorem step_controlled {e : ServiceEvent V} (book : Book s) (ht : s.step e = some t) : Controlled t := by
  have h := book.controlled
  cases e with
  | call c =>
    cases ht
    exact call_controlled h c
  | proceed i calls throws =>
    simp only [step] at ht
    split at ht
    · cases ht
      exact h.congr rfl rfl
    · cases ht
      exact miss_controlled h i calls throws
    · cases ht
  | rememberEnds i =>
    simp only [step] at ht
    split at ht
    · cases ht
      exact h.congr rfl rfl
    · split at ht
      · cases ht
        exact h.congr rfl rfl
      · cases ht
    · cases ht
  | loadContinues e =>
    obtain ⟨updates, calls⟩ := continueLoad_fields ht
    exact h.congr updates calls
  | loadEffect e =>
    obtain ⟨store, loads, rfl⟩ := effectOfLoad_fields ht
    exact h.congr rfl rfl
  | expire key =>
    cases ht
    exact h.congr rfl rfl
  | updateSettles i =>
    simp only [step] at ht
    split at ht
    · next running =>
      cases ht
      exact h.endUpdate running.1 running.2
    · cases ht
  | read | loaderSettles | writeEffect | writeEnds | commit =>
    simp only [step] at ht
    split at ht
    · cases ht
      exact h.congr rfl rfl
    · cases ht

theorem step_heeded {e : ServiceEvent V} (reclaims : s.Reclaims e) (book : Book s) (ht : s.step e = some t) :
    Heeded t := by
  have h := book.heeded
  cases e with
  | call c =>
    cases ht
    exact h.call book.coherent c
  | read i =>
    simp only [step] at ht
    split at ht
    · cases ht
      exact h.setRemember _ (fun now => by rcases now with now | now <;> cases now)
        (fun e now => by rcases now with now | now <;> cases now)
    · cases ht
  | proceed i calls throws =>
    simp only [step] at ht
    split at ht
    · next value reading =>
      cases ht
      exact h.endRemember (.hit value) (fun now => by cases now) (fun e now => by cases now) rfl
    · next reading =>
      cases ht
      have bound : i < s.remembers.size := book.coherent.open_ i (by rw [reading]; rfl)
      simp only [Reclaims, ProceedsClean, reading] at reclaims
      refine h.miss book.coherent bound fun keeps => ?_
      rwa [if_neg keeps] at reclaims
    · cases ht
  | rememberEnds i =>
    simp only [step] at ht
    split at ht
    · next bypass =>
      cases ht
      exact h.endRemember (.missed none) (fun _ => bypass) (fun e now => by cases now) rfl
    · next e awaiting =>
      split at ht
      · next finished =>
        cases ht
        refine h.endRemember (.missed (some e)) (fun now => by cases now) (fun d now => ?_) rfl
        cases now
        exact ⟨awaiting, finished⟩
      · cases ht
    · cases ht
  | loaderSettles e result =>
    simp only [step] at ht
    split at ht
    · next loading =>
      cases ht
      exact h.modifyLoad (fun x => { x with stage := .loaded, result }) rfl rfl rfl
        (fun past => absurd (loading.symm.trans past) (by decide)) (fun _ _ late => absurd late id)
    · cases ht
  | loadContinues e => exact h.continueLoad book.coherent ht
  | loadEffect e => exact h.effectOfLoad ht
  | expire key =>
    cases ht
    exact h.otherFields rfl rfl rfl rfl rfl
  | writeEffect | writeEnds | commit | updateSettles =>
    simp only [step] at ht
    split at ht
    · cases ht
      exact h.otherFields rfl rfl rfl rfl rfl
    · cases ht

theorem step_coherent {e : ServiceEvent V} (h : Coherent s) (ht : s.step e = some t) : Coherent t :=
  (step_safe False.elim (show Safe False s from ⟨h, False.elim, False.elim⟩) ht).coherent

theorem step_book {e : ServiceEvent V} (reclaims : s.Reclaims e) (h : Book s) (ht : s.step e = some t) : Book t :=
  ⟨step_coherent h.coherent ht, step_kept reclaims h ht, step_controlled h ht, step_heeded reclaims h ht⟩

theorem book_initial : Book (initial : CacheService V) where
  coherent := (show Safe False initial from safe_initial).coherent
  kept := by
    refine ⟨fun i bound => absurd bound (Nat.not_lt_zero i), fun k => rfl, fun k g found => ?_, fun k has => ?_⟩
    · cases found
    · cases has
  controlled := Groups.holds_empty.congr fun i => if_neg fun both => Nat.not_lt_zero i both.1
  heeded := by
    refine ⟨fun i => Nat.le_refl 0, fun i differs => absurd rfl differs, fun e result => absurd rfl result, fun i now => ?_,
      fun i e now => ?_⟩
    · rcases now with now | now <;> cases now
    · rcases now with now | now <;> cases now

/-- Nothing is kept when no call is in flight, and a miss stores what its
loader gave unless a `del` of its key or a `reset` was called since it began. -/
structure Reclaimed (s : CacheService V) : Prop where
  empty : s.Quiet → s.inflight.entries = [] ∧ s.pendingLoads.entries = [] ∧ s.pendingInvalidations.entries = [] ∧
    s.invalidatedInflight.entries = [] ∧ s.updates.groups.entries = []
  stores : ∀ i o, (s.remembers.get i).stage = .missed o →
    s.invalidatedAt (s.remembers.get i).key ≤ (s.remembers.get i).startedAt →
    ∃ e, o = some e ∧ (s.loads.get e).key = (s.remembers.get i).key ∧
      ((s.loads.get e).result ≠ none → (s.loads.get e).storable = true → (s.loads.get e).wrote = true)

theorem entries_eq_nil {κ ν : Type} [DecidableEq κ] {m : OrderedMap κ ν} (h : ∀ k, m.get k = none) : m.entries = [] := by
  refine List.eq_nil_iff_forall_not_mem.mpr fun entry mem => ?_
  have found := OrderedMap.mem_entries.mp (show (entry.1, entry.2) ∈ m.entries from mem)
  rw [h] at found
  cases found

theorem Quiet.live (quiet : s.Quiet) (k : String) : s.live k = 0 := by
  refine Heap.total_eq_zero fun i bound => ?_
  have past := quiet.remembers i bound
  simp [pendingWeight, past]

theorem Book.empty (h : Book s) (quiet : s.Quiet) :
    s.inflight.entries = [] ∧ s.pendingLoads.entries = [] ∧ s.pendingInvalidations.entries = [] ∧
      s.invalidatedInflight.entries = [] ∧ s.updates.groups.entries = [] := by
  have idle := quiet.live
  have inflight (k : String) : s.inflight.get k = none := by
    cases found : s.inflight.get k with
    | none => rfl
    | some e =>
      obtain ⟨i, bound, waits⟩ := h.coherent.owned e (h.coherent.registered k e found).2
      have past := quiet.remembers i bound
      rw [waits] at past
      cases past
  refine ⟨entries_eq_nil inflight, entries_eq_nil fun k => ?_, entries_eq_nil fun k => ?_, entries_eq_nil fun k => ?_,
    entries_eq_nil fun k => ?_⟩
  · have counted := h.kept.counted k
    rw [idle k] at counted
    exact Option.map_eq_none_iff.mp counted
  · cases found : s.pendingInvalidations.get k with
    | none => rfl
    | some g =>
      have pos := (h.kept.pendingMark k g found).2
      have := idle k
      omega
  · cases found : s.invalidatedInflight.get k with
    | none => rfl
    | some u =>
      have has : s.invalidatedInflight.has k = true := Option.isSome_iff_exists.mpr ⟨u, found⟩
      have none := idle k
      rcases h.kept.mark k has with ⟨e, registered⟩ | pos
      · rw [inflight k] at registered
        cases registered
      · omega
  · refine Groups.Holds.no_key h.controlled (fun i => if_neg fun both => ?_) k
    rw [quiet.updates i both.1] at both
    exact Bool.false_ne_true both.2

theorem Book.stores (h : Book s) {i : Nat} {o : Option Nat} (missed : (s.remembers.get i).stage = .missed o)
    (since : s.invalidatedAt (s.remembers.get i).key ≤ (s.remembers.get i).startedAt) :
    ∃ e, o = some e ∧ (s.loads.get e).key = (s.remembers.get i).key ∧
      ((s.loads.get e).result ≠ none → (s.loads.get e).storable = true → (s.loads.get e).wrote = true) := by
  cases o with
  | none =>
    have := h.heeded.bypassed i (.inr missed)
    omega
  | some e =>
    obtain ⟨-, key, unmarked, current, past⟩ := h.heeded.joined i e (.inr missed) since
    refine ⟨e, rfl, key, fun result storable => ?_⟩
    have late : LateStage (s.stage e) := by
      rw [past missed]
      trivial
    rcases h.heeded.wrote e result storable late with wrote | marked | old
    · exact wrote
    · rw [unmarked] at marked
      cases marked
    · omega

end Fluo.Cache.CacheService
