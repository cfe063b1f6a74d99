import Fluo.Cache.Service

/-!
# Invalidated loads stay out of the store

A load that a `del` or a `reset` overtakes is marked or of an old generation,
so it does not write, or deletes what it wrote.
-/

namespace Fluo.Cache.CacheService

variable {V : Type} {s t : CacheService V}

def stage (s : CacheService V) (e : Nat) : LoadStage := (s.loads.get e).stage

def Unfinished (s : CacheService V) (e : Nat) : Prop := s.stage e ≠ .finished

instance (s : CacheService V) (e : Nat) : Decidable (s.Unfinished e) := inferInstanceAs (Decidable (_ ≠ _))

/-- The stages from the effect of the write on. -/
def LateStage : LoadStage → Prop
  | .written | .deleting | .returning | .finished => True
  | _ => False

/-- A `del` of its key or a `reset` was called after the load called its loader. -/
def Overtaken (s : CacheService V) (e : Nat) : Prop :=
  (s.loads.get e).startedAt < s.invalidatedAt (s.loads.get e).key

/-- How loads, the map of loads in flight and the calls that wait for them
belong together. -/
structure Coherent (s : CacheService V) : Prop where
  allocated : ∀ e, s.Unfinished e → e < s.loads.size
  registered : ∀ k e, s.inflight.get k = some e → (s.loads.get e).key = k ∧ s.Unfinished e
  current : ∀ e, s.Unfinished e → (s.loads.get e).generation = s.resetVersion →
    s.inflight.get (s.loads.get e).key = some e
  past : ∀ e, s.Unfinished e → (s.loads.get e).generation ≤ s.resetVersion
  owned : ∀ e, s.Unfinished e → ∃ i, i < s.remembers.size ∧ (s.remembers.get i).stage = .awaiting e
  open_ : ∀ i, (s.remembers.get i).stage.isEnded = false → i < s.remembers.size
  clocked : ∀ k, s.invalidatedAt k ≤ s.clock
  stored : ∀ k v e, s.store.get k = some ⟨v, .load e⟩ →
    e < s.loads.size ∧ (s.loads.get e).key = k ∧ LateStage (s.stage e)

def Flagged (s : CacheService V) : Prop :=
  ∀ e, s.Unfinished e → s.Overtaken e → s.isStale e = true

def Removes : WriteKind V → String → Prop
  | .set _ _, _ => False
  | .del key, k => key = k
  | .reset, _ => True

/-- A value of an overtaken load is on its way out of the store. -/
def Removed (s : CacheService V) : Prop :=
  ∀ k v e, s.store.get k = some ⟨v, .load e⟩ → s.Overtaken e →
    s.stage e = .written ∨ s.stage e = .deleting ∨
      ∃ i, i < s.writes.size ∧ (s.writes.get i).stage = .pending ∧ Removes (s.writes.get i).kind k

/-! ## What calls do -/

theorem markInvalidated_fields (s : CacheService V) (key : String) :
    ∃ loads pending marks, s.markInvalidated key =
      { s with loads := loads, pendingInvalidations := pending, invalidatedInflight := marks } := by
  unfold markInvalidated
  split
  · exact ⟨_, _, _, rfl⟩
  · split
    · exact ⟨_, _, _, rfl⟩
    · exact ⟨_, _, _, rfl⟩

theorem markInvalidated_load (s : CacheService V) (key : String) (e : Nat) :
    (s.markInvalidated key).loads.get e =
      { s.loads.get e with
        invalidated := (s.loads.get e).invalidated || decide (s.inflight.get key = some e) } := by
  unfold markInvalidated
  split
  · next x found =>
    rw [Heap.get_modify]
    by_cases same : e = x
    · simp [same, found]
    · simp [same, found, Ne.symm same]
  · next absent =>
    split <;> simp [absent]

theorem callDel_fields (s : CacheService V) (key : String) :
    ∃ loads pending marks aborted, s.callDel key =
      { s with
        loads := loads
        pendingInvalidations := pending
        invalidatedInflight := marks
        aborted := aborted
        writes := s.writes.push ⟨.del key, .pending⟩
        clock := s.clock + 1
        invalidatedAt := fun k => if k = key then s.clock + 1 else s.invalidatedAt k } ∧
      loads.size = s.loads.size ∧
      ∀ e, loads.get e =
        { s.loads.get e with
          invalidated := (s.loads.get e).invalidated || decide (s.inflight.get key = some e) } := by
  obtain ⟨loads, pending, marks, eq⟩ := markInvalidated_fields (s.invalidateUpdates (some key)) key
  have load := markInvalidated_load (s.invalidateUpdates (some key)) key
  have size : ((s.invalidateUpdates (some key)).markInvalidated key).loads.size = s.loads.size := by
    unfold markInvalidated
    split
    · rfl
    · split <;> rfl
  rw [eq] at load size
  exact ⟨loads, pending, marks, _, by rw [callDel, eq]; rfl, size, load⟩

/-- The facts about loads that marks leave alone. -/
structure SameLoads (s t : CacheService V) : Prop where
  size : t.loads.size = s.loads.size
  stage : ∀ e, t.stage e = s.stage e
  key : ∀ e, (t.loads.get e).key = (s.loads.get e).key
  generation : ∀ e, (t.loads.get e).generation = (s.loads.get e).generation
  startedAt : ∀ e, (t.loads.get e).startedAt = (s.loads.get e).startedAt

theorem SameLoads.of_eq (h : t.loads = s.loads) : SameLoads s t :=
  ⟨by rw [h], fun e => congrArg (fun l => (Heap.get l e).stage) h, fun e => by rw [h], fun e => by rw [h], fun e => by rw [h]⟩

/-- Entries of loads in `t` are entries of loads in `s`. -/
def FewerStored (s t : CacheService V) : Prop :=
  ∀ k v e, t.store.get k = some ⟨v, .load e⟩ → s.store.get k = some ⟨v, .load e⟩

theorem Coherent.congr (h : Coherent s) (loads : SameLoads s t) (inflight : t.inflight = s.inflight)
    (version : t.resetVersion = s.resetVersion) (remembers : t.remembers = s.remembers)
    (clocked : ∀ k, t.invalidatedAt k ≤ t.clock) (store : FewerStored s t) : Coherent t where
  allocated e live := by
    rw [loads.size]
    exact h.allocated e (by rwa [Unfinished, loads.stage] at live)
  registered k e found := by
    rw [inflight] at found
    obtain ⟨key, live⟩ := h.registered k e found
    exact ⟨by rw [loads.key, key], by rwa [Unfinished, loads.stage]⟩
  current e live fresh := by
    rw [Unfinished, loads.stage] at live
    rw [loads.generation, version] at fresh
    rw [inflight, loads.key, h.current e live fresh]
  past e live := by
    rw [Unfinished, loads.stage] at live
    rw [loads.generation, version]
    exact h.past e live
  owned e live := by
    rw [Unfinished, loads.stage] at live
    rw [remembers]
    exact h.owned e live
  open_ := by
    rw [remembers]
    exact h.open_
  clocked := clocked
  stored k v e found := by
    rw [loads.size, loads.key, loads.stage]
    exact h.stored k v e (store k v e found)

theorem callRemember_coherent (h : Coherent s) (key : String) (storable : Bool) :
    Coherent (s.callRemember key storable) where
  allocated := h.allocated
  registered := h.registered
  current := h.current
  past := h.past
  owned e live := by
    obtain ⟨i, bound, waits⟩ := h.owned e live
    exact ⟨i, Nat.lt_succ_of_lt bound, by rw [← waits]; exact congrArg _ (Heap.get_push_lt _ bound)⟩
  open_ i opened := by
    change (((s.remembers.push _).get i).stage.isEnded = false) at opened
    change i < s.remembers.size + 1
    rw [Heap.get_push] at opened
    split at opened
    · omega
    · exact Nat.lt_succ_of_lt (h.open_ i opened)
  clocked := h.clocked
  stored := h.stored

theorem callReset_coherent (h : Coherent s) : Coherent s.callReset where
  allocated := h.allocated
  registered k e found := by cases found
  current e live fresh := by
    have old := h.past e live
    have new : (s.loads.get e).generation = s.resetVersion + 1 := fresh
    omega
  past e live := Nat.le_succ_of_le (h.past e live)
  owned := h.owned
  open_ := h.open_
  clocked _ := Nat.le_refl _
  stored := h.stored

theorem callDel_coherent (h : Coherent s) (key : String) : Coherent (s.callDel key) := by
  obtain ⟨loads, pending, marks, aborted, eq, size, load⟩ := callDel_fields s key
  rw [eq]
  refine h.congr ⟨size, fun e => ?_, fun e => ?_, fun e => ?_, fun e => ?_⟩ rfl rfl rfl (fun k => ?_) (fun _ _ _ => id)
  · simp only [stage, load]
  · simp only [load]
  · simp only [load]
  · simp only [load]
  · have old := h.clocked k
    change (if k = key then s.clock + 1 else s.invalidatedAt k) ≤ s.clock + 1
    split <;> omega

theorem call_coherent (h : Coherent s) (c : Call V) : Coherent (s.call c) := by
  cases c with
  | remember key storable => exact callRemember_coherent h key storable
  | set key value storable => exact h.congr (.of_eq rfl) rfl rfl rfl h.clocked (fun _ _ _ => id)
  | del key => exact callDel_coherent h key
  | reset => exact callReset_coherent h
  | update key =>
    exact h.congr (.of_eq rfl) rfl rfl rfl h.clocked (fun _ _ _ => id)

theorem call_flagged (h : Coherent s) (flagged : Flagged s) (c : Call V) : Flagged (s.call c) := by
  cases c with
  | remember key storable => exact flagged
  | set key value storable => exact flagged
  | reset =>
    intro e live _
    have old : (s.loads.get e).generation ≤ s.resetVersion := h.past e live
    have stale : (s.loads.get e).generation ≠ s.resetVersion + 1 := by omega
    exact Bool.or_eq_true_iff.mpr (.inr (decide_eq_true stale))
  | update key =>
    exact flagged
  | del key =>
    obtain ⟨loads, pending, marks, aborted, eq, size, load⟩ := callDel_fields s key
    rw [call, eq]
    intro e live overtaken
    simp only [Unfinished, stage, Overtaken, isStale, load] at live overtaken ⊢
    -- the load of the key that is in flight is marked; another one of the key is of an old generation
    by_cases same : (s.loads.get e).key = key
    · by_cases fresh : (s.loads.get e).generation = s.resetVersion
      · have found := h.current e live fresh
        rw [same] at found
        simp [found]
      · simp [fresh]
    · rw [if_neg same] at overtaken
      have known := flagged e live overtaken
      rw [isStale, Bool.or_eq_true_iff] at known
      rcases known with marked | old
      · simp [marked]
      · simp only [old, Bool.or_true]

theorem removes_push {k : String} {s : CacheService V} (w : Write V)
    (h : ∃ i, i < s.writes.size ∧ (s.writes.get i).stage = .pending ∧ Removes (s.writes.get i).kind k) :
    ∃ i, i < (s.writes.push w).size ∧ ((s.writes.push w).get i).stage = .pending ∧
      Removes ((s.writes.push w).get i).kind k := by
  obtain ⟨i, bound, pending, removes⟩ := h
  exact ⟨i, Nat.lt_succ_of_lt bound, by rwa [Heap.get_push_lt w bound], by rwa [Heap.get_push_lt w bound]⟩

theorem call_removed (h : Coherent s) (removed : Removed s) (c : Call V) : Removed (s.call c) := by
  cases c with
  | remember key storable => exact removed
  | set key value storable =>
    intro k v e found overtaken
    exact (removed k v e found overtaken).imp id fun rest => rest.imp id (removes_push _)
  | reset =>
    intro k v e found overtaken
    exact .inr (.inr ⟨s.writes.size, Nat.lt_succ_self _, by simp [call, callReset], by simp [call, callReset, Removes]⟩)
  | update key =>
    exact removed
  | del key =>
    obtain ⟨loads, pending, marks, aborted, eq, size, load⟩ := callDel_fields s key
    rw [call, eq]
    intro k v e found overtaken
    have own := (h.stored k v e found).2.1
    simp only [stage, Overtaken, load] at overtaken ⊢
    by_cases same : k = key
    · exact .inr (.inr ⟨s.writes.size, Nat.lt_succ_self _, by simp, by simp [Removes, same]⟩)
    · rw [own, if_neg same, ← own] at overtaken
      exact (removed k v e found overtaken).imp id fun rest => rest.imp id (removes_push _)

variable {careful : Prop}

/-- The invariant. What it says of overtaken loads is for runs that are
careful. -/
structure Safe (careful : Prop) (s : CacheService V) : Prop where
  coherent : Coherent s
  flagged : careful → Flagged s
  removed : careful → Removed s

theorem Safe.call (h : Safe careful s) (c : Call V) : Safe careful (s.call c) :=
  ⟨call_coherent h.coherent c, fun hp => call_flagged h.coherent (h.flagged hp) c,
    fun hp => call_removed h.coherent (h.removed hp) c⟩

theorem Safe.calls (h : Safe careful s) (calls : List (Call V)) : Safe careful (calls.foldl CacheService.call s) := by
  induction calls generalizing s with
  | nil => exact h
  | cons c rest ih => exact ih (h.call c)

/-! ## The jobs of a remember -/

theorem Safe.setRemember (h : Safe careful s) {i : Nat} (stage : RememberStage V)
    (opened : (s.remembers.get i).stage.isEnded = false)
    (idle : ∀ e, (s.remembers.get i).stage = .awaiting e → ¬ s.Unfinished e) : Safe careful (s.setRemember i stage) := by
  refine ⟨⟨h.coherent.allocated, h.coherent.registered, h.coherent.current, h.coherent.past, ?_, ?_,
    h.coherent.clocked, h.coherent.stored⟩, h.flagged, h.removed⟩
  · intro e live
    obtain ⟨j, bound, waits⟩ := h.coherent.owned e live
    have other : j ≠ i := by
      rintro rfl
      exact idle e waits live
    refine ⟨j, bound, ?_⟩
    rw [s.setRemember_ne stage other, waits]
  · intro j still
    by_cases same : j = i
    · subst same
      exact h.coherent.open_ j opened
    · rw [s.setRemember_ne stage same] at still
      exact h.coherent.open_ j still

theorem Safe.endRemember (h : Safe careful s) {i : Nat} (stage : RememberStage V)
    (opened : (s.remembers.get i).stage.isEnded = false)
    (idle : ∀ e, (s.remembers.get i).stage = .awaiting e → ¬ s.Unfinished e) : Safe careful (s.endRemember i stage) := by
  have ended : Safe careful { s with pendingLoads := endPendingLoad s.pendingLoads (s.remembers.get i).key (s.remembers.get i).version } :=
    ⟨⟨h.coherent.allocated, h.coherent.registered, h.coherent.current, h.coherent.past, h.coherent.owned,
      h.coherent.open_, h.coherent.clocked, h.coherent.stored⟩, h.flagged, h.removed⟩
  exact ended.setRemember stage opened idle

/-- A load of a key without one is put in flight. -/
theorem Safe.addLoad (h : Safe careful t) {i : Nat} (x : InflightLoad V) (reading : (t.remembers.get i).stage = .read none)
    (absent : t.inflight.get x.key = none) (live : x.stage = .loading) (past : x.generation ≤ t.resetVersion)
    (known : careful → x.startedAt < t.invalidatedAt x.key → x.generation ≠ t.resetVersion) :
    Safe careful ({ t with
      loads := t.loads.push x
      inflight := t.inflight.set x.key t.loads.size }.setRemember i (.awaiting t.loads.size)) := by
  have bound : i < t.remembers.size := h.coherent.open_ i (by rw [reading]; rfl)
  have old {d : Nat} (other : d ≠ t.loads.size) : (t.loads.push x).get d = t.loads.get d := by
    rw [Heap.get_push, if_neg other]
  have new : (t.loads.push x).get t.loads.size = x := t.loads.get_push_self x
  refine ⟨⟨?_, ?_, ?_, ?_, ?_, ?_, h.coherent.clocked, ?_⟩, ?_, ?_⟩
  · intro d unfinished
    change d < t.loads.size + 1
    change ((t.loads.push x).get d).stage ≠ .finished at unfinished
    by_cases same : d = t.loads.size
    · omega
    · rw [old same] at unfinished
      exact Nat.lt_succ_of_lt (h.coherent.allocated d unfinished)
  · intro k d found
    change (t.inflight.set x.key t.loads.size).get k = some d at found
    change ((t.loads.push x).get d).key = k ∧ ((t.loads.push x).get d).stage ≠ .finished
    rw [OrderedMap.get_set] at found
    split at found
    · next same =>
      cases found
      rw [new, live]
      exact ⟨same.symm, by decide⟩
    · obtain ⟨key, unfinished⟩ := h.coherent.registered k d found
      have other : d ≠ t.loads.size := Nat.ne_of_lt (h.coherent.allocated d unfinished)
      rw [old other]
      exact ⟨key, unfinished⟩
  · intro d unfinished fresh
    change ((t.loads.push x).get d).stage ≠ .finished at unfinished
    change ((t.loads.push x).get d).generation = t.resetVersion at fresh
    change (t.inflight.set x.key t.loads.size).get ((t.loads.push x).get d).key = some d
    by_cases same : d = t.loads.size
    · rw [same, new, OrderedMap.get_set_self]
    · rw [old same] at unfinished fresh ⊢
      have found := h.coherent.current d unfinished fresh
      rw [OrderedMap.get_set, if_neg, found]
      intro clash
      rw [clash, absent] at found
      cases found
  · intro d unfinished
    change ((t.loads.push x).get d).stage ≠ .finished at unfinished
    change ((t.loads.push x).get d).generation ≤ t.resetVersion
    by_cases same : d = t.loads.size
    · rw [same, new]
      exact past
    · rw [old same] at unfinished ⊢
      exact h.coherent.past d unfinished
  · intro d unfinished
    change ((t.loads.push x).get d).stage ≠ .finished at unfinished
    by_cases same : d = t.loads.size
    · exact ⟨i, bound, by rw [setRemember_self, same]⟩
    · rw [old same] at unfinished
      obtain ⟨j, inBounds, waits⟩ := h.coherent.owned d unfinished
      have other : j ≠ i := by
        rintro rfl
        rw [reading] at waits
        cases waits
      exact ⟨j, inBounds, by rw [setRemember_ne _ _ other]; exact waits⟩
  · intro j still
    by_cases same : j = i
    · rw [same]
      exact bound
    · rw [setRemember_ne _ _ same] at still
      exact h.coherent.open_ j still
  · intro k v d found
    obtain ⟨inBounds, key, late⟩ := h.coherent.stored k v d found
    change d < t.loads.size + 1 ∧ ((t.loads.push x).get d).key = k ∧ LateStage ((t.loads.push x).get d).stage
    rw [old (Nat.ne_of_lt inBounds)]
    exact ⟨Nat.lt_succ_of_lt inBounds, key, late⟩
  · intro hp d unfinished overtaken
    change ((t.loads.push x).get d).stage ≠ .finished at unfinished
    change ((t.loads.push x).get d).startedAt < t.invalidatedAt ((t.loads.push x).get d).key at overtaken
    change (((t.loads.push x).get d).invalidated ||
      decide (((t.loads.push x).get d).generation ≠ t.resetVersion)) = true
    by_cases same : d = t.loads.size
    · rw [same, new] at overtaken ⊢
      simp [known hp overtaken]
    · rw [old same] at unfinished overtaken ⊢
      exact h.flagged hp d unfinished overtaken
  · intro hp k v d found overtaken
    obtain ⟨inBounds, -, -⟩ := h.coherent.stored k v d found
    change ((t.loads.push x).get d).startedAt < t.invalidatedAt ((t.loads.push x).get d).key at overtaken
    change ((t.loads.push x).get d).stage = .written ∨ ((t.loads.push x).get d).stage = .deleting ∨ _
    rw [old (Nat.ne_of_lt inBounds)] at overtaken ⊢
    exact h.removed hp k v d found overtaken

/-! ## The calls of a loader -/

def Call.isReset : Call V → Bool
  | .reset => true
  | _ => false

def Call.isDel (key : String) : Call V → Bool
  | .del j => j = key
  | _ => false

/-- A loader that deletes its own key before it returns its promise, and does
not reset the cache there. -/
def deletesOwn (key : String) (calls : List (Call V)) : Bool := calls.any (Call.isDel key) && !calls.any Call.isReset

theorem call_resetVersion (s : CacheService V) (c : Call V) :
    (s.call c).resetVersion = s.resetVersion + if Call.isReset c then 1 else 0 := by
  cases c with
  | remember | set | reset => rfl
  | del key =>
    obtain ⟨loads, pending, marks, aborted, eq, -, -⟩ := callDel_fields s key
    rw [call, eq]
    rfl
  | update key =>
    rfl

theorem call_invalidatedAt (s : CacheService V) {c : Call V} {key : String} (noReset : Call.isReset c = false)
    (noDel : Call.isDel key c = false) : (s.call c).invalidatedAt key = s.invalidatedAt key := by
  cases c with
  | remember | set => rfl
  | reset => cases noReset
  | del j =>
    obtain ⟨loads, pending, marks, aborted, eq, -, -⟩ := callDel_fields s j
    have other : key ≠ j := fun same => of_decide_eq_false noDel same.symm
    rw [call, eq]
    exact if_neg other
  | update j =>
    rfl

theorem call_absent {s : CacheService V} {key : String} (h : s.inflight.get key = none) (c : Call V) :
    (s.call c).inflight.get key = none := by
  cases c with
  | remember | set => exact h
  | reset => rfl
  | del j =>
    obtain ⟨loads, pending, marks, aborted, eq, -, -⟩ := callDel_fields s j
    rw [call, eq]
    exact h
  | update j =>
    exact h

theorem call_remembers {s : CacheService V} {i : Nat} (h : i < s.remembers.size) (c : Call V) :
    (s.call c).remembers.get i = s.remembers.get i ∧ i < (s.call c).remembers.size := by
  cases c with
  | remember key storable => exact ⟨Heap.get_push_lt _ h, Nat.lt_succ_of_lt h⟩
  | set | reset => exact ⟨rfl, h⟩
  | del j =>
    obtain ⟨loads, pending, marks, aborted, eq, -, -⟩ := callDel_fields s j
    rw [call, eq]
    exact ⟨rfl, h⟩
  | update j =>
    exact ⟨rfl, h⟩

theorem calls_resetVersion (s : CacheService V) (calls : List (Call V)) :
    s.resetVersion ≤ (calls.foldl call s).resetVersion ∧
      (calls.any Call.isReset = true → s.resetVersion < (calls.foldl call s).resetVersion) := by
  induction calls generalizing s with
  | nil => exact ⟨Nat.le_refl _, fun none => by cases none⟩
  | cons c rest ih =>
    have first := call_resetVersion s c
    obtain ⟨grows, resets⟩ := ih (s.call c)
    rw [List.foldl_cons, List.any_cons]
    refine ⟨by omega, fun some => ?_⟩
    rcases Bool.or_eq_true_iff.mp some with now | later
    · rw [if_pos now] at first
      omega
    · have := resets later
      omega

theorem calls_invalidatedAt (s : CacheService V) {calls : List (Call V)} {key : String}
    (noReset : calls.any Call.isReset = false) (noDel : calls.any (Call.isDel key) = false) :
    (calls.foldl call s).invalidatedAt key = s.invalidatedAt key := by
  induction calls generalizing s with
  | nil => rfl
  | cons c rest ih =>
    rw [List.any_cons, Bool.or_eq_false_iff] at noReset noDel
    rw [List.foldl_cons, ih _ noReset.2 noDel.2, call_invalidatedAt s noReset.1 noDel.1]

theorem calls_absent {s : CacheService V} {key : String} (h : s.inflight.get key = none) (calls : List (Call V)) :
    (calls.foldl call s).inflight.get key = none := by
  induction calls generalizing s with
  | nil => exact h
  | cons c rest ih => exact ih (call_absent h c)

theorem calls_remembers {s : CacheService V} {i : Nat} (h : i < s.remembers.size) (calls : List (Call V)) :
    (calls.foldl call s).remembers.get i = s.remembers.get i ∧ i < (calls.foldl call s).remembers.size := by
  induction calls generalizing s with
  | nil => exact ⟨rfl, h⟩
  | cons c rest ih =>
    obtain ⟨same, bound⟩ := call_remembers h c
    obtain ⟨later, bound'⟩ := ih bound
    exact ⟨by rw [List.foldl_cons, later, same], bound'⟩

/-! ## Misses -/

/-- What is in flight for the key of an old generation may be forgotten. -/
theorem Safe.forget (h : Safe careful s) {key : String}
    (old : ∀ e, s.inflight.get key = some e → (s.loads.get e).generation ≠ s.resetVersion) :
    Safe careful { s with inflight := s.inflight.erase key } := by
  refine ⟨⟨h.coherent.allocated, ?_, ?_, h.coherent.past, h.coherent.owned, h.coherent.open_, h.coherent.clocked,
    h.coherent.stored⟩, h.flagged, h.removed⟩
  · intro k e found
    change (s.inflight.erase key).get k = some e at found
    rw [OrderedMap.get_erase] at found
    split at found
    · cases found
    · exact h.coherent.registered k e found
  · intro e live fresh
    have found := h.coherent.current e live fresh
    change (s.inflight.erase key).get (s.loads.get e).key = some e
    rw [OrderedMap.get_erase, if_neg, found]
    intro clash
    exact old e (clash ▸ found) fresh

theorem Safe.startLoad (h : Safe careful s) {i : Nat} {calls : List (Call V)} {throws : Bool}
    (reading : (s.remembers.get i).stage = .read none) (version : (s.remembers.get i).version = s.resetVersion)
    (old : ∀ e, s.inflight.get (s.remembers.get i).key = some e → (s.loads.get e).generation ≠ s.resetVersion)
    (tame : careful → throws = false → deletesOwn (s.remembers.get i).key calls = false) :
    Safe careful (s.startLoad i calls throws) := by
  have bound : i < s.remembers.size := h.coherent.open_ i (by rw [reading]; rfl)
  have before := h.forget old
  have after := before.calls calls
  obtain ⟨same, -⟩ := calls_remembers (s := { s with inflight := s.inflight.erase (s.remembers.get i).key }) bound calls
  have stillReading := (congrArg Remember.stage same).trans reading
  cases throws with
  | true =>
    rw [CacheService.startLoad, if_pos rfl]
    exact after.endRemember .threw (by rw [stillReading]; rfl) (by rw [stillReading]; intro e waits; cases waits)
  | false =>
    rw [CacheService.startLoad, if_neg Bool.false_ne_true]
    let r := s.remembers.get i
    let x : InflightLoad V := ⟨r.key, r.version, decide (s.pendingInvalidations.get r.key = some r.version), r.storable,
      s.clock, .loading, none, false,
      (calls.foldl CacheService.call { s with inflight := s.inflight.erase r.key }).resetVersion⟩
    refine after.addLoad x stillReading (calls_absent (OrderedMap.get_erase_self _ _) calls) rfl ?_ ?_
    · change (s.remembers.get i).version ≤ _
      rw [version]
      exact (calls_resetVersion { s with inflight := s.inflight.erase (s.remembers.get i).key } calls).1
    · intro hp overtaken
      change (s.remembers.get i).version ≠ _
      have own := tame hp rfl
      have grows := calls_resetVersion { s with inflight := s.inflight.erase (s.remembers.get i).key } calls
      cases resets : calls.any Call.isReset with
      | true =>
        have := grows.2 resets
        change s.resetVersion < _ at this
        omega
      | false =>
        rw [deletesOwn, resets, Bool.not_false, Bool.and_true] at own
        have unchanged := calls_invalidatedAt { s with inflight := s.inflight.erase (s.remembers.get i).key } resets own
        change s.clock < _ at overtaken
        rw [unchanged] at overtaken
        have := h.coherent.clocked (s.remembers.get i).key
        change s.clock < s.invalidatedAt (s.remembers.get i).key at overtaken
        omega

theorem Safe.startBypass (h : Safe careful s) {i : Nat} {calls : List (Call V)} {throws : Bool}
    (reading : (s.remembers.get i).stage = .read none) : Safe careful (s.startBypass i calls throws) := by
  have bound : i < s.remembers.size := h.coherent.open_ i (by rw [reading]; rfl)
  obtain ⟨same, -⟩ := calls_remembers bound calls
  have stillReading := (congrArg Remember.stage same).trans reading
  have opened : ((calls.foldl CacheService.call s).remembers.get i).stage.isEnded = false := by rw [stillReading]; rfl
  have idle : ∀ e, ((calls.foldl CacheService.call s).remembers.get i).stage = .awaiting e →
      ¬ (calls.foldl CacheService.call s).Unfinished e := by
    rw [stillReading]
    intro e waits
    cases waits
  cases throws with
  | true => exact (h.calls calls).endRemember .threw opened idle
  | false => exact (h.calls calls).setRemember .bypass opened idle

/-- The `remember` goes on by putting a load of its own in flight. -/
def startsLoad (s : CacheService V) (i : Nat) : Bool :=
  let r := s.remembers.get i
  (match r.stage with
    | .read none => true
    | _ => false) && decide (r.version = s.resetVersion) &&
  match s.inflight.get r.key with
  | some e => (s.loads.get e).generation ≠ r.version
  | none => true

theorem Safe.miss (h : Safe careful s) {i : Nat} {calls : List (Call V)} {throws : Bool}
    (reading : (s.remembers.get i).stage = .read none)
    (tame : careful → s.startsLoad i = true → throws = false → deletesOwn (s.remembers.get i).key calls = false) :
    Safe careful (s.miss i calls throws) := by
  have idle : ∀ e, (s.remembers.get i).stage = .awaiting e → ¬ s.Unfinished e := by
    rw [reading]
    intro e waits
    cases waits
  rw [CacheService.miss]
  split
  · next version =>
    split
    · next e found =>
      split
      · exact h.setRemember (.awaiting e) (by rw [reading]; rfl) idle
      · next differs =>
        have old : ∀ d, s.inflight.get (s.remembers.get i).key = some d → (s.loads.get d).generation ≠ s.resetVersion := by
          intro d again
          rw [found] at again
          cases again
          rwa [← version]
        exact h.startLoad reading version old fun hp => tame hp (by simp [startsLoad, reading, version, found, old e found])
    · next absent =>
      have old : ∀ d, s.inflight.get (s.remembers.get i).key = some d → (s.loads.get d).generation ≠ s.resetVersion := by
        intro d found
        rw [absent] at found
        cases found
      exact h.startLoad reading version old fun hp => tame hp (by simp [startsLoad, reading, version, absent])
  · exact h.startBypass reading

/-! ## The jobs of a load -/

/-- A load that stays unfinished goes on; what it stored is not stale unless it
is still to be deleted. -/
theorem Safe.modifyLoad (h : Safe careful s) {e : Nat} (f : InflightLoad V → InflightLoad V)
    (key : (f (s.loads.get e)).key = (s.loads.get e).key)
    (generation : (f (s.loads.get e)).generation = (s.loads.get e).generation)
    (invalidated : (f (s.loads.get e)).invalidated = (s.loads.get e).invalidated)
    (startedAt : (f (s.loads.get e)).startedAt = (s.loads.get e).startedAt) (live : s.Unfinished e)
    (goesOn : (f (s.loads.get e)).stage ≠ .finished)
    (late : LateStage (s.stage e) → LateStage (f (s.loads.get e)).stage)
    (out : s.stage e = .written ∨ s.stage e = .deleting →
      ((f (s.loads.get e)).stage = .written ∨ (f (s.loads.get e)).stage = .deleting) ∨ s.isStale e = false ∨
        ∀ k v, s.store.get k ≠ some ⟨v, .load e⟩) :
    Safe careful { s with loads := s.loads.modify e f } := by
  have get (d : Nat) : (s.loads.modify e f).get d = if d = e then f (s.loads.get e) else s.loads.get d := rfl
  have keys : ∀ d, ((s.loads.modify e f).get d).key = (s.loads.get d).key :=
    s.loads.get_modify_proj e f _ key
  have generations : ∀ d, ((s.loads.modify e f).get d).generation = (s.loads.get d).generation :=
    s.loads.get_modify_proj e f _ generation
  have marks : ∀ d, ((s.loads.modify e f).get d).invalidated = (s.loads.get d).invalidated :=
    s.loads.get_modify_proj e f _ invalidated
  have starts : ∀ d, ((s.loads.modify e f).get d).startedAt = (s.loads.get d).startedAt :=
    s.loads.get_modify_proj e f _ startedAt
  have unfinished (d : Nat) : ((s.loads.modify e f).get d).stage ≠ .finished ↔ s.Unfinished d := by
    rw [get]
    split
    · next same => exact iff_of_true goesOn (same ▸ live)
    · exact Iff.rfl
  have sameStale (d : Nat) : ({ s with loads := s.loads.modify e f } : CacheService V).isStale d = s.isStale d := by
    simp only [isStale, marks, generations]
  have sameOvertaken (d : Nat) : ({ s with loads := s.loads.modify e f } : CacheService V).Overtaken d ↔ s.Overtaken d := by
    simp only [Overtaken, starts, keys]
  refine ⟨⟨?_, ?_, ?_, ?_, ?_, h.coherent.open_, h.coherent.clocked, ?_⟩, ?_, ?_⟩
  · intro d still
    exact h.coherent.allocated d ((unfinished d).mp still)
  · intro k d found
    obtain ⟨own, still⟩ := h.coherent.registered k d found
    exact ⟨(keys d).trans own, (unfinished d).mpr still⟩
  · intro d still fresh
    change s.inflight.get ((s.loads.modify e f).get d).key = some d
    rw [keys]
    exact h.coherent.current d ((unfinished d).mp still) ((generations d).symm.trans fresh)
  · intro d still
    exact Nat.le_trans (Nat.le_of_eq (generations d)) (h.coherent.past d ((unfinished d).mp still))
  · intro d still
    exact h.coherent.owned d ((unfinished d).mp still)
  · intro k v d found
    obtain ⟨inBounds, own, wasLate⟩ := h.coherent.stored k v d found
    refine ⟨inBounds, (keys d).trans own, ?_⟩
    change LateStage ((s.loads.modify e f).get d).stage
    rw [get]
    split
    · next same => exact late (same ▸ wasLate)
    · exact wasLate
  · intro hp d still overtaken
    rw [sameStale]
    exact h.flagged hp d ((unfinished d).mp still) ((sameOvertaken d).mp overtaken)
  · intro hp k v d found overtaken
    rw [sameOvertaken] at overtaken
    by_cases same : d = e
    · subst same
      change ((s.loads.modify d f).get d).stage = .written ∨ ((s.loads.modify d f).get d).stage = .deleting ∨ _
      rw [get, if_pos rfl]
      have leaves (stored : s.stage d = .written ∨ s.stage d = .deleting) :
          (f (s.loads.get d)).stage = .written ∨ (f (s.loads.get d)).stage = .deleting := by
        rcases out stored with still | fresh | absent
        · exact still
        · have := h.flagged hp d live overtaken
          rw [fresh] at this
          cases this
        · exact absurd found (absent k v)
      rcases h.removed hp k v d found overtaken with written | deleting | removing
      · exact (leaves (.inl written)).imp id .inl
      · exact (leaves (.inr deleting)).imp id .inl
      · exact .inr (.inr removing)
    · have kept : (s.loads.modify e f).get d = s.loads.get d := by rw [get, if_neg same]
      change ((s.loads.modify e f).get d).stage = .written ∨ ((s.loads.modify e f).get d).stage = .deleting ∨ _
      rw [kept]
      exact h.removed hp k v d found overtaken

theorem Safe.setLoad (h : Safe careful s) {e : Nat} (next : LoadStage) (live : s.Unfinished e) (goesOn : next ≠ .finished)
    (late : LateStage (s.stage e) → LateStage next)
    (out : s.stage e = .written ∨ s.stage e = .deleting →
      (next = .written ∨ next = .deleting) ∨ s.isStale e = false ∨ ∀ k v, s.store.get k ≠ some ⟨v, .load e⟩) :
    Safe careful (s.setLoad e next) :=
  h.modifyLoad _ rfl rfl rfl rfl live goesOn late out

theorem Safe.finishLoad (h : Safe careful s) {e : Nat} (returning : s.stage e = .returning) : Safe careful (s.finishLoad e) := by
  have other {d : Nat} (still : (s.finishLoad e).Unfinished d) : d ≠ e := by
    rintro rfl
    exact still (by rw [stage, finishLoad_self])
  have kept {d : Nat} (differs : d ≠ e) : (s.finishLoad e).loads.get d = s.loads.get d := finishLoad_ne s differs
  have live {d : Nat} (still : (s.finishLoad e).Unfinished d) : s.Unfinished d := by
    rwa [Unfinished, stage, kept (other still)] at still
  have inflight (k : String) : (s.finishLoad e).inflight.get k =
      if s.inflight.get (s.loads.get e).key = some e ∧ k = (s.loads.get e).key then none else s.inflight.get k := by
    change (if decide (s.inflight.get (s.loads.get e).key = some e) then s.inflight.erase (s.loads.get e).key
      else s.inflight).get k = _
    by_cases own : s.inflight.get (s.loads.get e).key = some e
    · rw [if_pos (decide_eq_true own), OrderedMap.get_erase]
      simp only [own, true_and]
    · rw [if_neg (by simpa using own), if_neg fun both => own both.1]
  have keys (d : Nat) : ((s.finishLoad e).loads.get d).key = (s.loads.get d).key := by
    by_cases same : d = e
    · subst same
      rw [finishLoad_self]
    · rw [kept same]
  refine ⟨⟨?_, ?_, ?_, ?_, ?_, h.coherent.open_, h.coherent.clocked, ?_⟩, ?_, ?_⟩
  · intro d still
    exact h.coherent.allocated d (live still)
  · intro k d found
    rw [inflight] at found
    split at found
    · cases found
    · next stays =>
      obtain ⟨own, still⟩ := h.coherent.registered k d found
      have differs : d ≠ e := by
        rintro rfl
        exact stays ⟨own ▸ found, own.symm⟩
      exact ⟨(keys d).trans own, by rwa [Unfinished, stage, kept differs]⟩
  · intro d still fresh
    have differs := other still
    rw [kept differs] at fresh
    have found := h.coherent.current d (live still) fresh
    rw [keys, inflight, if_neg, found]
    rintro ⟨own, same⟩
    rw [same, own] at found
    exact differs (Option.some.inj found).symm
  · intro d still
    rw [kept (other still)]
    exact h.coherent.past d (live still)
  · intro d still
    exact h.coherent.owned d (live still)
  · intro k v d found
    obtain ⟨inBounds, own, late⟩ := h.coherent.stored k v d found
    refine ⟨inBounds, (keys d).trans own, ?_⟩
    by_cases same : d = e
    · subst same
      rw [stage, finishLoad_self]
      trivial
    · rw [stage, kept same]
      exact late
  · intro hp d still overtaken
    have differs := other still
    rw [Overtaken, kept differs] at overtaken
    rw [isStale, kept differs]
    exact h.flagged hp d (live still) overtaken
  · intro hp k v d found overtaken
    by_cases same : d = e
    · subst same
      rw [Overtaken, finishLoad_self] at overtaken
      rcases h.removed hp k v d found overtaken with written | deleting | removing
      · rw [returning] at written
        cases written
      · rw [returning] at deleting
        cases deleting
      · exact .inr (.inr removing)
    · rw [Overtaken, kept same] at overtaken
      rw [stage, kept same]
      exact h.removed hp k v d found overtaken

/-- Taking entries out of the store, or putting others in, harms nothing. -/
theorem Safe.fewerStored (h : Safe careful s) {store : OrderedMap String (Stored V)}
    (fewer : FewerStored s { s with store }) : Safe careful { s with store } :=
  ⟨h.coherent.congr (.of_eq rfl) rfl rfl rfl h.coherent.clocked fewer, h.flagged,
    fun hp k v e found => h.removed hp k v e (fewer k v e found)⟩

theorem fewerStored_erase (s : CacheService V) (key : String) : FewerStored s { s with store := s.store.erase key } := by
  intro k v e found
  change (s.store.erase key).get k = _ at found
  rw [OrderedMap.get_erase] at found
  split at found
  · cases found
  · exact found

theorem fewerStored_set (s : CacheService V) (key : String) (value : Option V) :
    FewerStored s { s with store := s.store.set key ⟨value, .other⟩ } := by
  intro k v e found
  change (s.store.set key ⟨value, .other⟩).get k = _ at found
  rw [OrderedMap.get_set] at found
  split at found
  · cases found
  · exact found

theorem Safe.continueLoad (h : Safe careful s) {e : Nat} (ht : s.continueLoad e = some t) : Safe careful t := by
  rw [CacheService.continueLoad] at ht
  split at ht
  · next loaded =>
    have now : s.stage e = .loaded := loaded
    have early : ¬ LateStage (s.stage e) := by rw [now]; exact id
    have live : s.Unfinished e := by rw [Unfinished, now]; decide
    have notOut : ¬ (s.stage e = .written ∨ s.stage e = .deleting) := by rw [now]; decide
    split at ht
    · cases ht
      exact h.setLoad .returning live (by decide) (fun late => absurd late early) (fun out => absurd out notOut)
    · cases ht
      split
      · exact h.setLoad .writing live (by decide) (fun late => absurd late early) (fun out => absurd out notOut)
      · exact h.setLoad .written live (by decide) (fun _ => trivial) (fun out => absurd out notOut)
  · next written =>
    have now : s.stage e = .written := written
    have live : s.Unfinished e := by rw [Unfinished, now]; decide
    cases ht
    split
    · exact h.setLoad .deleting live (by decide) (fun _ => trivial) (fun _ => .inl (.inr rfl))
    · next fresh =>
      exact h.setLoad .returning live (by decide) (fun _ => trivial) (fun _ => .inr (.inl (Bool.eq_false_iff.mpr fresh)))
  · next returning =>
    cases ht
    exact h.finishLoad returning
  · cases ht

/-- A write comes into the store before its load looks at its mark again. -/
theorem Safe.effectOfLoad (h : Safe careful s) {e : Nat} (ht : s.effectOfLoad e = some t) : Safe careful t := by
  rw [CacheService.effectOfLoad] at ht
  split at ht
  · next value writing _ =>
    cases ht
    have now : s.stage e = .writing := writing
    have live : s.Unfinished e := by rw [Unfinished, now]; decide
    have notOut : ¬ (s.stage e = .written ∨ s.stage e = .deleting) := by rw [now]; decide
    let f : InflightLoad V → InflightLoad V := fun x => { x with wrote := true, stage := .written }
    have written : Safe careful { s with loads := s.loads.modify e f } :=
      h.modifyLoad f rfl rfl rfl rfl live (show LoadStage.written ≠ .finished by decide) (fun _ => trivial)
        (fun out => absurd out notOut)
    have self : (s.loads.modify e f).get e = f (s.loads.get e) := Heap.get_modify_self _ _ _
    have found (k : String) (v : Option V) (d : Nat)
        (found : (s.store.set (s.loads.get e).key ⟨value, .load e⟩).get k = some ⟨v, .load d⟩) :
        d = e ∧ k = (s.loads.get e).key ∨ s.store.get k = some ⟨v, .load d⟩ := by
      rw [OrderedMap.get_set] at found
      split at found
      · next same =>
        cases found
        exact .inl ⟨rfl, same⟩
      · exact .inr found
    refine ⟨⟨written.coherent.allocated, written.coherent.registered, written.coherent.current, written.coherent.past,
      written.coherent.owned, written.coherent.open_, written.coherent.clocked, ?_⟩, written.flagged, ?_⟩
    · intro k v d stored
      rcases found k v d stored with ⟨rfl, rfl⟩ | old
      · refine ⟨h.coherent.allocated d live, ?_, ?_⟩
        · change ((s.loads.modify d f).get d).key = (s.loads.get d).key
          rw [self]
        · change LateStage ((s.loads.modify d f).get d).stage
          rw [self]
          trivial
      · exact written.coherent.stored k v d old
    · intro hp k v d stored overtaken
      rcases found k v d stored with ⟨rfl, rfl⟩ | old
      · exact .inl (congrArg InflightLoad.stage self)
      · exact written.removed hp k v d old overtaken
  · next deleting =>
    cases ht
    have now : s.stage e = .deleting := deleting
    have gone := h.fewerStored (fewerStored_erase s (s.loads.get e).key)
    refine gone.setLoad .returning (by rw [Unfinished]; exact fun past => absurd (now.symm.trans past) (by decide)) (by decide)
      (fun _ => trivial) (fun _ => .inr (.inr fun k v found => ?_))
    have own := (gone.coherent.stored k v e found).2.1
    rw [← own] at found
    have absent : (s.store.erase (s.loads.get e).key).get (s.loads.get e).key = none := OrderedMap.get_erase_self _ _
    rw [absent] at found
    cases found
  · cases ht

/-! ## The jobs of the other calls -/

theorem Safe.effectOfWrite (h : Safe careful s) {i : Nat} : Safe careful (s.effectOfWrite i) := by
  have fewer : FewerStored s (s.effectOfWrite i) := by
    intro k v e found
    simp only [CacheService.effectOfWrite] at found
    split at found
    · next key value _ => exact fewerStored_set s key value k v e found
    · next key _ => exact fewerStored_erase s key k v e found
    · cases found
  refine ⟨h.coherent.congr (.of_eq rfl) rfl rfl rfl h.coherent.clocked fewer, h.flagged, ?_⟩
  intro hp k v e found overtaken
  rcases h.removed hp k v e (fewer k v e found) overtaken with written | deleting | ⟨j, bound, pending, removes⟩
  · exact .inl written
  · exact .inr (.inl deleting)
  · -- the write that takes effect is another one: it would have removed the entry
    have other : j ≠ i := by
      rintro rfl
      simp only [CacheService.effectOfWrite] at found
      cases kind : (s.writes.get j).kind with
      | set key value =>
        rw [kind] at removes
        exact removes
      | del key =>
        rw [kind] at removes found
        obtain rfl : key = k := removes
        simp only [OrderedMap.get_erase_self] at found
        cases found
      | reset =>
        rw [kind] at found
        cases found
    have kept : (s.effectOfWrite i).writes.get j = s.writes.get j := by
      simp only [CacheService.effectOfWrite, Heap.get_modify, if_neg other]
    exact .inr (.inr ⟨j, bound, by rw [kept, pending], by rw [kept]; exact removes⟩)

theorem Safe.writeEnds (h : Safe careful s) {i : Nat} (effected : (s.writes.get i).stage = .effected) :
    Safe careful { s with writes := s.writes.modify i fun w => { w with stage := .ended } } := by
  refine ⟨⟨h.coherent.allocated, h.coherent.registered, h.coherent.current, h.coherent.past, h.coherent.owned,
    h.coherent.open_, h.coherent.clocked, h.coherent.stored⟩, h.flagged, ?_⟩
  intro hp k v e found overtaken
  rcases h.removed hp k v e found overtaken with written | deleting | ⟨j, bound, pending, removes⟩
  · exact .inl written
  · exact .inr (.inl deleting)
  · have other : j ≠ i := by
      rintro rfl
      rw [effected] at pending
      cases pending
    have kept : (s.writes.modify i fun w => { w with stage := .ended }).get j = s.writes.get j :=
      Heap.get_modify_ne _ _ other
    exact .inr (.inr ⟨j, bound, by rw [kept, pending], by rw [kept]; exact removes⟩)

theorem Safe.otherFields (h : Safe careful s) (loads : t.loads = s.loads) (inflight : t.inflight = s.inflight)
    (version : t.resetVersion = s.resetVersion) (remembers : t.remembers = s.remembers) (store : t.store = s.store)
    (writes : t.writes = s.writes) (clock : t.clock = s.clock) (invalidatedAt : t.invalidatedAt = s.invalidatedAt) :
    Safe careful t := by
  refine ⟨h.coherent.congr (.of_eq loads) inflight version remembers ?_ ?_, ?_, ?_⟩
  · rw [clock, invalidatedAt]
    exact h.coherent.clocked
  · intro k v e found
    rwa [store] at found
  · intro hp e live overtaken
    rw [Unfinished, stage, loads] at live
    rw [Overtaken, loads, invalidatedAt] at overtaken
    rw [isStale, loads, version]
    exact h.flagged hp e live overtaken
  · intro hp k v e found overtaken
    rw [store] at found
    rw [Overtaken, loads, invalidatedAt] at overtaken
    rw [stage, loads, writes]
    exact h.removed hp k v e found overtaken

/-! ## Runs -/

/-- No loader deletes its own key before its load is in flight. -/
def Careful (s : CacheService V) : ServiceEvent V → Prop
  | .proceed i calls throws =>
    s.startsLoad i = true → throws = false → deletesOwn (s.remembers.get i).key calls = false
  | _ => True

instance (s : CacheService V) : (e : ServiceEvent V) → Decidable (s.Careful e)
  | .proceed _ _ _ => inferInstanceAs (Decidable (_ → _ → _))
  | .call _ | .read _ | .loaderSettles _ _ | .loadContinues _ | .loadEffect _ | .rememberEnds _ | .writeEffect _
  | .writeEnds _ | .commit _ _ | .updateSettles _ | .expire _ => isTrue trivial

theorem step_safe {e : ServiceEvent V} (tame : careful → s.Careful e) (h : Safe careful s) (ht : s.step e = some t) : Safe careful t := by
  cases e with
  | call c =>
    cases ht
    exact h.call c
  | read i =>
    simp only [step] at ht
    split at ht
    · next reading =>
      cases ht
      exact h.setRemember _ (by rw [reading]; rfl) (by rw [reading]; intro e waits; cases waits)
    · cases ht
  | proceed i calls throws =>
    simp only [step] at ht
    split at ht
    · next value reading =>
      cases ht
      exact h.endRemember (.hit value) (by rw [reading]; rfl) (by rw [reading]; intro e waits; cases waits)
    · next reading =>
      cases ht
      exact h.miss reading tame
    · cases ht
  | loaderSettles e result =>
    simp only [step] at ht
    split at ht
    · next loading =>
      cases ht
      have now : s.stage e = .loading := loading
      exact h.modifyLoad (fun x => { x with stage := .loaded, result }) rfl rfl rfl rfl
        (by rw [Unfinished, now]; decide) (show LoadStage.loaded ≠ .finished by decide)
        (fun late => by rw [now] at late; exact late)
        (fun out => by rw [now] at out; exact absurd out (by decide))
    · cases ht
  | loadContinues e => exact h.continueLoad ht
  | loadEffect e => exact h.effectOfLoad ht
  | rememberEnds i =>
    simp only [step] at ht
    split at ht
    · next bypass =>
      cases ht
      exact h.endRemember (.missed none) (by rw [bypass]; rfl) (by rw [bypass]; intro e waits; cases waits)
    · next e awaiting =>
      split at ht
      · next finished =>
        cases ht
        refine h.endRemember (.missed (some e)) (by rw [awaiting]; rfl) fun d waits live => ?_
        rw [awaiting] at waits
        cases waits
        exact live finished
      · cases ht
    · cases ht
  | writeEffect i =>
    simp only [step] at ht
    split at ht
    · cases ht
      exact h.effectOfWrite
    · cases ht
  | writeEnds i =>
    simp only [step] at ht
    split at ht
    · next effected =>
      cases ht
      exact h.writeEnds effected
    · cases ht
  | commit i decision =>
    simp only [step] at ht
    split at ht
    · cases ht
      cases decision with
      | none => exact h.fewerStored (fewerStored_erase s _)
      | some value => exact h.fewerStored (fewerStored_set s _ value)
    · cases ht
  | updateSettles i =>
    simp only [step] at ht
    split at ht
    · cases ht
      exact h.otherFields rfl rfl rfl rfl rfl rfl rfl rfl
    · cases ht
  | expire key =>
    cases ht
    exact h.fewerStored (fewerStored_erase s key)

theorem safe_initial : Safe careful (initial : CacheService V) := by
  refine ⟨⟨?_, ?_, ?_, ?_, ?_, ?_, ?_, ?_⟩, ?_, ?_⟩
  · exact fun e live => absurd rfl live
  · intro k e found
    cases found
  · exact fun e live => absurd rfl live
  · exact fun e live => absurd rfl live
  · exact fun e live => absurd rfl live
  · intro i still
    cases still
  · exact fun k => Nat.le_refl 0
  · intro k v e found
    cases found
  · exact fun _ e live => absurd rfl live
  · intro _ k v e found
    cases found

/-- The store holds no value of a load that called its loader before the last
`del` of its key or `reset`. -/
def KeepsInvalidatedOut (s : CacheService V) : Prop :=
  ∀ k v e, s.store.get k = some ⟨v, .load e⟩ → s.invalidatedAt k ≤ (s.loads.get e).startedAt

/-- An invalidated load is not in the store when nothing is in flight. -/
theorem invalidated_stay_out {es : List (ServiceEvent V)} (careful : Run.Throughout step Careful initial es)
    (h : Run.run step initial es = some s) (quiet : Quiet s) : KeepsInvalidatedOut s := by
  have safe : Safe True s := Run.keeps_throughout (fun _ _ _ c h ht => step_safe (fun _ => c) h ht) safe_initial careful h
  have past : ∀ e, ¬ s.Unfinished e := by
    intro e live
    obtain ⟨i, bound, waits⟩ := safe.coherent.owned e live
    have ended := quiet.remembers i bound
    rw [waits] at ended
    cases ended
  intro k v e found
  have own := (safe.coherent.stored k v e found).2.1
  refine Nat.le_of_not_lt fun overtaken => ?_
  rw [← own] at overtaken
  rcases safe.removed trivial k v e found overtaken with written | deleting | ⟨i, bound, pending, -⟩
  · exact past e (by rw [Unfinished, written]; decide)
  · exact past e (by rw [Unfinished, deleting]; decide)
  · rw [quiet.writes i bound] at pending
    cases pending

/-- A `del` overtakes a load before its loader settles. -/
def overtakenRun : List (ServiceEvent Nat) :=
  [.call (.remember "k" true), .read 0, .proceed 0 [] false, .call (.del "k"), .writeEffect 0, .writeEnds 0,
    .loaderSettles 0 (some (some 7)), .loadContinues 0, .loadContinues 0, .rememberEnds 0]

theorem overtaken_stays_out :
    ∃ s, Run.run step (initial : CacheService Nat) overtakenRun = some s ∧ s.Quiet ∧ KeepsInvalidatedOut s := by
  have run := Option.eq_some_of_isSome (o := Run.run step (initial : CacheService Nat) overtakenRun) (by decide)
  exact ⟨_, run, by decide, invalidated_stay_out (by decide) run (by decide)⟩

/-- A loader that deletes its own key at once: the `del` finds no load in
flight, and the load does not look at the mark it leaves. -/
def ownDeleteRun : List (ServiceEvent Nat) :=
  [.call (.remember "k" true), .read 0, .proceed 0 [.del "k"] false, .writeEffect 0, .writeEnds 0,
    .loaderSettles 0 (some (some 7)), .loadContinues 0, .loadEffect 0, .loadContinues 0, .loadContinues 0, .rememberEnds 0]

theorem own_delete_comes_back :
    ∃ s, Run.run step (initial : CacheService Nat) ownDeleteRun = some s ∧ s.Quiet ∧ ¬ KeepsInvalidatedOut s := by
  have run := Option.eq_some_of_isSome (o := Run.run step (initial : CacheService Nat) ownDeleteRun) (by decide)
  refine ⟨_, run, by decide, fun keeps => ?_⟩
  have found := keeps "k" (some 7) 0 (by decide)
  exact absurd found (by decide)

end Fluo.Cache.CacheService
