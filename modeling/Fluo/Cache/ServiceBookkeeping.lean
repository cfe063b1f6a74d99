import Fluo.Cache.ServiceSafety

/-!
# The bookkeeping of the cache service

Pending loads are counted, marks belong to a load in flight or to loads that
may begin, and controllers to updates that run.
-/

namespace Fluo.Cache

/-! ## Counting pending loads -/

/-- What the map holds for a key with `n` pending loads of a generation. -/
def countEntries (generation n : Nat) : Option (List (Nat × Nat)) :=
  if n = 0 then none else some [(generation, n)]

namespace CacheService

def entriesOf (pendingLoads : PendingLoads) (key : String) : Option (List (Nat × Nat)) :=
  (pendingLoads.get key).map OrderedMap.entries

theorem beginPendingLoad_entries {p : PendingLoads} {key : String} {generation n : Nat}
    (h : entriesOf p key = countEntries generation n) (j : String) :
    entriesOf (beginPendingLoad p key generation) j =
      if j = key then countEntries generation (n + 1) else entriesOf p j := by
  simp only [entriesOf, beginPendingLoad, OrderedMap.get_set]
  by_cases same : j = key
  · rw [if_pos same, if_pos same]
    rw [entriesOf, countEntries] at h
    by_cases none : n = 0
    · rw [if_pos none, Option.map_eq_none_iff] at h
      rw [h, none]
      rfl
    · rw [if_neg none] at h
      obtain ⟨m, found, entries⟩ := Option.map_eq_some_iff.mp h
      rw [found]
      simp [countEntries, OrderedMap.set, OrderedMap.write, OrderedMap.get, OrderedMap.find, entries]
  · rw [if_neg same, if_neg same]

theorem endPendingLoad_entries {p : PendingLoads} {key : String} {generation n : Nat} (pos : 0 < n)
    (h : entriesOf p key = countEntries generation n) (j : String) :
    entriesOf (endPendingLoad p key generation) j =
      if j = key then countEntries generation (n - 1) else entriesOf p j := by
  have notNone : n ≠ 0 := by omega
  rw [entriesOf, countEntries, if_neg notNone] at h
  obtain ⟨m, found, entries⟩ := Option.map_eq_some_iff.mp h
  have count : (m.get generation).getD 0 = n := by simp [OrderedMap.get, OrderedMap.find, entries]
  have erased : (m.erase generation).entries = [] := by simp [OrderedMap.erase, entries]
  simp only [entriesOf, endPendingLoad, found, count]
  by_cases more : 1 < n
  · rw [if_pos more, OrderedMap.get_set]
    by_cases same : j = key
    · have rest : n - 1 ≠ 0 := by omega
      rw [if_pos same, if_pos same, countEntries, if_neg rest]
      simp [OrderedMap.set, OrderedMap.write, entries]
    · rw [if_neg same, if_neg same]
  · have last : n - 1 = 0 := by omega
    rw [if_neg more, if_pos erased, OrderedMap.get_erase]
    by_cases same : j = key
    · rw [if_pos same, if_pos same, last]
      rfl
    · rw [if_neg same, if_neg same]

/-- The end of a load of an old generation leaves the counts as they are. -/
theorem endPendingLoad_old {p : PendingLoads} {key : String} {generation old n : Nat} (differs : old ≠ generation)
    (h : entriesOf p key = countEntries generation n) (j : String) :
    entriesOf (endPendingLoad p key old) j = entriesOf p j := by
  by_cases none : n = 0
  · rw [entriesOf, countEntries, if_pos none, Option.map_eq_none_iff] at h
    rw [endPendingLoad, h]
  · have counts := h
    rw [entriesOf, countEntries, if_neg none] at h
    obtain ⟨m, found, entries⟩ := Option.map_eq_some_iff.mp h
    have count : (m.get old).getD 0 = 0 := by simp [OrderedMap.get, OrderedMap.find, entries, Ne.symm differs]
    have kept : (m.erase old).entries = [(generation, n)] := by simp [OrderedMap.erase, entries, Ne.symm differs]
    simp only [endPendingLoad, found, count, kept, Nat.not_lt_zero, if_false, reduceCtorEq, entriesOf, OrderedMap.get_set]
    by_cases same : j = key
    · simp [same, found, kept, entries]
    · rw [if_neg same]

variable {V : Type} {s t : CacheService V}

/-- A call of `remember` for the key that is not over, begun in the generation. -/
def pendingWeight (key : String) (generation : Nat) (r : Remember V) : Nat :=
  if r.key = key ∧ r.version = generation ∧ r.stage.isEnded = false then 1 else 0

def live (s : CacheService V) (key : String) : Nat := s.remembers.total (pendingWeight key s.resetVersion)

/-- The bookkeeping of pending loads and of invalidation marks. -/
structure Kept (s : CacheService V) : Prop where
  versions : ∀ i, i < s.remembers.size → (s.remembers.get i).version ≤ s.resetVersion
  counted : ∀ k, entriesOf s.pendingLoads k = countEntries s.resetVersion (s.live k)
  pendingMark : ∀ k g, s.pendingInvalidations.get k = some g → g = s.resetVersion ∧ 0 < s.live k
  mark : ∀ k, s.invalidatedInflight.has k = true → (∃ e, s.inflight.get k = some e) ∨ 0 < s.live k

theorem live_pos {i : Nat} (bound : i < s.remembers.size) (version : (s.remembers.get i).version = s.resetVersion)
    (opened : (s.remembers.get i).stage.isEnded = false) : 0 < s.live (s.remembers.get i).key := by
  refine Heap.total_pos bound ?_
  simp [pendingWeight, version, opened]

theorem Kept.pendingLoads_has (h : Kept s) {k : String} (has : s.pendingLoads.has k = true) : 0 < s.live k := by
  obtain ⟨m, found⟩ := Option.isSome_iff_exists.mp has
  have counted := h.counted k
  rw [entriesOf, found, countEntries] at counted
  by_contra zero
  rw [if_pos (Nat.eq_zero_of_not_pos zero)] at counted
  cases counted

theorem Kept.congr (h : Kept s) (remembers : t.remembers = s.remembers) (version : t.resetVersion = s.resetVersion)
    (pendingLoads : t.pendingLoads = s.pendingLoads)
    (pendingMark : ∀ k g, t.pendingInvalidations.get k = some g → s.pendingInvalidations.get k = some g)
    (mark : ∀ k, t.invalidatedInflight.has k = true →
      s.invalidatedInflight.has k = true ∧ ∀ e, s.inflight.get k = some e → ∃ d, t.inflight.get k = some d) :
    Kept t := by
  have lives (k : String) : t.live k = s.live k := by rw [live, live, remembers, version]
  refine ⟨?_, ?_, ?_, ?_⟩
  · rw [remembers, version]
    exact h.versions
  · intro k
    rw [pendingLoads, version, lives]
    exact h.counted k
  · intro k g found
    rw [version, lives]
    exact h.pendingMark k g (pendingMark k g found)
  · intro k has
    rw [lives]
    obtain ⟨had, stays⟩ := mark k has
    exact (h.mark k had).imp (fun ⟨e, found⟩ => stays e found) id

theorem Kept.otherFields (h : Kept s) (remembers : t.remembers = s.remembers)
    (version : t.resetVersion = s.resetVersion) (pendingLoads : t.pendingLoads = s.pendingLoads)
    (pendingInvalidations : t.pendingInvalidations = s.pendingInvalidations)
    (marks : t.invalidatedInflight = s.invalidatedInflight) (inflight : t.inflight = s.inflight) : Kept t := by
  refine h.congr remembers version pendingLoads (fun k g => ?_) (fun k has => ?_)
  · rw [pendingInvalidations]
    exact id
  · rw [marks] at has
    rw [inflight]
    exact ⟨has, fun e found => ⟨e, found⟩⟩

/-! ## Calls -/

theorem callRemember_live (s : CacheService V) (key : String) (storable : Bool) (k : String) :
    (s.callRemember key storable).live k = s.live k + if key = k then 1 else 0 := by
  have version : (s.callRemember key storable).resetVersion = s.resetVersion := rfl
  change (s.remembers.push _).total _ = _
  rw [Heap.total_push]
  simp [live, pendingWeight, RememberStage.isEnded, version]

theorem Kept.callRemember (h : Kept s) (key : String) (storable : Bool) : Kept (s.callRemember key storable) where
  versions i bound := by
    change ((s.remembers.push _).get i).version ≤ s.resetVersion
    rw [Heap.get_push]
    split
    · exact Nat.le_refl _
    · next other =>
      have : i < s.remembers.size + 1 := bound
      exact h.versions i (by omega)
  counted k := by
    rw [callRemember_live]
    change entriesOf (beginPendingLoad s.pendingLoads key s.resetVersion) k = countEntries s.resetVersion _
    rw [beginPendingLoad_entries (h.counted key)]
    by_cases same : k = key
    · rw [if_pos same, if_pos same.symm, same]
    · rw [if_neg same, if_neg (Ne.symm same), h.counted, Nat.add_zero]
  pendingMark k g found := by
    rw [callRemember_live]
    obtain ⟨current, pos⟩ := h.pendingMark k g found
    exact ⟨current, by omega⟩
  mark k has := by
    rw [callRemember_live]
    exact (h.mark k has).imp id fun pos => by omega

theorem Kept.callReset (h : Kept s) : Kept s.callReset := by
  have none (k : String) : s.callReset.live k = 0 := by
    refine Heap.total_eq_zero fun i bound => ?_
    have old := h.versions i bound
    have differs : (s.remembers.get i).version ≠ s.resetVersion + 1 := by omega
    exact if_neg fun both => differs both.2.1
  refine ⟨fun i bound => Nat.le_succ_of_le (h.versions i bound), fun k => ?_, fun k g found => ?_, fun k has => ?_⟩
  · rw [none]
    rfl
  · cases found
  · cases has

/-- A `del` leaves a mark where a load of its key is pending or in flight. -/
theorem callDel_marks (s : CacheService V) (key : String) :
    (∀ k g, (s.callDel key).pendingInvalidations.get k = some g →
        s.pendingInvalidations.get k = some g ∨ g = s.resetVersion ∧ k = key ∧ s.pendingLoads.has key = true) ∧
      ∀ k, (s.callDel key).invalidatedInflight.has k = true →
        s.invalidatedInflight.has k = true ∨
          k = key ∧ ((∃ e, s.inflight.get key = some e) ∨ s.pendingLoads.has key = true) := by
  simp only [CacheService.callDel, markInvalidated]
  cases found : s.inflight.get key with
  | some e =>
    have found' : (s.invalidateUpdates (some key)).inflight.get key = some e := found
    rw [found']
    refine ⟨fun k g => .inl, fun k has => ?_⟩
    rw [OrderedMap.has_set, Bool.or_eq_true_iff, decide_eq_true_eq] at has
    exact has.symm.imp id fun same => ⟨same, .inl ⟨e, rfl⟩⟩
  | none =>
    have found' : (s.invalidateUpdates (some key)).inflight.get key = none := found
    rw [found']
    by_cases pending : s.pendingLoads.has key = true
    · have pending' : (s.invalidateUpdates (some key)).pendingLoads.has key = true := pending
      simp only [pending', if_true]
      refine ⟨fun k g found => ?_, fun k has => ?_⟩
      · rw [OrderedMap.get_set] at found
        split at found
        · next same =>
          cases found
          exact .inr ⟨rfl, same, pending⟩
        · exact .inl found
      · rw [OrderedMap.has_set, Bool.or_eq_true_iff, decide_eq_true_eq] at has
        exact has.symm.imp id fun same => ⟨same, .inr pending⟩
    · have pending' : ¬ (s.invalidateUpdates (some key)).pendingLoads.has key = true := pending
      simp only [pending']
      exact ⟨fun k g => .inl, fun k => .inl⟩

theorem Kept.callDel (h : Kept s) (key : String) : Kept (s.callDel key) := by
  have lives (k : String) : (s.callDel key).live k = s.live k := by
    obtain ⟨loads, pending, marks, aborted, eq, -, -⟩ := callDel_fields s key
    rw [eq]
    rfl
  have fields : (s.callDel key).remembers = s.remembers ∧ (s.callDel key).resetVersion = s.resetVersion ∧
      (s.callDel key).pendingLoads = s.pendingLoads ∧ (s.callDel key).inflight = s.inflight := by
    obtain ⟨loads, pending, marks, aborted, eq, -, -⟩ := callDel_fields s key
    rw [eq]
    exact ⟨rfl, rfl, rfl, rfl⟩
  have marks := callDel_marks s key
  refine ⟨?_, fun k => ?_, fun k g found => ?_, fun k has => ?_⟩
  · rw [fields.1, fields.2.1]
    exact h.versions
  · rw [fields.2.2.1, fields.2.1, lives]
    exact h.counted k
  · rw [fields.2.1, lives]
    rcases marks.1 k g found with old | ⟨rfl, rfl, pending⟩
    · exact h.pendingMark k g old
    · exact ⟨rfl, h.pendingLoads_has pending⟩
  · rw [fields.2.2.2, lives]
    rcases marks.2 k has with old | ⟨rfl, ⟨e, found⟩ | pending⟩
    · exact h.mark k old
    · exact .inl ⟨e, found⟩
    · exact .inr (h.pendingLoads_has pending)

theorem Kept.call (h : Kept s) (c : Call V) : Kept (s.call c) := by
  cases c with
  | remember key storable => exact h.callRemember key storable
  | set key value storable => exact h.otherFields rfl rfl rfl rfl rfl rfl
  | del key => exact h.callDel key
  | reset => exact h.callReset
  | update key =>
    exact h.otherFields rfl rfl rfl rfl rfl rfl

theorem Kept.calls (h : Kept s) (calls : List (Call V)) : Kept (calls.foldl CacheService.call s) := by
  induction calls generalizing s with
  | nil => exact h
  | cons c rest ih => exact ih (h.call c)

/-! ## The end of a remember -/

theorem setRemember_live {i : Nat} (stage : RememberStage V) (bound : i < s.remembers.size)
    (opened : (s.remembers.get i).stage.isEnded = false) (k : String) :
    (s.setRemember i stage).live k +
        (if (s.remembers.get i).key = k ∧ (s.remembers.get i).version = s.resetVersion ∧ stage.isEnded = true then 1 else 0) =
      s.live k := by
  have total := s.remembers.total_modify (pendingWeight k s.resetVersion) (fun r => { r with stage }) bound
  have lives : (s.setRemember i stage).live k =
    (s.remembers.modify i fun r => { r with stage }).total (pendingWeight k s.resetVersion) := rfl
  rw [lives, live]
  simp only [pendingWeight, opened, and_true] at total ⊢
  cases ended : stage.isEnded <;> simp only [ended] at total ⊢
  · simp only [and_true, and_false, if_false, Bool.false_eq_true, Nat.add_zero] at total ⊢
    omega
  · simp only [and_true, and_false, if_false, Bool.true_eq_false, Nat.add_zero] at total ⊢
    omega

theorem Kept.setRemember (h : Kept s) {i : Nat} (stage : RememberStage V) (bound : i < s.remembers.size)
    (opened : (s.remembers.get i).stage.isEnded = false) (still : stage.isEnded = false) :
    Kept (s.setRemember i stage) := by
  have lives (k : String) : (s.setRemember i stage).live k = s.live k := by
    have total := setRemember_live stage bound opened k
    rw [if_neg (by simp [still])] at total
    exact total
  refine ⟨fun j inBounds => ?_, fun k => ?_, fun k g found => ?_, fun k has => ?_⟩
  · by_cases same : j = i
    · rw [same, setRemember_self]
      exact h.versions i bound
    · rw [setRemember_ne _ _ same]
      exact h.versions j inBounds
  · rw [lives]
    exact h.counted k
  · rw [lives]
    exact h.pendingMark k g found
  · rw [lives]
    exact h.mark k has

/-- The call is the last pending load of its key and generation. -/
def LastPending (s : CacheService V) (i : Nat) : Prop :=
  let r := s.remembers.get i
  r.version = s.resetVersion ∧ (((s.pendingLoads.get r.key).bind (·.get r.version)).getD 0 ≤ 1)

instance (s : CacheService V) (i : Nat) : Decidable (s.LastPending i) := inferInstanceAs (Decidable (_ ∧ _))

/-- No invalidation mark is left for a load that nobody is to begin. -/
def Unmarked (s : CacheService V) (key : String) : Prop :=
  s.pendingInvalidations.has key = false ∧ (s.invalidatedInflight.has key = true → s.inflight.has key = true)

instance (s : CacheService V) (key : String) : Decidable (s.Unmarked key) := inferInstanceAs (Decidable (_ ∧ _))

def EndsClean (s : CacheService V) (i : Nat) : Prop := s.LastPending i → s.Unmarked (s.remembers.get i).key

instance (s : CacheService V) (i : Nat) : Decidable (s.EndsClean i) := inferInstanceAs (Decidable (_ → _))

theorem Kept.count (h : Kept s) {k : String} :
    ((s.pendingLoads.get k).bind (·.get s.resetVersion)).getD 0 = s.live k := by
  have counted := h.counted k
  rw [entriesOf, countEntries] at counted
  by_cases zero : s.live k = 0
  · rw [if_pos zero, Option.map_eq_none_iff] at counted
    rw [counted, zero]
    rfl
  · rw [if_neg zero] at counted
    obtain ⟨m, found, entries⟩ := Option.map_eq_some_iff.mp counted
    rw [found]
    simp [OrderedMap.get, OrderedMap.find, entries]

theorem Kept.endRemember (h : Kept s) {i : Nat} (stage : RememberStage V) (bound : i < s.remembers.size)
    (opened : (s.remembers.get i).stage.isEnded = false) (past : stage.isEnded = true) (clean : s.EndsClean i) :
    Kept (s.endRemember i stage) := by
  have lives (k : String) : (s.endRemember i stage).live k +
      (if (s.remembers.get i).key = k ∧ (s.remembers.get i).version = s.resetVersion then 1 else 0) = s.live k := by
    have total := setRemember_live stage bound opened k
    simp only [past, and_true] at total
    exact total
  have pendingLoads (k : String) : entriesOf (s.endRemember i stage).pendingLoads k =
      countEntries s.resetVersion ((s.endRemember i stage).live k) := by
    have total := lives k
    change entriesOf (endPendingLoad s.pendingLoads (s.remembers.get i).key (s.remembers.get i).version) k = _
    by_cases version : (s.remembers.get i).version = s.resetVersion
    · have pos := live_pos bound version opened
      rw [version, endPendingLoad_entries pos (h.counted _)]
      by_cases same : k = (s.remembers.get i).key
      · rw [if_pos ⟨same.symm, version⟩] at total
        rw [if_pos same, ← same]
        exact congrArg _ (by omega)
      · rw [if_neg fun both => same both.1.symm] at total
        rw [if_neg same, h.counted]
        exact congrArg _ (by omega)
    · rw [if_neg fun both => version both.2] at total
      rw [endPendingLoad_old version (h.counted _), h.counted]
      exact congrArg _ (by omega)
  -- the marks of the key are needed by a load that is still pending, or there are none
  have needed (k : String) (pos : 0 < s.live k) : 0 < (s.endRemember i stage).live k ∨ s.Unmarked k := by
    have total := lives k
    by_cases both : (s.remembers.get i).key = k ∧ (s.remembers.get i).version = s.resetVersion
    · rw [if_pos both] at total
      by_cases last : s.live k ≤ 1
      · have unmarked := clean ⟨both.2, by rw [both.2, h.count, both.1]; exact last⟩
        rw [both.1] at unmarked
        exact .inr unmarked
      · exact .inl (by omega)
    · rw [if_neg both] at total
      exact .inl (by omega)
  refine ⟨fun j inBounds => ?_, pendingLoads, fun k g found => ?_, fun k has => ?_⟩
  · by_cases same : j = i
    · rw [same, CacheService.endRemember, setRemember_self]
      exact h.versions i bound
    · rw [CacheService.endRemember, setRemember_ne _ _ same]
      exact h.versions j inBounds
  · obtain ⟨current, pos⟩ := h.pendingMark k g found
    refine ⟨current, (needed k pos).resolve_right fun unmarked => ?_⟩
    have has : s.pendingInvalidations.has k = true := Option.isSome_iff_exists.mpr ⟨g, found⟩
    rw [unmarked.1] at has
    cases has
  · rcases h.mark k has with registered | pos
    · exact .inl registered
    · rcases needed k pos with still | unmarked
      · exact .inr still
      · exact .inl (Option.isSome_iff_exists.mp (unmarked.2 has))

/-! ## Misses -/

theorem Kept.addLoad (h : Kept s) {i : Nat} (x : InflightLoad V) (e : Nat) (bound : i < s.remembers.size)
    (opened : (s.remembers.get i).stage.isEnded = false) :
    Kept ({ s with
      loads := s.loads.push x
      inflight := s.inflight.set x.key e }.setRemember i (.awaiting e)) := by
  have added : Kept { s with loads := s.loads.push x, inflight := s.inflight.set x.key e } := by
    refine h.congr rfl rfl rfl (fun k g => id) fun k has => ⟨has, fun d found => ?_⟩
    change ∃ d, (s.inflight.set x.key e).get k = some d
    rw [OrderedMap.get_set]
    split
    · exact ⟨e, rfl⟩
    · exact ⟨d, found⟩
  exact added.setRemember (.awaiting e) bound opened rfl

/-- The state in which the loader of a `remember` has returned or thrown. -/
def afterCalls (s : CacheService V) (i : Nat) (calls : List (Call V)) : CacheService V :=
  calls.foldl call { s with inflight := s.inflight.erase (s.remembers.get i).key }

theorem Kept.afterCalls (h : Kept s) {i : Nat} (bound : i < s.remembers.size)
    (opened : (s.remembers.get i).stage.isEnded = false) (version : (s.remembers.get i).version = s.resetVersion)
    (calls : List (Call V)) : Kept (s.afterCalls i calls) := by
  have pos := live_pos bound version opened
  have forgot : Kept { s with inflight := s.inflight.erase (s.remembers.get i).key } := by
    refine ⟨h.versions, h.counted, h.pendingMark, fun k has => ?_⟩
    by_cases same : k = (s.remembers.get i).key
    · exact .inr (same ▸ pos)
    · refine (h.mark k has).imp (fun ⟨e, found⟩ => ⟨e, ?_⟩) id
      change (s.inflight.erase (s.remembers.get i).key).get k = some e
      rw [OrderedMap.get_erase, if_neg same, found]
  exact forgot.calls calls

theorem Kept.startLoad (h : Kept s) {i : Nat} {calls : List (Call V)} {throws : Bool} (bound : i < s.remembers.size)
    (reading : (s.remembers.get i).stage = .read none) (version : (s.remembers.get i).version = s.resetVersion)
    (clean : throws = true → (s.afterCalls i calls).EndsClean i) : Kept (s.startLoad i calls throws) := by
  have opened : (s.remembers.get i).stage.isEnded = false := by rw [reading]; rfl
  have after := h.afterCalls bound opened version calls
  obtain ⟨same, bound'⟩ := calls_remembers (s := { s with inflight := s.inflight.erase (s.remembers.get i).key }) bound calls
  have opened' : ((s.afterCalls i calls).remembers.get i).stage.isEnded = false :=
    (congrArg (fun r : Remember V => r.stage.isEnded) same).trans opened
  cases throws with
  | true => exact after.endRemember .threw bound' opened' rfl (clean rfl)
  | false =>
    rw [CacheService.startLoad, if_neg Bool.false_ne_true]
    let r := s.remembers.get i
    let x : InflightLoad V := ⟨r.key, r.version, decide (s.pendingInvalidations.get r.key = some r.version), r.storable,
      s.clock, .loading, none, false,
      (calls.foldl CacheService.call { s with inflight := s.inflight.erase r.key }).resetVersion⟩
    exact after.addLoad x _ bound' opened'

theorem Kept.startBypass (h : Kept s) {i : Nat} {calls : List (Call V)} {throws : Bool} (bound : i < s.remembers.size)
    (reading : (s.remembers.get i).stage = .read none) (version : (s.remembers.get i).version ≠ s.resetVersion) :
    Kept (s.startBypass i calls throws) := by
  obtain ⟨same, bound'⟩ := calls_remembers bound calls
  have opened : ((calls.foldl CacheService.call s).remembers.get i).stage.isEnded = false := by
    rw [same, reading]
    rfl
  cases throws with
  | true =>
    refine (h.calls calls).endRemember .threw bound' opened rfl fun last => ?_
    have current := last.1
    rw [same] at current
    have old := h.versions i bound
    have grows := (calls_resetVersion s calls).1
    omega
  | false => exact (h.calls calls).setRemember .bypass bound' opened rfl

theorem Kept.miss (h : Kept s) {i : Nat} {calls : List (Call V)} {throws : Bool} (bound : i < s.remembers.size)
    (reading : (s.remembers.get i).stage = .read none)
    (clean : s.startsLoad i = true → throws = true → (s.afterCalls i calls).EndsClean i) : Kept (s.miss i calls throws) := by
  have opened : (s.remembers.get i).stage.isEnded = false := by rw [reading]; rfl
  rw [CacheService.miss]
  split
  · next version =>
    split
    · next e found =>
      split
      · exact h.setRemember (.awaiting e) bound opened rfl
      · next differs =>
        have old : (s.loads.get e).generation ≠ s.resetVersion := by rwa [← version]
        exact h.startLoad bound reading version (clean (by simp [startsLoad, reading, version, found, old]))
    · next absent => exact h.startLoad bound reading version (clean (by simp [startsLoad, reading, version, absent]))
  · next version => exact h.startBypass bound reading version

theorem Kept.finishLoad (h : Kept s) (e : Nat) : Kept (s.finishLoad e) := by
  refine h.congr rfl rfl rfl (fun k g found => ?_) (fun k has => ?_)
  · change (if s.pendingInvalidations.get (s.loads.get e).key = some (s.loads.get e).generation then
      s.pendingInvalidations.erase (s.loads.get e).key else s.pendingInvalidations).get k = some g at found
    split at found
    · rw [OrderedMap.get_erase] at found
      split at found
      · cases found
      · exact found
    · exact found
  · change (if decide (s.inflight.get (s.loads.get e).key = some e) = true then
      s.invalidatedInflight.erase (s.loads.get e).key else s.invalidatedInflight).has k = true at has
    change s.invalidatedInflight.has k = true ∧ ∀ d, s.inflight.get k = some d →
      ∃ d, (if decide (s.inflight.get (s.loads.get e).key = some e) = true then s.inflight.erase (s.loads.get e).key
        else s.inflight).get k = some d
    split
    · next own =>
      rw [if_pos own, OrderedMap.has, OrderedMap.get_erase] at has
      by_cases same : k = (s.loads.get e).key
      · rw [if_pos same] at has
        cases has
      · rw [if_neg same] at has
        exact ⟨has, fun d found => ⟨d, by rw [OrderedMap.get_erase, if_neg same, found]⟩⟩
    · next other =>
      rw [if_neg other] at has
      exact ⟨has, fun d found => ⟨d, found⟩⟩

/-! ## Controllers -/

/-- The key of a running update and the set that has its controller. -/
def controllerOf (s : CacheService V) (i : Nat) : Option (String × Nat) :=
  if i < s.updateCalls.size ∧ (s.updateCalls.get i).running = true then
    some ((s.updateCalls.get i).key, (s.updateCalls.get i).controllers)
  else none

def Controlled (s : CacheService V) : Prop := s.updates.Holds s.controllerOf

theorem Controlled.congr (h : Controlled s) (updates : t.updates = s.updates) (calls : t.updateCalls = s.updateCalls) :
    Controlled t := by
  rw [Controlled, updates]
  exact Groups.Holds.congr h fun i => by rw [controllerOf, controllerOf, calls]

theorem Controlled.callUpdate (h : Controlled s) (key : String) : Controlled (s.callUpdate key) := by
  have free : s.controllerOf s.updateCalls.size = none := if_neg fun both => Nat.lt_irrefl _ both.1
  refine (Groups.Holds.join h free).congr fun i => ?_
  let u : Update := ⟨key, s.updates.target key, true⟩
  have get (j : Nat) : (s.callUpdate key).updateCalls.get j =
    if j = s.updateCalls.size then u else s.updateCalls.get j := rfl
  have size : (s.callUpdate key).updateCalls.size = s.updateCalls.size + 1 := rfl
  rw [controllerOf, get, size]
  by_cases new : i = s.updateCalls.size
  · rw [if_pos new, if_pos new, if_pos ⟨by omega, rfl⟩]
  · rw [if_neg new, if_neg new, controllerOf]
    have bounds : i < s.updateCalls.size + 1 ↔ i < s.updateCalls.size := by omega
    simp only [bounds]

theorem Controlled.endUpdate (h : Controlled s) {i : Nat} (bound : i < s.updateCalls.size)
    (running : (s.updateCalls.get i).running = true) : Controlled (s.endUpdate i) := by
  have own : s.controllerOf i = some ((s.updateCalls.get i).key, (s.updateCalls.get i).controllers) :=
    if_pos ⟨bound, running⟩
  refine (Groups.Holds.leave h own).congr fun j => ?_
  by_cases same : j = i
  · subst same
    have past : ((s.endUpdate j).updateCalls.get j).running = false :=
      congrArg Update.running (s.updateCalls.get_modify_self j fun u => { u with running := false })
    rw [if_pos rfl, controllerOf, past, if_neg fun both => Bool.false_ne_true both.2]
  · have kept : (s.endUpdate i).updateCalls.get j = s.updateCalls.get j :=
      s.updateCalls.get_modify_ne (fun u => { u with running := false }) same
    have size : (s.endUpdate i).updateCalls.size = s.updateCalls.size := rfl
    rw [if_neg same, controllerOf, controllerOf, kept, size]

end CacheService

end Fluo.Cache
