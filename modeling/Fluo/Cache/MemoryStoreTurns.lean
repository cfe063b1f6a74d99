import Fluo.Cache.MemoryStore

/-!
# Entries and turns in the memory store

What sweeps, evictions and insertions leave of the entries, and the turns that
updates of one key take.
-/

namespace Fluo.Cache.MemoryStore

variable {V : Type} {s t : MemoryStore V}

/-! ## Entries -/

/-- Only entries expired at the reading have gone, and the others are as old as
they were. -/
structure Swept (now : Nat) (s t : MemoryStore V) : Prop where
  sublist : t.entries.entries.Sublist s.entries.entries
  gone : ∀ k id, s.entries.get k = some id → t.entries.get k = some id ∨ expired (s.objects.get id) now = true

theorem Swept.fewer {now : Nat} (h : Swept now s t) (k : String) (id : Nat) (found : t.entries.get k = some id) :
    s.entries.get k = some id := by
  rw [← OrderedMap.mem_entries] at found ⊢
  exact h.sublist.mem found

theorem Swept.refl (now : Nat) (h : t.entries = s.entries) : Swept now s t := by
  refine ⟨by rw [h], fun k id found => .inl ?_⟩
  rwa [h]

theorem Swept.trans {now : Nat} {u : MemoryStore V} (objects : t.objects = s.objects) (h : Swept now s t)
    (h' : Swept now t u) : Swept now s u := by
  refine ⟨h'.sublist.trans h.sublist, fun k id found => ?_⟩
  rcases h.gone k id found with still | past
  · have later := h'.gone k id still
    rwa [objects] at later
  · exact .inr past

theorem sweepExpiredEntries_swept (s : MemoryStore V) (now : Nat) : Swept now s (s.sweepExpiredEntries now) := by
  refine ⟨List.filter_sublist, fun k id found => ?_⟩
  cases past : expired (s.objects.get id) now with
  | true => exact .inr rfl
  | false => exact .inl (OrderedMap.get_filter_some.mpr ⟨found, by rw [past]; rfl⟩)

/-- What a step leaves that only concerns entries. -/
structure Apart (s t : MemoryStore V) : Prop where
  tails : t.tails = s.tails
  active : t.active = s.active
  updates : t.updates = s.updates
  log : t.log = s.log
  admittedBefore : t.admittedBefore = s.admittedBefore

theorem Apart.refl (s : MemoryStore V) : Apart s s := ⟨rfl, rfl, rfl, rfl, rfl⟩

theorem sweepIfDue_spec (s : MemoryStore V) (now : Nat) :
    Swept now s (s.sweepIfDue now) ∧ (s.sweepIfDue now).objects = s.objects ∧ Apart s (s.sweepIfDue now) := by
  rw [sweepIfDue]
  split
  · exact ⟨sweepExpiredEntries_swept s now, rfl, ⟨rfl, rfl, rfl, rfl, rfl⟩⟩
  · exact ⟨.refl now rfl, rfl, .refl s⟩

/-- A `get` sweeps, and finds the value of the entry it leaves. -/
theorem get_spec (s : MemoryStore V) (key : String) (now : Nat) :
    Swept now s (s.get key now).1 ∧ (s.get key now).1.objects = s.objects ∧ Apart s (s.get key now).1 ∧
      (s.get key now).2 = ((s.get key now).1.entries.get key).map fun id => (s.objects.get id).value := by
  obtain ⟨swept, objects, apart⟩ := sweepIfDue_spec s now
  rw [get]
  split
  · next absent => exact ⟨swept, objects, apart, by rw [absent]; rfl⟩
  · next id found =>
    split
    · next past =>
      -- the entry of the key has expired: it goes, and so do the others that have
      let erased : MemoryStore V := { s.sweepIfDue now with entries := (s.sweepIfDue now).entries.erase key }
      have gone : Swept now (s.sweepIfDue now) erased := by
        refine ⟨OrderedMap.entries_erase_sublist _ key, fun k other has => ?_⟩
        · change ((s.sweepIfDue now).entries.erase key).get k = some other ∨ _
          rw [OrderedMap.get_erase]
          split
          · next same =>
            rw [same, found] at has
            cases has
            exact .inr (by rw [objects]; exact past)
          · exact .inl has
      have again := sweepExpiredEntries_swept erased now
      have both : Swept now s erased := swept.trans objects gone
      have sameObjects : erased.objects = s.objects := objects
      refine ⟨both.trans sameObjects again, objects, ⟨apart.tails, apart.active, apart.updates,
        apart.log, apart.admittedBefore⟩, ?_⟩
      cases has : (erased.sweepExpiredEntries now).entries.get key with
      | none => rfl
      | some other =>
        have still := again.fewer key other has
        rw [show erased.entries.get key = none from OrderedMap.get_erase_self _ _] at still
        cases still
    · exact ⟨swept, objects, apart, by rw [found]; rfl⟩

theorem limited_some {m : OrderedMap String Nat} {k : String} {id : Nat} (h : (limited m).get k = some id) :
    m.get k = some id := by
  rw [← OrderedMap.mem_entries] at h ⊢
  exact (enforceEntryLimit_suffix _ _).mem h

theorem last_mem_enforceEntryLimit {α : Type} {limit : Nat} (pos : 0 < limit) (l : List α) (a : α) :
    a ∈ enforceEntryLimit limit (l ++ [a]) := by
  induction l with
  | nil =>
    rw [List.nil_append, enforceEntryLimit, if_neg (by simp; omega)]
    exact List.mem_singleton_self a
  | cons b rest ih =>
    rw [List.cons_append, enforceEntryLimit]
    split
    · exact ih
    · simp

/-- The entry put in last is not the one that is evicted. -/
theorem insertEntry_self (s : MemoryStore V) (key : String) (entry : MemoryCacheEntry V) :
    (s.insertEntry key entry).entries.get key = some s.objects.size := by
  change (limited ((s.entries.erase key).set key s.objects.size)).get key = _
  rw [← OrderedMap.mem_entries]
  have last := OrderedMap.entries_set_of_absent s.objects.size (OrderedMap.get_erase_self s.entries key)
  change (key, s.objects.size) ∈ enforceEntryLimit maxEntries ((s.entries.erase key).set key s.objects.size).entries
  rw [last]
  exact last_mem_enforceEntryLimit (by decide) _ _

theorem insertEntry_other (s : MemoryStore V) {key k : String} (entry : MemoryCacheEntry V) {id : Nat} (other : k ≠ key)
    (found : (s.insertEntry key entry).entries.get k = some id) : s.entries.get k = some id := by
  have kept := limited_some found
  rwa [OrderedMap.get_set, if_neg other, OrderedMap.get_erase, if_neg other] at kept

/-! ## Turns -/

def controllerOf (s : MemoryStore V) (i : Nat) : Option (String × Nat) :=
  if i < s.updates.size ∧ (s.updates.get i).finished = false then
    some ((s.updates.get i).key, (s.updates.get i).controllers)
  else none

/-- Updates of one key take turns in the order in which they were admitted. -/
structure Queue (s : MemoryStore V) : Prop where
  owned : s.active.Holds s.controllerOf
  last : ∀ k j, s.tails.get k = some j → j < s.updates.size ∧ (s.updates.get j).key = k ∧
    (s.updates.get j).finished = false ∧ ∀ i, i < s.updates.size → (s.updates.get i).key = k → i ≤ j
  idle : ∀ k, s.tails.get k = none → ∀ i, i < s.updates.size → (s.updates.get i).key = k →
    (s.updates.get i).finished = true
  behind : ∀ i, i < s.updates.size → ∀ m, m < i → (s.updates.get m).key = (s.updates.get i).key →
    (s.updates.get m).finished = true ∨ ∃ p, (s.updates.get i).after = some p ∧ m ≤ p ∧ p < i ∧
      (s.updates.get p).key = (s.updates.get i).key
  turn : ∀ i, i < s.updates.size → s.stage i ≠ .queued → ∀ m, m < i → (s.updates.get m).key = (s.updates.get i).key →
    (s.updates.get m).finished = true
  settled : ∀ i, i < s.updates.size → (s.updates.get i).finished = true → (s.stage i).isSettled = true

theorem Queue.congr (h : Queue s) (tails : t.tails = s.tails) (active : t.active = s.active)
    (size : t.updates.size = s.updates.size) (key : ∀ i, (t.updates.get i).key = (s.updates.get i).key)
    (after : ∀ i, (t.updates.get i).after = (s.updates.get i).after)
    (controllers : ∀ i, (t.updates.get i).controllers = (s.updates.get i).controllers)
    (finished : ∀ i, (t.updates.get i).finished = (s.updates.get i).finished)
    (turn : ∀ i, i < s.updates.size → t.stage i ≠ .queued → s.stage i ≠ .queued ∨
      ∀ m, m < i → (s.updates.get m).key = (s.updates.get i).key → (s.updates.get m).finished = true)
    (settled : ∀ i, i < s.updates.size → (s.updates.get i).finished = true → (s.stage i).isSettled = true →
      (t.stage i).isSettled = true) : Queue t := by
  refine ⟨?_, ?_, ?_, ?_, ?_, ?_⟩
  · rw [active]
    exact h.owned.congr fun i => by simp only [controllerOf, size, key, controllers, finished]
  · simp only [tails, size, key, finished]
    exact h.last
  · simp only [tails, size, key, finished]
    exact h.idle
  · simp only [size, key, finished, after]
    exact h.behind
  · simp only [size, key, finished]
    intro i bound started
    rcases turn i bound started with was | now
    · exact h.turn i bound was
    · exact now
  · simp only [size, finished]
    intro i bound past
    exact settled i bound past (h.settled i bound past)

theorem Queue.apart (h : Queue s) (apart : Apart s t) : Queue t := by
  refine h.congr apart.tails apart.active ?_ ?_ ?_ ?_ ?_ ?_ ?_
  all_goals simp only [stage, apart.updates]
  · exact fun _ => trivial
  · exact fun _ => trivial
  · exact fun _ => trivial
  · exact fun _ => trivial
  · exact fun i _ => .inl
  · exact fun i _ _ => id

theorem Queue.abort (h : Queue s) (members : List Nat) : Queue (s.abort members) :=
  h.congr rfl rfl rfl (fun _ => rfl) (fun _ => rfl) (fun _ => rfl) (fun _ => rfl) (fun _ _ => .inl) (fun _ _ _ => id)

/-- An update moves on, to a start only when those before it are over. -/
theorem Queue.modify (h : Queue s) {i : Nat} (f : AtomicUpdate V → AtomicUpdate V)
    (key : (f (s.updates.get i)).key = (s.updates.get i).key)
    (after : (f (s.updates.get i)).after = (s.updates.get i).after)
    (controllers : (f (s.updates.get i)).controllers = (s.updates.get i).controllers)
    (finished : (f (s.updates.get i)).finished = (s.updates.get i).finished)
    (open_ : (s.stage i).isSettled = false)
    (turn : s.stage i ≠ .queued ∨
      ∀ m, m < i → (s.updates.get m).key = (s.updates.get i).key → (s.updates.get m).finished = true) :
    Queue { s with updates := s.updates.modify i f } := by
  have get (j : Nat) : (s.updates.modify i f).get j = if j = i then f (s.updates.get i) else s.updates.get j := rfl
  have other {j : Nat} (differs : j ≠ i) : (s.updates.modify i f).get j = s.updates.get j := by rw [get, if_neg differs]
  refine h.congr rfl rfl rfl (s.updates.get_modify_proj i f _ key) (s.updates.get_modify_proj i f _ after)
    (s.updates.get_modify_proj i f _ controllers) (s.updates.get_modify_proj i f _ finished) ?_ ?_
  · intro j bound started
    by_cases same : j = i
    · rw [same]
      exact turn
    · change ((s.updates.modify i f).get j).stage ≠ .queued at started
      rw [other same] at started
      exact .inl started
  · intro j bound past settled
    by_cases same : j = i
    · rw [same, open_] at settled
      cases settled
    · change ((s.updates.modify i f).get j).stage.isSettled = true
      rw [other same]
      exact settled

theorem Queue.update (h : Queue s) (key : String) (maxAttempts : Option Nat) (defaultTtl : Ttl) (aborted : Bool) :
    Queue (s.update key maxAttempts defaultTtl aborted) := by
  unfold MemoryStore.update
  split
  · exact h
  · next maxAttempts =>
    let u : AtomicUpdate V :=
      ⟨key, maxAttempts, defaultTtl, s.tails.get key, s.active.target key, aborted, 0, none, none, .queued, false⟩
    have new : (s.updates.push u).get s.updates.size = u := s.updates.get_push_self u
    have old {i : Nat} (bound : i < s.updates.size) : (s.updates.push u).get i = s.updates.get i :=
      Heap.get_push_lt u bound
    have cases_lt {i : Nat} (bound : i < s.updates.size + 1) : i < s.updates.size ∨ i = s.updates.size := by omega
    refine ⟨?_, ?_, ?_, ?_, ?_, ?_⟩
    · have free : s.controllerOf s.updates.size = none := if_neg fun both => Nat.lt_irrefl _ both.1
      refine (h.owned.join free).congr fun i => ?_
      change (if i < s.updates.size + 1 ∧ ((s.updates.push u).get i).finished = false then
        some (((s.updates.push u).get i).key, ((s.updates.push u).get i).controllers) else none) = _
      by_cases same : i = s.updates.size
      · rw [same, new, if_pos rfl, if_pos ⟨Nat.lt_succ_self _, rfl⟩]
      · have bounds : i < s.updates.size + 1 ↔ i < s.updates.size := by omega
        rw [if_neg same, controllerOf, Heap.get_push, if_neg same]
        simp only [bounds]
    · intro k j found
      change (s.tails.set key s.updates.size).get k = some j at found
      change j < s.updates.size + 1 ∧ ((s.updates.push u).get j).key = k ∧ ((s.updates.push u).get j).finished = false ∧
        ∀ i, i < s.updates.size + 1 → ((s.updates.push u).get i).key = k → i ≤ j
      rw [OrderedMap.get_set] at found
      split at found
      · next same =>
        obtain rfl := Option.some.inj found
        rw [new]
        exact ⟨Nat.lt_succ_self _, same.symm, rfl, fun i bound _ => Nat.le_of_lt_succ bound⟩
      · next differs =>
        obtain ⟨bound, own, running, latest⟩ := h.last k j found
        rw [old bound]
        refine ⟨Nat.lt_succ_of_lt bound, own, running, fun i inBounds sameKey => ?_⟩
        rcases cases_lt inBounds with older | rfl
        · rw [old older] at sameKey
          exact latest i older sameKey
        · rw [new] at sameKey
          exact absurd sameKey.symm differs
    · intro k found i inBounds sameKey
      change (s.tails.set key s.updates.size).get k = none at found
      change ((s.updates.push u).get i).key = k at sameKey
      change ((s.updates.push u).get i).finished = true
      rw [OrderedMap.get_set] at found
      split at found
      · cases found
      · next differs =>
        rcases cases_lt inBounds with older | rfl
        · rw [old older] at sameKey ⊢
          exact h.idle k found i older sameKey
        · rw [new] at sameKey
          exact absurd sameKey.symm differs
    · intro i inBounds m earlier sameKey
      change ((s.updates.push u).get m).key = ((s.updates.push u).get i).key at sameKey
      change ((s.updates.push u).get m).finished = true ∨ ∃ p, ((s.updates.push u).get i).after = some p ∧ m ≤ p ∧ p < i ∧
        ((s.updates.push u).get p).key = ((s.updates.push u).get i).key
      rcases cases_lt inBounds with older | rfl
      · have olderM : m < s.updates.size := by omega
        rw [old older, old olderM] at sameKey ⊢
        refine (h.behind i older m earlier sameKey).imp id ?_
        rintro ⟨p, hangs, le, lt, own⟩
        exact ⟨p, hangs, le, lt, by rwa [old (by omega)]⟩
      · rw [new, old earlier] at sameKey ⊢
        -- the new update hangs on the last one of its key
        cases found : s.tails.get key with
        | none => exact .inl (h.idle key found m earlier sameKey)
        | some j =>
          obtain ⟨bound, own, -, latest⟩ := h.last key j found
          exact .inr ⟨j, found, latest m earlier sameKey, bound, by rw [old bound]; exact own⟩
    · intro i inBounds started m earlier sameKey
      change ((s.updates.push u).get i).stage ≠ .queued at started
      change ((s.updates.push u).get m).key = ((s.updates.push u).get i).key at sameKey
      change ((s.updates.push u).get m).finished = true
      rcases cases_lt inBounds with older | rfl
      · have olderM : m < s.updates.size := by omega
        rw [old older] at started
        rw [old older, old olderM] at sameKey
        rw [old olderM]
        exact h.turn i older started m earlier sameKey
      · rw [new] at started
        exact absurd rfl started
    · intro i inBounds past
      change ((s.updates.push u).get i).finished = true at past
      change ((s.updates.push u).get i).stage.isSettled = true
      rcases cases_lt inBounds with older | rfl
      · rw [old older] at past ⊢
        exact h.settled i older past
      · rw [new] at past
        cases past

theorem Queue.finishUpdate (h : Queue s) {i : Nat} (bound : i < s.updates.size) (settled : (s.stage i).isSettled = true)
    (running : (s.updates.get i).finished = false) : Queue (s.finishUpdate i) := by
  let f : AtomicUpdate V → AtomicUpdate V := fun u => { u with finished := true }
  have key : ∀ j, ((s.updates.modify i f).get j).key = (s.updates.get j).key := s.updates.get_modify_proj i f _ rfl
  have after : ∀ j, ((s.updates.modify i f).get j).after = (s.updates.get j).after := s.updates.get_modify_proj i f _ rfl
  have stages : ∀ j, ((s.updates.modify i f).get j).stage = (s.updates.get j).stage := s.updates.get_modify_proj i f _ rfl
  have controllers : ∀ j, ((s.updates.modify i f).get j).controllers = (s.updates.get j).controllers :=
    s.updates.get_modify_proj i f _ rfl
  have finished (j : Nat) : ((s.updates.modify i f).get j).finished = (decide (j = i) || (s.updates.get j).finished) := by
    rw [Heap.get_modify]
    by_cases same : j = i <;> simp [same, f]
  have keeps {j : Nat} (past : (s.updates.get j).finished = true) : ((s.updates.modify i f).get j).finished = true := by
    rw [finished, past, Bool.or_true]
  have tails (k : String) : (s.finishUpdate i).tails.get k =
      if s.tails.get (s.updates.get i).key = some i ∧ k = (s.updates.get i).key then none else s.tails.get k := by
    change (if s.tails.get (s.updates.get i).key = some i then s.tails.erase (s.updates.get i).key else s.tails).get k = _
    by_cases own : s.tails.get (s.updates.get i).key = some i
    · rw [if_pos own, OrderedMap.get_erase]
      simp only [own, true_and]
    · rw [if_neg own, if_neg fun both => own both.1]
  refine ⟨?_, ?_, ?_, ?_, ?_, ?_⟩
  · have own : s.controllerOf i = some ((s.updates.get i).key, (s.updates.get i).controllers) := if_pos ⟨bound, running⟩
    refine (h.owned.leave own).congr fun j => ?_
    change (if j < s.updates.size ∧ ((s.updates.modify i f).get j).finished = false then
      some (((s.updates.modify i f).get j).key, ((s.updates.modify i f).get j).controllers) else none) = _
    by_cases same : j = i
    · rw [if_pos same, finished, decide_eq_true same, Bool.true_or, if_neg fun both => Bool.false_ne_true both.2.symm]
    · rw [if_neg same, finished, decide_eq_false same, Bool.false_or, key, controllers, controllerOf]
  · intro k j found
    rw [tails] at found
    split at found
    · cases found
    · next stays =>
      obtain ⟨inBounds, own, still, latest⟩ := h.last k j found
      have differs : j ≠ i := by
        rintro rfl
        exact stays ⟨own ▸ found, own.symm⟩
      refine ⟨inBounds, (key j).trans own, ?_, fun m bound' sameKey => latest m bound' ((key m).symm.trans sameKey)⟩
      change ((s.updates.modify i f).get j).finished = false
      rw [finished, decide_eq_false differs, still]
      rfl
  · intro k found j inBounds sameKey
    have sameKey' : (s.updates.get j).key = k := (key j).symm.trans sameKey
    change ((s.updates.modify i f).get j).finished = true
    rw [tails] at found
    split at found
    · next both =>
      -- the tail was that of the last update of the key: those before it are over
      obtain ⟨-, -, -, latest⟩ := h.last _ i both.1
      have le := latest j inBounds (sameKey'.trans both.2)
      by_cases same : j = i
      · rw [finished, decide_eq_true same, Bool.true_or]
      · have started : s.stage i ≠ .queued := by
          intro queued
          rw [queued] at settled
          cases settled
        exact keeps (h.turn i bound started j (by omega) (sameKey'.trans both.2))
    · exact keeps (h.idle k found j inBounds sameKey')
  · intro j inBounds m earlier sameKey
    refine (h.behind j inBounds m earlier ((key m).symm.trans (sameKey.trans (key j)))).imp keeps ?_
    rintro ⟨p, hangs, le, lt, own⟩
    exact ⟨p, (after j).trans hangs, le, lt, (key p).trans (own.trans (key j).symm)⟩
  · intro j inBounds started m earlier sameKey
    have was : s.stage j ≠ .queued := fun queued => started ((stages j).trans queued)
    exact keeps (h.turn j inBounds was m earlier ((key m).symm.trans (sameKey.trans (key j))))
  · intro j inBounds past
    change ((s.updates.modify i f).get j).finished = true at past
    change ((s.updates.modify i f).get j).stage.isSettled = true
    rw [stages]
    by_cases same : j = i
    · rw [same]
      exact settled
    · rw [finished, decide_eq_false same, Bool.false_or] at past
      exact h.settled j inBounds past

theorem Queue.call (h : Queue s) (c : StoreCall V) : Queue (s.call c) := by
  cases c with
  | get key now => exact h.apart (get_spec s key now).2.2.1
  | set key value ttl now clones =>
    obtain ⟨-, -, apart⟩ := sweepIfDue_spec s now
    refine h.apart ?_
    rw [MemoryStore.call, set]
    split
    · exact ⟨apart.tails, apart.active, apart.updates, apart.log, apart.admittedBefore⟩
    · exact apart
  | del key =>
    have aborted := h.abort (s.active.members key)
    exact ⟨aborted.owned, aborted.last, aborted.idle, aborted.behind, aborted.turn, aborted.settled⟩
  | reset =>
    have aborted := h.abort s.active.all
    exact ⟨aborted.owned, aborted.last, aborted.idle, aborted.behind, aborted.turn, aborted.settled⟩
  | update key maxAttempts defaultTtl aborted => exact h.update key maxAttempts defaultTtl aborted

/-- When the tail of an update has settled, all before it of its key are over. -/
theorem Queue.turnCome (h : Queue s) {i : Nat} (bound : i < s.updates.size) (come : s.tailSettled i = true) :
    ∀ m, m < i → (s.updates.get m).key = (s.updates.get i).key → (s.updates.get m).finished = true := by
  intro m earlier sameKey
  rcases h.behind i bound m earlier sameKey with past | ⟨p, hangs, le, lt, own⟩
  · exact past
  · rw [tailSettled, hangs] at come
    have overP : (s.updates.get p).finished = true := come
    by_cases same : m = p
    · rw [same]
      exact overP
    · have started : s.stage p ≠ .queued := by
        intro queued
        have settled := h.settled p (by omega) overP
        rw [queued] at settled
        cases settled
      exact h.turn p (by omega) started m (by omega) (sameKey.trans own.symm)

end Fluo.Cache.MemoryStore
