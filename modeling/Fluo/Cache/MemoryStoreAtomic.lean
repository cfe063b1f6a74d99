import Fluo.Cache.MemoryStoreTurns

/-!
# Updates commit on the entry they read

Updates of one key take turns, an update that a `del` or `reset` overtook is
aborted, and an entry object never changes, so a commit that finds the object
its attempt read commits on the value its reducer got.
-/

namespace Fluo.Cache

variable {V : Type}

/-- The value an update leaves, and with which it fulfils. -/
def CacheUpdate.outcome : CacheUpdate V → Option V
  | .set value _ => some value
  | .delete => none

def StoreEvent.job : StoreEvent V → Option Nat
  | .call _ => none
  | .cancel i | .begin i _ | .snapshotRead i | .reduced i _ | .conclude i _ _ _ _ _ | .finish i => some i

/-- The clock readings of a job: the one at which it looks for expiry, and the one
at which it counts a TTL or begins an attempt. -/
def StoreEvent.readings : StoreEvent V → Option (Nat × Nat)
  | .begin _ now => some (now, now)
  | .conclude _ now now' _ _ _ => some (now, now')
  | .call _ | .cancel _ | .snapshotRead _ | .reduced _ _ | .finish _ => none

/-- When an entry expires whose TTL is counted from a clock reading. -/
inductive Counted (now : Nat) : Ttl → Option Nat → Prop
  | never : Counted now (.milliseconds 0) none
  | after (n : Nat) : 0 < n → Counted now (.milliseconds n) (some (min MemoryStore.maxSafeInteger (now + n)))

/-- The entry that a decision leaves in the place of one with this expiry, if
there was one: without a TTL of its own it keeps the expiry, and only an entry
that is new gets the default. -/
inductive Leaves (previous : Option (Option Nat)) (defaultTtl : Ttl) (now : Nat) :
    CacheUpdate V → Option (MemoryCacheEntry V) → Prop
  | deleted : Leaves previous defaultTtl now .delete none
  | kept {value expiresAt} : previous = some expiresAt →
      Leaves previous defaultTtl now (.set value none) (some ⟨value, expiresAt⟩)
  | fresh {value expiresAt} : previous = none → Counted now defaultTtl expiresAt →
      Leaves previous defaultTtl now (.set value none) (some ⟨value, expiresAt⟩)
  | own {value ttl expiresAt} : Counted now ttl expiresAt →
      Leaves previous defaultTtl now (.set value (some ttl)) (some ⟨value, expiresAt⟩)

/-- A commit on the object that its attempt had read, which had not expired, of a
decision that the update's reducer may make on its value. -/
structure Commit.Exact (reducers : Nat → Option V → CacheUpdate V → Prop) (objects : Nat → MemoryCacheEntry V)
    (c : Commit V) : Prop where
  entry : c.present = c.entry
  given : c.given = c.present.map fun id => (objects id).value
  live : ∀ id, c.present = some id → MemoryStore.expired (objects id) c.checkedAt = false
  computed : reducers c.update c.given c.decision
  leaves : Leaves (c.present.map fun id => (objects id).expiresAt) c.defaultTtl c.countedFrom c.decision c.placed

theorem Commit.Exact.congr {reducers : Nat → Option V → CacheUpdate V → Prop} {objects objects' : Nat → MemoryCacheEntry V}
    {c : Commit V} (h : c.Exact reducers objects) (same : ∀ id, c.present = some id → objects' id = objects id) :
    c.Exact reducers objects' := by
  have maps {α : Type} (f : MemoryCacheEntry V → α) :
      (c.present.map fun id => f (objects' id)) = c.present.map fun id => f (objects id) :=
    Option.map_congr fun id found => congrArg f (same id found)
  refine ⟨h.entry, ?_, fun id found => ?_, h.computed, ?_⟩
  · rw [maps (·.value)]
    exact h.given
  · rw [same id found]
    exact h.live id found
  · rw [maps (·.expiresAt)]
    exact h.leaves

namespace MemoryStore

variable {s t : MemoryStore V} {reducers : Nat → Option V → CacheUpdate V → Prop}

/-- Commits are on the entry that is present, in the order of admission, never
behind a `del` or `reset`, and those of the updates that fulfil. `reducers`
tells the decisions that an update's reducer may make on a value. -/
structure Atomic (reducers : Nat → Option V → CacheUpdate V → Prop) (s : MemoryStore V) : Prop where
  fulfilled : ∀ i v, s.stage i = .fulfilled v → ∃ c ∈ s.log, c.update = i ∧ c.decision.outcome = v
  rejected : ∀ i, s.stage i = .rejected → ∀ c ∈ s.log, c.update ≠ i
  exact : ∀ c ∈ s.log, c.Exact reducers s.objects.get
  inOrder : s.log.Pairwise fun a b => a.key = b.key → a.update < b.update
  current : ∀ c ∈ s.log, c.floor ≤ c.update

structure Sound (reducers : Nat → Option V → CacheUpdate V → Prop) (s : MemoryStore V) : Prop
    extends Atomic reducers s where
  placed : ∀ k id, s.entries.get k = some id → id < s.objects.size
  beyond : ∀ i, s.updates.size ≤ i → s.stage i = .rejected
  read : ∀ i id, i < s.updates.size → (s.updates.get i).entry = some id → id < s.objects.size
  given : ∀ i, i < s.updates.size →
    (s.updates.get i).given = (s.updates.get i).entry.map fun id => (s.objects.get id).value
  decided : ∀ i d, i < s.updates.size → s.stage i = .decided d → reducers i (s.updates.get i).given d
  admitted : ∀ k, s.admittedBefore k ≤ s.updates.size
  overtaken : ∀ i, i < s.admittedBefore (s.updates.get i).key →
    (s.updates.get i).finished = true ∨ (s.updates.get i).aborted = true
  commits : ∀ c ∈ s.log, c.update < s.updates.size ∧ (s.updates.get c.update).key = c.key ∧
    (s.stage c.update).isSettled = true ∧ ∀ id, c.present = some id → id < s.objects.size

theorem Sound.bound (h : Sound reducers s) {i : Nat} (live : s.stage i ≠ .rejected) : i < s.updates.size :=
  Nat.lt_of_not_le fun beyond => live (h.beyond i beyond)

/-- Objects are only added, so an object in bounds keeps its value. -/
def Added (s t : MemoryStore V) : Prop :=
  s.objects.size ≤ t.objects.size ∧ ∀ id, id < s.objects.size → t.objects.get id = s.objects.get id

theorem Added.refl (h : t.objects = s.objects) : Added s t :=
  ⟨Nat.le_of_eq (by rw [h]), fun _ _ => by rw [h]⟩

theorem Added.value (h : Added s t) {entry : Option Nat} (bound : ∀ id, entry = some id → id < s.objects.size) :
    entry.map (fun id => (t.objects.get id).value) = entry.map fun id => (s.objects.get id).value := by
  cases entry with
  | none => rfl
  | some id => exact congrArg (fun e => some e.value) (h.2 id (bound id rfl))

theorem insertEntry_added (s : MemoryStore V) (key : String) (entry : MemoryCacheEntry V) :
    Added s (s.insertEntry key entry) :=
  ⟨Nat.le_succ _, fun _ bound => Heap.get_push_lt entry bound⟩

theorem insertEntry_placed {key : String} {entry : MemoryCacheEntry V}
    (placed : ∀ k id, s.entries.get k = some id → id < s.objects.size) (k : String) (id : Nat)
    (found : (s.insertEntry key entry).entries.get k = some id) : id < (s.insertEntry key entry).objects.size := by
  change id < s.objects.size + 1
  by_cases same : k = key
  · rw [same, insertEntry_self] at found
    cases found
    exact Nat.lt_succ_self _
  · exact Nat.lt_succ_of_lt (placed k id (insertEntry_other s entry same found))

theorem Sound.entries (h : Sound reducers s) (updates : t.updates = s.updates) (log : t.log = s.log)
    (admittedBefore : t.admittedBefore = s.admittedBefore) (added : Added s t)
    (placed : ∀ k id, t.entries.get k = some id → id < t.objects.size) : Sound reducers t := by
  have stage (i : Nat) : t.stage i = s.stage i := by rw [MemoryStore.stage, updates]; rfl
  refine ⟨⟨?_, ?_, fun c mem => ?_, ?_, ?_⟩, placed, ?_, fun i id bound read => ?_, fun i bound => ?_, ?_, ?_, ?_,
    fun c mem => ?_⟩
  · simpa only [log, stage] using h.fulfilled
  · simpa only [log, stage] using h.rejected
  · rw [log] at mem
    exact (h.exact c mem).congr fun id found => added.2 id ((h.commits c mem).2.2.2 id found)
  · rw [log]
    exact h.inOrder
  · rw [log]
    exact h.current
  · simpa only [updates, stage] using h.beyond
  · rw [updates] at bound read
    exact Nat.lt_of_lt_of_le (h.read i id bound read) added.1
  · rw [updates] at bound ⊢
    rw [added.value fun id => h.read i id bound]
    exact h.given i bound
  · simpa only [updates, stage] using h.decided
  · simpa only [updates, admittedBefore] using h.admitted
  · simpa only [updates, admittedBefore] using h.overtaken
  · rw [log] at mem
    obtain ⟨bound, key, settled, read⟩ := h.commits c mem
    rw [updates, stage]
    exact ⟨bound, key, settled, fun id found => Nat.lt_of_lt_of_le (read id found) added.1⟩

theorem Sound.aborts (h : Sound reducers s) (members : List Nat) {floors : String → Nat} {entries : OrderedMap String Nat}
    {nextSweepAt : Nat} (fewer : ∀ k id, entries.get k = some id → s.entries.get k = some id)
    (admitted : ∀ k, floors k ≤ s.updates.size)
    (overtaken : ∀ i, i < floors (s.updates.get i).key → i < s.admittedBefore (s.updates.get i).key ∨
      ((s.updates.get i).finished = false → i ∈ members)) :
    Sound reducers { s.abort members with entries, nextSweepAt, admittedBefore := floors } := by
  refine ⟨⟨h.fulfilled, h.rejected, h.exact, h.inOrder, h.current⟩, fun k id found => h.placed k id (fewer k id found),
    h.beyond, h.read, h.given, h.decided, admitted, fun i low => ?_, h.commits⟩
  change (s.updates.get i).finished = true ∨ ((s.updates.get i).aborted || decide (i ∈ members)) = true
  rcases overtaken i low with before | caught
  · refine (h.overtaken i before).imp id fun aborted => ?_
    rw [aborted, Bool.true_or]
  · cases past : (s.updates.get i).finished with
    | true => exact .inl rfl
    | false =>
      refine .inr ?_
      rw [decide_eq_true (caught past), Bool.or_true]

theorem Sound.update (h : Sound reducers s) (key : String) (maxAttempts : Option Nat) (defaultTtl : Ttl)
    (aborted : Bool) : Sound reducers (s.update key maxAttempts defaultTtl aborted) := by
  unfold MemoryStore.update
  split
  · exact h
  · next maxAttempts =>
    let u : AtomicUpdate V :=
      ⟨key, maxAttempts, defaultTtl, s.tails.get key, s.active.target key, aborted, 0, none, none, .queued, false⟩
    have new : (s.updates.push u).get s.updates.size = u := s.updates.get_push_self u
    have old {i : Nat} (bound : i < s.updates.size) : (s.updates.push u).get i = s.updates.get i :=
      Heap.get_push_lt u bound
    have cases_lt {i : Nat} (bound : i < s.updates.size + 1) : i < s.updates.size ∨ i = s.updates.size := by omega
    have stage (i : Nat) : ((s.updates.push u).get i).stage = if i = s.updates.size then .queued else s.stage i := by
      rw [Heap.get_push]
      split <;> rfl
    refine ⟨⟨fun i v fulfils => ?_, fun i rejects => ?_, h.exact, h.inOrder, h.current⟩, h.placed,
      fun i outside => ?_, fun i id inBounds read => ?_, fun i inBounds => ?_, fun i d inBounds decides => ?_,
      fun k => ?_, fun i low => ?_, fun c mem => ?_⟩
    · change ((s.updates.push u).get i).stage = _ at fulfils
      rw [stage] at fulfils
      split at fulfils
      · cases fulfils
      · exact h.fulfilled i v fulfils
    · change ((s.updates.push u).get i).stage = _ at rejects
      rw [stage] at rejects
      split at rejects
      · cases rejects
      · exact h.rejected i rejects
    · have differs : i ≠ s.updates.size := Nat.ne_of_gt outside
      change ((s.updates.push u).get i).stage = _
      rw [stage, if_neg differs]
      exact h.beyond i (Nat.le_of_succ_le outside)
    · change ((s.updates.push u).get i).entry = _ at read
      rcases cases_lt inBounds with older | rfl
      · rw [old older] at read
        exact h.read i id older read
      · rw [new] at read
        cases read
    · change ((s.updates.push u).get i).given = ((s.updates.push u).get i).entry.map _
      rcases cases_lt inBounds with older | rfl
      · rw [old older]
        exact h.given i older
      · rw [new]
        rfl
    · change ((s.updates.push u).get i).stage = _ at decides
      change reducers i ((s.updates.push u).get i).given d
      rcases cases_lt inBounds with older | rfl
      · rw [old older] at decides ⊢
        exact h.decided i d older decides
      · rw [new] at decides
        cases decides
    · exact Nat.le_succ_of_le (h.admitted k)
    · change i < s.admittedBefore ((s.updates.push u).get i).key at low
      change ((s.updates.push u).get i).finished = true ∨ ((s.updates.push u).get i).aborted = true
      have older : i < s.updates.size := Nat.lt_of_lt_of_le low (h.admitted _)
      rw [old older] at low ⊢
      exact h.overtaken i low
    · obtain ⟨bound, own, settled, read⟩ := h.commits c mem
      change c.update < s.updates.size + 1 ∧ ((s.updates.push u).get c.update).key = c.key ∧
        ((s.updates.push u).get c.update).stage.isSettled = true ∧ _
      rw [old bound]
      exact ⟨Nat.lt_succ_of_lt bound, own, settled, read⟩

theorem Sound.call (h : Sound reducers s) (queue : Queue s) (c : StoreCall V) : Sound reducers (s.call c) := by
  cases c with
  | get key now =>
    obtain ⟨swept, objects, apart, -⟩ := get_spec s key now
    refine h.entries apart.updates apart.log apart.admittedBefore (.refl objects) fun k id found => ?_
    change id < (s.get key now).1.objects.size
    rw [objects]
    exact h.placed k id (swept.fewer k id found)
  | set key value ttl now clones =>
    obtain ⟨swept, objects, apart⟩ := sweepIfDue_spec s now
    have placed : ∀ k id, (s.sweepIfDue now).entries.get k = some id → id < (s.sweepIfDue now).objects.size := by
      intro k id found
      rw [objects]
      exact h.placed k id (swept.fewer k id found)
    have still := h.entries apart.updates apart.log apart.admittedBefore (.refl objects) placed
    rw [MemoryStore.call, set]
    split
    · exact still.entries rfl rfl rfl (insertEntry_added _ _ _) (insertEntry_placed placed)
    · exact still
  | del key =>
    refine h.aborts (s.active.members key) (fun k id found => ?_) (fun k => ?_) fun i low => ?_
    · rw [OrderedMap.get_erase] at found
      split at found
      · cases found
      · exact found
    · split
      · exact Nat.le_refl _
      · exact h.admitted k
    · split at low
      · next same =>
        refine .inr fun running => queue.owned.mem_members.mpr ⟨(s.updates.get i).controllers, ?_⟩
        rw [controllerOf, if_pos ⟨low, running⟩, same]
      · exact .inl low
  | reset =>
    refine h.aborts s.active.all (fun k id found => ?_) (fun k => Nat.le_refl _) fun i low => ?_
    · cases found
    · exact .inr fun running => queue.owned.mem_all (if_pos ⟨low, running⟩)
  | update key maxAttempts defaultTtl aborted => exact h.update key maxAttempts defaultTtl aborted

theorem Sound.modify (h : Sound reducers s) {i : Nat} (f : AtomicUpdate V → AtomicUpdate V)
    (key : (f (s.updates.get i)).key = (s.updates.get i).key)
    (aborted : (f (s.updates.get i)).aborted = (s.updates.get i).aborted)
    (finished : (s.updates.get i).finished = true → (f (s.updates.get i)).finished = true)
    (read : ∀ id, (f (s.updates.get i)).entry = some id → id < s.objects.size)
    (given : (f (s.updates.get i)).given = (f (s.updates.get i)).entry.map fun id => (s.objects.get id).value)
    (settled : (s.stage i).isSettled = true → (f (s.updates.get i)).stage = s.stage i)
    (fulfilled : ∀ v, (f (s.updates.get i)).stage = .fulfilled v → s.stage i = .fulfilled v)
    (decided : ∀ d, (f (s.updates.get i)).stage = .decided d → reducers i (f (s.updates.get i)).given d) :
    Sound reducers { s with updates := s.updates.modify i f } := by
  have self : (s.updates.modify i f).get i = f (s.updates.get i) := s.updates.get_modify_self i f
  have other {j : Nat} (differs : j ≠ i) : (s.updates.modify i f).get j = s.updates.get j :=
    s.updates.get_modify_ne f differs
  have keys := s.updates.get_modify_proj i f (·.key) key
  have aborts := s.updates.get_modify_proj i f (·.aborted) aborted
  refine ⟨⟨fun j v stage => ?_, fun j stage c mem same => ?_, h.exact, h.inOrder, h.current⟩, h.placed,
    fun j outside => ?_, fun j id bound has => ?_, fun j bound => ?_, fun j d bound stage => ?_, h.admitted,
    fun j low => ?_, fun c mem => ?_⟩
  · change ((s.updates.modify i f).get j).stage = _ at stage
    by_cases same : j = i
    · rw [same, self] at stage
      exact h.fulfilled j v (same ▸ fulfilled v stage)
    · rw [other same] at stage
      exact h.fulfilled j v stage
  · change ((s.updates.modify i f).get j).stage = _ at stage
    by_cases own : j = i
    · -- what has committed is settled, and stays what it is
      rw [own, self, settled (by rw [← own, ← same]; exact (h.commits c mem).2.2.1)] at stage
      exact h.rejected j (own ▸ stage) c mem same
    · rw [other own] at stage
      exact h.rejected j stage c mem same
  · change ((s.updates.modify i f).get j).stage = _
    by_cases same : j = i
    · have was := h.beyond j outside
      rw [same] at was ⊢
      rw [self, settled (by rw [was]; rfl), was]
    · rw [other same]
      exact h.beyond j outside
  · change ((s.updates.modify i f).get j).entry = _ at has
    by_cases same : j = i
    · rw [same, self] at has
      exact read id has
    · rw [other same] at has
      exact h.read j id bound has
  · change ((s.updates.modify i f).get j).given = ((s.updates.modify i f).get j).entry.map _
    by_cases same : j = i
    · rw [same, self]
      exact given
    · rw [other same]
      exact h.given j bound
  · change ((s.updates.modify i f).get j).stage = _ at stage
    change reducers j ((s.updates.modify i f).get j).given d
    by_cases same : j = i
    · rw [same, self] at stage
      rw [same, self]
      exact decided d stage
    · rw [other same] at stage ⊢
      exact h.decided j d bound stage
  · change ((s.updates.modify i f).get j).finished = true ∨ ((s.updates.modify i f).get j).aborted = true
    have low' : j < s.admittedBefore (s.updates.get j).key := by
      rw [← keys]
      exact low
    refine (h.overtaken j low').imp (fun past => ?_) fun was => (aborts j).trans was
    by_cases same : j = i
    · rw [same] at past ⊢
      rw [self]
      exact finished past
    · rw [other same]
      exact past
  · obtain ⟨bound, own, past, has⟩ := h.commits c mem
    refine ⟨bound, (keys c.update).trans own, ?_, has⟩
    change ((s.updates.modify i f).get c.update).stage.isSettled = true
    by_cases same : c.update = i
    · rw [same] at past ⊢
      rw [self, settled past]
      exact past
    · rw [other same]
      exact past

theorem Sound.setStage (h : Sound reducers s) {i : Nat} (bound : i < s.updates.size) {next : UpdateStage V}
    (live : (s.stage i).isSettled = false) (unfulfilled : ∀ v, next ≠ .fulfilled v)
    (decided : ∀ d, next = .decided d → reducers i (s.updates.get i).given d) : Sound reducers (s.setStage i next) := by
  refine h.modify (fun u => { u with stage := next }) rfl rfl id (fun id => h.read i id bound) (h.given i bound)
    (fun settled => ?_) (fun v fulfils => absurd fulfils (unfulfilled v)) decided
  rw [live] at settled
  cases settled

theorem Sound.startAttempt (h : Sound reducers s) {i : Nat} (live : (s.stage i).isSettled = false) (now : Nat) :
    Sound reducers (s.startAttempt i now) := by
  obtain ⟨swept, objects, apart, value⟩ := get_spec s (s.updates.get i).key now
  let found := s.get (s.updates.get i).key now
  let f : AtomicUpdate V → AtomicUpdate V := fun u =>
    { u with attempt := u.attempt + 1, entry := found.1.entries.get u.key, given := found.2, stage := .reading }
  have placed : ∀ k id, found.1.entries.get k = some id → id < found.1.objects.size := by
    intro k id has
    rw [show found.1.objects = s.objects from objects]
    exact h.placed k id (swept.fewer k id has)
  have updates : found.1.updates = s.updates := apart.updates
  refine (h.entries apart.updates apart.log apart.admittedBefore (.refl objects) placed).modify f rfl rfl id (fun id => placed _ id) ?_ (fun settled => ?_)
    (fun v fulfils => ?_) (fun d decides => ?_)
  · change found.2 = (found.1.entries.get (found.1.updates.get i).key).map fun id => (found.1.objects.get id).value
    rw [updates, show found.1.objects = s.objects from objects]
    exact value
  · change (found.1.updates.get i).stage.isSettled = true at settled
    rw [updates] at settled
    exact absurd (live.symm.trans settled) Bool.false_ne_true
  · cases fulfils
  · cases decides

/-- An update that has not finished comes after every commit of its key. -/
theorem Sound.inTurn (h : Sound reducers s) (queue : Queue s) {i : Nat} (live : (s.stage i).isSettled = false)
    (unfinished : (s.updates.get i).finished = false) :
    ∀ c ∈ s.log, c.key = (s.updates.get i).key → c.update < i := by
  intro c mem sameKey
  obtain ⟨bound, own, settled, -⟩ := h.commits c mem
  have differs : c.update ≠ i := by
    intro same
    rw [same, live] at settled
    cases settled
  -- a later update of the key would have waited for this one to finish
  refine Nat.lt_of_not_le fun notBefore => ?_
  have later : i < c.update := Nat.lt_of_le_of_ne notBefore (Ne.symm differs)
  have started : s.stage c.update ≠ .queued := by
    intro queued
    rw [queued] at settled
    cases settled
  rw [queue.turn c.update bound started i later (own.trans sameKey).symm] at unfinished
  cases unfinished

/-- No `del` or `reset` came after the admission of an update that still runs. -/
theorem Sound.notOvertaken (h : Sound reducers s) {i : Nat} (unfinished : (s.updates.get i).finished = false)
    (running : (s.updates.get i).aborted = false) : s.admittedBefore (s.updates.get i).key ≤ i := by
  refine Nat.le_of_not_lt fun low => ?_
  rcases h.overtaken i low with past | aborted
  · rw [unfinished] at past
    cases past
  · rw [running] at aborted
    cases aborted

theorem Atomic.append (h : Atomic reducers s) {c : Commit V} (exact : c.Exact reducers s.objects.get)
    (inTurn : ∀ a ∈ s.log, a.key = c.key → a.update < c.update) (current : c.floor ≤ c.update) :
    Atomic reducers { s with
      updates := s.updates.modify c.update fun u => { u with stage := .fulfilled c.decision.outcome }
      log := s.log ++ [c] } := by
  let f : AtomicUpdate V → AtomicUpdate V := fun u => { u with stage := .fulfilled c.decision.outcome }
  have self : (s.updates.modify c.update f).get c.update = f (s.updates.get c.update) := s.updates.get_modify_self _ f
  have other {j : Nat} (differs : j ≠ c.update) := s.updates.get_modify_ne f differs
  refine ⟨fun j v fulfils => ?_, fun j rejects a mem => ?_, fun a mem => ?_, ?_, fun a mem => ?_⟩
  · change ((s.updates.modify c.update f).get j).stage = _ at fulfils
    by_cases same : j = c.update
    · rw [same, self] at fulfils
      cases fulfils
      exact ⟨c, List.mem_append.mpr (.inr (List.mem_singleton_self c)), same.symm, rfl⟩
    · rw [other same] at fulfils
      obtain ⟨a, mem, own⟩ := h.fulfilled j v fulfils
      exact ⟨a, List.mem_append.mpr (.inl mem), own⟩
  · change ((s.updates.modify c.update f).get j).stage = _ at rejects
    have differs : j ≠ c.update := by
      rintro rfl
      rw [self] at rejects
      cases rejects
    rw [other differs] at rejects
    rcases List.mem_append.mp mem with older | new
    · exact h.rejected j rejects a older
    · rw [List.mem_singleton.mp new]
      exact Ne.symm differs
  · rcases List.mem_append.mp mem with older | new
    · exact h.exact a older
    · rwa [List.mem_singleton.mp new]
  · refine List.pairwise_append.mpr ⟨h.inOrder, List.pairwise_singleton _ _, fun a mem b new => ?_⟩
    rw [List.mem_singleton.mp new]
    exact inTurn a mem
  · rcases List.mem_append.mp mem with older | new
    · exact h.current a older
    · rwa [List.mem_singleton.mp new]

/-- A commit: the update was not aborted, and found the object it had read, which
had not expired. -/
theorem Sound.commit (h : Sound reducers s) (queue : Queue s) {i : Nat} {d : CacheUpdate V} {now now' : Nat}
    {placed : Option (MemoryCacheEntry V)} (stage : s.stage i = .decided d)
    (running : (s.updates.get i).aborted = false)
    (present : s.entries.get (s.updates.get i).key = (s.updates.get i).entry)
    (live : ∀ id, (s.updates.get i).entry = some id → expired (s.objects.get id) now = false)
    (leaves : Leaves ((s.updates.get i).entry.map fun id => (s.objects.get id).expiresAt) (s.updates.get i).defaultTtl
      now' d placed) :
    Sound reducers { s with
      updates := s.updates.modify i fun u => { u with stage := .fulfilled d.outcome }
      log := s.log ++ [s.commitOf i d now now' placed] } := by
  have bound : i < s.updates.size := h.bound (by rw [stage]; exact nofun)
  have unsettled : (s.stage i).isSettled = false := by rw [stage]; rfl
  have unfinished : (s.updates.get i).finished = false := by
    refine Bool.eq_false_iff.mpr fun past => ?_
    have settled := queue.settled i bound past
    rw [unsettled] at settled
    cases settled
  have fresh : ∀ c ∈ s.log, c.update ≠ i := by
    intro c mem same
    have settled := (h.commits c mem).2.2.1
    rw [same, unsettled] at settled
    cases settled
  let f : AtomicUpdate V → AtomicUpdate V := fun u => { u with stage := .fulfilled d.outcome }
  have self : (s.updates.modify i f).get i = f (s.updates.get i) := s.updates.get_modify_self i f
  have other {j : Nat} (differs : j ≠ i) := s.updates.get_modify_ne f differs
  have proj {α : Type} (p : AtomicUpdate V → α) (same : p (f (s.updates.get i)) = p (s.updates.get i)) (j : Nat) :
      p ((s.updates.modify i f).get j) = p (s.updates.get j) := s.updates.get_modify_proj i f p same j
  have exact : (s.commitOf i d now now' placed).Exact reducers s.objects.get := by
    refine ⟨present, ?_, fun id found => live id (present.symm.trans found), h.decided i d bound stage, ?_⟩
    · change (s.updates.get i).given = (s.entries.get (s.updates.get i).key).map _
      rw [present]
      exact h.given i bound
    · change Leaves ((s.entries.get (s.updates.get i).key).map _) _ _ _ _
      rw [present]
      exact leaves
  refine ⟨h.toAtomic.append exact (h.inTurn queue unsettled unfinished) (h.notOvertaken unfinished running),
    h.placed, fun j outside => ?_, fun j id inBounds => ?_, fun j inBounds => ?_, fun j d' inBounds decides => ?_,
    h.admitted, fun j low => ?_, fun c mem => ?_⟩
  · change ((s.updates.modify i f).get j).stage = _
    rw [other (Nat.ne_of_gt (Nat.lt_of_lt_of_le bound outside))]
    exact h.beyond j outside
  · rw [proj (·.entry) rfl]
    exact h.read j id inBounds
  · rw [proj (·.given) rfl, proj (·.entry) rfl]
    exact h.given j inBounds
  · change ((s.updates.modify i f).get j).stage = _ at decides
    rw [proj (·.given) rfl]
    by_cases same : j = i
    · rw [same, self] at decides
      cases decides
    · rw [other same] at decides
      exact h.decided j d' inBounds decides
  · rw [proj (·.key) rfl] at low
    rw [proj (·.finished) rfl, proj (·.aborted) rfl]
    exact h.overtaken j low
  · rw [proj (·.key) rfl]
    rcases List.mem_append.mp mem with older | new
    · obtain ⟨inBounds, own, settled, has⟩ := h.commits c older
      refine ⟨inBounds, own, ?_, has⟩
      change ((s.updates.modify i f).get c.update).stage.isSettled = true
      rw [other (fresh c older)]
      exact settled
    · rw [List.mem_singleton.mp new]
      refine ⟨bound, rfl, ?_, fun id => h.placed _ id⟩
      change ((s.updates.modify i f).get i).stage.isSettled = true
      rw [self]
      rfl

/-! ## Steps -/

/-- A value that an update puts in is cloned without a call of the store, and
can be cloned again. -/
def Passive : StoreEvent V → Prop
  | .conclude _ _ _ getters clones clonesAgain => getters = [] ∧ (clones = true → clonesAgain = true)
  | _ => True

/-- A decision is one that the update's reducer may make on what it was given. -/
def Computed (reducers : Nat → Option V → CacheUpdate V → Prop) (s : MemoryStore V) : StoreEvent V → Prop
  | .reduced i (some d) => reducers i (s.updates.get i).given d
  | _ => True

/-- Nothing happens to the store, but that an attempt which begins sweeps the
entries that have expired by the event's own clock. -/
structure Unchanged (e : StoreEvent V) (s t : MemoryStore V) : Prop where
  entries : t.entries = s.entries ∨ ∃ r, e.readings = some r ∧ Swept r.2 s t
  objects : t.objects = s.objects
  log : t.log = s.log

/-- An update fulfils: what its reducer was given is present and has not expired,
and its decision takes the place of that. Other keys may be evicted. -/
structure Commits (e : StoreEvent V) (s t : MemoryStore V) (i : Nat) (c : Commit V) : Prop where
  decided : s.stage i = .decided c.decision
  clock : e.readings = some (c.checkedAt, c.countedFrom)
  record : c = s.commitOf i c.decision c.checkedAt c.countedFrom c.placed
  exact : c.present = c.entry ∧ c.given = c.present.map fun id => (s.objects.get id).value
  live : ∀ id, c.present = some id → expired (s.objects.get id) c.checkedAt = false
  leaves : Leaves (c.present.map fun id => (s.objects.get id).expiresAt) c.defaultTtl c.countedFrom c.decision c.placed
  left : (t.entries.get c.key).map t.objects.get = c.placed
  others : ∀ k, k ≠ c.key → ∀ id, t.entries.get k = some id →
    s.entries.get k = some id ∧ t.objects.get id = s.objects.get id
  fulfilled : t.stage i = .fulfilled c.decision.outcome
  logged : t.log = s.log ++ [c]

instance : DecidablePred (Passive : StoreEvent V → Prop)
  | .conclude _ _ _ getters clones clonesAgain =>
    have : Decidable (getters = []) := decidable_of_iff (getters.isEmpty = true) List.isEmpty_iff
    inferInstanceAs (Decidable (getters = [] ∧ (clones = true → clonesAgain = true)))
  | .call _ | .cancel _ | .begin _ _ | .snapshotRead _ | .reduced _ _ | .finish _ => isTrue trivial

instance [∀ i given d, Decidable (reducers i given d)] (s : MemoryStore V) : DecidablePred (Computed reducers s)
  | .reduced i (some d) => inferInstanceAs (Decidable (reducers i (s.updates.get i).given d))
  | .reduced _ none | .call _ | .cancel _ | .begin _ _ | .snapshotRead _ | .conclude _ _ _ _ _ _ | .finish _ => isTrue trivial

theorem Queue.setStage (h : Queue s) {i : Nat} (next : UpdateStage V) (live : (s.stage i).isSettled = false)
    (turn : s.stage i ≠ .queued ∨
      ∀ m, m < i → (s.updates.get m).key = (s.updates.get i).key → (s.updates.get m).finished = true) :
    Queue (s.setStage i next) :=
  h.modify (fun u => { u with stage := next }) rfl rfl rfl rfl live turn

theorem Queue.startAttempt (h : Queue s) {i : Nat} (live : (s.stage i).isSettled = false)
    (turn : s.stage i ≠ .queued ∨
      ∀ m, m < i → (s.updates.get m).key = (s.updates.get i).key → (s.updates.get m).finished = true) (now : Nat) :
    Queue (s.startAttempt i now) := by
  obtain ⟨-, -, apart, -⟩ := get_spec s (s.updates.get i).key now
  have updates : (s.get (s.updates.get i).key now).1.updates = s.updates := apart.updates
  refine (h.apart apart).modify (fun u =>
    { u with
      attempt := u.attempt + 1
      entry := (s.get (s.updates.get i).key now).1.entries.get u.key
      given := (s.get (s.updates.get i).key now).2
      stage := .reading }) rfl rfl rfl rfl ?_ ?_
  · rw [stage, updates]
    exact live
  · rw [stage, updates]
    exact turn

theorem resolveUpdateExpiry_leaves {ttl : Option Ttl} {previous : Option (Option Nat)} {defaultTtl : Ttl} {now : Nat}
    {expiresAt : Option Nat} (value : V) (h : resolveUpdateExpiry ttl previous defaultTtl now = some expiresAt) :
    Leaves previous defaultTtl now (.set value ttl) (some ⟨value, expiresAt⟩) := by
  have counted {ttl : Ttl} (h : resolveUpdateExpiry (some ttl) none defaultTtl now = some expiresAt) :
      Counted now ttl expiresAt := by
    cases ttl with
    | invalid => cases h
    | milliseconds n =>
      cases n with
      | zero =>
        cases h
        exact .never
      | succ n =>
        obtain rfl := Option.some.inj h
        rw [Nat.max_eq_right (Nat.le_add_left 1 n)]
        exact .after (n + 1) n.succ_pos
  cases ttl with
  | some ttl => exact .own (counted (by cases previous <;> exact h))
  | none =>
    cases previous with
    | some previous =>
      cases h
      exact .kept rfl
    | none => exact .fresh rfl (counted h)

/-- An update that commits was not aborted, and finds the object it read, which has
not expired. -/
theorem verdict_cases (s : MemoryStore V) (i : Nat) (d : CacheUpdate V) (now now' : Nat) :
    s.verdict i d now now' = .reject ∨ s.verdict i d now now' = .retry ∨
      ((s.updates.get i).aborted = false ∧ s.entries.get (s.updates.get i).key = (s.updates.get i).entry ∧
        (∀ id, (s.updates.get i).entry = some id → expired (s.objects.get id) now = false) ∧
        ((d = .delete ∧ s.verdict i d now now' = .delete) ∨
          ∃ value ttl expiresAt, d = .set value ttl ∧ s.verdict i d now now' = .replace value expiresAt ∧
            Leaves ((s.updates.get i).entry.map fun id => (s.objects.get id).expiresAt) (s.updates.get i).defaultTtl now'
              d (some ⟨value, expiresAt⟩))) := by
  cases running : (s.updates.get i).aborted with
  | true =>
    left
    simp only [verdict, running, if_true]
  | false =>
    cases past : (((s.updates.get i).entry.map s.objects.get).map fun e => expired e now).getD false with
    | true =>
      left
      simp only [verdict, running, past, Bool.false_eq_true, if_false, if_true]
    | false =>
      have live : ∀ id, (s.updates.get i).entry = some id → expired (s.objects.get id) now = false := by
        intro id found
        rw [found] at past
        exact past
      by_cases present : s.entries.get (s.updates.get i).key = (s.updates.get i).entry
      · simp only [verdict, running, past, present, Bool.false_eq_true, if_false, if_true]
        cases d with
        | delete => exact .inr (.inr ⟨trivial, trivial, live, .inl ⟨rfl, rfl⟩⟩)
        | set value ttl =>
          dsimp only
          split
          · exact .inl rfl
          · next expiresAt resolved =>
            refine .inr (.inr ⟨trivial, trivial, live, .inr ⟨value, ttl, expiresAt, rfl, rfl, ?_⟩⟩)
            rw [Option.map_map] at resolved
            exact resolveUpdateExpiry_leaves value resolved
      · simp only [verdict, running, past, present, Bool.false_eq_true, if_false]
        split
        · exact .inr (.inl rfl)
        · exact .inl rfl

theorem conclude_sound (h : Sound reducers s) (queue : Queue s) {i : Nat} {d : CacheUpdate V} {now now' : Nat}
    {getters : List (StoreCall V)} {clones clonesAgain : Bool} (stage : s.stage i = .decided d)
    (passive : Passive (.conclude i now now' getters clones clonesAgain)) :
    let t := s.conclude i d now now' getters clones clonesAgain
    Sound reducers t ∧ Queue t ∧ (Unchanged (.conclude i now now' getters clones clonesAgain) s t ∨
      ∃ c, Commits (.conclude i now now' getters clones clonesAgain) s t i c) := by
  obtain ⟨rfl, again⟩ := passive
  have unsettled : (s.stage i).isSettled = false := by rw [stage]; rfl
  have started : s.stage i ≠ .queued := by rw [stage]; exact nofun
  have bound : i < s.updates.size := h.bound (by rw [stage]; exact nofun)
  have rejected : Sound reducers (s.setStage i .rejected) ∧ Queue (s.setStage i .rejected) ∧
      (Unchanged (.conclude i now now' [] clones clonesAgain) s (s.setStage i .rejected) ∨
        ∃ c, Commits (.conclude i now now' [] clones clonesAgain) s (s.setStage i .rejected) i c) :=
    ⟨h.setStage bound unsettled (nofun) (nofun),
      queue.setStage .rejected unsettled (.inl started), .inl ⟨.inl rfl, rfl, rfl⟩⟩
  have given : s.entries.get (s.updates.get i).key = (s.updates.get i).entry → (s.updates.get i).given =
      (s.entries.get (s.updates.get i).key).map fun id => (s.objects.get id).value := by
    intro present
    rw [present]
    exact h.given i bound
  have fulfils (u : UpdateStage V) : ((s.updates.modify i fun x => { x with stage := u }).get i).stage = u := by
    rw [Heap.get_modify_self]
  rw [conclude]
  rcases s.verdict_cases i d now now' with verdict | verdict | ⟨running, present, live, choice⟩
  · rw [verdict]
    exact rejected
  · rw [verdict]
    obtain ⟨swept, objects, apart, -⟩ := get_spec s (s.updates.get i).key now'
    exact ⟨h.startAttempt unsettled now', queue.startAttempt unsettled (.inl started) now',
      .inl ⟨.inr ⟨(now, now'), rfl, swept.sublist, swept.gone⟩, objects, apart.log⟩⟩
  have liveNow : ∀ id, s.entries.get (s.updates.get i).key = some id → expired (s.objects.get id) now = false :=
    fun id found => live id (present.symm.trans found)
  rcases choice with ⟨rfl, verdict⟩ | ⟨value, ttl, expiresAt, rfl, verdict, leaves⟩
  · rw [verdict]
    have fewer (k : String) (id : Nat) (found : (s.entries.erase (s.updates.get i).key).get k = some id) :
        s.entries.get k = some id := by
      rw [OrderedMap.get_erase] at found
      split at found
      · cases found
      · exact found
    have sound := (h.commit queue stage running present live .deleted).entries (t := { s with
      entries := s.entries.erase (s.updates.get i).key
      log := s.log ++ [s.commitOf i .delete now now' none] }.setStage i (.fulfilled none)) rfl rfl rfl (.refl rfl)
      fun k id found => h.placed k id (fewer k id found)
    have absent : (s.entries.erase (s.updates.get i).key).get (s.updates.get i).key = none :=
      OrderedMap.get_erase_self _ _
    have still := queue.setStage (.fulfilled none) unsettled (.inl started)
    refine ⟨sound, ⟨still.owned, still.last, still.idle, still.behind, still.turn, still.settled⟩,
      .inr ⟨s.commitOf i .delete now now' none, stage, rfl, rfl, ⟨present, given present⟩, liveNow, .deleted, ?_,
        fun k _ id found => ⟨fewer k id found, rfl⟩, fulfils _, rfl⟩⟩
    change ((s.entries.erase (s.updates.get i).key).get (s.updates.get i).key).map _ = none
    rw [absent]
    rfl
  · rw [verdict]
    cases clones with
    | false => exact rejected
    | true =>
      rw [again rfl]
      let key := (s.updates.get i).key
      let entry : MemoryCacheEntry V := ⟨value, expiresAt⟩
      have sound := (h.commit queue stage running present live leaves).entries (t := { s.insertEntry key entry with
        log := s.log ++ [s.commitOf i (.set value ttl) now now' (some entry)] }.setStage i (.fulfilled (some value)))
        rfl rfl rfl ⟨(s.insertEntry_added key entry).1, (s.insertEntry_added key entry).2⟩ (insertEntry_placed h.placed)
      have self : (s.insertEntry key entry).objects.get s.objects.size = entry := s.objects.get_push_self entry
      have still := queue.setStage (.fulfilled (some value)) unsettled (.inl started)
      refine ⟨sound, ⟨still.owned, still.last, still.idle, still.behind, still.turn, still.settled⟩,
        .inr ⟨s.commitOf i (.set value ttl) now now' (some entry), stage, rfl, rfl, ⟨present, given present⟩, liveNow, ?_,
          ?_, fun k other id found => ?_, fulfils _, rfl⟩⟩
      · change Leaves ((s.entries.get (s.updates.get i).key).map _) _ _ _ _
        rw [present]
        exact leaves
      · change ((s.insertEntry key entry).entries.get key).map (s.insertEntry key entry).objects.get = some entry
        rw [insertEntry_self, Option.map_some, self]
      · have old := s.insertEntry_other entry other found
        exact ⟨old, (s.insertEntry_added key entry).2 id (h.placed k id old)⟩

/-- Every step keeps the invariants, and the jobs of an update leave the store
unless they commit it. -/
theorem step_sound {e : StoreEvent V} (h : Sound reducers s) (queue : Queue s) (passive : Passive e)
    (computed : Computed reducers s e) (ht : s.step e = some t) :
    Sound reducers t ∧ Queue t ∧ ∀ i, e.job = some i → Unchanged e s t ∨ ∃ c, Commits e s t i c := by
  have live {i : Nat} {stage : UpdateStage V} (at_ : s.stage i = stage) (open_ : stage.isSettled = false) :
      i < s.updates.size ∧ (s.stage i).isSettled = false := by
    rw [at_]
    refine ⟨h.bound ?_, open_⟩
    rintro settled
    rw [← at_, settled] at open_
    cases open_
  have nothing {u : MemoryStore V} (entries : u.entries = s.entries) (objects : u.objects = s.objects)
      (log : u.log = s.log) : Unchanged e s u := ⟨.inl entries, objects, log⟩
  cases e with
  | call c =>
    cases ht
    exact ⟨h.call queue c, queue.call c, nofun⟩
  | cancel i =>
    simp only [step] at ht
    split at ht
    · cases ht
      exact ⟨h.aborts [i] (fun _ _ => id) h.admitted (fun _ => .inl), queue.abort [i],
        fun _ _ => .inl (nothing rfl rfl rfl)⟩
    · cases ht
  | begin i now =>
    simp only [step] at ht
    split at ht
    · next queued =>
      split at ht
      · next come =>
        cases ht
        obtain ⟨bound, open_⟩ := live queued rfl
        have turn := queue.turnCome bound come
        split
        · exact ⟨h.setStage bound open_ nofun nofun, queue.setStage .rejected open_ (.inr turn),
            fun _ _ => .inl (nothing rfl rfl rfl)⟩
        · obtain ⟨swept, objects, apart, -⟩ := get_spec s (s.updates.get i).key now
          exact ⟨h.startAttempt open_ now, queue.startAttempt open_ (.inr turn) now,
            fun _ _ => .inl ⟨.inr ⟨(now, now), rfl, swept.sublist, swept.gone⟩, objects, apart.log⟩⟩
      · cases ht
    · cases ht
  | snapshotRead i =>
    simp only [step] at ht
    split at ht
    · next reading =>
      cases ht
      obtain ⟨bound, open_⟩ := live reading rfl
      have started : s.stage i ≠ .queued := by rw [reading]; exact nofun
      refine ⟨h.setStage bound open_ ?_ ?_, queue.setStage _ open_ (.inl started), fun _ _ => .inl (nothing rfl rfl rfl)⟩
      · split <;> exact nofun
      · split <;> exact nofun
    · cases ht
  | reduced i decision =>
    by_cases reducing : s.stage i = .reducing
    · obtain ⟨bound, open_⟩ := live reducing rfl
      have started : s.stage i ≠ .queued := by rw [reducing]; exact nofun
      cases decision with
      | none =>
        simp only [step, reducing] at ht
        cases ht
        exact ⟨h.setStage bound open_ nofun nofun, queue.setStage .rejected open_ (.inl started),
          fun _ _ => .inl (nothing rfl rfl rfl)⟩
      | some d =>
        simp only [step, reducing] at ht
        cases ht
        refine ⟨h.setStage bound open_ nofun fun d' same => ?_, queue.setStage (.decided d) open_ (.inl started),
          fun _ _ => .inl (nothing rfl rfl rfl)⟩
        cases same
        exact computed
    · simp only [step] at ht
      split at ht
      · exact absurd ‹s.stage i = .reducing› reducing
      · exact absurd ‹s.stage i = .reducing› reducing
      · cases ht
  | conclude i now now' getters clones clonesAgain =>
    simp only [step] at ht
    split at ht
    · next d decided =>
      cases ht
      obtain ⟨sound, turns, effect⟩ := conclude_sound h queue decided passive
      refine ⟨sound, turns, fun j own => ?_⟩
      cases own
      exact effect
    · cases ht
  | finish i =>
    simp only [step] at ht
    split at ht
    · next settled =>
      cases ht
      obtain ⟨bound, past, running⟩ := settled
      refine ⟨?_, queue.finishUpdate bound past running, fun _ _ => .inl (nothing rfl rfl rfl)⟩
      have moved := h.modify (i := i) (fun u => { u with finished := true }) rfl rfl (fun _ => rfl)
        (fun id => h.read i id bound) (h.given i bound) (fun _ => rfl) (fun _ => id) fun d => h.decided i d bound
      exact moved.entries rfl rfl rfl (.refl rfl) moved.placed
    · cases ht

/-! ## Runs -/

theorem queue_initial [Inhabited V] : Queue (initial : MemoryStore V) := by
  refine ⟨Groups.holds_empty.congr fun i => if_neg fun both => Nat.not_lt_zero i both.1, ?_, ?_, ?_, ?_, ?_⟩
  · intro k j found
    cases found
  · intro k _ i bound
    cases bound
  · intro i bound
    cases bound
  · intro i bound
    cases bound
  · intro i bound
    cases bound

theorem sound_initial [Inhabited V] : Sound reducers (initial : MemoryStore V) := by
  refine ⟨⟨fun i v fulfils => ?_, fun i _ c mem => ?_, fun c mem => ?_, .nil, fun c mem => ?_⟩, fun k id found => ?_,
    fun i _ => rfl, fun i id bound => ?_, fun i bound => ?_, fun i d bound => ?_, fun k => Nat.le_refl 0,
    fun i low => ?_, fun c mem => ?_⟩
  · cases fulfils
  · cases mem
  · cases mem
  · cases mem
  · cases found
  · cases bound
  · cases bound
  · cases bound
  · cases low
  · cases mem

theorem call_log (s : MemoryStore V) (c : StoreCall V) : (s.call c).log = s.log := by
  cases c with
  | get key now => exact (get_spec s key now).2.2.1.log
  | set key value ttl now clones =>
    obtain ⟨-, -, apart⟩ := sweepIfDue_spec s now
    rw [call, set]
    split <;> exact apart.log
  | del key => rfl
  | reset => rfl
  | update key maxAttempts defaultTtl aborted =>
    rw [call]
    unfold MemoryStore.update
    split <;> rfl

/-- The condition on a step: values are cloned quietly, and decisions are the
reducers' own. -/
def Tame (reducers : Nat → Option V → CacheUpdate V → Prop) (s : MemoryStore V) (e : StoreEvent V) : Prop :=
  Passive e ∧ Computed reducers s e

theorem step_keeps {l : List (Commit V)} (s : MemoryStore V) (e : StoreEvent V) (t : MemoryStore V)
    (tame : Tame reducers s e) (h : Sound reducers s ∧ Queue s ∧ l <+: s.log) (ht : s.step e = some t) :
    Sound reducers t ∧ Queue t ∧ l <+: t.log := by
  obtain ⟨sound, queue, before⟩ := h
  obtain ⟨sound', queue', effect⟩ := step_sound sound queue tame.1 tame.2 ht
  refine ⟨sound', queue', before.trans ?_⟩
  cases own : e.job with
  | none =>
    cases e with
    | call c =>
      cases ht
      exact ⟨[], by rw [List.append_nil, call_log]⟩
    | cancel | begin | snapshotRead | reduced | conclude | finish => cases own
  | some i =>
    rcases effect i own with unchanged | ⟨c, commits⟩
    · exact ⟨[], by rw [List.append_nil, unchanged.log]⟩
    · exact ⟨_, commits.logged.symm⟩

def countUp (_ : Nat) (given : Option Nat) (d : CacheUpdate Nat) : Prop := d = .set (given.getD 0 + 1) none

instance (i : Nat) (given : Option Nat) (d : CacheUpdate Nat) : Decidable (countUp i given d) :=
  inferInstanceAs (Decidable (d = .set (given.getD 0 + 1) none))

instance (s : MemoryStore Nat) (e : StoreEvent Nat) : Decidable (Tame countUp s e) :=
  inferInstanceAs (Decidable (_ ∧ _))

/-- A `set` overtakes the first update, which tries again, and a `del` the
second, which waits for it. -/
def overtakenRun : List (StoreEvent Nat) :=
  [.call (.update "k" (some 16) (.milliseconds 0) false), .call (.update "k" (some 16) (.milliseconds 0) false),
    .begin 0 1, .snapshotRead 0, .call (.set "k" 5 none 2 true), .reduced 0 (some (.set 1 none)),
    .conclude 0 3 3 [] true true, .snapshotRead 0, .reduced 0 (some (.set 6 none)), .conclude 0 4 4 [] true true,
    .finish 0, .begin 1 5, .snapshotRead 1, .reduced 1 (some (.set 7 none)), .call (.del "k"),
    .conclude 1 6 6 [] true true, .finish 1]

/-- The value of the decision cannot be cloned a second time: the update that
has committed it is rejected. -/
def lostReplyRun : List (StoreEvent Nat) :=
  [.call (.update "k" (some 16) (.milliseconds 0) false), .begin 0 1, .snapshotRead 0, .reduced 0 (some (.set 1 none)),
    .conclude 0 2 2 [] true false, .finish 0]

end MemoryStore

end Fluo.Cache
